/-
# The order of the queue

The service thread writes the bytes of the jobs in the order of the queue, waits for a
job before it writes it, and calls `buffered_sync` after it has written a synchronous
one and before it answers it.
-/

import HybridDatabase.Service.Moves

namespace HybridDatabase.Service

open HybridDatabase.Base HybridDatabase.Storage

variable {ι : Type*}

/-! ## The queue -/

/-- The bytes of jobs, one job after another. -/
def queueBytes (jobs : List (Job ι)) : Bytes := (jobs.map Job.W).flatten

@[simp]
theorem queueBytes_append (jobs jobs' : List (Job ι)) :
    queueBytes (jobs ++ jobs') = queueBytes jobs ++ queueBytes jobs' := by
  simp [queueBytes]

/-- The bytes of the jobs up to a given one. -/
theorem queueBytes_take_succ {jobs : List (Job ι)} {n : ℕ} {job : Job ι}
    (at_ : jobs[n]? = some job) :
    queueBytes (jobs.take (n + 1)) = queueBytes (jobs.take n) ++ job.W := by
  rw [List.take_add_one, at_]
  simp [queueBytes]

/-- A property of the jobs that a change of one job keeps. -/
theorem map_modify_of_same {γ : Type*} {g : Job ι → γ} {f : Job ι → Job ι}
    (same : ∀ job, g (f job) = g job) (jobs : List (Job ι)) (n : ℕ) :
    (jobs.modify n f).map g = jobs.map g := by
  apply List.ext_getElem?
  intro m
  rw [List.getElem?_map, List.getElem?_map, List.getElem?_modify]
  cases jobs[m]? with
  | none => rfl
  | some job =>
      by_cases here : n = m
      · simp [here, same]
      · simp [here]

/-- The bytes of the first jobs do not depend on later ones. -/
theorem queueBytes_take_modify {jobs : List (Job ι)} {k n : ℕ} (later : k ≤ n)
    (f : Job ι → Job ι) :
    queueBytes ((jobs.modify n f).take k) = queueBytes (jobs.take k) := by
  rw [List.take_modify, List.modify_eq_self (by simp; omega)]

/-! ## The order of the queue -/

namespace State

/-- How many jobs the service thread has waited for. -/
def passed (s : State ι) : ℕ :=
  match s.service with
  | .write | .sync | .post => s.current + 1
  | _ => s.current

/-- How many jobs it has written. -/
def taken (s : State ι) : ℕ :=
  match s.service with
  | .sync | .post => s.current + 1
  | _ => s.current

/-- How many jobs it is done with, up to the answer. -/
def done (s : State ι) : ℕ :=
  match s.service with
  | .post => s.current + 1
  | _ => s.current

theorem current_le_done (s : State ι) : s.current ≤ s.done := by
  unfold done
  split <;> omega

theorem done_le_taken (s : State ι) : s.done ≤ s.taken := by
  unfold done taken
  cases s.service <;> simp only <;> omega

theorem taken_le_passed (s : State ι) : s.taken ≤ s.passed := by
  unfold taken passed
  cases s.service <;> simp only <;> omega

/-- The output is made of the jobs in their order, and a synchronous job is on the disk
before it is answered. -/
structure Ordered (file : Bytes) (s : State ι) : Prop where
  passed_le : s.passed ≤ s.jobs.length
  filling_late : ∀ (n : ℕ) (job : Job ι), s.jobs[n]? = some job → job.filling = true → s.passed ≤ n
  ready_filled : ∀ (n : ℕ) (job : Job ι), s.jobs[n]? = some job → 0 < job.ready → job.filling = false
  syncMe_plain : ∀ (n : ℕ) (job : Job ι), s.jobs[n]? = some job → job.type = .syncMe →
    job.W = [] ∧ job.filling = false
  contents : s.output.contents = file ++ queueBytes (s.jobs.take s.taken)
  synced : ∀ (n : ℕ) (job : Job ι), n < s.done → s.jobs[n]? = some job → job.type = .syncCommit →
    file ++ queueBytes (s.jobs.take (n + 1)) <+: s.output.synced

theorem ordered_initial (file : Bytes) : (initial ι file).Ordered file where
  passed_le := Nat.le_refl 0
  filling_late _ _ at_ := by simp [initial] at at_
  ready_filled _ _ at_ := by simp [initial] at at_
  syncMe_plain _ _ at_ := by simp [initial] at at_
  contents := by simp [initial, queueBytes]
  synced _ _ early := absurd early (Nat.not_lt_zero _)

namespace Ordered

variable {file : Bytes} {s : State ι}

theorem withHandles (inv : s.Ordered file) (handles : ι → Handle) :
    { s with handles := handles }.Ordered file :=
  ⟨inv.passed_le, inv.filling_late, inv.ready_filled, inv.syncMe_plain, inv.contents, inv.synced⟩

theorem withTimer (inv : s.Ordered file) (posting : Bool) :
    { s with timerPosting := posting }.Ordered file :=
  ⟨inv.passed_le, inv.filling_late, inv.ready_filled, inv.syncMe_plain, inv.contents, inv.synced⟩

theorem withCounter (inv : s.Ordered file) (counter : ℕ) :
    { s with counter := counter }.Ordered file :=
  ⟨inv.passed_le, inv.filling_late, inv.ready_filled, inv.syncMe_plain, inv.contents, inv.synced⟩

/-- A new job that nobody has posted. -/
theorem push (inv : s.Ordered file) {job : Job ι} (unposted : job.ready = 0)
    (plain : job.type = .syncMe → job.W = [] ∧ job.filling = false) :
    { s with jobs := s.jobs ++ [job] }.Ordered file := by
  have short := inv.passed_le
  have written := s.taken_le_passed
  have handled := s.done_le_taken
  have cases : ∀ (n : ℕ) (job' : Job ι), (s.jobs ++ [job])[n]? = some job' →
      s.jobs[n]? = some job' ∨ (n = s.jobs.length ∧ job' = job) := by
    intro n job' at_
    by_cases inside : n < s.jobs.length
    · rw [List.getElem?_append_left inside] at at_
      exact .inl at_
    · rw [List.getElem?_append_right (by omega), List.getElem?_singleton] at at_
      split at at_
      · exact .inr ⟨by omega, (Option.some.inj at_).symm⟩
      · cases at_
  constructor
  · show s.passed ≤ (s.jobs ++ [job]).length
    rw [List.length_append]
    omega
  · intro n job' at_ filling
    rcases cases n job' at_ with old | ⟨rfl, -⟩
    · exact inv.filling_late n job' old filling
    · exact short
  · intro n job' at_ positive
    rcases cases n job' at_ with old | ⟨-, rfl⟩
    · exact inv.ready_filled n job' old positive
    · omega
  · intro n job' at_ type
    rcases cases n job' at_ with old | ⟨-, rfl⟩
    · exact inv.syncMe_plain n job' old type
    · exact plain type
  · show s.output.contents = file ++ queueBytes ((s.jobs ++ [job]).take s.taken)
    rw [List.take_append_of_le_length (by omega), inv.contents]
  · intro n job' early at_ type
    have early : n < s.done := early
    show file ++ queueBytes ((s.jobs ++ [job]).take (n + 1)) <+: s.output.synced
    rcases cases n job' at_ with old | ⟨rfl, -⟩
    · rw [List.take_append_of_le_length (by omega)]
      exact inv.synced n job' early old type
    · omega

/-- A change of a job that its handle has not finished. -/
theorem modify (inv : s.Ordered file) {n : ℕ} {job : Job ι} (at_ : s.jobs[n]? = some job)
    (filling : job.filling = true) {f : Job ι → Job ι} (type : (f job).type = job.type)
    (still : (f job).filling = true → 0 < (f job).ready → False) :
    { s with jobs := s.jobs.modify n f }.Ordered file := by
  have late := inv.filling_late n job at_ filling
  have written := s.taken_le_passed
  have handled := s.done_le_taken
  have cases : ∀ (m : ℕ) (job' : Job ι), (s.jobs.modify n f)[m]? = some job' →
      (m ≠ n ∧ s.jobs[m]? = some job') ∨ (m = n ∧ job' = f job) := by
    intro m job' at'
    rw [List.getElem?_modify] at at'
    by_cases here : n = m
    · subst here
      rw [at_] at at'
      exact .inr ⟨rfl, by simpa using at'.symm⟩
    · exact .inl ⟨Ne.symm here, by simpa [here] using at'⟩
  constructor
  · show s.passed ≤ (s.jobs.modify n f).length
    rw [List.length_modify]
    exact inv.passed_le
  · intro m job' at' filling'
    rcases cases m job' at' with ⟨-, old⟩ | ⟨rfl, -⟩
    · exact inv.filling_late m job' old filling'
    · exact late
  · intro m job' at' positive
    rcases cases m job' at' with ⟨-, old⟩ | ⟨-, rfl⟩
    · exact inv.ready_filled m job' old positive
    · exact Bool.eq_false_iff.mpr fun filling' => still filling' positive
  · intro m job' at' type'
    rcases cases m job' at' with ⟨-, old⟩ | ⟨-, rfl⟩
    · exact inv.syncMe_plain m job' old type'
    · have plain := (inv.syncMe_plain n job at_ (type.symm.trans type')).2
      rw [filling] at plain
      cases plain
  · show s.output.contents = file ++ queueBytes ((s.jobs.modify n f).take s.taken)
    rw [queueBytes_take_modify (by omega), inv.contents]
  · intro m job' early at' type'
    have early : m < s.done := early
    show file ++ queueBytes ((s.jobs.modify n f).take (m + 1)) <+: s.output.synced
    rcases cases m job' at' with ⟨-, old⟩ | ⟨rfl, -⟩
    · rw [queueBytes_take_modify (by omega)]
      exact inv.synced m job' early old type'
    · omega

/-- What a handle does to the queue. -/
theorem moves (inv : s.Ordered file) {h : ι} {H H' : Handle} {op : QueueOp ι}
    {label : HandleLabel} (does : H.Moves h s.jobs.length label H' op) (owns : H.stage.Owns h s.jobs) :
    (s.queue op).Ordered file := by
  cases does with
  | work | passes | fails | wakesSync | wakes | returns => exact inv
  | postsSync | posts => exact inv.withCounter (s.counter + 1)
  | asks => exact inv.push rfl fun _ => ⟨rfl, rfl⟩
  | pushes A =>
      refine inv.push rfl fun type => ?_
      simp only [Attempt.type] at type
      split at type <;> cases type
  | processes A bytes before =>
      rw [before] at owns
      obtain ⟨job, ⟨at_, -⟩, filling⟩ := owns
      refine inv.modify at_ filling rfl fun _ positive => ?_
      rw [inv.ready_filled A.job job at_ positive] at filling
      cases filling
  | givesUp A before | readies A before =>
      rw [before] at owns
      obtain ⟨job, ⟨at_, -⟩, filling⟩ := owns
      first
        | exact inv.modify at_ filling rfl fun filling' _ => Bool.noConfusion filling'
        | exact inv.modify at_ filling.1 rfl fun filling' _ => Bool.noConfusion filling'

end Ordered

/-! ## The service thread keeps the order -/

section Service

variable {file : Bytes} {s : State ι}

/-- A sync keeps what is on the disk there. -/
theorem Ordered.bufferedSync (inv : s.Ordered file) :
    { s with output := s.output.bufferedSync }.Ordered file := by
  obtain ⟨passed_le, filling_late, ready_filled, syncMe_plain, contents, synced⟩ := inv
  refine ⟨passed_le, filling_late, ready_filled, syncMe_plain, ?_, ?_⟩
  · exact (Output.contents_bufferedSync _).trans contents
  · intro n job early at_ type
    show _ <+: s.output.bufferedSync.synced
    rw [Output.synced_bufferedSync]
    exact (synced n job early at_ type).trans (Output.synced_prefix_contents _)

/-- Going on to another stage with the same job where that counts no job anew. -/
theorem Ordered.goOn (inv : s.Ordered file) {stage : ServiceStage}
    (passed : { s with service := stage }.passed = s.passed)
    (taken : { s with service := stage }.taken = s.taken)
    (done : { s with service := stage }.done = s.done) :
    { s with service := stage }.Ordered file := by
  refine ⟨?_, ?_, inv.ready_filled, inv.syncMe_plain, ?_, ?_⟩
  · rw [passed]
    exact inv.passed_le
  · rw [passed]
    exact inv.filling_late
  · rw [taken]
    exact inv.contents
  · rw [done]
    exact inv.synced

/-- A `SYNC_ME` has nothing to wait for and nothing to write. -/
theorem Ordered.dispatchSync (inv : s.Ordered file) (stage : s.service = .dispatch)
    {job : Job ι} (at_ : s.jobs[s.current]? = some job) (type : job.type = .syncMe) :
    { s with service := .sync }.Ordered file := by
  obtain ⟨passed_le, filling_late, ready_filled, syncMe_plain, contents, synced⟩ := inv
  simp only [passed, taken, done, stage] at passed_le filling_late contents synced
  obtain ⟨plain, filled⟩ := syncMe_plain _ job at_ type
  refine ⟨(List.getElem?_eq_some_iff.mp at_).1, ?_, ready_filled, syncMe_plain, ?_, synced⟩
  · intro n job' at' filling
    have late := filling_late n job' at' filling
    have other : s.current ≠ n := by
      rintro rfl
      rw [at_] at at'
      cases at'
      rw [filled] at filling
      cases filling
    show s.current + 1 ≤ n
    omega
  · show s.output.contents = file ++ queueBytes (s.jobs.take (s.current + 1))
    rw [queueBytes_take_succ at_, plain, List.append_nil, contents]

/-- A job whose `ready` is posted is finished. -/
theorem Ordered.waitReady (inv : s.Ordered file) (stage : s.service = .unready)
    {job : Job ι} (at_ : s.jobs[s.current]? = some job) (positive : 0 < job.ready) :
    { s with
      jobs := s.jobs.modify s.current Job.waitReady
      service := .write }.Ordered file := by
  obtain ⟨passed_le, filling_late, ready_filled, syncMe_plain, contents, synced⟩ := inv
  simp only [passed, taken, done, stage] at passed_le filling_late contents synced
  have filled := ready_filled _ job at_ positive
  have same : ∀ k, queueBytes ((s.jobs.modify s.current Job.waitReady).take k) =
      queueBytes (s.jobs.take k) := by
    intro k
    have bytes : ∀ job : Job ι, job.waitReady.W = job.W := fun _ => rfl
    simp only [queueBytes, List.map_take, map_modify_of_same bytes]
  have old : ∀ (n : ℕ) (job' : Job ι), (s.jobs.modify s.current Job.waitReady)[n]? = some job' →
      ∃ job, s.jobs[n]? = some job ∧ job'.type = job.type ∧ job'.W = job.W ∧
        job'.filling = job.filling ∧ job'.ready ≤ job.ready := by
    intro n job' at'
    rw [List.getElem?_modify] at at'
    obtain ⟨job, at_, rfl⟩ := Option.map_eq_some_iff.mp at'
    refine ⟨job, at_, ?_⟩
    split
    · exact ⟨rfl, rfl, rfl, Nat.sub_le ..⟩
    · exact ⟨rfl, rfl, rfl, Nat.le_refl _⟩
  refine ⟨?_, ?_, ?_, ?_, ?_, ?_⟩
  · show s.current + 1 ≤ (s.jobs.modify _ _).length
    rw [List.length_modify]
    exact (List.getElem?_eq_some_iff.mp at_).1
  · intro n job' at' filling
    obtain ⟨job₁, at₁, -, -, same, -⟩ := old n job' at'
    rw [same] at filling
    have late := filling_late n job₁ at₁ filling
    have other : s.current ≠ n := by
      rintro rfl
      rw [at_] at at₁
      cases at₁
      rw [filled] at filling
      cases filling
    show s.current + 1 ≤ n
    omega
  · intro n job' at' positive'
    obtain ⟨job₁, at₁, -, -, same, less⟩ := old n job' at'
    rw [same]
    exact ready_filled n job₁ at₁ (by omega)
  · intro n job' at' type
    obtain ⟨job₁, at₁, type', W, same, -⟩ := old n job' at'
    rw [W, same]
    exact syncMe_plain n job₁ at₁ (type'.symm.trans type)
  · exact contents.trans (by rw [← same]; rfl)
  · intro n job' early at' type
    obtain ⟨job₁, at₁, type', -⟩ := old n job' at'
    show file ++ queueBytes (List.take (n + 1) (s.jobs.modify _ _)) <+: _
    rw [same]
    exact synced n job₁ early at₁ (type'.symm.trans type)

/-- `buffered_write` of a job; a synchronous one is not answered yet. -/
theorem Ordered.write (inv : s.Ordered file) (stage : s.service = .write)
    {job : Job ι} (at_ : s.jobs[s.current]? = some job) :
    { s with
      output := s.output.bufferedWrite job.W
      service := if job.type = DbService.syncCommit then .sync else .post }.Ordered file := by
  obtain ⟨passed_le, filling_late, ready_filled, syncMe_plain, contents, synced⟩ := inv
  simp only [passed, taken, done, stage] at passed_le filling_late contents synced
  have written : (s.output.bufferedWrite job.W).contents =
      file ++ queueBytes (s.jobs.take (s.current + 1)) := by
    rw [Output.contents_bufferedWrite, contents, queueBytes_take_succ at_, List.append_assoc]
  by_cases type : job.type = .syncCommit
  · rw [if_pos type]
    refine ⟨passed_le, filling_late, ready_filled, syncMe_plain, written, ?_⟩
    intro n job' early at' type'
    show _ <+: (s.output.bufferedWrite job.W).synced
    rw [Output.synced_bufferedWrite]
    exact synced n job' early at' type'
  · rw [if_neg type]
    refine ⟨passed_le, filling_late, ready_filled, syncMe_plain, written, ?_⟩
    intro n job' early at' type'
    have early : n < s.current + 1 := early
    have other : s.current ≠ n := by
      rintro rfl
      rw [at_] at at'
      cases at'
      exact type type'
    show _ <+: (s.output.bufferedWrite job.W).synced
    rw [Output.synced_bufferedWrite]
    exact synced n job' (by omega) at' type'

/-- After `buffered_sync` the job is on the disk. -/
theorem Ordered.sync (inv : s.Ordered file) (stage : s.service = .sync) :
    { s with output := s.output.bufferedSync, service := .post }.Ordered file := by
  obtain ⟨passed_le, filling_late, ready_filled, syncMe_plain, contents, synced⟩ :=
    inv.bufferedSync
  simp only [passed, taken, done, stage] at passed_le filling_late contents synced
  refine ⟨passed_le, filling_late, ready_filled, syncMe_plain, contents, ?_⟩
  intro n job early at_ type
  have early : n < s.current + 1 := early
  have length : n + 1 ≤ s.current + 1 := by omega
  show _ <+: s.output.bufferedSync.synced
  rw [Output.synced_bufferedSync, ← Output.contents_bufferedSync, contents]
  apply (List.prefix_append_right_inj file).mpr
  rw [← List.take_append_drop (n + 1) (s.jobs.take (s.current + 1)), List.take_take,
    Nat.min_eq_left length, queueBytes_append]
  exact List.prefix_append ..

/-- The answered job is counted as before. -/
theorem Ordered.answer (inv : s.Ordered file) (stage : s.service = .post) :
    { s with current := s.current + 1, service := .idle }.Ordered file := by
  obtain ⟨passed_le, filling_late, ready_filled, syncMe_plain, contents, synced⟩ := inv
  simp only [passed, taken, done, stage] at passed_le filling_late contents synced
  exact ⟨passed_le, filling_late, ready_filled, syncMe_plain, contents, synced⟩

end Service

variable [DecidableEq ι]

theorem ordered_serviceStep {file : Bytes} {s t : State ι} (inv : s.Ordered file)
    (moved : s.serviceStep = some t) : t.Ordered file := by
  unfold serviceStep at moved
  split at moved
  · next stage =>
      split at moved <;> cases moved
      refine (inv.withCounter (s.counter - 1)).goOn ?_ ?_ ?_ <;>
        simp only [passed, taken, done, stage]
  · next stage =>
      split at moved
      · cases moved
        refine inv.bufferedSync.goOn ?_ ?_ ?_ <;> simp only [passed, taken, done, stage]
      · next job at_ =>
          cases moved
          by_cases type : job.type = .syncMe
          · rw [if_pos type]
            exact inv.dispatchSync stage at_ type
          · rw [if_neg type]
            refine inv.goOn ?_ ?_ ?_ <;> simp only [passed, taken, done, stage]
  · next stage =>
      obtain ⟨job, at_, moved⟩ := Option.bind_eq_some_iff.mp moved
      split at moved
      · next positive =>
          cases moved
          exact inv.waitReady stage at_ positive
      · cases moved
  · next stage =>
      obtain ⟨job, at_, moved⟩ := Option.bind_eq_some_iff.mp moved
      cases moved
      exact inv.write stage at_
  · next stage =>
      cases moved
      exact inv.sync stage
  · next stage =>
      obtain ⟨job, at_, moved⟩ := Option.bind_eq_some_iff.mp moved
      cases moved
      cases job.lock with
      | none => exact inv.answer stage
      | some lock => exact (inv.answer stage).withHandles _
  · cases moved

end State

end HybridDatabase.Service
