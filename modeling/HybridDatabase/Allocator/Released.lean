/-
# What is given back

A garbage collection of `GenericAllocator` or `VPageAllocator` gives back nothing that a transaction
may still use that has been running since the collection began; a collection that nobody disturbs
gives back everything else.  A transaction that begins after `get_time` has looked at its handle is
not seen.
-/

import HybridDatabase.Allocator.Delayed

namespace HybridDatabase.Allocator

open HybridDatabase.Base HybridDatabase.Utils

namespace Delayed

variable {τ ι : Type} [Fintype τ] [DecidableEq τ] {K : Kind} {s s' : State τ ι}

/-! ## What is given back -/

/-- The items that a thread has. -/
def Stage.items : Stage ι → List Item
  | .idle | .allocPop | .allocNew | .freeTest | .gcLock | .gcScan _ _ | .gcTest _ | .gcPop _ => []
  | .allocDec item | .freeInc item | .freePush item | .gcPopDec _ item | .gcJudge _ item
  | .gcFree _ item => [item]
  | .gcSwap _ mine | .gcItems _ mine | .gcDrop _ mine => mine
  | .gcPush _ item mine | .gcDec _ item mine | .gcRelease _ item mine => item :: mine

/-- The thread has seen `startTime`, which is the start time of `h`, or it will. -/
def Stage.Respects (startTime : UInt64) (h : ι) : Stage ι → Prop
  | .gcScan rest now => h ∈ rest ∨ now ≤ startTime
  | .gcTest now | .gcPop now | .gcPopDec now _ | .gcJudge now _ | .gcFree now _ | .gcSwap now _
  | .gcItems now _ | .gcPush now _ _ | .gcDec now _ _ | .gcRelease now _ _
  | .gcDrop now _ => now ≤ startTime
  | _ => True

/-- The thread has compared the time of the item that it will give back. -/
def Stage.Judged : Stage ι → Prop
  | .gcFree now item | .gcDec now item _ | .gcRelease now item _ => item.time ≤ now
  | _ => True

omit [Fintype τ] [DecidableEq τ] in
theorem objects_items (stage : Stage ι) : stage.objects = objectsOf stage.items := by
  cases stage <;> rfl

/-- Running transactions are those of registered handles, a garbage collection respects the ones
that have been running since it began, and the items carry the times they have been freed at. -/
structure Timely (s : State τ ι) : Prop where
  running : ∀ t h, s.older t h → s.startTime h ≠ 0
  registered : ∀ h, s.startTime h ≠ 0 → h ∈ s.registered
  respects : ∀ t h, s.older t h → (s.stages t).Respects (s.startTime h) h
  judged : ∀ t, (s.stages t).Judged
  listed : ∀ item ∈ s.free, item.time = s.freedAt item.ptr
  held : ∀ t, ∀ item ∈ (s.stages t).items, item.time = s.freedAt item.ptr

omit [Fintype τ] [DecidableEq τ] in
theorem timely_init (gcThreshold : UInt64) : Timely (init gcThreshold : State τ ι) where
  running _ _ older := older.elim
  registered _ running := absurd rfl running
  respects _ _ older := older.elim
  judged _ := trivial
  listed _ inside := absurd inside List.not_mem_nil
  held _ _ inside := absurd inside List.not_mem_nil

omit [Fintype τ] in
/-- A thread goes on. -/
theorem Timely.moved (timely : Timely s) {t : τ} {old stage : Stage ι} (at_ : s.stages t = old)
    (stages : s'.stages = Function.update s.stages t stage)
    (startTime : s'.startTime = s.startTime) (registered : s'.registered = s.registered)
    (older : s'.older = s.older) (freedAt : s'.freedAt = s.freedAt)
    (free : ∀ item ∈ s'.free, item ∈ s.free ∨ item ∈ old.items)
    (items : ∀ item ∈ stage.items, item ∈ s.free ∨ item ∈ old.items)
    (respects : ∀ h, s.older t h → old.Respects (s.startTime h) h →
      stage.Respects (s.startTime h) h)
    (judged : old.Judged → stage.Judged) : Timely s' := by
  subst at_
  have times (item : Item) (inside : item ∈ s.free ∨ item ∈ (s.stages t).items) :
      item.time = s.freedAt item.ptr :=
    inside.elim (timely.listed item) (timely.held t item)
  refine ⟨?_, ?_, fun u h before => ?_, fun u => ?_, ?_, fun u item inside => ?_⟩
  · rw [older, startTime]
    exact timely.running
  · rw [startTime, registered]
    exact timely.registered
  · rw [older] at before
    rw [stages, startTime]
    by_cases here : u = t
    · subst here
      rw [Function.update_self]
      exact respects h before (timely.respects u h before)
    · rw [Function.update_of_ne here]
      exact timely.respects u h before
  · rw [stages]
    by_cases here : u = t
    · subst here
      rw [Function.update_self]
      exact judged (timely.judged u)
    · rw [Function.update_of_ne here]
      exact timely.judged u
  · rw [freedAt]
    exact fun item inside => times item (free item inside)
  · rw [stages] at inside
    rw [freedAt]
    by_cases here : u = t
    · rw [here, Function.update_self] at inside
      exact times item (items item inside)
    · rw [Function.update_of_ne here] at inside
      exact timely.held u item inside

omit [Fintype τ] in
/-- A step that only goes on. -/
theorem Timely.goto (timely : Timely s) {t : τ} {old stage : Stage ι} (at_ : s.stages t = old)
    (items : stage.items ⊆ old.items)
    (respects : ∀ h, s.older t h → old.Respects (s.startTime h) h →
      stage.Respects (s.startTime h) h)
    (judged : old.Judged → stage.Judged) : Timely (s.goto t stage) :=
  timely.moved at_ rfl rfl rfl rfl rfl (fun _ => .inl) (fun _ inside => .inr (items inside))
    respects judged

omit [Fintype τ] [DecidableEq τ] in
/-- The counter, the mutex and the places of the objects do not matter. -/
theorem Timely.withPlaces (timely : Timely s) (count : UInt64) (mutex : Option τ)
    (used taken : Multiset SListPointer) :
    Timely { s with count := count, handlesMutex := mutex, used := used, taken := taken } :=
  ⟨timely.running, timely.registered, timely.respects, timely.judged, timely.listed, timely.held⟩

omit [Fintype τ] in
/-- A garbage collection begins. -/
theorem Timely.collect (timely : Timely s) (t : τ) : Timely (s.collect t) where
  running u h before := by
    have before : Function.update s.older t (fun g => s.startTime g ≠ 0) u h := before
    by_cases here : u = t
    · rw [here, Function.update_self] at before
      exact before
    · rw [Function.update_of_ne here] at before
      exact timely.running u h before
  registered := timely.registered
  respects u h before := by
    have before : Function.update s.older t (fun g => s.startTime g ≠ 0) u h := before
    show (Function.update s.stages t .gcLock u).Respects (s.startTime h) h
    by_cases here : u = t
    · rw [here, Function.update_self]
      trivial
    · rw [Function.update_of_ne here] at before ⊢
      exact timely.respects u h before
  judged u := by
    show (Function.update s.stages t .gcLock u).Judged
    by_cases here : u = t
    · rw [here, Function.update_self]
      trivial
    · rw [Function.update_of_ne here]
      exact timely.judged u
  listed := timely.listed
  held u item inside := by
    have inside : item ∈ (Function.update s.stages t .gcLock u).items := inside
    by_cases here : u = t
    · rw [here, Function.update_self] at inside
      exact absurd inside List.not_mem_nil
    · rw [Function.update_of_ne here] at inside
      exact timely.held u item inside

omit [Fintype τ] in
/-- `slist_atomic_pop`. -/
theorem Timely.pop (timely : Timely s) {t : τ} {old stage : Stage ι} (at_ : s.stages t = old)
    {item : Item} {others : List Item} (list : s.free = item :: others)
    (mine : stage.items = [item])
    (respects : ∀ h, s.older t h → old.Respects (s.startTime h) h →
      stage.Respects (s.startTime h) h)
    (judged : old.Judged → stage.Judged) : Timely { s.goto t stage with free := others } := by
  refine timely.moved at_ rfl rfl rfl rfl rfl (fun item' inside => ?_) (fun item' inside => ?_)
    respects judged
  · rw [list]
    exact .inl (List.mem_cons_of_mem _ inside)
  · rw [mine, List.mem_singleton] at inside
    rw [list, inside]
    exact .inl List.mem_cons_self

theorem earlier_le (time now : UInt64) : earlier time now ≤ now := by
  unfold earlier
  split
  next less => exact UInt64.le_of_lt less.2
  next => exact UInt64.le_refl now

theorem earlier_le_time {time : UInt64} (running : time ≠ 0) (now : UInt64) :
    earlier time now ≤ time := by
  unfold earlier
  split
  next => exact UInt64.le_refl time
  next not_less => exact UInt64.not_lt.mp fun less => not_less ⟨running, less⟩

omit [Fintype τ] in
/-- One step of a thread. -/
theorem timely_next [DecidableEq ι] {t : τ} (timely : Timely s) (moved : s.next K t = some s') :
    Timely s' := by
  unfold State.next at moved
  cases stage : s.stages t with
  | idle => simp [stage] at moved
  | allocNew => simp [stage] at moved
  | allocPop =>
      simp only [stage] at moved
      cases list : s.free with
      | cons item others =>
          simp only [list] at moved
          cases moved
          exact timely.pop stage list rfl (fun _ _ => id) id
      | nil =>
          simp only [list] at moved
          cases moved
          exact timely.goto stage (List.nil_subset _) (fun _ _ => id) id
  | allocDec item =>
      simp only [stage] at moved
      cases moved
      have goes : Timely (s.goto t .idle) :=
        timely.goto stage (List.nil_subset _) (fun _ _ => id) id
      exact goes.withPlaces _ _ _ _
  | freeInc item =>
      simp only [stage] at moved
      cases moved
      have goes : Timely (s.goto t (.freePush item)) :=
        timely.goto stage (List.Subset.refl _) (fun _ _ => id) id
      exact goes.withPlaces _ _ _ _
  | freePush item =>
      simp only [stage] at moved
      cases moved
      refine timely.moved stage rfl rfl rfl rfl rfl (fun item' inside => ?_)
        (fun _ inside => absurd inside List.not_mem_nil) (fun _ _ => id) id
      obtain rfl | later := List.mem_cons.mp inside
      · exact .inr (List.mem_singleton_self _)
      · exact .inl later
  | freeTest =>
      simp only [stage] at moved
      cases moved
      by_cases high : s.count > s.gcThreshold
      · rw [if_pos high]
        exact timely.collect t
      · rw [if_neg high]
        exact timely.goto stage (List.nil_subset _) (fun _ _ => id) id
  | gcLock =>
      simp only [stage] at moved
      obtain ⟨-, moved⟩ := Option.ite_none_right_eq_some.mp moved
      cases moved
      have goes : Timely (s.goto t (.gcScan s.registered never)) :=
        timely.goto stage (List.nil_subset _)
          (fun h before _ => .inl (timely.registered h (timely.running t h before))) id
      exact goes.withPlaces _ _ _ _
  | gcScan rest now =>
      cases rest with
      | nil =>
          simp only [stage] at moved
          cases moved
          have seen (h : ι) (scanned : h ∈ [] ∨ now ≤ s.startTime h) : now ≤ s.startTime h :=
            scanned.resolve_left List.not_mem_nil
          cases K with
          | generic =>
              have goes : Timely (s.goto t (.gcSwap now [])) :=
                timely.goto stage (List.nil_subset _) (fun h _ => seen h) id
              exact goes.withPlaces _ _ _ _
          | vpage =>
              have goes : Timely (s.goto t (.gcTest now)) :=
                timely.goto stage (List.nil_subset _) (fun h _ => seen h) id
              exact goes.withPlaces _ _ _ _
      | cons g rest =>
          simp only [stage] at moved
          cases moved
          refine timely.goto stage (List.nil_subset _) (fun h before scanned => ?_) id
          obtain ahead | seen := scanned
          · obtain rfl | ahead := List.mem_cons.mp ahead
            · exact .inr (earlier_le_time (timely.running t h before) now)
            · exact .inl ahead
          · exact .inr (UInt64.le_trans (earlier_le _ now) seen)
  | gcTest now =>
      simp only [stage] at moved
      cases moved
      by_cases more : s.count ≠ 0
      · rw [if_pos more]
        exact timely.goto stage (List.nil_subset _) (fun _ _ => id) id
      · rw [if_neg more]
        exact timely.goto stage (List.nil_subset _) (fun _ _ _ => trivial) id
  | gcPop now =>
      simp only [stage] at moved
      cases list : s.free with
      | cons item others =>
          simp only [list] at moved
          cases moved
          exact timely.pop stage list rfl (fun _ _ => id) id
      | nil =>
          simp only [list] at moved
          cases moved
          exact timely.goto stage (List.nil_subset _) (fun _ _ _ => trivial) id
  | gcPopDec now item =>
      simp only [stage] at moved
      cases moved
      have goes : Timely (s.goto t (.gcJudge now item)) :=
        timely.goto stage (List.Subset.refl _) (fun _ _ => id) id
      exact goes.withPlaces _ _ _ _
  | gcJudge now item =>
      simp only [stage] at moved
      cases moved
      by_cases young : item.time > now
      · rw [if_pos young]
        exact timely.goto stage (List.Subset.refl _) (fun _ _ => id) fun _ => trivial
      · rw [if_neg young]
        exact timely.goto stage (List.Subset.refl _) (fun _ _ => id)
          fun _ => UInt64.not_lt.mp young
  | gcFree now item =>
      simp only [stage] at moved
      cases moved
      have goes : Timely (s.goto t (.gcTest now)) :=
        timely.goto stage (List.nil_subset _) (fun _ _ => id) fun _ => trivial
      exact goes.withPlaces _ _ _ _
  | gcSwap now mine =>
      simp only [stage] at moved
      cases moved
      exact timely.moved stage rfl rfl rfl rfl rfl (fun _ => .inr) (fun _ => .inl)
        (fun _ _ => id) id
  | gcItems now mine =>
      cases mine with
      | nil =>
          simp only [stage] at moved
          cases moved
          exact timely.goto stage (List.nil_subset _) (fun _ _ _ => trivial) id
      | cons item mine =>
          simp only [stage] at moved
          cases moved
          by_cases young : item.time > now
          · rw [if_pos young]
            exact timely.goto stage (List.Subset.refl _) (fun _ _ => id) id
          · rw [if_neg young]
            have old : item.time ≤ now := UInt64.not_lt.mp young
            cases K with
            | generic =>
                exact timely.goto stage (List.Subset.refl _) (fun _ _ => id) fun _ => old
            | vpage =>
                exact timely.goto stage (List.Subset.refl _) (fun _ _ => id) fun _ => old
  | gcPush now item mine =>
      simp only [stage] at moved
      cases moved
      refine timely.moved stage rfl rfl rfl rfl rfl (fun item' inside => ?_)
        (fun _ inside => .inr (List.mem_cons_of_mem _ inside)) (fun _ _ => id) id
      obtain rfl | later := List.mem_cons.mp inside
      · exact .inr List.mem_cons_self
      · exact .inl later
  | gcDec now item mine =>
      simp only [stage] at moved
      cases moved
      have goes : Timely (s.goto t (.gcRelease now item mine)) :=
        timely.goto stage (List.Subset.refl _) (fun _ _ => id) id
      exact goes.withPlaces _ _ _ _
  | gcRelease now item mine =>
      simp only [stage] at moved
      cases moved
      cases K with
      | generic =>
          have goes : Timely (s.goto t (.gcItems now mine)) :=
            timely.goto stage (List.subset_cons_self _ _) (fun _ _ => id) fun _ => trivial
          exact goes.withPlaces _ _ _ _
      | vpage =>
          have goes : Timely (s.goto t (.gcDrop now mine)) :=
            timely.goto stage (List.subset_cons_self _ _) (fun _ _ => id) fun _ => trivial
          exact goes.withPlaces _ _ _ _
  | gcDrop now mine =>
      simp only [stage] at moved
      cases moved
      have goes : Timely (s.goto t (.gcItems now mine)) :=
        timely.goto stage (List.Subset.refl _) (fun _ _ => id) id
      exact goes.withPlaces _ _ _ _

theorem mem_objectsOf {items : List Item} {item : Item} (inside : item ∈ items) :
    item.ptr ∈ objectsOf items :=
  Multiset.mem_coe.mpr (List.mem_map_of_mem inside)

/-- What is on the list, or in the hands of a thread, is not in use. -/
theorem Sound.unused (sound : Sound K s) {item : Item}
    (has : item ∈ s.free ∨ ∃ u, item ∈ (s.stages u).items) : item.ptr ∉ s.used := by
  have nodup := sound.nodup
  rw [← sound.whole] at nodup
  obtain listed | ⟨u, held⟩ := has
  · have apart := (Multiset.nodup_add.mp (Multiset.nodup_add.mp nodup).1).2.2
    exact Multiset.disjoint_left.mp apart (mem_objectsOf listed)
  · have mine : item.ptr ∈ (s.stages u).objects := by
      rw [objects_items]
      exact mem_objectsOf held
    have apart := (total_apart nodup mine).1
    rw [Multiset.mem_add, not_or] at apart
    exact apart.2

/-- An object in use is freed. -/
theorem Timely.free (timely : Timely s) (sound : Sound K s) {t : τ} {ptr : SListPointer}
    {time : UInt64} (used : ptr ∈ s.used) : Timely { s.goto t (.freeInc ⟨ptr, time⟩) with
      used := s.used.erase ptr, freedAt := Function.update s.freedAt ptr time } where
  running := timely.running
  registered := timely.registered
  respects u h before := by
    show (Function.update s.stages t (.freeInc ⟨ptr, time⟩) u).Respects (s.startTime h) h
    by_cases here : u = t
    · rw [here, Function.update_self]
      trivial
    · rw [Function.update_of_ne here]
      exact timely.respects u h before
  judged u := by
    show (Function.update s.stages t (.freeInc ⟨ptr, time⟩) u).Judged
    by_cases here : u = t
    · rw [here, Function.update_self]
      trivial
    · rw [Function.update_of_ne here]
      exact timely.judged u
  listed item inside := by
    have other : item.ptr ≠ ptr := fun same => sound.unused (.inl inside) (same ▸ used)
    exact (timely.listed item inside).trans (Function.update_of_ne other _ _).symm
  held u item inside := by
    have inside : item ∈ (Function.update s.stages t (.freeInc ⟨ptr, time⟩) u).items := inside
    by_cases here : u = t
    · rw [here, Function.update_self] at inside
      rw [List.mem_singleton.mp inside]
      exact (Function.update_self ptr time s.freedAt).symm
    · rw [Function.update_of_ne here] at inside
      have other : item.ptr ≠ ptr := fun same => sound.unused (.inr ⟨u, inside⟩) (same ▸ used)
      exact (timely.held u item inside).trans (Function.update_of_ne other _ _).symm

omit [Fintype τ] [DecidableEq τ] in
/-- A transaction begins. -/
theorem Timely.begin [DecidableEq ι] (timely : Timely s) {h : ι} {time : UInt64}
    (off : s.startTime h = 0) (member : h ∈ s.registered) :
    Timely { s with startTime := Function.update s.startTime h time } := by
  have same (t : τ) (g : ι) (before : s.older t g) :
      Function.update s.startTime h time g = s.startTime g := by
    refine Function.update_of_ne (fun this => ?_) _ _
    exact timely.running t g before (this ▸ off)
  refine ⟨fun t g before => ?_, fun g running => ?_, fun t g before => ?_, timely.judged,
    timely.listed, timely.held⟩
  · show Function.update s.startTime h time g ≠ 0
    rw [same t g before]
    exact timely.running t g before
  · by_cases this : g = h
    · rw [this]
      exact member
    · have running : Function.update s.startTime h time g ≠ 0 := running
      rw [Function.update_of_ne this] at running
      exact timely.registered g running
  · show (s.stages t).Respects (Function.update s.startTime h time g) g
    rw [same t g before]
    exact timely.respects t g before

omit [Fintype τ] [DecidableEq τ] in
/-- A transaction ends. -/
theorem Timely.finish [DecidableEq ι] (timely : Timely s) (h : ι) : Timely { s with
    startTime := Function.update s.startTime h 0
    older := fun t g => s.older t g ∧ g ≠ h } := by
  have same (g : ι) (other : g ≠ h) : Function.update s.startTime h 0 g = s.startTime g :=
    Function.update_of_ne other _ _
  refine ⟨fun t g before => ?_, fun g running => ?_, fun t g before => ?_, timely.judged,
    timely.listed, timely.held⟩
  · show Function.update s.startTime h 0 g ≠ 0
    rw [same g before.2]
    exact timely.running t g before.1
  · have running : Function.update s.startTime h 0 g ≠ 0 := running
    by_cases this : g = h
    · rw [this, Function.update_self] at running
      exact absurd rfl running
    · rw [same g this] at running
      exact timely.registered g running
  · show (s.stages t).Respects (Function.update s.startTime h 0 g) g
    rw [same g before.2]
    exact timely.respects t g before.1

/-- A call begins, a thread goes on, the system gives an object, or a handle does something. -/
theorem timely_step [DecidableEq ι] {label : Label τ ι} (sound : Sound K s) (timely : Timely s)
    (allowed : Allowed s label) (moved : step K s label = some s') : Timely s' := by
  cases label with
  | alloc t =>
      obtain ⟨idle, moved⟩ := Option.ite_none_right_eq_some.mp moved
      cases moved
      cases K with
      | generic => exact timely.goto idle (List.nil_subset _) (fun _ _ => id) id
      | vpage => exact timely.goto idle (List.nil_subset _) (fun _ _ => id) id
  | free t ptr time =>
      obtain ⟨-, moved⟩ := Option.ite_none_right_eq_some.mp moved
      cases moved
      exact timely.free sound allowed
  | collectGarbage t =>
      obtain ⟨-, moved⟩ := Option.ite_none_right_eq_some.mp moved
      cases moved
      exact timely.collect t
  | fresh t ptr =>
      obtain ⟨here, moved⟩ := Option.ite_none_right_eq_some.mp moved
      cases moved
      have goes : Timely (s.goto t .idle) :=
        timely.goto here (List.nil_subset _) (fun _ _ => id) id
      exact goes.withPlaces _ _ _ _
  | step t => exact timely_next timely moved
  | register h =>
      obtain ⟨-, moved⟩ := Option.ite_none_right_eq_some.mp moved
      cases moved
      refine ⟨timely.running, fun g running => ?_, timely.respects, timely.judged, timely.listed,
        timely.held⟩
      exact List.mem_append_left _ (timely.registered g running)
  | unregister h =>
      obtain ⟨-, moved⟩ := Option.ite_none_right_eq_some.mp moved
      cases moved
      refine ⟨timely.running, fun g running => ?_, timely.respects, timely.judged, timely.listed,
        timely.held⟩
      have other : g ≠ h := fun same => running (same ▸ allowed)
      have member := timely.registered g running
      by_cases inside : h ∈ s.registered
      · have place := List.idxOf_lt_length_iff.mpr inside
        have kept := (Stack.moveLast_perm place).symm.subset member
        rw [List.getElem_idxOf place] at kept
        simp only [if_pos inside]
        exact (List.mem_cons.mp kept).resolve_left other
      · simp only [if_neg inside]
        exact member
  | begin h time =>
      obtain ⟨off, moved⟩ := Option.ite_none_right_eq_some.mp moved
      cases moved
      exact timely.begin off allowed
  | finish h =>
      cases moved
      exact timely.finish h

theorem timely_run [DecidableEq ι] {gcThreshold : UInt64}
    (run : Reaches (step K) Allowed (init gcThreshold) s) : Timely s := by
  induction run with
  | start => exact timely_init gcThreshold
  | step before allowed moved ih => exact timely_step (sound_run before) ih allowed moved

omit [Fintype τ] in
/-- Where a thread gives something back to the system. -/
theorem next_taken [DecidableEq ι] {t : τ} (moved : s.next K t = some s') :
    s'.taken = s.taken ∨ ∃ now item, (s.stages t = .gcFree now item ∨
      ∃ mine, s.stages t = .gcRelease now item mine) ∧ s'.taken = s.taken.erase item.ptr := by
  unfold State.next at moved
  cases stage : s.stages t with
  | gcFree now item =>
      simp only [stage] at moved
      cases moved
      exact .inr ⟨now, item, .inl rfl, rfl⟩
  | gcRelease now item mine =>
      simp only [stage] at moved
      cases moved
      exact .inr ⟨now, item, .inr ⟨mine, rfl⟩, rfl⟩
  | idle | allocNew => simp [stage] at moved
  | allocPop | gcPop now =>
      left
      simp only [stage] at moved
      cases list : s.free with
      | nil | cons item others =>
          simp only [list] at moved
          cases moved
          rfl
  | freeTest =>
      left
      simp only [stage] at moved
      cases moved
      split <;> rfl
  | gcLock =>
      left
      simp only [stage] at moved
      obtain ⟨-, moved⟩ := Option.ite_none_right_eq_some.mp moved
      cases moved
      rfl
  | gcScan rest now =>
      left
      cases rest with
      | nil | cons h rest =>
          simp only [stage] at moved
          cases moved
          rfl
  | gcItems now mine =>
      left
      cases mine with
      | nil | cons item mine =>
          simp only [stage] at moved
          cases moved
          rfl
  | _ =>
      left
      simp only [stage] at moved
      cases moved
      rfl

/-- **What is given back is old.**  Whenever an object goes back to the system, nobody uses it, and
it was freed no later than any transaction began that has been running since the garbage
collection began: such a transaction began after the last one that could still find the object. -/
theorem released_old [DecidableEq ι] {gcThreshold : UInt64} {label : Label τ ι}
    (run : Reaches (step K) Allowed (init gcThreshold) s) (moved : step K s label = some s')
    {ptr : SListPointer} (mine : ptr ∈ s.taken) (gone : ptr ∉ s'.taken) :
    ∃ t, label = .step t ∧ ptr ∉ s.used ∧
      ∀ h, s.older t h → s.startTime h ≠ 0 ∧ s.freedAt ptr ≤ s.startTime h := by
  have sound := sound_run run
  have timely := timely_run run
  cases label with
  | step t =>
      obtain same | ⟨now, item, at_, taken⟩ := next_taken moved
      · exact absurd (same ▸ mine) gone
      have this : ptr = item.ptr := by
        by_contra other
        exact gone (taken ▸ (Multiset.mem_erase_of_ne other).mpr mine)
      have held : item ∈ (s.stages t).items := by
        obtain at_ | ⟨rest, at_⟩ := at_
        · rw [at_]
          exact List.mem_singleton_self item
        · rw [at_]
          exact List.mem_cons_self
      have old : item.time ≤ now := by
        have judged := timely.judged t
        obtain at_ | ⟨rest, at_⟩ := at_
        · rwa [at_] at judged
        · rwa [at_] at judged
      refine ⟨t, rfl, this ▸ sound.unused (.inr ⟨t, held⟩), fun h before => ?_⟩
      refine ⟨timely.running t h before, ?_⟩
      have seen : now ≤ s.startTime h := by
        have respects := timely.respects t h before
        obtain at_ | ⟨rest, at_⟩ := at_
        · rwa [at_] at respects
        · rwa [at_] at respects
      rw [this, ← timely.held t item held]
      exact UInt64.le_trans old seen
  | alloc t | free t ptr time | collectGarbage t | register h | unregister h | begin h time =>
      obtain ⟨-, moved⟩ := Option.ite_none_right_eq_some.mp moved
      cases moved
      exact absurd mine gone
  | fresh t new =>
      obtain ⟨-, moved⟩ := Option.ite_none_right_eq_some.mp moved
      cases moved
      exact absurd (Multiset.mem_cons_of_mem mine) gone
  | finish h =>
      cases moved
      exact absurd mine gone

/-- A page that was freed at time 7 goes while a transaction of time 9 is running. -/
theorem released_old_oneFreed : ∃ s s' : State Bool Bool, 16 ∈ s.taken ∧ 16 ∉ s'.taken ∧
    s.older false true ∧ s.freedAt 16 ≤ s.startTime true := by
  have called : Reaches (step .generic) Allowed (init 4 : State Bool Bool) _ :=
    Reaches.start.step (l := Label.alloc false) trivial rfl
  have given := called.step (l := Label.fresh false 16) ⟨by decide, Multiset.notMem_zero _⟩ rfl
  have freed := given.step (l := Label.free false 16 7) (Multiset.mem_singleton_self 16) rfl
  have counted := freed.step (l := Label.step false) trivial rfl
  have pushed := counted.step (l := Label.step false) trivial rfl
  have back := pushed.step (l := Label.step false) trivial rfl
  have handle := back.step (l := Label.register true) trivial rfl
  have running := handle.step (l := Label.begin true 9) (List.mem_singleton_self true) rfl
  have collects := running.step (l := Label.collectGarbage false) trivial rfl
  have locked := collects.step (l := Label.step false) trivial rfl
  have scanned := locked.step (l := Label.step false) trivial rfl
  have asked := scanned.step (l := Label.step false) trivial rfl
  have swapped := asked.step (l := Label.step false) trivial rfl
  have judged := swapped.step (l := Label.step false) trivial rfl
  have lowered := judged.step (l := Label.step false) trivial rfl
  have real : (9 : UInt64) ≠ 0 := by decide
  obtain ⟨s, s', run, moved, mine, gone, before⟩ : ∃ s s' : State Bool Bool,
      Reaches (step .generic) Allowed (init 4) s ∧ step .generic s (.step false) = some s' ∧
        16 ∈ s.taken ∧ 16 ∉ s'.taken ∧ s.older false true :=
    ⟨_, _, lowered, rfl, Multiset.mem_singleton_self 16, by decide, real⟩
  obtain ⟨t, same, -, old⟩ := released_old run moved mine gone
  cases same
  exact ⟨s, s', mine, gone, before, (old true before).2⟩

/-- A transaction that begins when `get_time` has returned is not seen: here the page is freed at
time 7, and goes while a transaction of time 5 is running. -/
theorem late_transaction : ∃ s s' : State Bool Bool,
    Reaches (step .generic) Allowed (init 4) s ∧ step .generic s (.step true) = some s' ∧
      16 ∈ s.taken ∧ 16 ∉ s'.taken ∧ s.freedAt 16 = 7 ∧ s.startTime true = 5 := by
  have called : Reaches (step .generic) Allowed (init 4 : State Bool Bool) _ :=
    Reaches.start.step (l := Label.alloc false) trivial rfl
  have given := called.step (l := Label.fresh false 16) ⟨by decide, Multiset.notMem_zero _⟩ rfl
  have handle := given.step (l := Label.register true) trivial rfl
  have collects := handle.step (l := Label.collectGarbage true) trivial rfl
  have locked := collects.step (l := Label.step true) trivial rfl
  have scanned := locked.step (l := Label.step true) trivial rfl
  have asked := scanned.step (l := Label.step true) trivial rfl
  have running := asked.step (l := Label.begin true 5) (List.mem_singleton_self true) rfl
  have freed := running.step (l := Label.free false 16 7) (Multiset.mem_singleton_self 16) rfl
  have counted := freed.step (l := Label.step false) trivial rfl
  have pushed := counted.step (l := Label.step false) trivial rfl
  have swapped := pushed.step (l := Label.step true) trivial rfl
  have judged := swapped.step (l := Label.step true) trivial rfl
  have lowered := judged.step (l := Label.step true) trivial rfl
  exact ⟨_, _, lowered, rfl, Multiset.mem_singleton_self 16, by decide, rfl, rfl⟩

/-! ## A garbage collection that nobody disturbs -/

/-- The loop of `get_time`. -/
def Stage.scans : Stage ι → Bool
  | .gcScan _ _ => true
  | _ => false

/-- Only a thread in the loop of `get_time` has the mutex of the handles. -/
def Held (s : State τ ι) : Prop := ∀ t, s.handlesMutex = some t → (s.stages t).scans = true

omit [Fintype τ] in
/-- A thread that does not have the mutex goes on. -/
theorem Held.moved (held : Held s) {t : τ} {old stage : Stage ι} (at_ : s.stages t = old)
    (stages : s'.stages = Function.update s.stages t stage)
    (mutex : s'.handlesMutex = s.handlesMutex) (off : old.scans = true → stage.scans = true) :
    Held s' := by
  intro u has
  rw [mutex] at has
  rw [stages]
  by_cases here : u = t
  · subst here
    rw [Function.update_self]
    exact off (at_ ▸ held u has)
  · rw [Function.update_of_ne here]
    exact held u has

omit [Fintype τ] in
theorem held_next [DecidableEq ι] {t : τ} (held : Held s) (moved : s.next K t = some s') :
    Held s' := by
  unfold State.next at moved
  cases stage : s.stages t with
  | idle | allocNew => simp [stage] at moved
  | gcLock =>
      simp only [stage] at moved
      obtain ⟨-, moved⟩ := Option.ite_none_right_eq_some.mp moved
      cases moved
      intro u has
      cases has
      show (Function.update s.stages t _ t).scans = true
      rw [Function.update_self]
      rfl
  | gcScan rest now =>
      cases rest with
      | nil =>
          simp only [stage] at moved
          cases moved
          intro u has
          cases has
      | cons h rest =>
          simp only [stage] at moved
          cases moved
          exact held.moved stage rfl rfl fun _ => rfl
  | allocPop | gcPop now =>
      simp only [stage] at moved
      cases list : s.free with
      | nil | cons item others =>
          simp only [list] at moved
          cases moved
          exact held.moved stage rfl rfl fun off => by cases off
  | gcItems now mine =>
      cases mine with
      | nil | cons item mine =>
          simp only [stage] at moved
          cases moved
          exact held.moved stage rfl rfl fun off => by cases off
  | freeTest =>
      simp only [stage] at moved
      cases moved
      split
      next => exact held.moved stage rfl rfl fun off => by cases off
      next => exact held.moved stage rfl rfl fun off => by cases off
  | _ =>
      simp only [stage] at moved
      cases moved
      exact held.moved stage rfl rfl fun off => by cases off

omit [Fintype τ] in
theorem held_run [DecidableEq ι] {gcThreshold : UInt64}
    (run : Reaches (step K) Allowed (init gcThreshold) s) : Held s := by
  refine run.invariant (fun t has => by cases has) fun s s' label held _ moved => ?_
  cases label with
  | alloc t | free t ptr time | collectGarbage t =>
      obtain ⟨idle, moved⟩ := Option.ite_none_right_eq_some.mp moved
      cases moved
      exact held.moved idle rfl rfl fun off => by cases off
  | fresh t ptr =>
      obtain ⟨here, moved⟩ := Option.ite_none_right_eq_some.mp moved
      cases moved
      exact held.moved here rfl rfl fun off => by cases off
  | step t => exact held_next held moved
  | register h | unregister h | begin h time =>
      obtain ⟨-, moved⟩ := Option.ite_none_right_eq_some.mp moved
      cases moved
      exact held
  | finish h =>
      cases moved
      exact held

omit [Fintype τ] in
/-- The loop of `get_time`, alone. -/
theorem scan_alone [DecidableEq ι] {s : State τ ι} {t : τ} {rest : List ι} {now : UInt64}
    (at_ : s.stages t = .gcScan rest now) : ∃ n s',
      runSteps (step .generic) s (List.replicate n (.step t)) = some s' ∧
        s'.stages = Function.update s.stages t
          (.gcSwap (rest.foldl (fun now h => earlier (s.startTime h) now) now) []) ∧
        s'.free = s.free ∧ s'.used = s.used := by
  induction rest generalizing s now with
  | nil =>
      set s₁ := { s.goto t (.gcSwap now []) with handlesMutex := none } with h₁
      have first : s.next .generic t = some s₁ := by
        unfold State.next
        simp only [at_]
        rfl
      exact ⟨1, s₁, runSteps_cons first rfl, rfl, rfl, rfl⟩
  | cons h rest ih =>
      set s₁ := s.goto t (.gcScan rest (earlier (s.startTime h) now)) with h₁
      have first : s.next .generic t = some s₁ := by
        unfold State.next
        simp only [at_]
        rfl
      obtain ⟨n, s', loop, stages, free, used⟩ :=
        ih (show s₁.stages t = .gcScan rest _ from Function.update_self ..)
      refine ⟨n + 1, s', runSteps_cons first loop, ?_, free, used⟩
      rw [stages, h₁, State.goto, Function.update_idem]
      rfl

omit [Fintype τ] in
/-- The loop over the private list, alone. -/
theorem items_alone [DecidableEq ι] {s : State τ ι} {t : τ} {now : UInt64} {mine : List Item}
    (at_ : s.stages t = .gcItems now mine) : ∃ n s',
      runSteps (step .generic) s (List.replicate n (.step t)) = some s' ∧
        s'.stages = Function.update s.stages t .idle ∧ s'.used = s.used ∧
        s'.free = (mine.filter fun item => now < item.time).reverse ++ s.free := by
  induction mine generalizing s with
  | nil =>
      have first : s.next .generic t = some (s.goto t .idle) := by
        unfold State.next
        simp only [at_]
      exact ⟨1, s.goto t .idle, runSteps_cons first rfl, rfl, rfl, rfl⟩
  | cons item mine ih =>
      by_cases young : now < item.time
      · set s₁ := s.goto t (.gcPush now item mine) with h₁
        set s₂ := { s₁.goto t (.gcItems now mine) with free := item :: s₁.free } with h₂
        have first : s.next .generic t = some s₁ := by
          unfold State.next
          simp only [at_, if_pos (show item.time > now from young)]
          rfl
        have second : s₁.next .generic t = some s₂ := by
          have here : s₁.stages t = .gcPush now item mine := Function.update_self ..
          unfold State.next
          simp only [here]
          rfl
        obtain ⟨n, s', loop, stages, used, free⟩ :=
          ih (show s₂.stages t = .gcItems now mine from Function.update_self ..)
        refine ⟨n + 2, s', runSteps_cons first (runSteps_cons second loop), ?_, used, ?_⟩
        · rw [stages, h₂, h₁]
          simp only [State.goto, Function.update_idem]
        · have kept : (item :: mine).filter (fun item => now < item.time) =
              item :: mine.filter fun item => now < item.time :=
            List.filter_cons_of_pos (decide_eq_true young)
          rw [free, kept, List.reverse_cons, List.append_assoc]
          rfl
      · set s₁ := s.goto t (.gcDec now item mine) with h₁
        set s₂ := { s₁.goto t (.gcRelease now item mine) with count := s₁.count - 1 } with h₂
        set s₃ := { s₂.goto t (.gcItems now mine) with taken := s₂.taken.erase item.ptr } with h₃
        have first : s.next .generic t = some s₁ := by
          unfold State.next
          simp only [at_, if_neg (show ¬ item.time > now from young)]
          rfl
        have second : s₁.next .generic t = some s₂ := by
          have here : s₁.stages t = .gcDec now item mine := Function.update_self ..
          unfold State.next
          simp only [here]
          rfl
        have third : s₂.next .generic t = some s₃ := by
          have here : s₂.stages t = .gcRelease now item mine := Function.update_self ..
          unfold State.next
          simp only [here]
          rfl
        obtain ⟨n, s', loop, stages, used, free⟩ :=
          ih (show s₃.stages t = .gcItems now mine from Function.update_self ..)
        refine ⟨n + 3, s',
          runSteps_cons first (runSteps_cons second (runSteps_cons third loop)), ?_, used, ?_⟩
        · rw [stages, h₃, h₂, h₁]
          simp only [State.goto, Function.update_idem]
        · have dropped : (item :: mine).filter (fun item => now < item.time) =
              mine.filter fun item => now < item.time :=
            List.filter_cons_of_neg fun kept => young (of_decide_eq_true kept)
          rw [free, dropped]
          rfl

/-- What `get_time` returns is the smallest start time of a running transaction. -/
theorem lt_time_iff {startTime : ι → UInt64} {rest : List ι} {now time : UInt64} :
    rest.foldl (fun now h => earlier (startTime h) now) now < time ↔
      now < time ∨ ∃ h ∈ rest, startTime h ≠ 0 ∧ startTime h < time := by
  induction rest generalizing now with
  | nil =>
      refine ⟨.inl, fun less => less.elim id ?_⟩
      rintro ⟨h, inside, -⟩
      exact absurd inside List.not_mem_nil
  | cons h rest ih =>
      have first : earlier (startTime h) now < time ↔
          now < time ∨ startTime h ≠ 0 ∧ startTime h < time := by
        unfold earlier
        split
        next less =>
          refine ⟨fun small => .inr ⟨less.1, small⟩, fun small => ?_⟩
          exact small.elim (UInt64.lt_trans less.2) fun both => both.2
        next not_less =>
          refine ⟨.inl, fun small => small.elim id fun both => ?_⟩
          exact UInt64.lt_of_le_of_lt (UInt64.not_lt.mp fun less => not_less ⟨both.1, less⟩) both.2
      rw [List.foldl_cons, ih, first, List.exists_mem_cons_iff, or_assoc]

/-- **A garbage collection that nobody disturbs** leaves on the list just what was freed after the
start of a running transaction, in the other order, and gives everything else back. -/
theorem collect_young [DecidableEq ι] {gcThreshold : UInt64}
    (run : Reaches (step .generic) Allowed (init gcThreshold) s)
    (idle : ∀ u, s.stages u = .idle) (t : τ) : ∃ n s' young,
      runSteps (step .generic) s (.collectGarbage t :: List.replicate n (.step t)) = some s' ∧
        (∀ u, s'.stages u = .idle) ∧ s'.used = s.used ∧
        s'.taken = objectsOf s'.free + s.used ∧ s'.count.toNat = s'.free.length ∧
        s'.free = (s.free.filter young).reverse ∧
        ∀ item, young item = true ↔ ∃ h, s.startTime h ≠ 0 ∧ s.startTime h < item.time := by
  have unlocked : s.handlesMutex = none := by
    cases mutex : s.handlesMutex with
    | none => rfl
    | some u =>
        have scans := held_run run u mutex
        rw [idle u] at scans
        cases scans
  set s₁ := s.collect t with h₁
  set s₂ := { s₁.goto t (.gcScan s₁.registered never) with handlesMutex := some t } with h₂
  have first : step .generic s (.collectGarbage t) = some s₁ := if_pos (idle t)
  have second : s₁.next .generic t = some s₂ := by
    have here : s₁.stages t = .gcLock := Function.update_self ..
    unfold State.next
    simp only [here]
    exact if_pos unlocked
  obtain ⟨m, s₃, scan, stages₃, free₃, used₃⟩ :=
    scan_alone (show s₂.stages t = .gcScan s₁.registered never from Function.update_self ..)
  set now := s₁.registered.foldl (fun now h => earlier (s₂.startTime h) now) never with hnow
  set s₄ := { s₃.goto t (.gcItems now s₃.free) with free := [] } with h₄
  have third : s₃.next .generic t = some s₄ := by
    have here : s₃.stages t = .gcSwap now [] := by
      rw [stages₃, Function.update_self]
    unfold State.next
    simp only [here]
    rfl
  obtain ⟨n, s', loop, stages, used, free⟩ :=
    items_alone (show s₄.stages t = .gcItems now s₃.free from Function.update_self ..)
  have tail : runSteps (step .generic) s₃ (List.replicate (n + 1) (.step t)) = some s' :=
    runSteps_cons third loop
  have body : runSteps (step .generic) s₂ (List.replicate (m + (n + 1)) (.step t)) = some s' := by
    rw [List.replicate_add]
    exact runSteps_append scan tail
  have all : runSteps (step .generic) s
      (.collectGarbage t :: List.replicate (m + (n + 1) + 1) (.step t)) = some s' :=
    runSteps_cons first (runSteps_cons second body)
  have quiet (u : τ) : s'.stages u = .idle := by
    by_cases here : u = t
    · rw [stages, here, Function.update_self]
    · rw [stages, Function.update_of_ne here, h₄]
      show (Function.update s₃.stages t _) u = _
      rw [Function.update_of_ne here, stages₃, Function.update_of_ne here, h₂]
      show (Function.update s₁.stages t _) u = _
      rw [Function.update_of_ne here, h₁]
      exact (Function.update_of_ne here _ _).trans (idle u)
  have reached : Reaches (step .generic) Allowed (init gcThreshold) s' := by
    refine reaches_of_runSteps run (fun label inside u => ?_) all
    obtain rfl | later := List.mem_cons.mp inside
    · trivial
    · rw [(List.mem_replicate.mp later).2]
      trivial
  have used : s'.used = s.used := used.trans used₃
  refine ⟨_, s', fun item => now < item.time, all, quiet, used, ?_,
    (sound_run reached).count_idle quiet, ?_, fun item => ?_⟩
  · rw [← used]
    exact ((sound_run reached).whole_idle quiet).symm
  · rw [free, free₃]
    exact List.append_nil _
  · have timely := timely_run run
    have never_less : ¬ never < item.time := UInt64.not_lt.mpr (UInt64.le_iff_toNat_le.mpr
      (Nat.le_of_lt_succ item.time.toNat_lt))
    rw [decide_eq_true_eq, hnow, lt_time_iff, or_iff_right never_less]
    refine ⟨fun ⟨h, _, running⟩ => ⟨h, running⟩, fun ⟨h, running⟩ => ⟨h, ?_, running⟩⟩
    exact timely.registered h running.1

/-- The page goes if no transaction has been running since before it was freed. -/
theorem collect_young_oneFreed : ∃ s s' : State Bool Bool, s.free = [⟨16, 7⟩] ∧
    (s'.free = [] ↔ ¬ ∃ h, s.startTime h ≠ 0 ∧ s.startTime h < 7) := by
  obtain ⟨s, run, idle, -, free, -⟩ := oneFreed .generic
  obtain ⟨n, s', young, -, -, -, -, -, free', iff⟩ := collect_young run idle true
  refine ⟨s, s', free, ?_⟩
  rw [free', free, ← iff ⟨16, 7⟩]
  by_cases keeps : young ⟨16, 7⟩ = true
  · rw [List.filter_cons_of_pos keeps]
    exact ⟨fun empty => absurd empty (List.cons_ne_nil _ _), fun old => absurd keeps old⟩
  · rw [List.filter_cons_of_neg keeps]
    exact ⟨fun _ => keeps, fun _ => rfl⟩

end Delayed

end HybridDatabase.Allocator
