/-
# Fixing pointers

A load leaves the ids of their targets in the `Pointer` attributes and zeros in the
`ref_count`s; `fix_pointers` goes through the dictionary, puts the nodes in the place
of their ids and counts.  After the replay of any sequence of transactions it gives
exactly the nodes that were in memory.
-/

import Mathlib.Algebra.BigOperators.Group.Finset.Basic
import HybridDatabase.Transaction.Replay

namespace HybridDatabase.Transaction

open HybridDatabase.Base HybridDatabase.Storage HybridDatabase.Database

/-! ## The source -/

/-- The nodes of a dictionary before `fix_pointers`. -/
def unlinked (M : Memory) : Nodes := fun id =>
  (M.nodes id).map fun node => ⟨node.type, node.values, 0⟩

/-- `ndict_at`, which fails an assertion where the key is not there.  A node is named by
its id. -/
def ndictAt (nodes : Nodes) (key : ℕ) : Option ℕ := (nodes key).map fun _ => key

/-- `init_pointers` for one attribute. -/
def initPointer (id index : ℕ) (nodes : Nodes) : Option Nodes := do
  let node ← nodes id
  match node.values[index]? with
  | some (.pointer stored) =>
      if stored = 0 then some (nodes.setValue id index (.pointer 0))
      else do
        let target ← ndictAt nodes stored
        let nodes := nodes.setValue id index (.pointer target)
        let node ← nodes target
        some (nodes.setRefCount target (node.refCount + 1))
  | _ => none

/-- The generated `init_pointers` of a node type, from the attribute `index` on. -/
def initPointers (id : ℕ) : ℕ → List NodeAttribute → Nodes → Option Nodes
  | _, [], nodes => some nodes
  | index, attr :: attrs, nodes =>
      if attr.type = .pointer then do
        let nodes ← initPointer id index nodes
        initPointers id (index + 1) attrs nodes
      else initPointers id (index + 1) attrs nodes

/-- `fix_pointers`, in the order in which `ndictFor` visits the dictionary. -/
def fixPointers (T : DatabaseType) : List ℕ → Nodes → Option Nodes
  | [], nodes => some nodes
  | id :: order, nodes => do
      let node ← nodes id
      let nodes ← initPointers id 0 ((T.nodeTypes[node.type]?).elim [] NodeType.attributes) nodes
      fixPointers T order nodes

/-! ## Counting on -/

/-- The nodes with other `ref_count`s. -/
def withCounts (nodes : Nodes) (counts : ℕ → ℕ) : Nodes := fun id =>
  (nodes id).map fun node => { node with refCount := counts id }

variable {T : DatabaseType} {N : ℕ} {nodes : Nodes} {counts : ℕ → ℕ} {id : ℕ}

theorem withCounts_of_eq (same : ∀ id, (nodes id).isSome → counts id = nodes.count id) :
    withCounts nodes counts = nodes := by
  funext id
  unfold withCounts
  cases found : nodes id with
  | none => rfl
  | some node =>
      have count : nodes.count id = node.refCount := by simp [Nodes.count, found]
      rw [same id (by rw [found]; rfl), count]
      rfl

theorem setValue_withCounts {node : MemoryNode} {index : ℕ} {value : Value}
    (found : nodes id = some node) (there : node.values[index]? = some value) :
    (withCounts nodes counts).setValue id index value = withCounts nodes counts := by
  obtain ⟨within, there⟩ := List.getElem?_eq_some_iff.mp there
  funext x
  rw [Nodes.setValue_apply]
  split
  · next here =>
      subst here
      simp [withCounts, found, ← there]
  · rfl

theorem setRefCount_withCounts (c : ℕ) :
    (withCounts nodes counts).setRefCount id c =
      withCounts nodes (Function.update counts id c) := by
  funext x
  rw [Nodes.setRefCount_apply]
  split
  · next here =>
      subst here
      simp [withCounts]
      rfl
  · next here =>
      unfold withCounts
      rw [Function.update_of_ne here]

/-- A pointer is put in its place and counted. -/
theorem initPointer_withCounts {node : MemoryNode} {index target : ℕ}
    (found : nodes id = some node) (there : node.values[index]? = some (.pointer target))
    (linked : target ≠ 0 → (nodes target).isSome) :
    ∃ counts', initPointer id index (withCounts nodes counts) = some (withCounts nodes counts') ∧
      ∀ x, x ≠ 0 → counts' x = counts x + if target = x then 1 else 0 := by
  have found' : withCounts nodes counts id = some { node with refCount := counts id } := by
    simp [withCounts, found]
  by_cases null : target = 0
  · subst null
    refine ⟨counts, ?_, fun x positive => by simp [Ne.symm positive]⟩
    unfold initPointer
    rw [found']
    simp only [Option.bind_eq_bind, Option.bind_some, there, if_true,
      setValue_withCounts found there]
  · obtain ⟨there', at_⟩ := Option.isSome_iff_exists.mp (linked null)
    have at' : withCounts nodes counts target = some { there' with refCount := counts target } := by
      simp [withCounts, at_]
    refine ⟨Function.update counts target (counts target + 1), ?_, fun x _ => ?_⟩
    · unfold initPointer
      rw [found']
      simp only [Option.bind_eq_bind, Option.bind_some, there, null, if_false, ndictAt, at',
        Option.map_some, setValue_withCounts found there, setRefCount_withCounts]
    · by_cases here : x = target
      · subst here
        simp
      · simp [Function.update_of_ne here, Ne.symm here]

/-- The pointers of a node from some attribute on. -/
theorem initPointers_withCounts {node : MemoryNode} {attrs : List NodeAttribute}
    {done values : List Value} (found : nodes id = some node) (split : node.values = done ++ values)
    (faithful : FaithfulValues attrs values)
    (linked : ∀ target, .pointer target ∈ values → target ≠ 0 → (nodes target).isSome) :
    ∃ counts', initPointers id done.length attrs (withCounts nodes counts) =
        some (withCounts nodes counts') ∧
      ∀ x, x ≠ 0 → counts' x = counts x + values.count (.pointer x) := by
  induction faithful generalizing done counts with
  | nil => exact ⟨counts, rfl, fun _ _ => rfl⟩
  | cons head tail ih =>
      rename_i attr value attrs values
      have split' : node.values = (done ++ [value]) ++ values := by simp [split]
      have rest := fun counts => @ih counts _ split' fun target inside =>
        linked target (List.mem_cons_of_mem value inside)
      rw [List.length_append, List.length_singleton] at rest
      unfold initPointers
      by_cases pointer : attr.type = .pointer
      · rw [if_pos pointer]
        obtain ⟨target, rfl⟩ : ∃ target, value = .pointer target := by
          have holds := head.1
          rw [pointer] at holds
          cases value with
          | pointer target => exact ⟨target, rfl⟩
          | raw bytes | number n | string chars | rawString data => cases holds
        have there : node.values[done.length]? = some (.pointer target) := by simp [split]
        obtain ⟨counts₁, first, count₁⟩ := @initPointer_withCounts _ counts _ _ _ _ found there
          (linked target List.mem_cons_self)
        obtain ⟨counts₂, second, count₂⟩ := rest counts₁
        refine ⟨counts₂, ?_, fun x positive => ?_⟩
        · simp only [first, Option.bind_eq_bind, Option.bind_some, second]
        · rw [count₂ x positive, count₁ x positive, List.count_cons]
          simp only [beq_iff_eq, Value.pointer.injEq]
          omega
      · rw [if_neg pointer]
        obtain ⟨counts', second, count⟩ := rest counts
        refine ⟨counts', second, fun x positive => ?_⟩
        have other := not_pointer_of_faithful head (mt kind_eq_pointer.mp pointer) x
        rw [count x positive, List.count_cons_of_ne other]

/-- The nodes of an order that are visited. -/
theorem fixPointers_withCounts (sound : Sound T N nodes []) {order : List ℕ}
    (present : ∀ id ∈ order, (nodes id).isSome) :
    ∃ counts', fixPointers T order (withCounts nodes counts) = some (withCounts nodes counts') ∧
      ∀ x, x ≠ 0 →
        counts' x = counts x + (order.map fun id => pointersTo x (nodes.view id)).sum := by
  induction order generalizing counts with
  | nil => exact ⟨counts, rfl, fun _ _ => rfl⟩
  | cons id order ih =>
      obtain ⟨node, found⟩ := Option.isSome_iff_exists.mp (present id List.mem_cons_self)
      have view : nodes.view id = some ⟨node.type, node.values⟩ := by
        rw [Nodes.view, found, Option.map_some]
      obtain ⟨type, known, faithful⟩ := sound.typed id _ view
      obtain ⟨counts₁, first, count₁⟩ := @initPointers_withCounts _ counts _ _ _ _ _ found
        (List.nil_append _).symm faithful fun target => sound.linked id _ target view
      obtain ⟨counts₂, second, count₂⟩ := @ih counts₁ fun other inside =>
        present other (List.mem_cons_of_mem id inside)
      refine ⟨counts₂, ?_, fun x positive => ?_⟩
      · have found' : withCounts nodes counts id = some { node with refCount := counts id } := by
          simp [withCounts, found]
        unfold fixPointers
        rw [found']
        simp only [Option.bind_eq_bind, Option.bind_some]
        rw [known]
        exact (congrArg (Option.bind · _) first).trans second
      · rw [count₂ x positive, count₁ x positive, List.map_cons, List.sum_cons, view]
        simp only [pointersTo, Option.elim_some]
        omega

/-- The order visits every node of the dictionary once. -/
def Visits (order : List ℕ) (nodes : Nodes) : Prop :=
  order.Nodup ∧ ∀ id, id ∈ order ↔ (nodes id).isSome

theorem sum_visits {order : List ℕ} (visits : Visits order nodes) (sound : Sound T N nodes [])
    (x : ℕ) : (order.map fun id => pointersTo x (nodes.view id)).sum =
      references nodes.view N x := by
  obtain ⟨nodup, members⟩ := visits
  rw [← List.sum_toFinset _ nodup]
  refine Finset.sum_subset (fun id inside => ?_) fun id _ outside => ?_
  · have present := (members id).mp (List.mem_toFinset.mp inside)
    have := (sound.bounded id present).2
    rw [Finset.mem_range]
    omega
  · cases found : nodes.view id with
    | none => rfl
    | some node =>
        have present : (nodes id).isSome := by rw [← isSome_view, found]; rfl
        exact absurd (List.mem_toFinset.mpr ((members id).mpr present)) outside

/-- `fix_pointers` gives sound nodes back from their logical state. -/
theorem fixPointers_unlinked (sound : Sound T N nodes []) {M : Memory}
    (loaded : M.nodes = nodes.view) {order : List ℕ} (visits : Visits order nodes) :
    fixPointers T order (unlinked M) = some nodes := by
  have start : unlinked M = withCounts nodes fun _ => 0 := by
    funext id
    rw [unlinked, loaded, withCounts, Nodes.view, Option.map_map]
    rfl
  obtain ⟨counts', fixed, count⟩ := @fixPointers_withCounts _ _ _ (fun _ => 0) sound _
    fun id inside => (visits.2 id).mp inside
  rw [start, fixed]
  refine congrArg some (withCounts_of_eq fun id present => ?_)
  have positive := (sound.bounded id present).1
  rw [count id (by omega), sum_visits visits sound, sound.counted id present, Nat.zero_add]

/-! ## Sequences of transactions -/

/-- Main transactions one after another, with the logs of those that were committed. -/
inductive Commits (T : DatabaseType) (w : World) : List (List LogItem) → World → Prop
  | nothing : Commits T w [] w
  | commit {logs : List (List LogItem)} {v : World} {s : State} (earlier : Commits T w logs v)
      (run : Reaches (State.step T) (State.Allowed T) v.begin s)
      (outermost : s.transactions = []) : Commits T w (logs ++ [s.log]) s.commit
  | abort {logs : List (List LogItem)} {v : World} {s : State} (earlier : Commits T w logs v)
      (run : Reaches (State.step T) (State.Allowed T) v.begin s) : Commits T w logs s.abort

/-- The memory of a load after the transactions with these logs. -/
def readLogs (T : DatabaseType) (M : Memory) (logs : List (List LogItem)) : Memory :=
  logs.foldl (fun M log => applyRecords T M (records log)) M

/-- A committed transaction leaves sound nodes, and its records lead to them. -/
theorem commit_replayed (narrow : State.Narrow T) {w : World} {M : Memory} {s : State}
    (sound : Sound T w.counter w.nodes []) (loaded : M.nodes = w.nodes.view)
    (run : Reaches (State.step T) (State.Allowed T) w.begin s) :
    Sound T s.commit.counter s.commit.nodes [] ∧ RecordsFit T M (records s.log) ∧
      (applyRecords T M (records s.log)).nodes = s.commit.nodes.view := by
  have now := (State.good_run narrow sound loaded run).holds.now
  exact ⟨now.sound.free, now.fits, now.replayed⟩

/-- Aborting a main transaction gives the nodes back. -/
theorem abort_nodes (narrow : State.Narrow T) {w : World} {s : State}
    (sound : Sound T w.counter w.nodes [])
    (run : Reaches (State.step T) (State.Allowed T) w.begin s) :
    s.abort.nodes = w.nodes ∧ Sound T s.abort.counter s.abort.nodes [] := by
  have loaded : ({ Memory.empty with nodes := w.nodes.view } : Memory).nodes = w.nodes.view := rfl
  have good := State.good_run narrow sound loaded run
  have same : s.abort.nodes = w.nodes := good.holds.now.undone
  refine ⟨same, ?_⟩
  rw [same]
  exact sound.raise good.later good.holds.now.sound.small

theorem commits_replayed (narrow : State.Narrow T) {w v : World} {M : Memory}
    {logs : List (List LogItem)} (sound : Sound T w.counter w.nodes [])
    (loaded : M.nodes = w.nodes.view) (commits : Commits T w logs v) :
    Sound T v.counter v.nodes [] ∧ (readLogs T M logs).nodes = v.nodes.view := by
  induction commits with
  | nothing => exact ⟨sound, loaded⟩
  | commit earlier run outermost ih =>
      obtain ⟨before, replayed⟩ := ih
      obtain ⟨after, -, now⟩ := commit_replayed narrow before replayed run
      rw [readLogs, List.foldl_append]
      exact ⟨after, now⟩
  | abort earlier run ih =>
      obtain ⟨before, replayed⟩ := ih
      obtain ⟨same, after⟩ := abort_nodes narrow before run
      exact ⟨after, by rw [same, replayed]⟩

/-- Replaying the records of a transaction gives the committed state, and these are the
records in the element that `process_transaction_log` writes.  Over any sequence of
transactions `fix_pointers` gives the nodes in memory back: every pointer finds its
node, and every `ref_count` is the number of pointers to the node. -/
theorem replay_reproduces (narrow : State.Narrow T) :
    (∀ (w : World) (M : Memory) (s : State), Sound T w.counter w.nodes [] →
      M.nodes = w.nodes.view → Reaches (State.step T) (State.Allowed T) w.begin s →
      s.transactions = [] →
        (∀ enc fuel, recordsBytes (records s.log) = some enc → enc.length < 2 ^ 63 →
          enc.length < fuel → Loads arrayEnd 1 (readRecords T fuel) M ()
            (applyRecords T M (records s.log)) enc) ∧
        (applyRecords T M (records s.log)).nodes = s.commit.nodes.view ∧
        ∀ W out, processTransactionLog Writer.init s.log = some W → W.output = some out →
          (∀ body, transactionBytes (records s.log) = some body → body.length < 2 ^ 63) →
            ∃ enc, out = frame (encodeArray enc) true ∧ ∀ fuel, enc.length < fuel →
              Loads arrayEnd 1 (readRecords T fuel) M ()
                (applyRecords T M (records s.log)) enc) ∧
    ∀ (w v : World) (M : Memory) (logs : List (List LogItem)), Sound T w.counter w.nodes [] →
      M.nodes = w.nodes.view → Commits T w logs v →
        (readLogs T M logs).nodes = v.nodes.view ∧
        (∀ order, Visits order v.nodes →
          fixPointers T order (unlinked (readLogs T M logs)) = some v.nodes) ∧
        (∀ id, (v.nodes id).isSome → v.nodes.count id = references v.nodes.view v.counter id) ∧
        ∀ id node target, v.nodes.view id = some node → .pointer target ∈ node.values →
          target ≠ 0 → (v.nodes target).isSome := by
  constructor
  · intro w M s sound loaded run _
    obtain ⟨-, fits, replayed⟩ := commit_replayed narrow sound loaded run
    have reads (enc : Bytes) (fuel : ℕ) (stored : recordsBytes (records s.log) = some enc)
        (total : enc.length < 2 ^ 63) (enough : enc.length < fuel) :=
      loads_readRecords fits.small (recordsRead_of_fit fits stored) stored total enough
    refine ⟨reads, replayed, fun W out written output total => ?_⟩
    obtain ⟨enc, stored, rfl⟩ := output_processTransactionLog total written output
    have short : enc.length < (encodeArray enc).length := by
      rw [length_encodeArray]
      omega
    have bytes : transactionBytes (records s.log) = some (encodeArray enc) := by
      rw [transactionBytes, stored, Option.map_some]
    exact ⟨enc, rfl, fun fuel => reads enc fuel stored (short.trans (total _ bytes))⟩
  · intro w v M logs sound loaded commits
    obtain ⟨after, replayed⟩ := commits_replayed narrow sound loaded commits
    exact ⟨replayed, fun order visits => fixPointers_unlinked after replayed visits,
      after.counted, after.linked⟩

/-- A database without nodes. -/
def emptyWorld : World := ⟨fun _ => none, 1⟩

theorem sound_empty (T : DatabaseType) : Sound T emptyWorld.counter emptyWorld.nodes [] where
  small := by decide
  bounded _ there := by cases there
  typed _ _ there := by cases there
  counted _ there := by cases there
  linked _ _ _ there := by cases there
  deleted _ member := by cases member

/-- One type of nodes, with a pointer and a number. -/
def linkType : DatabaseType where
  name := []
  version := []
  nodeTypes := [⟨[], [⟨ascii "next", .pointer⟩, ⟨ascii "key", .uint8⟩], by decide⟩]
  names := short_unnamed
  count := by decide

theorem linkType_narrow : State.Narrow linkType := by
  unfold State.Narrow
  decide

/-- A node that points at itself; a nested transaction that wrote its number was aborted. -/
def selfLinkLog : List LogItem :=
  [.nodeAlloc 0 2, .refCount 2 0, .nodeModify 2 0 .pointer (.pointer 0) (.pointer 2)]

theorem commits_selfLink : ∃ v, Commits linkType emptyWorld [selfLinkLog] v ∧
    Visits [2] v.nodes ∧ v.nodes.count 2 = 1 := by
  have created : Reaches (State.step linkType) (State.Allowed linkType) emptyWorld.begin _ :=
    Reaches.start.step (l := State.Label.create 0 2) trivial rfl
  have begun := created.step (l := State.Label.begin) trivial rfl
  have number := begun.step (l := State.Label.write 2 1 (.number 7) 0 0)
    ⟨⟨rfl, by decide⟩, by rintro _ _ ⟨⟩ ⟨⟩; exact ⟨by decide, rfl⟩, by rintro _ ⟨⟩⟩ rfl
  have aborted := number.step (l := State.Label.abortNested) trivial rfl
  have pointer := aborted.step (l := State.Label.write 2 0 (.pointer 2) 0 0)
    ⟨⟨rfl, by decide⟩, by rintro _ _ ⟨⟩ ⟨⟩; exact ⟨by decide, rfl⟩,
      by rintro _ ⟨⟩; exact ⟨rfl, by decide⟩⟩ rfl
  have commits := Commits.commit .nothing pointer rfl
  refine ⟨_, commits, ⟨by decide, fun id => ⟨fun member => ?_, fun present => ?_⟩⟩, rfl⟩
  · cases List.mem_singleton.mp member
    rfl
  · have sound := (commits_replayed linkType_narrow (M := Memory.empty) (sound_empty linkType) rfl
      commits).1
    have bounds : 0 < id ∧ id ≤ 2 := sound.bounded id present
    obtain rfl | rfl : id = 1 ∨ id = 2 := by omega
    · cases present
    · exact List.mem_singleton.mpr rfl

/-- The transaction of the node that points at itself, replayed. -/
theorem replay_selfLink : ∃ v, Commits linkType emptyWorld [selfLinkLog] v ∧
    (readLogs linkType Memory.empty [selfLinkLog]).nodes = v.nodes.view ∧
      fixPointers linkType [2] (unlinked (readLogs linkType Memory.empty [selfLinkLog])) =
        some v.nodes ∧ references v.nodes.view v.counter 2 = 1 := by
  obtain ⟨v, commits, visits, count⟩ := commits_selfLink
  obtain ⟨replayed, fixed, counted, -⟩ := (replay_reproduces linkType_narrow).2 emptyWorld v
    Memory.empty [selfLinkLog] (sound_empty linkType) rfl commits
  have present := (visits.2 2).mp (List.mem_singleton.mpr rfl)
  exact ⟨v, commits, replayed, fixed [2] visits, by rw [← counted 2 present, count]⟩

end HybridDatabase.Transaction
