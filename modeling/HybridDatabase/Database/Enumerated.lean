/-
# The nodes that are enumerated after a load

After a load the walk through the pages and the dictionary show the same nodes exactly
if no record named an id that was in the dictionary, and no node has the id zero.
-/

import HybridDatabase.Database.Interrupted
import HybridDatabase.Database.Rejected
import HybridDatabase.Database.Stored
import Mathlib.Algebra.Order.BigOperators.Group.List

namespace HybridDatabase.Database

open HybridDatabase.Base HybridDatabase.Storage HybridDatabase.Allocator

open NodeCall

namespace Store

variable {L : Layout} {P : PageSource} {types counter : ℕ} {calls : List NodeCall} {S : Store}

/-- The calls of a load leave a store that follows them. -/
theorem follows_run (L : Layout) (P : PageSource) (traced : Traced types calls) :
    (run L P calls).Follows L types calls := by
  induction traced with
  | nil => exact follows_init L types
  | unread before known ih => exact (follows_alloc ih (P.fresh _) known).1
  | taken before known alive ih =>
      obtain ⟨follows, node, new⟩ := follows_alloc ih (P.fresh _) known
      exact follows_taken follows new alive
  | created before known absent ih =>
      obtain ⟨follows, node, new⟩ := follows_alloc ih (P.fresh _) known
      exact follows_created follows new absent
  | freed before alive ih => exact follows_freed ih alive

/-- The nodes that are enumerated are the slots in use that have an id. -/
theorem mem_stored (follows : S.Follows L types calls) (node : Address) :
    node ∈ S.stored L types ↔ S.heap.Allocated L node ∧ S.heap.id node ≠ 0 := by
  simp only [stored, List.mem_flatMap, List.mem_range, Heap.mem_nodeForEach follows.valid]
  constructor
  · rintro ⟨type, -, -, visited⟩
    exact visited
  · rintro ⟨allocated, used⟩
    exact ⟨_, follows.typed node allocated, rfl, allocated, used⟩

theorem nodup_stored (follows : S.Follows L types calls) : (S.stored L types).Nodup := by
  refine List.nodup_flatMap.mpr ⟨fun type _ => Heap.nodup_nodeForEach follows.valid type, ?_⟩
  refine List.nodup_range.pairwise_of_forall_ne fun type _ other _ different node inside inside' => ?_
  have here := ((Heap.mem_nodeForEach follows.valid).mp inside).1
  have there := ((Heap.mem_nodeForEach follows.valid).mp inside').1
  exact different (here.symm.trans there)

/-- Without strays, and without a node whose id is zero, the two views agree. -/
theorem exact_iff (follows : S.Follows L types calls)
    (bounded : ∀ id, (S.dictionary id).isSome = true → id ≤ counter) :
    S.Exact L types counter ↔ ¬ Renames calls ∧ S.dictionary 0 = none := by
  rw [← follows.strays]
  constructor
  · intro exact_
    refine ⟨?_, ?_⟩
    · rintro ⟨node, allocated, used, lost⟩
      obtain ⟨id, found⟩ := (exact_.same node).mp ((mem_stored follows node).mpr ⟨allocated, used⟩)
      obtain ⟨-, same, -⟩ := follows.entry id node found
      exact lost (same.symm ▸ found)
    · by_contra present
      obtain ⟨node, found⟩ := Option.ne_none_iff_exists'.mp present
      obtain ⟨-, same, -⟩ := follows.entry 0 node found
      exact ((mem_stored follows node).mp ((exact_.same node).mpr ⟨0, found⟩)).2 same
  · rintro ⟨none, zero⟩
    have known (node : Address) (inside : node ∈ S.stored L types) :
        S.dictionary (S.heap.id node) = some node := by
      obtain ⟨allocated, used⟩ := (mem_stored follows node).mp inside
      by_contra lost
      exact none ⟨node, allocated, used, lost⟩
    refine ⟨fun node => ⟨fun inside => ⟨_, known node inside⟩, ?_⟩, ?_, fun node inside => ?_, bounded⟩
    · rintro ⟨id, found⟩
      obtain ⟨allocated, same, -⟩ := follows.entry id node found
      refine (mem_stored follows node).mpr ⟨allocated, fun free => ?_⟩
      rw [free] at same
      subst same
      rw [zero] at found
      cases found
    · refine (nodup_stored follows).map_on fun node inside other inside' same => ?_
      have found := known node inside
      rw [same, known other inside'] at found
      exact (Option.some.inj found).symm
    · exact (follows.entry _ node (known node inside)).2.2

end Store

/-! ## After `load_data` -/

variable {T : DatabaseType} {base : Bases} {readOnly create : Bool} {directory : Directory}
  {D : Opening}

theorem memory_fdWrite (D : Opening) (bytes : Bytes) : (D.fdWrite bytes).memory = D.memory := by
  unfold Opening.fdWrite
  split <;> rfl

theorem memory_databaseNewFile {D D' : Opening} {dumpBegin : Bool} {magic : ℕ}
    (h : databaseNewFile T D dumpBegin magic = .ok D') : D'.memory = D.memory := by
  unfold databaseNewFile at h
  split at h
  · cases h
    rfl
  · obtain ⟨D₁, closed, rest⟩ := exceptBind_eq_ok.mp h
    have first : D₁.memory = D.memory := by
      unfold closeFile at closed
      split at closed
      · cases closed
        rfl
      · obtain ⟨footer, -, rest⟩ := exceptBind_eq_ok.mp closed
        cases rest
        exact memory_fdWrite D footer
    split at rest
    · cases rest
    · obtain ⟨header, -, rest⟩ := exceptBind_eq_ok.mp rest
      cases rest
      exact (memory_fdWrite _ header).trans first

theorem memory_openForWriting {D D' : Opening} {createNew : Bool} {files : List (ℕ × Bytes)}
    (h : openForWriting T D createNew files = .ok D') : D'.memory = D.memory := by
  unfold openForWriting at h
  split at h
  · cases h
    rfl
  · obtain ⟨D₁, created, rest⟩ := exceptBind_eq_ok.mp h
    have first : D₁.memory = D.memory := by
      unfold createFile at created
      split at created
      · exact memory_databaseNewFile created
      · cases created
        rfl
    split at rest
    · obtain ⟨mark, -, rest⟩ := exceptBind_eq_ok.mp rest
      cases rest
      exact (memory_fdWrite D₁ mark).trans first
    · cases rest
      exact first

/-- What `load_data` has loaded is recorded. -/
theorem recorded_loadData
    (opened : loadData T base (Opening.start readOnly create directory) = .ok D) :
    D.memory.Recorded T := by
  obtain ⟨schema, M, ending, index, -, -, -, loaded, rest⟩ := loadData_ok opened
  rw [memory_openForWriting rest]
  exact recorded_loadFiles recorded_empty loaded

/-- After `load_data` the nodes that `node_for_each` enumerates are the nodes of the
dictionary, each id once and each node initialised, exactly if no record that was read
named an id of the dictionary and there is no node with the id zero. -/
theorem stored_exactly_iff (L : Layout) (P : PageSource)
    (opened : loadData T base (Opening.start readOnly create directory) = .ok D) :
    (∀ id, ((Store.run L P D.memory.calls).dictionary id).isSome = (D.memory.nodes id).isSome) ∧
      ((Store.run L P D.memory.calls).Exact L T.nodeTypes.length D.memory.counter ↔
        ¬ Renames D.memory.calls ∧ D.memory.nodes 0 = none) := by
  have recorded := recorded_loadData opened
  have follows := Store.follows_run L P recorded.traced
  have same (id : ℕ) : ((Store.run L P D.memory.calls).dictionary id).isSome =
      (D.memory.nodes id).isSome := by
    rw [Bool.eq_iff_iff, follows.alive, recorded.alive]
  refine ⟨same, ?_⟩
  rw [Store.exact_iff follows fun id present => recorded.bounded id (same id ▸ present)]
  have zero : (Store.run L P D.memory.calls).dictionary 0 = none ↔ D.memory.nodes 0 = none := by
    rw [← Option.not_isSome_iff_eq_none, same, Option.not_isSome_iff_eq_none]
  rw [zero]

/-! ## A creation record behind the node of a dump -/

/-- Every page holds one node. -/
def oneInPage : Layout := ⟨fun _ => 1, fun _ => Nat.one_pos⟩

/-- The page behind all that are in use. -/
def nextPage : PageSource where
  next := fun _ held => held.sum + 1
  fresh := fun _ held inside => by
    have := List.single_le_sum (fun _ _ => Nat.zero_le _) _ inside
    omega

/-- The schema of a database with one type of nodes. -/
def oneTypeSchema : Bytes :=
  frame (encodeArray (encodeString (ascii "HybridDatabase Database Schema") ++
    (encodeString [] ++ (encodeString [] ++ encodeArray (encodeString []))))) true

theorem schemaAccepted_oneType : SchemaAccepted oneType 4096 oneTypeSchema := by
  have type := Reads.array (reads_rCheckString [] 0).items
  have shallow (text : Bytes) : Reads 1 (rCheckString text) () (encodeString text) :=
    reads_rCheckString text 1
  have all := Reads.array ((shallow (ascii "HybridDatabase Database Schema")).seq
    ((shallow []).seq ((shallow []).seq type))).items
  simp only [bind_assoc, bind_pure_unit] at all
  have file : (Reader.init oneTypeSchema 4096).file = oneTypeSchema ++ [] :=
    (List.append_nil _).symm
  obtain ⟨R, -, -, begun, read, finished⟩ :=
    readElement_at all (by decide) (by decide) file id
  refine ⟨R, ?_⟩
  have passed (R : Reader) : check (ReadStatus.success = .success) R = .ok () R := rfl
  have parts : readSchema oneType = (do
      let status ← readerBegin
      check (status = .success)
      (do readArray
          rCheckString (ascii "HybridDatabase Database Schema")
          rCheckString []
          rCheckString []
          readArray
          rCheckString []
          readArrayEnd
          readArrayEnd)
      readerFinish true) := by
    simp only [readSchema, oneType, readSchemaTypes, readSchemaAttributes, bind_assoc, pure_bind]
  rw [parts, bind_ok begun, bind_ok (passed _), bind_ok read, finished]

/-- The node 5 was created after the dump had begun, so it is in the dump, and a creation
record follows. -/
def createdTwice : List Element :=
  [.dumpNode 5 ⟨0, []⟩, .transaction [.create 0 5], .dumpEnd]

theorem createdTwice_accepted :
    ElementsAccepted oneType true { Memory.empty with dumpOn := true } createdTwice :=
  ⟨⟨rfl, fun _ => ⟨⟨_, rfl, .nil⟩, by decide, rfl⟩⟩, ⟨List.cons_ne_nil _ _, ⟨by decide, by decide⟩,
    trivial⟩, rfl, trivial⟩

theorem length_ofBody_le (body : Bytes) (checksum : Bool) :
    (RootElement.ofBody body checksum).bytes.length ≤ body.length + 16 := by
  have short := Writer.length_trailer_le body checksum
  rw [RootElement.bytes_ofBody, length_frame, List.length_append]
  omega

theorem createdTwice_stored :
    ∃ parts, roots oneType createdTwice = some parts ∧
      Addressable 4096 (beginBytes oneType true 0 ++ rootBytes parts) := by
  obtain ⟨node, hnode, shortNode⟩ : ∃ body,
      dumpNodeBytes (attributesOf oneType 0) 5 ⟨0, []⟩ = some body ∧ body.length ≤ 64 :=
    ⟨_, rfl, by decide⟩
  obtain ⟨record, hrecord, shortRecord⟩ : ∃ body,
      transactionBytes [.create 0 5] = some body ∧ body.length ≤ 64 := ⟨_, rfl, by decide⟩
  have stored : roots oneType createdTwice = some [.ofBody node true, .ofBody record true,
      .ofBody (encodeString (ascii "DUMP END")) false] := by
    have first : Element.root oneType (.dumpNode 5 ⟨0, []⟩) = some (.ofBody node true) := by
      rw [Element.root, hnode]
      rfl
    have second : Element.root oneType (.transaction [.create 0 5]) =
        some (.ofBody record true) := by
      rw [Element.root, hrecord]
      rfl
    exact roots_cons.mpr ⟨_, _, first, roots_cons.mpr ⟨_, _, second, rfl, rfl⟩, rfl⟩
  refine ⟨_, stored, ?_⟩
  have front := length_newFile oneType
  have ends : (encodeString (ascii "DUMP END")).length ≤ 64 := by decide
  have short₁ := length_ofBody_le node true
  have short₂ := length_ofBody_le record true
  have short₃ := length_ofBody_le (encodeString (ascii "DUMP END")) false
  have names : oneType.name.length + oneType.version.length = 0 := rfl
  simp only [List.length_append] at front
  have total : (beginBytes oneType true 0 ++ rootBytes [.ofBody node true, .ofBody record true,
      .ofBody (encodeString (ascii "DUMP END")) false]).length ≤ 1024 := by
    simp only [rootBytes_cons, List.length_append]
    show _ + (_ + (_ + (_ + 0))) ≤ 1024
    omega
  have top : (4096 : Bases).top = 4096 := rfl
  exact ⟨by omega, by omega⟩

/-- Such a file is opened; the calls of the load are a slot for the node of the dump, and
one for the record. -/
theorem createdTwice_opened (readOnly create : Bool) :
    ∃ directory D, loadData oneType 4096 (Opening.start readOnly create directory) = .ok D ∧
      D.memory.calls =
        [.setId 5, .alloc 0, .insert, .setId 5, .alloc 0] ∧ D.memory.nodes 0 = none := by
  obtain ⟨parts, stored, fits⟩ := createdTwice_stored
  have applied := effects_of_accepted createdTwice_accepted stored fits.of_append.2
  obtain ⟨R, loaded⟩ := loadFile_unfinished (M := Memory.empty) (by decide) (.inl rfl) fits applied
  have all : loadFiles oneType 4096 true Memory.empty
      [(1, beginBytes oneType true 0 ++ rootBytes parts)] =
      .ok (applyElements oneType true { Memory.empty with dumpOn := true } createdTwice,
        .append) := by
    simp only [loadFiles, loaded, if_true]
  have full : NoHoles [(1, beginBytes oneType true 0 ++ rootBytes parts)] := by
    intro first last hfirst hlast
    cases hfirst
    cases hlast
    simp
  have present : (oneFile oneTypeSchema 1 (beginBytes oneType true 0 ++ rootBytes parts)).schema =
      some oneTypeSchema := rfl
  obtain ⟨D, opened, memory⟩ :=
    loadData_of present schemaAccepted_oneType full all readOnly create
  exact ⟨_, D, opened, by rw [memory]; rfl, by rw [memory]; rfl⟩

/-- The walk comes to a node that is not in the dictionary. -/
theorem stored_exactly_iff_createdTwice :
    ∃ directory D, loadData oneType 4096 (Opening.start false false directory) = .ok D ∧
      ¬ (Store.run oneInPage nextPage D.memory.calls).Exact oneInPage 1 D.memory.counter := by
  obtain ⟨directory, D, opened, calls, -⟩ := createdTwice_opened false false
  refine ⟨directory, D, opened, fun exact_ => ?_⟩
  have none := ((stored_exactly_iff oneInPage nextPage opened).2.mp exact_).1
  rw [calls] at none
  exact none (.inl ⟨by decide, .inl rfl⟩)

/-- The walk and the dictionary do not always show the same nodes. -/
theorem not_stored_exactly :
    ¬ ∀ (T : DatabaseType) (base : Bases) (readOnly create : Bool) (directory : Directory)
      (D : Opening) (L : Layout) (P : PageSource),
      loadData T base (Opening.start readOnly create directory) = .ok D →
      (Store.run L P D.memory.calls).Exact L T.nodeTypes.length D.memory.counter := by
  intro claim
  obtain ⟨directory, D, opened, calls, -⟩ := createdTwice_opened false false
  have exact_ := claim oneType 4096 false false directory D oneInPage nextPage opened
  have follows := Store.follows_run oneInPage nextPage (recorded_loadData opened).traced
  have none := ((Store.exact_iff follows exact_.bounded).mp exact_).1
  rw [calls] at none
  exact none (.inl ⟨by decide, .inl rfl⟩)

end HybridDatabase.Database
