/-
# The history in the data files

Behind the elements of the last data file that are on the disk stand those of the transactions that
were committed since.  Whatever a crash leaves of them, `load_data` comes to the nodes that one of
these transactions has left.
-/

import HybridDatabase.Base.Durable
import HybridDatabase.Database.Readable
import HybridDatabase.Database.Schema
import HybridDatabase.Database.Truncate
import HybridDatabase.Service.Rotation
import HybridDatabase.Transaction.Pointers

namespace HybridDatabase.Service

open HybridDatabase.Base HybridDatabase.Storage HybridDatabase.Database HybridDatabase.Transaction

/-! ## The disk -/

/-- How many bytes of the last data file a crash leaves: those that `fsync` covers.  In the first
file these are at least the ones that `_database_new_file` has written; the `DUMP END` behind them
is not on the disk yet. -/
def Files.kept (T : DatabaseType) (F : Files) : ℕ :=
  max F.output.synced.length (if F.earlier = [] then (beginBytes T true 0).length else 0)

/-- The files fit into the memory. -/
def Files.Fits (base : Bases) (F : Files) : Prop :=
  (∀ file ∈ F.earlier, Addressable base file.2) ∧ Addressable base F.output.contents

/-! ## What the files hold -/

/-- A new id is above those of all nodes. -/
structure Counted (M : Memory) : Prop where
  bounded : ∀ id, (M.nodes id).isSome → id ≤ M.counter
  small : M.counter < 2 ^ 64

variable {T : DatabaseType} {base : Bases} {first : Bool} {M M' M₁ M₂ : Memory}
  {H H' : History Nodes}
  {F F' : Files}

theorem Counted.fewer (counted : Counted M)
    (fewer : ∀ id, (M'.nodes id).isSome → (M.nodes id).isSome) (same : M'.counter = M.counter) :
    Counted M' := by
  refine ⟨fun id present => ?_, ?_⟩
  · rw [same]
    exact counted.bounded id (fewer id present)
  · rw [same]
    exact counted.small

theorem counter_delete (id : ℕ) : (M.delete id).counter = M.counter := by
  unfold Memory.delete
  split <;> rfl

theorem Counted.apply (counted : Counted M) {record : Record} (fits : record.Fits T M) :
    Counted (record.apply T M) := by
  cases record with
  | create type id =>
      show Counted (M.create T type id)
      unfold Memory.create
      by_cases taken : (M.nodes id).isSome = true
      · simp only [Memory.nodes_call, taken, if_true]
        exact counted.fewer (fun _ present => present) rfl
      · simp only [Memory.nodes_call, taken]
        refine ⟨fun other present => ?_, max_lt counted.small fits.2⟩
        have found : (Function.update M.nodes id _ other).isSome := present
        by_cases here : other = id
        · rw [here]
          exact le_max_right _ _
        · rw [Function.update_of_ne here] at found
          exact (counted.bounded other found).trans (le_max_left _ _)
  | delete id =>
      refine counted.fewer (fun other present => ?_) (counter_delete id)
      have found : ((M.delete id).nodes other).isSome := present
      rw [Memory.nodes_delete] at found
      by_cases here : other = id
      · rw [here, Function.update_self] at found
        cases found
      · rwa [Function.update_of_ne here] at found
  | modify id index attrType value =>
      refine counted.fewer (fun other present => ?_) rfl
      have found : (Function.update M.nodes id _ other).isSome := present
      by_cases here : other = id
      · rw [here, Function.update_self, Option.isSome_map] at found
        rwa [here]
      · rwa [Function.update_of_ne here] at found

theorem Counted.applyRecords (counted : Counted M) {records : List Record}
    (fits : RecordsFit T M records) : Counted (applyRecords T M records) := by
  induction records generalizing M with
  | nil => exact counted
  | cons record records ih => exact ih (counted.apply fits.1) fits.2

/-- From the memory `M`, each element leads to the next state of the history, or keeps the nodes. -/
inductive Leads (T : DatabaseType) (first : Bool) (base : Bases) (M : Memory) :
    List RootElement → History Nodes → Memory → Prop
  | safe {nodes : Nodes} (loaded : M.nodes = nodes.view) (counted : Counted M) :
      Leads T first base M [] (.safe nodes) M
  | more {elements : List RootElement} {element : RootElement} {H : History Nodes} {nodes : Nodes}
      {M₁ M₂ : Memory} (before : Leads T first base M elements H M₁)
      (effect : element.effect T first base M₁ = some M₂) (loaded : M₂.nodes = nodes.view)
      (counted : Counted M₂) : Leads T first base M (elements ++ [element]) (H.push nodes) M₂
  | mark {elements : List RootElement} {element : RootElement} {H : History Nodes} {M₁ M₂ : Memory}
      (before : Leads T first base M elements H M₁)
      (effect : element.effect T first base M₁ = some M₂) (same : M₂.nodes = M₁.nodes)
      (counted : Counted M₂) : Leads T first base M (elements ++ [element]) H M₂

namespace Leads

variable {elements done others : List RootElement}

theorem loaded (leads : Leads T first base M elements H M') : M'.nodes = H.current.view := by
  induction leads with
  | safe loaded counted => exact loaded
  | more before effect loaded counted ih =>
      rw [History.current_push]
      exact loaded
  | mark before effect same counted ih => exact same.trans ih

theorem counted (leads : Leads T first base M elements H M') : Counted M' := by
  cases leads with
  | safe loaded counted => exact counted
  | more before effect loaded counted => exact counted
  | mark before effect same counted => exact counted

theorem effects_snoc {element : RootElement} {M₁ M₂ : Memory}
    (before : Database.effects T first base M elements = some M₁)
    (effect : element.effect T first base M₁ = some M₂) :
    Database.effects T first base M (elements ++ [element]) = some M₂ := by
  rw [effects_append, before]
  show Option.bind (RootElement.effect _ _ _ _ _) _ = _
  rw [effect]
  rfl

theorem effects (leads : Leads T first base M elements H M') :
    Database.effects T first base M elements = some M' := by
  induction leads with
  | safe loaded counted => rfl
  | more before effect loaded counted ih => exact effects_snoc ih effect
  | mark before effect same counted ih => exact effects_snoc ih effect

theorem split_snoc {element : RootElement} (split : elements ++ [element] = done ++ others)
    (some_ : others ≠ []) : ∃ fewer, elements = done ++ fewer := by
  obtain rfl | ⟨fewer, last, rfl⟩ := others.eq_nil_or_concat
  · exact absurd rfl some_
  · rw [List.concat_eq_append, ← List.append_assoc] at split
    exact ⟨fewer, (List.append_inj' split rfl).1⟩

/-- The first elements lead to a state that survives. -/
theorem front (leads : Leads T first base M elements H M') (split : elements = done ++ others) :
    ∃ P M₁, P.Survives H ∧ Leads T first base M done P M₁ ∧
      (others = [] → P = H ∧ M₁ = M') := by
  induction leads generalizing others with
  | safe loaded counted =>
      obtain ⟨rfl, rfl⟩ := List.append_eq_nil_iff.mp split.symm
      exact ⟨_, _, List.prefix_rfl, .safe loaded counted, fun _ => ⟨rfl, rfl⟩⟩
  | more before effect loaded counted ih =>
      by_cases whole : others = []
      · rw [whole, List.append_nil] at split
        subst split
        exact ⟨_, _, List.prefix_rfl, .more before effect loaded counted, fun _ => ⟨rfl, rfl⟩⟩
      · obtain ⟨fewer, rest⟩ := split_snoc split whole
        obtain ⟨P, M₁, survives, leads, -⟩ := ih rest
        exact ⟨P, M₁, survives.trans (List.prefix_append _ _), leads, fun none => absurd none whole⟩
  | mark before effect same counted ih =>
      by_cases whole : others = []
      · rw [whole, List.append_nil] at split
        subst split
        exact ⟨_, _, List.prefix_rfl, .mark before effect same counted, fun _ => ⟨rfl, rfl⟩⟩
      · obtain ⟨fewer, rest⟩ := split_snoc split whole
        obtain ⟨P, M₁, survives, leads, -⟩ := ih rest
        exact ⟨P, M₁, survives, leads, fun none => absurd none whole⟩

end Leads

/-- What stands in the last data file: elements that are on the disk, and those behind them. -/
structure Contents (T : DatabaseType) (base : Bases) (F : Files) (H : History Nodes)
    (M₀ M₁ M : Memory) (magic : ℕ) (safe pending : List RootElement) : Prop where
  earlier : loadFiles T base true Memory.empty F.earlier = .ok (M₀, .createNew)
  small : magic < 2 ^ 64
  expected : M₀.magic = 0 ∨ M₀.magic = magic
  bytes : F.output.contents = beginBytes T F.earlier.isEmpty magic ++ rootBytes (safe ++ pending)
  kept : (beginBytes T F.earlier.isEmpty magic ++ rootBytes safe).length ≤ F.kept T
  safe : effects T F.earlier.isEmpty base { M₀ with dumpOn := F.earlier.isEmpty } safe = some M₁
  leads : Leads T F.earlier.isEmpty base M₁ pending H M

/-- The data files hold the history of the nodes, and `M` is what loading all of it gives. -/
structure Recorded (T : DatabaseType) (base : Bases) (F : Files) (H : History Nodes) (M : Memory) :
    Prop where
  isOpen : F.isOpen = true
  numbers : F.earlier.map Prod.fst = List.range' 1 F.earlier.length
  number : F.number = F.earlier.length + 1
  fileIndex : F.fileIndex = F.number
  contents : ∃ M₀ M₁ magic safe pending, Contents T base F H M₀ M₁ M magic safe pending

namespace Recorded

theorem loaded (recorded : Recorded T base F H M) : M.nodes = H.current.view := by
  obtain ⟨M₀, M₁, magic, safe, pending, contents⟩ := recorded.contents
  exact contents.leads.loaded

theorem counted (recorded : Recorded T base F H M) : Counted M := by
  obtain ⟨M₀, M₁, magic, safe, pending, contents⟩ := recorded.contents
  exact contents.leads.counted

/-- A new database. -/
theorem created (fits : (newDatabase T).Fits base) :
    ∃ M, Recorded T base (newDatabase T) (.safe fun _ => none) M := by
  have space := fits.2.space
  have marked : (RootElement.ofBody (encodeString (ascii "DUMP END")) false).effect T true base
      { Memory.empty with dumpOn := true } = some { Memory.empty with dumpOn := false } :=
    effect_dumpEnd rfl (by omega)
  have empty (M : Memory) (none : M.nodes = fun _ => Option.none) (zero : M.counter = 1) :
      Counted M := by
    refine ⟨fun id present => ?_, ?_⟩
    · rw [none] at present
      cases present
    · rw [zero]
      decide
  have leads : Leads T true base { Memory.empty with dumpOn := true }
      ([] ++ [.ofBody (encodeString (ascii "DUMP END")) false]) (.safe fun _ => none)
      { Memory.empty with dumpOn := false } :=
    (Leads.safe rfl (empty _ rfl rfl)).mark marked rfl (empty _ rfl rfl)
  refine ⟨{ Memory.empty with dumpOn := false }, rfl, rfl, rfl, rfl, Memory.empty,
    { Memory.empty with dumpOn := true }, 0, [], _, ⟨rfl, by decide, .inl rfl, ?_, ?_, rfl, leads⟩⟩
  · show Output.contents (Output.ofFile (beginBytes T true 0 ++ dumpEndBytes)) = _
    rw [Output.contents_ofFile]
    exact congrArg _ (List.append_nil _).symm
  · refine (le_of_eq ?_).trans (le_max_right _ _)
    show _ = (beginBytes T true 0).length
    exact congrArg List.length (List.append_nil _)

/-- Only the contents of the last file and what is on the disk matter. -/
theorem withOutput {output : Output} (recorded : Recorded T base F H M)
    (contents : ∃ M₀ M₁ magic safe pending,
      Contents T base { F with output := output } H' M₀ M₁ M' magic safe pending) :
    Recorded T base { F with output := output } H' M' :=
  ⟨recorded.isOpen, recorded.numbers, recorded.number, recorded.fileIndex, contents⟩

/-- The element of a transaction goes to the end of the last file. -/
theorem write {element : RootElement} {nodes : Nodes} (recorded : Recorded T base F H M)
    (effect : ∀ first, element.effect T first base M = some M') (loaded : M'.nodes = nodes.view)
    (counted : Counted M') :
    Recorded T base { F with output := F.output.bufferedWrite element.bytes } (H.push nodes)
      M' := by
  obtain ⟨M₀, M₁, magic, safe, pending, contents⟩ := recorded.contents
  refine recorded.withOutput ⟨M₀, M₁, magic, safe, pending ++ [element], contents.earlier,
    contents.small, contents.expected, ?_, ?_, contents.safe,
    contents.leads.more (effect _) loaded counted⟩
  · show (F.output.bufferedWrite element.bytes).contents = _
    rw [Output.contents_bufferedWrite, contents.bytes, ← List.append_assoc safe,
      rootBytes_append (safe ++ pending), List.append_assoc]
    congr 2
    exact (List.append_nil _).symm
  · refine contents.kept.trans (le_of_eq ?_)
    show _ = max (F.output.bufferedWrite element.bytes).synced.length _
    rw [Output.synced_bufferedWrite]
    rfl

/-- Everything is on the disk. -/
theorem sync (recorded : Recorded T base F H M) :
    Recorded T base { F with output := F.output.bufferedSync } H.sync M := by
  obtain ⟨M₀, M₁, magic, safe, pending, contents⟩ := recorded.contents
  refine recorded.withOutput ⟨M₀, M, magic, safe ++ pending, [], contents.earlier,
    contents.small, contents.expected, ?_, ?_, ?_, .safe recorded.loaded recorded.counted⟩
  · show F.output.bufferedSync.contents = _
    rw [Output.contents_bufferedSync, contents.bytes, List.append_nil]
  · refine le_trans (le_of_eq ?_) (le_max_left _ _)
    show _ = F.output.bufferedSync.synced.length
    rw [Output.synced_bufferedSync, contents.bytes]
  · rw [effects_append, contents.safe]
    exact contents.leads.effects

/-- The last file is closed, and the next one becomes the last. -/
theorem rotate {nodes : Nodes} (recorded : Recorded T base F (.safe nodes) M)
    (empty : F.output.buffer = []) (magic : Magic)
    (fits : Addressable base (F.output.contents ++ footerBytes magic.number)) :
    ∃ M', Recorded T base ((F.close magic.number).startFile (beginBytes T false magic.number))
      (.safe nodes) M' := by
  obtain ⟨M₀, M₁, old, safe, pending, contents⟩ := recorded.contents
  set M' : Memory := { M with magic := magic.number } with hM'
  have all : effects T F.earlier.isEmpty base { M₀ with dumpOn := F.earlier.isEmpty }
      (safe ++ pending) = some M := by
    rw [effects_append, contents.safe]
    exact contents.leads.effects
  have written : F.output.written = beginBytes T F.earlier.isEmpty old ++
      rootBytes (safe ++ pending) := by
    rw [← contents.bytes, Output.contents, empty, List.append_nil]
  rw [contents.bytes, List.append_assoc] at fits
  obtain ⟨R, closed⟩ := loadFile_success contents.small magic.small contents.expected fits all []
  rw [List.append_nil, ← List.append_assoc, ← written] at closed
  have earlier : loadFiles T base true Memory.empty
      (F.earlier ++ [(F.number, F.output.written ++ footerBytes magic.number)]) =
      .ok (M', .createNew) := by
    rw [loadFiles_concat, contents.earlier]
    simp only [Bool.true_and, lastFile, closed]
    rfl
  have later : (F.earlier ++ [(F.number, F.output.written ++ footerBytes magic.number)]).isEmpty =
      false := by simp
  have header (first : Bool) (same : first = false) :
      beginBytes T first magic.number ++ rootBytes [] = beginBytes T false magic.number := by
    rw [same]
    exact List.append_nil _
  refine ⟨{ M' with dumpOn := false }, rfl, ?_, ?_, rfl, M', { M' with dumpOn := false },
    magic.number, [], [], ⟨earlier, magic.small, .inr rfl, ?_, ?_, ?_, ?_⟩⟩
  · show (F.earlier ++ [(F.number, F.output.written ++ footerBytes magic.number)]).map Prod.fst =
      List.range' 1 (F.earlier ++ [_]).length
    rw [List.map_append, recorded.numbers, List.length_append, recorded.number]
    simp [List.range'_concat, Nat.add_comm]
  · show F.fileIndex + 1 = (F.earlier ++ [_]).length + 1
    rw [recorded.fileIndex, recorded.number, List.length_append]
    rfl
  · show beginBytes T false magic.number ++ F.output.buffer = _
    rw [empty, List.append_nil]
    exact (header _ later).symm
  · refine le_trans (le_of_eq ?_) (le_max_left _ _)
    exact congrArg List.length (header _ later)
  · have flag : ((F.close magic.number).startFile
        (beginBytes T false magic.number)).earlier.isEmpty = false := later
    rw [flag]
    rfl
  · exact .safe recorded.loaded (recorded.counted.fewer (fun _ present => present) rfl)

end Recorded

/-! ## What a crash leaves -/

theorem wholeWithin_append (safe pending : List RootElement) (n : ℕ) :
    wholeWithin ((rootBytes safe).length + n) (safe ++ pending) =
      safe ++ wholeWithin n pending := by
  induction safe with
  | nil =>
      show wholeWithin (0 + n) pending = _
      rw [Nat.zero_add]
      rfl
  | cons element safe ih =>
      have length : (rootBytes (element :: safe)).length + n - element.bytes.length =
          (rootBytes safe).length + n := by
        rw [rootBytes_cons, List.length_append]
        omega
      have fits : element.bytes.length ≤ (rootBytes (element :: safe)).length + n := by
        rw [rootBytes_cons, List.length_append]
        omega
      rw [List.cons_append, wholeWithin, if_pos fits, length, ih]
      rfl

/-- Loading a file that was cut behind its header. -/
theorem loadFile_torn {magic : ℕ} {elements : List RootElement} {tail lost : Bytes}
    (small : magic < 2 ^ 64) (expected : M.magic = 0 ∨ M.magic = magic)
    (fits : Addressable base (beginBytes T first magic ++ rootBytes elements))
    (split : rootBytes elements = tail ++ lost)
    (effect : effects T first base { M with dumpOn := first } (wholeWithin tail.length elements) =
      some M') :
    ∃ R, loadFile T first ⟨Reader.init (beginBytes T first magic ++ tail) base, M⟩ =
      .ok (if tail = rootBytes (wholeWithin tail.length elements) then .unfinished else .corrupted)
        ⟨R, M'⟩ := by
  obtain ⟨fitsBegin, fitsElements⟩ := fits.of_append
  have space : (Reader.init (beginBytes T first magic ++ tail) base).base.top +
      (beginBytes T first magic).length + 1024 ≤ 2 ^ 64 := fitsBegin.space
  obtain ⟨R₁, base₁, file₁, header⟩ := loadHeader_at (M := M) small expected space rfl
  have total := fitsElements.total
  have fuel : tail.length < R₁.file.length + 1 := by
    rw [file₁]
    omega
  obtain ⟨R, loop⟩ := loadElements_cut (by omega) split base₁ file₁ fuel effect
  refine ⟨R, ?_⟩
  rw [loadFile, loadFileBody, bind_ok header, bind_ok (get_run _), loop]
  by_cases boundary : tail = rootBytes (wholeWithin tail.length elements)
  · rw [if_pos boundary, if_pos boundary]
  · rw [if_neg boundary, if_neg boundary]

/-- Loading the last file after a crash leads to one of the states of the history, and the file is
taken for one that ends there only if it does. -/
theorem Contents.loadFile_front {M₀ : Memory} {magic : ℕ} {safe pending : List RootElement}
    (contents : Contents T base F H M₀ M₁ M magic safe pending)
    (fits : Addressable base F.output.contents) {cut lost : Bytes}
    (split : F.output.contents = cut ++ lost) (enough : F.kept T ≤ cut.length) :
    ∃ done P M' R, P.Survives H ∧ Leads T F.earlier.isEmpty base M₁ done P M' ∧
      (lost = [] → P = H ∧ M' = M) ∧
      ((cut = beginBytes T F.earlier.isEmpty magic ++ rootBytes (safe ++ done) ∧
          loadFile T F.earlier.isEmpty ⟨Reader.init cut base, M₀⟩ = .ok .unfinished ⟨R, M'⟩) ∨
        (lost ≠ [] ∧
          loadFile T F.earlier.isEmpty ⟨Reader.init cut base, M₀⟩ = .ok .corrupted ⟨R, M'⟩)) := by
  have length := contents.kept.trans enough
  rw [contents.bytes] at split fits
  rw [rootBytes_append, ← List.append_assoc] at split
  obtain ⟨tail, rfl, rest⟩ : ∃ tail, cut = (beginBytes T F.earlier.isEmpty magic ++
      rootBytes safe) ++ tail ∧ rootBytes pending = tail ++ lost := by
    obtain ⟨more, lost', here⟩ | ⟨tail, here, rest⟩ := split_append split
    · have longer := congrArg List.length here
      have positive := List.length_pos_of_ne_nil lost'
      have both : (cut ++ more).length = cut.length + more.length := List.length_append
      rw [both] at longer
      omega
    · exact ⟨tail, here, rest⟩
  obtain ⟨others, torn, whole, bytes, next⟩ := wholeWithin_cut rest
  obtain ⟨P, M', survives, leads, last⟩ := contents.leads.front whole
  have within := wholeWithin_append safe pending tail.length
  rw [← List.length_append] at within
  have all : effects T F.earlier.isEmpty base { M₀ with dumpOn := F.earlier.isEmpty }
      (safe ++ wholeWithin tail.length pending) = some M' := by
    rw [effects_append, contents.safe]
    exact leads.effects
  have parts : rootBytes (safe ++ pending) = (rootBytes safe ++ tail) ++ lost := by
    rw [rootBytes_append, rest, List.append_assoc]
  have ended (none : lost = []) : others = [] := by
    have same : rootBytes others = torn := by
      rw [none, List.append_nil, whole, rootBytes_append] at rest
      exact List.append_cancel_left (rest.trans bytes)
    by_cases partial_ : torn = []
    · have few := length_le_rootBytes others
      rw [same, partial_] at few
      exact List.eq_nil_of_length_eq_zero (Nat.le_zero.mp few)
    · obtain ⟨element, after, more, rfl, lost', longer⟩ := next partial_
      have positive := List.length_pos_of_ne_nil lost'
      rw [rootBytes_cons, longer] at same
      have lengths := congrArg List.length same
      simp only [List.length_append] at lengths
      omega
  rw [← within] at all
  obtain ⟨R, load⟩ := loadFile_torn contents.small contents.expected fits parts all
  rw [within, ← List.append_assoc] at load
  refine ⟨wholeWithin tail.length pending, P, M', R, survives, leads, fun none => last (ended none),
    ?_⟩
  by_cases boundary : rootBytes safe ++ tail = rootBytes (safe ++ wholeWithin tail.length pending)
  · rw [if_pos boundary] at load
    exact .inl ⟨by rw [List.append_assoc, boundary], load⟩
  · rw [if_neg boundary] at load
    refine .inr ⟨fun none => boundary ?_, load⟩
    rw [ended none, List.append_nil] at whole
    rw [← whole, parts, none, List.append_nil]

/-! ## A closed file that has lost its footer -/

/-- A footer that is not whole ends the loop, and nothing is loaded. -/
theorem loadElements_footer_torn (T : DatabaseType) (first : Bool) (M : Memory) {magic : ℕ}
    {R : Reader} {lost : Bytes} (fits : R.base.top + (footerBytes magic).length + 1024 ≤ 2 ^ 64)
    (torn : footerBytes magic = R.file ++ lost) (lost' : lost ≠ []) :
    ∃ R' : Reader, ∀ fuel, loadElements T first (fuel + 1) ⟨R, M⟩ =
      if R.file = [] then .ok .unfinished ⟨R', M⟩ else .error .failed ⟨R', M⟩ := by
  by_cases ended : R.file = []
  · refine ⟨{ R with file := [] }, fun fuel => ?_⟩
    rw [if_pos ended, loadElements, bind_ok (onReader_ok (readerBegin_end ended) M)]
    rfl
  set text := ascii "END OF FILE" with htext
  set data := encodeString text ++ Writer.trailer (encodeString text) false with hdata
  have room : data.length ≤ 32 := by rw [hdata, htext]; decide
  have split : footerBytes magic =
      frame (encodeString text) false ++ frame (encodeNumber magic) false := rfl
  rw [split, List.length_append, length_frame, length_frame] at fits
  rw [split] at torn
  obtain ⟨more, more', here⟩ | ⟨tail, file, here⟩ := split_append torn
  · have positive : 0 < more.length := List.length_pos_of_ne_nil more'
    have lengths := congrArg List.length here
    have both : (R.file ++ more).length = R.file.length + more.length := List.length_append
    rw [length_frame, both, ← hdata] at lengths
    have failed : readerBegin R = .ok .fail { R with file := [] } :=
      @readerBegin_cut R data (by omega) ended ⟨more, here.symm⟩ (by omega)
    refine ⟨{ R with file := [] }, fun fuel => ?_⟩
    rw [if_neg ended, loadElements, bind_ok (onReader_ok failed M)]
    rfl
  · have begun : onReader readerBegin ⟨R, M⟩ = .ok .success ⟨R.opened tail data, M⟩ :=
      onReader_ok (readerBegin_whole (by omega)
        (by rw [file, frame, ← hdata, List.append_assoc])) M
    set R₀ := R.opened tail data with hR₀
    have wide : R.base.top + data.length + 256 ≤ 2 ^ 64 := by omega
    have start : R₀.At data := Reader.opened_at wide tail
    obtain ⟨n, notBegin⟩ : ∃ n, onReader readDumpBegin ⟨R₀, M⟩ = .error .failed ⟨R₀.skip n, M⟩ :=
      readMark_other (show R₀.At (encodeString text ++ _) from start) rfl (by decide)
    obtain ⟨k, notEnd⟩ : ∃ n, onReader readDumpEnd ⟨R₀, M⟩ = .error .failed ⟨R₀.skip n, M⟩ :=
      readMark_other (show R₀.At (encodeString text ++ _) from start) rfl (by decide)
    have read := reads_rCheckString text 0 R₀ _ start le_rfl (show (0 : ℤ) + 0 < 2 ^ 31 by decide)
    have finished := readerFinish_trailer (R := R₀.skip (encodeString text).length)
      (Reader.opened_fits wide tail) hdata rfl rfl (show false = true → false = true from id)
    set R₁ := (R₀.skip (encodeString text).length).skip
      (Writer.trailer (encodeString text) false).length with hR₁
    have short : R₁.file = tail := rfl
    have second : (do
        let status ← readerBegin
        check (status = .success)
        pure () : ReaderM Unit) R₁ = .error .failed { R₁ with file := [] } := by
      refine begun_short ?_ lost' (here.trans (congrArg (· ++ lost) short.symm))
      rw [length_frame]
      omega
    have failed : onReader (do
        rCheckString (ascii "END OF FILE")
        readerFinish false
        let status ← readerBegin
        check (status = ReadStatus.success)) ⟨R₀, M⟩ =
        .error .failed ⟨{ R₁ with file := [] }, M⟩ := by
      refine onReader_error ?_ _
      rw [← htext, bind_ok read, bind_ok finished]
      simpa only [bind_pure_unit] using second
    have footer : readFileFooter ⟨R₀, M⟩ = .error .failed ⟨{ R₁ with file := [] }, M⟩ := by
      unfold readFileFooter
      exact bind_error failed
    have mark : loadMark ⟨R₀, M⟩ = .error .failed ⟨{ R₁ with file := [] }, M⟩ := by
      unfold loadMark
      rw [bind_ok (attempt_failed notBegin)]
      simp only [Bool.false_eq_true, if_false]
      rw [bind_ok (rewind_skip rfl n), bind_ok (attempt_failed notEnd)]
      simp only [Bool.false_eq_true, if_false]
      rw [bind_ok (rewind_skip rfl k), bind_ok (attempt_failed footer)]
      rfl
    refine ⟨{ R₁ with file := [] }, fun fuel => ?_⟩
    rw [if_neg ended, loadElements, bind_ok begun]
    simp only
    exact bind_error ((loadElement_mark (by decide)
      (show R₀.At (encodeString text ++ _) from start)).trans mark)

/-- A file whose footer is not whole is loaded to its footer, but it is not a closed one. -/
theorem loadFile_footer_torn {magic next : ℕ} {elements : List RootElement} {tail lost : Bytes}
    (small : magic < 2 ^ 64) (expected : M.magic = 0 ∨ M.magic = magic)
    (fits : Addressable base
      (beginBytes T first magic ++ (rootBytes elements ++ footerBytes next)))
    (torn : footerBytes next = tail ++ lost) (lost' : lost ≠ [])
    (effect : effects T first base { M with dumpOn := first } elements = some M') :
    ∃ R status, loadFile T first
      ⟨Reader.init (beginBytes T first magic ++ (rootBytes elements ++ tail)) base, M⟩ =
        .ok status ⟨R, M'⟩ ∧ status ≠ .success := by
  obtain ⟨fitsBegin, fitsRest⟩ := fits.of_append
  obtain ⟨fitsElements, fitsFooter⟩ := fitsRest.of_append
  have space : (Reader.init (beginBytes T first magic ++ (rootBytes elements ++ tail)) base).base.top +
      (beginBytes T first magic).length + 1024 ≤ 2 ^ 64 := fitsBegin.space
  obtain ⟨R₁, base₁, file₁, header⟩ := loadHeader_at (M := M) small expected space rfl
  have total := fitsElements.total
  obtain ⟨R₂, base₂, file₂, steps⟩ := loadElements_effects (by omega) base₁ file₁ effect
  have there : R₂.base = base := base₂
  rw [← there] at fitsFooter
  rw [← file₂] at torn
  obtain ⟨R₃, footer⟩ := loadElements_footer_torn T first M' fitsFooter.space torn lost'
  have enough := length_le_rootBytes elements
  obtain ⟨spare, fuel⟩ : ∃ n, R₁.file.length + 1 = n + 1 + elements.length :=
    ⟨R₁.file.length - elements.length, by rw [file₁, List.length_append]; omega⟩
  have loop : loadElements T first (R₁.file.length + 1) ⟨R₁, { M with dumpOn := first }⟩ =
      if R₂.file = [] then .ok .unfinished ⟨R₃, M'⟩ else .error .failed ⟨R₃, M'⟩ := by
    rw [fuel, steps, footer]
  by_cases ended : R₂.file = []
  · refine ⟨R₃, .unfinished, ?_, by decide⟩
    rw [loadFile, loadFileBody, bind_ok header, bind_ok (get_run _), loop, if_pos ended]
  · refine ⟨R₃, .corrupted, ?_, by decide⟩
    rw [loadFile, loadFileBody, bind_ok header, bind_ok (get_run _), loop, if_neg ended]

theorem loadFiles_append {before : List (ℕ × Bytes)} (others : List (ℕ × Bytes))
    (loaded : loadFiles T base first M before = .ok (M', .createNew)) :
    loadFiles T base first M (before ++ others) =
      loadFiles T base (first && before.isEmpty) M' others := by
  induction before generalizing first M with
  | nil =>
      cases loaded
      rw [List.nil_append, List.isEmpty_nil, Bool.and_true]
  | cons file before ih =>
      rw [loadFiles] at loaded
      rw [List.cons_append, loadFiles, List.isEmpty_cons, Bool.and_false]
      cases load : loadFile T first ⟨Reader.init file.2 base, M⟩ with
      | error e s =>
          rw [load] at loaded
          cases loaded
      | ok status s =>
          rw [load] at loaded
          cases status with
          | success => exact (ih loaded).trans (by rw [Bool.false_and])
          | unfinished =>
              simp only at loaded
              split at loaded <;> cases loaded
          | corrupted => cases loaded

/-- The loop over the files ends at the one without its footer. -/
theorem Recorded.load_torn (recorded : Recorded T base F H M) {next : ℕ} {tail lost : Bytes}
    (fits : Addressable base (F.output.contents ++ footerBytes next))
    (torn : footerBytes next = tail ++ lost) (lost' : lost ≠ []) {later : List (ℕ × Bytes)}
    (more : later ≠ []) :
    loadFiles T base true Memory.empty
      (F.earlier ++ (F.number, F.output.contents ++ tail) :: later) = .ok (M, .readOnly) := by
  obtain ⟨M₀, M₁, magic, safe, pending, contents⟩ := recorded.contents
  have all : effects T F.earlier.isEmpty base { M₀ with dumpOn := F.earlier.isEmpty }
      (safe ++ pending) = some M := by
    rw [effects_append, contents.safe]
    exact contents.leads.effects
  rw [contents.bytes, List.append_assoc] at fits
  obtain ⟨R, status, load, other⟩ :=
    loadFile_footer_torn contents.small contents.expected fits torn lost' all
  rw [← List.append_assoc, ← contents.bytes] at load
  rw [loadFiles_append _ contents.earlier, Bool.true_and, loadFiles, load]
  cases status with
  | success => exact absurd rfl other
  | unfinished => exact congrArg (fun ending => Except.ok (M, ending)) (if_neg more)
  | corrupted => rfl

theorem noHoles_of_numbers {files : List (ℕ × Bytes)} {n : ℕ}
    (numbers : files.map Prod.fst = List.range' 1 n) : NoHoles files := by
  intro first last head tail
  have count : files.length = n := by
    rw [← List.length_map (f := Prod.fst), numbers, List.length_range']
  have front := congrArg List.head? numbers
  have back := congrArg List.getLast? numbers
  rw [List.head?_map, head] at front
  rw [List.getLast?_map, tail] at back
  cases n with
  | zero => cases front
  | succ n =>
      rw [List.range'_succ] at front
      rw [List.range'_concat, List.getLast?_concat] at back
      have one : first.1 = 1 := Option.some.inj front
      have top : last.1 = 1 + 1 * n := Option.some.inj back
      rw [one, top, count]
      push_cast
      ring

namespace Recorded

theorem numbers_concat (recorded : Recorded T base F H M) (content : Bytes) :
    (F.earlier ++ [(F.number, content)]).map Prod.fst = List.range' 1 (F.earlier.length + 1) := by
  rw [List.map_append, recorded.numbers, recorded.number]
  simp [List.range'_concat, Nat.add_comm]

/-- The loop of `load_data` after a crash finds one of the states of the history. -/
theorem reload (recorded : Recorded T base F H M) (fits : F.Fits base) {cut : Bytes}
    (front : cut <+: F.output.contents) (enough : F.kept T ≤ cut.length) :
    ∃ P M' ending, P.Survives H ∧ M'.nodes = P.current.view ∧ Counted M' ∧
      loadFiles T base true Memory.empty (F.earlier ++ [(F.number, cut)]) = .ok (M', ending) ∧
      ending ≠ .createNew ∧ (cut = F.output.contents → P = H ∧ ending = .append) ∧
      (ending = .append → ∀ output : Output, output.contents = cut →
        output.synced = F.output.synced → Recorded T base { F with output := output } P M') := by
  obtain ⟨M₀, M₁, magic, safe, pending, contents⟩ := recorded.contents
  obtain ⟨lost, split⟩ := front
  obtain ⟨done, P, M', R, survives, leads, all, outcome⟩ :=
    contents.loadFile_front fits.2 split.symm enough
  have whole (same : cut = F.output.contents) : lost = [] := by
    rw [same] at split
    exact List.append_right_eq_self.mp split
  have chain : loadFiles T base true Memory.empty (F.earlier ++ [(F.number, cut)]) =
      lastFile T base F.earlier.isEmpty M₀ cut := by
    rw [loadFiles_concat, contents.earlier, Bool.true_and]
  obtain ⟨boundary, load⟩ | ⟨lost', load⟩ := outcome
  · refine ⟨P, M', .append, survives, leads.loaded, leads.counted, ?_, by decide,
      fun same => ⟨(all (whole same)).1, rfl⟩, fun _ output holds synced => ?_⟩
    · rw [chain, lastFile, load]
    · refine recorded.withOutput ⟨M₀, M₁, magic, safe, done, contents.earlier, contents.small,
        contents.expected, holds.trans boundary, contents.kept.trans (le_of_eq ?_), contents.safe,
        leads⟩
      show max _ _ = max _ _
      rw [synced]
  · refine ⟨P, M', .readOnly, survives, leads.loaded, leads.counted, ?_, by decide,
      fun same => absurd (whole same) lost', fun same => absurd same (by decide)⟩
    rw [chain, lastFile, load]

end Recorded

/-! ## Opening the database again -/

theorem written_schema (fits : Addressable base T.schema.file) :
    written (writeSchema T) = .ok T.schema.file := by
  have space := fits.space
  have length := length_frame T.schema.encode true
  have payload := length_payload_le T.schema.encode true
  have total : T.schema.encode.length + 256 ≤ 2 ^ 64 := by
    rw [Schema.file] at space
    omega
  have same : written (writeSchema T) = written T.schema.write :=
    congrArg written (funext (writeSchema_eq T))
  rw [same]
  exact written_of_writes (T.schema.writes total)

/-- The schema that `write_schema` has written is accepted. -/
theorem schemaAccepted_written {schema : Bytes} (stored : written (writeSchema T) = .ok schema)
    (fits : Addressable base T.schema.file) : SchemaAccepted T base schema := by
  have space := fits.space
  rw [written_schema fits] at stored
  obtain rfl := Except.ok.inj stored
  have passed (R : Reader) : check (ReadStatus.success = .success) R = .ok () R := rfl
  have length := length_frame T.schema.encode true
  have room : base.top + (T.schema.encode ++ Writer.trailer T.schema.encode true).length + 256 ≤
      2 ^ 64 := by
    rw [Schema.file] at space
    omega
  obtain ⟨R', -, -, begun, body, finished⟩ := readElement_at
    (R := Reader.init T.schema.file base) T.schema.reads (by decide) room
    (show T.schema.file = frame T.schema.encode true ++ [] from (List.append_nil _).symm)
    (show true = true → true = true from id)
  refine ⟨R', ?_⟩
  rw [readSchema_eq, Schema.read, bind_ok begun, bind_ok (passed _), bind_ok body, finished]

/-- `load_data` where the last file was loaded to its end, or was found to be corrupted. -/
theorem loadData_last {directory : Directory} {schema content : Bytes} {number : ℕ}
    {before : List (ℕ × Bytes)} {ending : FilesEnd}
    (present : directory.schema = some schema) (accepted : SchemaAccepted T base schema)
    (files : directory.files = before ++ [(number, content)]) (full : NoHoles directory.files)
    (loaded : loadFiles T base true Memory.empty directory.files = .ok (M, ending))
    (opened : ending ≠ .createNew) (readOnly create : Bool) :
    ∃ D, loadData T base (Opening.start readOnly create directory) = .ok D ∧ D.memory = M ∧
      D.directory.files = directory.files ∧
      D.readOnly = (readOnly || decide (ending = .readOnly)) ∧
      (D.readOnly = false → D.descriptor = .file number ∧ D.fileIndex = number) := by
  have last : directory.files.getLast? = some (number, content) := by
    rw [files]
    exact List.getLast?_concat
  have checked := checkSchema_of (D := Opening.start readOnly create directory) present accepted
  obtain ⟨first, head⟩ : ∃ first, directory.files.head? = some first := by
    cases head : directory.files.head? with
    | some first => exact ⟨first, rfl⟩
    | none =>
        rw [List.head?_eq_none_iff.mp head] at last
        cases last
  have numbered : checkNumbers (Opening.start readOnly create directory) =
      .ok { Opening.start readOnly create directory with fileIndex := number } := by
    have count := full first _ head last
    unfold checkNumbers
    simp only [Opening.start, head, last]
    exact if_pos count
  have kept : decide (ending = .createNew) = false := decide_eq_false opened
  set D₁ : Opening := { Opening.start readOnly create directory with
    fileIndex := number
    memory := M
    readOnly := readOnly || decide (ending = .readOnly) } with hD₁
  have load (D : Opening)
      (open_ : openForWriting T D₁ (ending = .createNew) directory.files = .ok D) :
      loadData T base (Opening.start readOnly create directory) = .ok D :=
    exceptBind_eq_ok.mpr ⟨_, checked, exceptBind_eq_ok.mpr ⟨_, numbered,
      exceptBind_eq_ok.mpr ⟨(M, ending), loaded, open_⟩⟩⟩
  by_cases locked : D₁.readOnly = true
  · refine ⟨{ D₁ with descriptor := .devNull }, load _ ?_, rfl, rfl, rfl, fun writable => ?_⟩
    · rw [openForWriting, if_pos locked]
    · exact absurd (locked.symm.trans writable) (by decide)
  · refine ⟨{ D₁ with descriptor := .file number }, load _ ?_, rfl, rfl, rfl, fun _ => ⟨rfl, rfl⟩⟩
    rw [openForWriting, if_neg locked]
    refine exceptBind_eq_ok.mpr ⟨D₁, ?_, ?_⟩
    · rw [createFile, kept]
      rfl
    · rw [last]
      rfl

end HybridDatabase.Service
