/-
# What a load refuses

`Refuses` is the other half of `Loads`: it says in front of which bytes a load fails.
A transaction is refused where it has no record, or where a record writes to an
attribute of a node a string that `attribute_load` does not take.
-/

import HybridDatabase.Database.Elements

namespace HybridDatabase.Database

open HybridDatabase.Base HybridDatabase.Storage

/-! ## The rules -/

/-- In front of `enc`, where `follow` holds of what comes behind it, `m` fails. -/
def Refuses {α : Type} (follow : Bytes → Prop) (d : ℕ) (m : LoadM α) (M : Memory)
    (enc : Bytes) : Prop :=
  ∀ (R : Reader) (rest : Bytes), follow rest → R.At (enc ++ rest) → 0 ≤ R.depth →
    R.depth + d < 2 ^ 31 → ∃ s, m ⟨R, M⟩ = .error .failed s

namespace Refuses

variable {α β : Type} {follow : Bytes → Prop} {d : ℕ} {M M₁ : Memory} {a : α} {enc enc' : Bytes}

theorem failed : Refuses follow d (throw .failed : LoadM α) M enc :=
  fun R _ _ _ _ _ => ⟨⟨R, M⟩, rfl⟩

/-- The first of two calls fails. -/
theorem now {m : LoadM α} (h : Refuses follow d m M enc) (f : α → LoadM β) :
    Refuses follow d (m >>= f) M enc := by
  intro R rest after at_ lower upper
  obtain ⟨s, fails⟩ := h R rest after at_ lower upper
  exact ⟨s, bind_error fails⟩

/-- The second of two calls fails. -/
theorem later {m : LoadM α} {f : α → LoadM β} (first : Loads anything d m M a M₁ enc)
    (h : Refuses follow d (f a) M₁ enc') : Refuses follow d (m >>= f) M (enc ++ enc') := by
  intro R rest after at_ lower upper
  rw [List.append_assoc] at at_
  rw [bind_ok (first R _ trivial at_ lower upper)]
  exact h (R.skip enc.length) rest after at_.skip lower upper

theorem look {g : Loading → LoadM α} (h : ∀ R, Refuses follow d (g ⟨R, M⟩) M enc) :
    Refuses follow d (get >>= g) M enc := by
  intro R rest after at_ lower upper
  rw [bind_ok (get_run _)]
  exact h R R rest after at_ lower upper

theorem fuel {g : ℕ → LoadM α} (h : ∀ fuel, enc.length < fuel → Refuses follow d (g fuel) M enc) :
    Refuses follow d (loopFuel >>= g) M enc := by
  intro R rest after at_ lower upper
  have looked : loopFuel ⟨R, M⟩ = .ok (R.data.length + 1) ⟨R, M⟩ := rfl
  have enough : enc.length < R.data.length + 1 := by
    obtain ⟨done, data, -⟩ := at_.split
    rw [data, List.length_append, List.length_append]
    omega
  rw [bind_ok looked]
  exact h _ enough R rest after at_ lower upper

theorem nextEnd {f : Next → LoadM α} (h : Refuses arrayEnd d (f .arrayEnd) M []) :
    Refuses arrayEnd d (onReader readerNext >>= f) M [] := by
  rintro R rest ⟨others, rfl⟩ at_ lower upper
  have announced : onReader readerNext ⟨R, M⟩ = .ok .arrayEnd ⟨R, M⟩ :=
    onReader_ok (readerNext_at at_) M
  rw [bind_ok announced]
  exact h R _ ⟨others, rfl⟩ at_ lower upper

/-- Inside an array. -/
theorem inArray {m : LoadM α} (h : Refuses arrayEnd d m M enc) (rest : Bytes) :
    Refuses follow (d + 1) (do onReader readArray; m) M (encodeArray enc ++ rest) := by
  intro R behind after at_ lower upper
  push_cast at upper
  have start : R.At (stArrayBegin :: (enc ++ stArrayEnd :: (rest ++ behind))) := by
    simpa [encodeArray] using at_
  rw [bind_ok (onReader_ok (readArray_at start lower (by omega)) M)]
  have inside := (Reader.At.skip (show R.At ([stArrayBegin] ++ _) from start)).withDepth
    (R.depth + 1)
  exact h _ _ ⟨_, rfl⟩ inside (by show 0 ≤ R.depth + 1; omega)
    (by show R.depth + 1 + d < 2 ^ 31; omega)

/-- Behind an array whose items are taken. -/
theorem behindArray {m : LoadM Unit} {f : LoadM α} {rest : Bytes}
    (items : Loads arrayEnd d m M () M₁ enc) (others : Refuses follow (d + 1) f M₁ rest) :
    Refuses follow (d + 1)
      (do onReader readArray; m; onReader readArrayEnd; f) M (encodeArray enc ++ rest) := by
  have taken : Loads anything (d + 1)
      (do onReader readArray; m; onReader readArrayEnd; pure ()) M () M₁ (encodeArray enc ++ []) :=
    Loads.array items (Loads.pure ())
  have all := later (f := fun _ => f) taken others
  simp only [bind_assoc, pure_bind, List.append_nil] at all
  exact all

end Refuses

/-! ## Records -/

theorem refuses_attributeLoad {type : AttrType} {contents : Bytes}
    (refused : type.ofContents contents = none) {follow : Bytes → Prop} (M : Memory) :
    Refuses follow 0 (onReader (attributeLoad type)) M (encodeString contents) := by
  intro R rest _ at_ lower upper
  obtain ⟨R', fails⟩ := attributeLoad_refused refused at_ lower (by omega)
  exact ⟨_, onReader_error fails M⟩

/-- A record that is not taken is a write to an attribute of a node that is there. -/
theorem Record.read_eq_none {T : DatabaseType} {M : Memory} {record : Record}
    (refused : record.read T M = none) :
    ∃ id index attrType value node, record = .modify id index attrType value ∧
      M.nodes id = some node ∧
      ∀ attr contents, attributeAt T node.type index = some attr →
        attributeContents attrType value = some contents → attr.type.ofContents contents = none := by
  cases record with
  | create type id => cases refused
  | delete id => cases refused
  | modify id index attrType value =>
      rw [Record.read] at refused
      cases present : M.nodes id with
      | none => simp only [present, reduceCtorEq] at refused
      | some node =>
          refine ⟨id, index, attrType, value, node, rfl, present, fun attr contents found stored => ?_⟩
          simpa only [present, found, stored, Option.bind_some, Option.map_eq_none_iff]
            using refused

/-- Such a record is refused behind the number of its event. -/
theorem refuses_readEvent {T : DatabaseType} {M : Memory} {record : Record} {enc : Bytes}
    (small : record.Small T) (stored : record.items = some enc)
    (refused : record.read T M = none) :
    ∃ number items, number < 2 ^ 64 ∧ enc = encodeNumber number ++ items ∧
      Refuses arrayEnd 0 (readEvent T number) M items := by
  obtain ⟨id, index, attrType, value, node, rfl, present, other⟩ := Record.read_eq_none refused
  obtain ⟨idFits, indexFits⟩ := small
  obtain ⟨bytes, hbytes, rfl⟩ := Option.map_eq_some_iff.mp stored
  obtain ⟨contents, same, rfl⟩ := attributeBytes_eq hbytes
  refine ⟨cbeNodeModified, _, by decide, rfl, ?_⟩
  refine Refuses.later (loads_readNumber idFits 0 M)
    (Refuses.later (loads_readNumber (indexFits.trans (by decide)) 0 M) (Refuses.look fun R => ?_))
  rw [toInt_natCast indexFits]
  have positive : ¬ (index : ℤ) < 0 := by omega
  simp only [present, positive, if_false, Int.toNat_natCast]
  cases found : attributeAt T node.type index with
  | none => exact Refuses.failed
  | some attr => exact (refuses_attributeLoad (other attr contents found same) M).now _

/-- Records are refused where one of them is. -/
theorem refuses_readRecords {T : DatabaseType} {records : List Record} {M : Memory} {enc : Bytes}
    (small : ∀ record ∈ records, record.Small T) (refused : recordsRead T M records = none)
    (stored : recordsBytes records = some enc) (total : enc.length < 2 ^ 63) {fuel : ℕ}
    (enough : enc.length < fuel) : Refuses arrayEnd 1 (readRecords T fuel) M enc := by
  induction records generalizing M enc fuel with
  | nil => cases refused
  | cons record records ih =>
      obtain ⟨first, others, hfirst, hothers, rfl⟩ := recordsBytes_cons.mp stored
      obtain ⟨items, hitems, rfl⟩ := Option.map_eq_some_iff.mp hfirst
      rw [List.length_append, length_encodeArray] at total enough
      obtain ⟨fuel, rfl⟩ : ∃ n, fuel = n + 1 := ⟨fuel - 1, by omega⟩
      have fits := small record List.mem_cons_self
      intro R rest follow at_ lower upper
      rw [readRecords_record (by rwa [List.append_assoc] at at_)]
      cases read : record.read T M with
      | none =>
          obtain ⟨number, items, numberFits, rfl, event⟩ := refuses_readEvent fits hitems read
          have inner : Refuses arrayEnd 0
              (do let event ← onReader readNumber
                  readEvent T event
                  onReader readArrayEnd
                  readRecords T fuel) M (encodeNumber number ++ items) :=
            Refuses.later (loads_readNumber numberFits 0 M) (event.now _)
          exact inner.inArray others R rest follow at_ lower upper
      | some M₁ =>
          obtain ⟨number, items, numberFits, rfl, event⟩ :=
            loads_readEvent fits hitems (by omega) read
          have last : Refuses arrayEnd 1 (readRecords T fuel) M₁ others := by
            refine ih (fun record inside => small record (List.mem_cons_of_mem _ inside)) ?_ hothers
              (by omega) (by omega)
            simpa only [recordsRead, read, Option.bind_some] using refused
          have all := Refuses.behindArray
            (Loads.bind (loads_readNumber numberFits 0 M) event) last
          simp only [bind_assoc] at all
          exact all R rest follow at_ lower upper

/-! ## Elements -/

/-- The items of an element that no transaction can be: no record, or one that is refused. -/
theorem refuses_loadItems {T : DatabaseType} {records : List Record} {M : Memory} {enc : Bytes}
    (small : ∀ record ∈ records, record.Small T)
    (refused : records = [] ∨ recordsRead T M records = none)
    (stored : recordsBytes records = some enc) (total : enc.length < 2 ^ 63) (firstFile : Bool) :
    Refuses arrayEnd 1 (loadItems T firstFile) M enc := by
  cases records with
  | nil =>
      cases stored
      exact Refuses.fuel fun fuel _ => Refuses.nextEnd Refuses.failed
  | cons record records =>
      obtain ⟨first, rest, hfirst, -, split⟩ := recordsBytes_cons.mp stored
      obtain ⟨items, -, rfl⟩ := Option.map_eq_some_iff.mp hfirst
      have one : recordsRead T M (record :: records) = none :=
        refused.resolve_left (List.cons_ne_nil record records)
      intro R behind follow at_ lower upper
      have enough : enc.length < R.data.length + 1 := by
        obtain ⟨done, data, -⟩ := at_.split
        rw [data, List.length_append, List.length_append]
        omega
      have here : R.At (encodeArray items ++ (rest ++ behind)) := by
        rwa [split, List.append_assoc] at at_
      rw [loadItems_records here]
      exact refuses_readRecords small one stored total enough R behind follow at_ lower upper

/-- The loop of `load_file` fails at an array whose items are refused. -/
theorem loadElements_refused {T : DatabaseType} {firstFile : Bool} {M : Memory} {items : Bytes}
    (refuses : Refuses arrayEnd 1 (loadItems T firstFile) M items) {R : Reader} {rest : Bytes}
    (fits : R.base.top + (frame (encodeArray items) true).length + 256 ≤ 2 ^ 64)
    (file : R.file = frame (encodeArray items) true ++ rest) (fuel : ℕ) :
    ∃ s, loadElements T firstFile (fuel + 1) ⟨R, M⟩ = .error .failed s := by
  set element := RootElement.ofBody (encodeArray items) true with helement
  have length : (frame (encodeArray items) true).length = 10 + element.data.length :=
    element.length_bytes
  rw [length] at fits
  have small : element.data.length < 2 ^ 64 := by omega
  have begun : onReader readerBegin ⟨R, M⟩ = .ok .success ⟨R.opened rest element.data, M⟩ :=
    readerBegin_element small file M
  set R₀ := R.opened rest element.data with hR₀
  have at_ : R₀.At (encodeArray items ++ Writer.trailer (encodeArray items) true) :=
    Reader.opened_at (by omega) rest
  have array : onReader readerNext ⟨R₀, M⟩ = .ok .arrayBegin ⟨R₀, M⟩ :=
    onReader_ok (readerNext_at (show R₀.At (stArrayBegin :: (items ++ [stArrayEnd] ++ _)) from at_)) M
  have inside : Refuses anything 2 (loadArray T firstFile) M (encodeArray items ++ []) :=
    (refuses.now _).inArray []
  rw [List.append_nil] at inside
  obtain ⟨s, fails⟩ := inside R₀ _ trivial at_ le_rfl (show (0 : ℤ) + 2 < 2 ^ 31 by decide)
  refine ⟨s, ?_⟩
  rw [loadElements, bind_ok begun]
  apply bind_error
  rw [loadElement, bind_ok array]
  exact bind_error fails

end HybridDatabase.Database
