/-
# The paged stack

`FastStack` keeps its items in pages that come and go, so that an item never moves while
it is on the stack.  Only the last page is used in part; an empty stack keeps one page.

A stack holds a list of items.  The address of an item is that of its page and its place
there; it stays the same as long as the item is on the stack, and no two items share one.
So the address of the top item marks a height of the stack.
-/

import Mathlib.Data.List.GetD
import Mathlib.Data.List.Nodup
import Mathlib.Logic.Function.Iterate

namespace HybridDatabase.Utils

universe u

/-! ## The source -/

/-- `page_alloc`: it gives a page that the stack does not use. -/
structure PageAlloc where
  page : List ℕ → ℕ
  fresh : ∀ pages, page pages ∉ pages

/-- `blocks` holds the last page first.  `begin` and `end` are the bounds of the last page,
and `used` is `ptr - begin`.  A popped item stays in its place. -/
structure FastStack (α : Type u) where
  blockCount : ℕ
  blocks : List ℕ
  used : ℕ
  data : ℕ → ℕ → Option α

namespace FastStack

variable {α : Type u} (N : ℕ)

/-- `fstack_init`.  `N` is `fstack_block_size`. -/
def init : FastStack α := ⟨0, [], N, fun _ _ => none⟩

/-- `fstack_empty`. -/
def empty (s : FastStack α) : Bool := s.blockCount = 0

/-- `fstack_size`; the product wraps around for an empty stack. -/
def size (s : FastStack α) : ℕ :=
  if s.blockCount = 0 then s.used - N else (s.blockCount - 1) * N + s.used

/-- The page that `begin`, `ptr` and `end` point into. -/
def last (s : FastStack α) : ℕ := s.blocks.headD 0

/-- `_fstack_expand`. -/
def expand (source : PageAlloc) (s : FastStack α) : FastStack α :=
  { s with
    blockCount := s.blockCount + 1
    blocks := if s.blockCount + 1 ≠ 1 ∨ s.blocks = [] then source.page s.blocks :: s.blocks
      else s.blocks
    used := 0 }

/-- `_fstack_shrink`. -/
def shrink (s : FastStack α) : FastStack α :=
  { s with
    blockCount := s.blockCount - 1
    blocks := if s.blockCount - 1 ≠ 0 then s.blocks.tail else s.blocks
    used := N }

/-- `*ptr++ = item`. -/
def store (s : FastStack α) (item : α) : FastStack α :=
  { s with
    used := s.used + 1
    data := Function.update s.data s.last (Function.update (s.data s.last) s.used (some item)) }

/-- `fstack_push`. -/
def push (source : PageAlloc) (s : FastStack α) (item : α) : FastStack α :=
  if s.used = N then (s.expand source).store item else s.store item

/-- `fstack_top`. -/
def top (s : FastStack α) : Option α := s.data s.last (s.used - 1)

/-- `&fstack_top`. -/
def topAddress (s : FastStack α) : ℕ × ℕ := (s.last, s.used - 1)

/-- `fstack_pop`. -/
def pop (s : FastStack α) : FastStack α :=
  if s.used - 1 = 0 then shrink N { s with used := s.used - 1 }
  else { s with used := s.used - 1 }

/-- `fstack_erase`. -/
def erase (s : FastStack α) : FastStack α := Nat.iterate (shrink N) s.blockCount s

/-! ## What a stack holds -/

/-- The address of the item number `i`. -/
def address (s : FastStack α) (i : ℕ) : ℕ × ℕ := (s.blocks.reverse.getD (i / N) 0, i % N)

/-- The stack holds the items, the last one on top. -/
structure Holds (s : FastStack α) (items : List α) : Prop where
  nodup : s.blocks.Nodup
  bottom : items = [] → s.blockCount = 0 ∧ s.used = N ∧ s.blocks.length ≤ 1
  above : items ≠ [] → s.blockCount = s.blocks.length ∧ 0 < s.blockCount ∧
    0 < s.used ∧ s.used ≤ N ∧ (s.blockCount - 1) * N + s.used = items.length
  entry : ∀ i (h : i < items.length), s.data (s.address N i).1 (s.address N i).2 = some items[i]

variable {N} {s : FastStack α} {items : List α}

theorem holds_init : (init N : FastStack α).Holds N [] where
  nodup := .nil
  bottom _ := ⟨rfl, rfl, Nat.zero_le _⟩
  above nonempty := absurd rfl nonempty
  entry i h := absurd h (Nat.not_lt_zero i)

theorem Holds.empty_iff (holds : s.Holds N items) : s.empty = true ↔ items = [] := by
  rw [empty, decide_eq_true_iff]
  constructor
  · intro zero
    by_contra nonempty
    have := (holds.above nonempty).2.1
    omega
  · exact fun none => (holds.bottom none).1

theorem Holds.size (holds : s.Holds N items) : s.size N = items.length := by
  unfold FastStack.size
  by_cases none : items = []
  · obtain ⟨count, used, -⟩ := holds.bottom none
    rw [if_pos count, used, none]
    simp
  · obtain ⟨-, positive, -, -, length⟩ := holds.above none
    rw [if_neg (by omega), length]

/-- A place in the last page. -/
theorem address_last (nonempty : s.blocks ≠ []) {k : ℕ} (low : k < N) :
    s.address N ((s.blocks.length - 1) * N + k) = (s.last, k) := by
  have quotient : ((s.blocks.length - 1) * N + k) / N = s.blocks.length - 1 := by
    rw [Nat.mul_comm, Nat.mul_add_div (by omega), Nat.div_eq_of_lt low, Nat.add_zero]
  rw [address, quotient, Nat.mul_comm, Nat.mul_add_mod, Nat.mod_eq_of_lt low, last]
  match s.blocks, nonempty with
  | page :: pages, _ =>
      rw [List.reverse_cons, List.length_cons, Nat.add_sub_cancel, List.headD_cons,
        ← List.length_reverse, List.getD_append_right _ _ _ _ (Nat.le_refl _), Nat.sub_self]
      rfl

/-- Different places have different addresses. -/
theorem address_injective (nodup : s.blocks.Nodup) {i j : ℕ} (first : i < s.blocks.length * N)
    (second : j < s.blocks.length * N) (same : s.address N i = s.address N j) : i = j := by
  have bound : ∀ k, k < s.blocks.length * N → k / N < s.blocks.reverse.length := by
    intro k low
    rw [List.length_reverse]
    exact Nat.div_lt_of_lt_mul (by rwa [Nat.mul_comm])
  obtain ⟨pages, places⟩ := Prod.mk.inj same
  rw [List.getD_eq_getElem _ _ (bound i first), List.getD_eq_getElem _ _ (bound j second)] at pages
  have quotients := (List.Nodup.getElem_inj_iff (List.nodup_reverse.mpr nodup)).mp pages
  rw [← Nat.div_add_mod i N, ← Nat.div_add_mod j N, quotients, places]

/-- The top item has the address of the last one. -/
theorem Holds.topAddress (holds : s.Holds N items) (nonempty : items ≠ []) :
    s.topAddress = s.address N (items.length - 1) := by
  obtain ⟨count, positive, some, le, length⟩ := holds.above nonempty
  have place : items.length - 1 = (s.blocks.length - 1) * N + (s.used - 1) := by
    rw [← length, count]
    omega
  rw [place, address_last (List.ne_nil_of_length_pos (count ▸ positive)) (by omega)]
  rfl

theorem Holds.top (holds : s.Holds N items) (nonempty : items ≠ []) :
    s.top = some (items.getLast nonempty) := by
  have last := List.length_pos_iff.mpr nonempty
  have entry := holds.entry (items.length - 1) (by omega)
  rw [← holds.topAddress nonempty] at entry
  rw [FastStack.top, List.getLast_eq_getElem]
  exact entry

theorem Holds.length_le (holds : s.Holds N items) : items.length ≤ s.blocks.length * N := by
  by_cases none : items = []
  · rw [none]
    exact Nat.zero_le _
  · obtain ⟨count, positive, some, le, length⟩ := holds.above none
    rw [← length, ← count]
    have split : s.blockCount * N = (s.blockCount - 1) * N + N := by
      rw [← Nat.succ_mul, Nat.succ_eq_add_one, Nat.sub_add_cancel positive]
    omega

/-- A stack holds one list of items. -/
theorem Holds.unique {items' : List α} (holds : s.Holds N items) (holds' : s.Holds N items') :
    items = items' := by
  have length : items.length = items'.length := holds.size.symm.trans holds'.size
  refine List.ext_getElem length fun i low low' => ?_
  exact Option.some.inj ((holds.entry i low).symm.trans (holds'.entry i low'))

/-- Different items have different addresses. -/
theorem Holds.address_injective (holds : s.Holds N items) {i j : ℕ} (first : i < items.length)
    (second : j < items.length) (same : s.address N i = s.address N j) : i = j :=
  FastStack.address_injective holds.nodup (Nat.lt_of_lt_of_le first holds.length_le)
    (Nat.lt_of_lt_of_le second holds.length_le) same

/-- Pages added at the end do not move items. -/
theorem address_cons (s : FastStack α) {page i : ℕ} {t : FastStack α}
    (blocks : t.blocks = page :: s.blocks) (low : i < s.blocks.length * N) :
    t.address N i = s.address N i := by
  have bound : i / N < s.blocks.reverse.length := by
    rw [List.length_reverse]
    exact Nat.div_lt_of_lt_mul (by rwa [Nat.mul_comm])
  rw [address, address, blocks, List.reverse_cons, List.getD_append _ _ _ _ bound]

/-- There is a place for another item in the last page. -/
structure Room (N : ℕ) (s : FastStack α) (items : List α) : Prop where
  nodup : s.blocks.Nodup
  count : s.blockCount = s.blocks.length
  positive : 0 < s.blockCount
  low : s.used < N
  length : (s.blockCount - 1) * N + s.used = items.length
  entry : ∀ i (h : i < items.length), s.data (s.address N i).1 (s.address N i).2 = some items[i]

theorem Room.nonempty (room : s.Room N items) : s.blocks ≠ [] :=
  List.ne_nil_of_length_pos (room.count ▸ room.positive)

theorem Room.length_lt (room : s.Room N items) : items.length < s.blocks.length * N := by
  have split : s.blockCount * N = (s.blockCount - 1) * N + N := by
    rw [← Nat.succ_mul, Nat.succ_eq_add_one, Nat.sub_add_cancel room.positive]
  have low := room.low
  have length := room.length
  rw [← room.count]
  omega

/-- An item is put in its place, which is that of no other one. -/
theorem Room.store (room : s.Room N items) (item : α) :
    (s.store item).Holds N (items ++ [item]) := by
  have place : s.address N items.length = (s.last, s.used) := by
    rw [← room.length, room.count]
    exact address_last room.nonempty room.low
  have full := room.length_lt
  refine ⟨room.nodup, fun none => by simp at none, fun _ => ⟨room.count, room.positive,
    Nat.succ_pos _, room.low, ?_⟩, fun i inside => ?_⟩
  · have length := room.length
    rw [List.length_append, List.length_singleton]
    show (s.blockCount - 1) * N + (s.used + 1) = _
    omega
  · have same : (s.store item).address N i = s.address N i := rfl
    rw [same]
    show Function.update s.data s.last (Function.update (s.data s.last) s.used (some item))
      (s.address N i).1 (s.address N i).2 = _
    rw [List.length_append, List.length_singleton] at inside
    by_cases here : i = items.length
    · subst here
      rw [place, Function.update_self, Function.update_self, List.getElem_concat_length rfl]
    · have below : i < items.length := by omega
      have apart : s.address N i ≠ (s.last, s.used) := fun same => here <|
        FastStack.address_injective room.nodup (by omega) full (same.trans place.symm)
      rw [List.getElem_append_left below, ← room.entry i below]
      by_cases page : (s.address N i).1 = s.last
      · have other : (s.address N i).2 ≠ s.used := fun used => apart (Prod.ext page used)
        rw [page, Function.update_self, Function.update_of_ne other]
      · rw [Function.update_of_ne page]

/-- A full stack takes another page. -/
theorem Holds.room (holds : s.Holds N items) (positive : 0 < N) (source : PageAlloc) :
    (if s.used = N then s.expand source else s).Room N items ∧
      ∀ i < items.length, (if s.used = N then s.expand source else s).address N i =
        s.address N i := by
  by_cases full : s.used = N
  · rw [if_pos full]
    by_cases none : items = []
    · subst none
      obtain ⟨count, -, few⟩ := holds.bottom rfl
      refine ⟨?_, fun i inside => absurd inside (Nat.not_lt_zero i)⟩
      have blocks : (s.expand source).blocks.length = 1 ∧ (s.expand source).blocks.Nodup := by
        unfold expand
        by_cases fresh : s.blocks = []
        · rw [if_pos (.inr fresh), fresh]
          exact ⟨rfl, List.nodup_singleton _⟩
        · rw [if_neg (by rw [count]; simpa using fresh)]
          have some := List.length_pos_iff.mpr fresh
          show s.blocks.length = 1 ∧ s.blocks.Nodup
          exact ⟨by omega, holds.nodup⟩
      refine ⟨blocks.2, ?_, Nat.succ_pos _, positive, ?_, fun i inside => ?_⟩
      · rw [blocks.1, expand, count]
      · rw [expand, count]
        simp
      · exact absurd inside (Nat.not_lt_zero i)
    · obtain ⟨count, some, -, -, length⟩ := holds.above none
      have blocks : (s.expand source).blocks = source.page s.blocks :: s.blocks :=
        if_pos (.inl (by omega))
      have same : ∀ i < items.length, (s.expand source).address N i = s.address N i :=
        fun i inside => address_cons s blocks (Nat.lt_of_lt_of_le inside holds.length_le)
      refine ⟨⟨?_, ?_, Nat.succ_pos _, positive, ?_, fun i inside => ?_⟩, same⟩
      · rw [blocks]
        exact List.nodup_cons.mpr ⟨source.fresh s.blocks, holds.nodup⟩
      · rw [blocks, List.length_cons, ← count]
        rfl
      · show (s.blockCount + 1 - 1) * N + 0 = _
        have split : s.blockCount * N = (s.blockCount - 1) * N + N := by
          rw [← Nat.succ_mul, Nat.succ_eq_add_one, Nat.sub_add_cancel some]
        rw [Nat.add_sub_cancel, split]
        omega
      · rw [same i inside]
        exact holds.entry i inside
  · rw [if_neg full]
    have nonempty : items ≠ [] := fun none => full (holds.bottom none).2.1
    obtain ⟨count, some, -, le, length⟩ := holds.above nonempty
    exact ⟨⟨holds.nodup, count, some, Nat.lt_of_le_of_ne le full, length, holds.entry⟩,
      fun _ _ => rfl⟩

/-- A push. -/
theorem Holds.push (holds : s.Holds N items) (positive : 0 < N) (source : PageAlloc) (item : α) :
    (s.push N source item).Holds N (items ++ [item]) ∧
      ∀ i < items.length, (s.push N source item).address N i = s.address N i := by
  obtain ⟨room, same⟩ := holds.room positive source
  unfold FastStack.push
  split
  · next full =>
      rw [if_pos full] at room
      simp only [if_pos full] at same
      exact ⟨room.store item, same⟩
  · next free =>
      rw [if_neg free] at room
      exact ⟨room.store item, fun _ _ => rfl⟩

/-- Several pushes. -/
theorem Holds.foldl_push (holds : s.Holds N items) (positive : 0 < N) (source : PageAlloc)
    (others : List α) :
    (others.foldl (fun s item => s.push N source item) s).Holds N (items ++ others) ∧
      ∀ i < items.length,
        (others.foldl (fun s item => s.push N source item) s).address N i = s.address N i := by
  induction others generalizing s items with
  | nil => exact ⟨(List.append_nil items).symm ▸ holds, fun _ _ => rfl⟩
  | cons item others ih =>
      obtain ⟨pushed, same⟩ := holds.push positive source item
      obtain ⟨all, same'⟩ := ih pushed
      rw [List.append_assoc] at all
      refine ⟨all, fun i inside => (same' i ?_).trans (same i inside)⟩
      rw [List.length_append]
      omega

theorem Holds.pop {item : α} (holds : s.Holds N (items ++ [item])) :
    (s.pop N).Holds N items ∧ ∀ i < items.length, (s.pop N).address N i = s.address N i := by
  obtain ⟨count, positive, some, le, length⟩ := holds.above (by simp)
  rw [List.length_append, List.length_singleton] at length
  have entry : ∀ i (h : i < items.length),
      s.data (s.address N i).1 (s.address N i).2 = Option.some items[i] := by
    intro i inside
    have before := holds.entry i (by rw [List.length_append]; omega)
    rwa [List.getElem_append_left inside] at before
  unfold FastStack.pop
  by_cases last : s.used - 1 = 0
  · rw [if_pos last]
    by_cases bottom : s.blockCount - 1 = 0
    · have none : items = [] := by
        rw [bottom, Nat.zero_mul] at length
        exact List.eq_nil_of_length_eq_zero (by omega)
      subst none
      have blocks : (shrink N { s with used := s.used - 1 }).blocks = s.blocks :=
        if_neg (not_not.mpr bottom)
      refine ⟨⟨by rw [blocks]; exact holds.nodup, fun _ => ⟨bottom, rfl, by rw [blocks]; omega⟩,
        fun nonempty => absurd rfl nonempty, fun i inside => absurd inside (Nat.not_lt_zero i)⟩,
        fun i inside => absurd inside (Nat.not_lt_zero i)⟩
    · have blocks : (shrink N { s with used := s.used - 1 }).blocks = s.blocks.tail := if_pos bottom
      have full : items.length = (s.blockCount - 1) * N := by omega
      have same : ∀ i < items.length,
          (shrink N { s with used := s.used - 1 }).address N i = s.address N i := by
        intro i inside
        have split : s.blocks = s.last :: (shrink N { s with used := s.used - 1 }).blocks := by
          rw [blocks, FastStack.last]
          match s.blocks, List.ne_nil_of_length_pos (count ▸ positive) with
          | page :: pages, _ => rfl
        refine (address_cons _ split ?_).symm
        rw [blocks, List.length_tail, ← count]
        omega
      have nonempty : items ≠ [] := by
        rintro rfl
        rcases Nat.mul_eq_zero.mp full.symm with none | none <;> omega
      refine ⟨⟨by rw [blocks]; exact holds.nodup.tail, fun none => absurd none nonempty,
        fun _ => ⟨?_, by show 0 < s.blockCount - 1; omega, by show 0 < N; omega, Nat.le_refl N,
          ?_⟩, fun i inside => ?_⟩, same⟩
      · rw [blocks, List.length_tail, ← count]
        rfl
      · show (s.blockCount - 1 - 1) * N + N = _
        rw [← Nat.succ_mul, Nat.succ_eq_add_one, Nat.sub_add_cancel (by omega), full]
      · rw [same i inside]
        exact entry i inside
  · rw [if_neg last]
    refine ⟨⟨holds.nodup, fun none => ?_, fun _ => ⟨count, positive, ?_, ?_, ?_⟩, entry⟩,
      fun _ _ => rfl⟩
    · rw [none] at length
      simp only [List.length_nil] at length
      omega
    · show 0 < s.used - 1
      omega
    · show s.used - 1 ≤ N
      omega
    · show (s.blockCount - 1) * N + (s.used - 1) = _
      omega

theorem holds_iterate_shrink {n : ℕ} (nodup : s.blocks.Nodup) (count : s.blockCount = n)
    (bottom : n = 0 → s.used = N ∧ s.blocks.length ≤ 1) (above : 0 < n → n = s.blocks.length) :
    (Nat.iterate (shrink N) n s).Holds N [] := by
  induction n generalizing s with
  | zero =>
      obtain ⟨used, few⟩ := bottom rfl
      exact ⟨nodup, fun _ => ⟨count, used, few⟩, fun nonempty => absurd rfl nonempty,
        fun i inside => absurd inside (Nat.not_lt_zero i)⟩
  | succ n ih =>
      have length := above (Nat.succ_pos n)
      have less : s.blockCount - 1 = n := by omega
      refine ih ?_ less (fun none => ⟨rfl, ?_⟩) fun some => ?_
      · unfold shrink
        split
        · exact nodup.tail
        · exact nodup
      · have blocks : (shrink N s).blocks = s.blocks := if_neg (by omega)
        rw [blocks]
        omega
      · have blocks : (shrink N s).blocks = s.blocks.tail := if_pos (by omega)
        rw [blocks, List.length_tail]
        omega

/-- An erased stack keeps one page. -/
theorem Holds.erase (holds : s.Holds N items) : (FastStack.erase N s).Holds N [] := by
  refine holds_iterate_shrink holds.nodup rfl (fun zero => ?_) fun positive => ?_
  · by_cases none : items = []
    · exact (holds.bottom none).2
    · exact absurd zero (Nat.ne_of_gt (holds.above none).2.1)
  · by_cases none : items = []
    · exact absurd (holds.bottom none).1 (Nat.ne_of_gt positive)
    · exact (holds.above none).1

end FastStack

end HybridDatabase.Utils
