/-
# The grammar of the format

What the description of the format accepts, apart from any program: a string is a code of
its length and the contents, an array has its items between two brackets, and a root
element is an element in a frame.  A length has more than one code; the writer uses the
shortest.

`Opens` is an element that is not finished yet: the items that are complete in each of its
open arrays.
-/

import HybridDatabase.Storage.Skip

namespace HybridDatabase.Storage

open HybridDatabase.Base

/-! ## Elements -/

/-- A code of this number. -/
def IsCode (n : ℕ) (code : Bytes) : Prop :=
  ∃ first tail, code = first :: tail ∧ stString ≤ first.toNat ∧ tail.length = codeTail first ∧
    codeValue first tail = n

mutual

/-- The bytes decode to the tree. -/
def Tree.Matches : Tree → Bytes → Prop
  | .string contents, bytes =>
      ∃ code, IsCode (contents.length + stString) code ∧ bytes = code ++ contents
  | .array items, bytes => ∃ inner, Tree.MatchesItems items inner ∧ bytes = encodeArray inner

/-- The bytes decode to the trees one after another. -/
def Tree.MatchesItems : List Tree → Bytes → Prop
  | [], bytes => bytes = []
  | tree :: items, bytes =>
      ∃ front rest, tree.Matches front ∧ Tree.MatchesItems items rest ∧ bytes = front ++ rest

end

/-- The bytes are an element, a checksum that is right if there is to be one, and the dot. -/
def IsPayload (tree : Tree) (checksum : Bool) (data : Bytes) : Prop :=
  ∃ body, tree.Matches body ∧ data = body ++ Writer.trailer body checksum

/-- The bytes are a root element; the length in the header is that of what follows. -/
def IsRoot (tree : Tree) (checksum : Bool) (bytes : Bytes) : Prop :=
  ∃ data, IsPayload tree checksum data ∧ data.length < 2 ^ 64 ∧
    bytes = Writer.frameHeader data.length ++ data

/-- The bytes are root elements. -/
def AreRoots : List (Tree × Bool) → Bytes → Prop
  | [], bytes => bytes = []
  | (tree, checksum) :: elements, bytes =>
      ∃ front rest, IsRoot tree checksum front ∧ AreRoots elements rest ∧ bytes = front ++ rest

/-- No root element stands at the begin. -/
def NoRoot (bytes : Bytes) : Prop :=
  ∀ tree checksum front, IsRoot tree checksum front → ¬front <+: bytes

theorem shiftIn_lt_mul (len : ℕ) (bytes : Bytes) :
    shiftIn len bytes < (len + 1) * 256 ^ bytes.length := by
  induction bytes with
  | nil => simp
  | cons byte bytes ih =>
      have low : byte.toNat < 256 := byte.toNat_lt
      rw [shiftIn_cons, List.length_cons, pow_succ, ← Nat.mul_assoc]
      omega

/-- A first byte says with `l` ones how many bytes follow, and has `7 - l` bits for the number. -/
theorem firstByte_room : ∀ i < 256, 0x80 ≤ i → i ≠ 0xFF →
    leadingOnes 8 i ≤ 7 ∧
      ((i &&& (0xFF >>> leadingOnes 8 i)) + 1) * 256 ^ leadingOnes 8 i ≤
        2 ^ (7 * (leadingOnes 8 i + 1)) := by
  decide +kernel

/-- A code of `l + 1` bytes, the longest form apart, has room for seven bits in each. -/
theorem codeValue_lt_of_short {first : UInt8} {tail : Bytes}
    (length : tail.length = codeTail first) (short : first ≠ 0xFF) :
    codeTail first ≤ 7 ∧ codeValue first tail < 2 ^ (7 * (codeTail first + 1)) := by
  have byte : first.toNat < 256 := first.toNat_lt
  unfold codeValue codeTail at *
  by_cases low : first < 0x80
  · have small := UInt8.lt_iff_toNat_lt.mp low
    rw [if_pos low, if_pos low]
    exact ⟨Nat.zero_le 7, small⟩
  · rw [if_neg low, if_neg short] at length ⊢
    rw [if_neg low, if_neg short]
    have high : 0x80 ≤ first.toNat := Nat.not_lt.mp fun less => low (UInt8.lt_iff_toNat_lt.mpr less)
    have other : first.toNat ≠ 0xFF := fun same => short (UInt8.toNat_inj.mp same)
    obtain ⟨few, room⟩ := firstByte_room first.toNat byte high other
    have small := shiftIn_lt_mul (first.toNat &&& (0xFF >>> leadingOnes 8 first.toNat)) tail
    rw [length] at small
    exact ⟨few, small.trans_le room⟩

/-- No code has a number that does not fit into 64 bits. -/
theorem codeValue_lt {first : UInt8} {tail : Bytes} (length : tail.length = codeTail first) :
    codeValue first tail < 2 ^ 64 := by
  by_cases full : first = 0xFF
  · subst full
    have small := shiftIn_lt tail
    rw [length] at small
    exact small
  · obtain ⟨few, small⟩ := codeValue_lt_of_short length full
    have fits : 7 * (codeTail first + 1) ≤ 64 := by omega
    exact small.trans_le (Nat.pow_le_pow_right (by decide) fits)

theorem isCode_writeNumberCode {n : ℕ} (low : stString ≤ n) (fits : n < 2 ^ 64) :
    IsCode n (writeNumberCode n) := by
  obtain ⟨first, tail, code, length, -, value, high⟩ := writeNumberCode_spec n fits
  exact ⟨first, tail, code, high low, length, value⟩

mutual

/-- What the writer writes decodes to the tree. -/
theorem Tree.matches_encode : ∀ (tree : Tree), tree.encode.length + 256 ≤ 2 ^ 64 →
    tree.Matches tree.encode
  | .string contents, total => by
      simp only [Tree.encode, encodeString, List.length_append] at total
      exact ⟨_, isCode_writeNumberCode (Nat.le_add_left _ _) (by simp only [stString]; omega), rfl⟩
  | .array items, total => by
      simp only [Tree.encode, encodeArray, List.length_cons, List.length_append] at total
      exact ⟨_, Tree.matchesItems_encodeItems items (by omega), rfl⟩

theorem Tree.matchesItems_encodeItems : ∀ (items : List Tree),
    (Tree.encodeItems items).length + 256 ≤ 2 ^ 64 →
    Tree.MatchesItems items (Tree.encodeItems items)
  | [], _ => rfl
  | tree :: items, total => by
      simp only [Tree.encodeItems, List.length_append] at total
      exact ⟨_, _, Tree.matches_encode tree (by omega),
        Tree.matchesItems_encodeItems items (by omega), rfl⟩

end

theorem Tree.matchesItems_append {items others : List Tree} {front rest : Bytes}
    (first : Tree.MatchesItems items front) (second : Tree.MatchesItems others rest) :
    Tree.MatchesItems (items ++ others) (front ++ rest) := by
  induction items generalizing front with
  | nil =>
      obtain rfl : front = [] := first
      exact second
  | cons tree items ih =>
      obtain ⟨a, b, here, later, rfl⟩ := first
      exact ⟨a, b ++ rest, here, ih later, List.append_assoc a b rest⟩

theorem Tree.matchesItems_singleton {tree : Tree} {bytes : Bytes} (here : tree.Matches bytes) :
    Tree.MatchesItems [tree] bytes := ⟨bytes, [], here, rfl, (List.append_nil bytes).symm⟩

/-! ## Unfinished elements -/

/-- The bytes open arrays, and these items are complete in them; the innermost array comes
first. -/
def Opens : List (List Tree) → Bytes → Prop
  | [], done => done = []
  | items :: outer, done =>
      ∃ before inner, Opens outer before ∧ Tree.MatchesItems items inner ∧
        done = before ++ stArrayBegin :: inner

/-- What the writer writes for an unfinished element. -/
def encodeOpens : List (List Tree) → Bytes
  | [] => []
  | items :: outer => encodeOpens outer ++ stArrayBegin :: Tree.encodeItems items

variable {items : List Tree} {outer : List (List Tree)} {done : Bytes}

theorem Opens.opening {stack : List (List Tree)} (opens : Opens stack done) :
    Opens ([] :: stack) (done ++ [stArrayBegin]) := ⟨done, [], opens, rfl, rfl⟩

/-- One more item. -/
theorem Opens.item (opens : Opens (items :: outer) done) {tree : Tree} {bytes : Bytes}
    (here : tree.Matches bytes) : Opens ((items ++ [tree]) :: outer) (done ++ bytes) := by
  obtain ⟨before, inner, opened, inside, rfl⟩ := opens
  refine ⟨before, inner ++ bytes, opened,
    Tree.matchesItems_append inside (Tree.matchesItems_singleton here), ?_⟩
  rw [List.append_assoc, List.cons_append]

/-- The innermost array is closed. -/
theorem Opens.closing (opens : Opens (items :: outer) done) :
    ∃ before bytes, Opens outer before ∧ (Tree.array items).Matches bytes ∧
      done ++ [stArrayEnd] = before ++ bytes := by
  obtain ⟨before, inner, opened, inside, rfl⟩ := opens
  refine ⟨before, encodeArray inner, opened, ⟨inner, inside, rfl⟩, ?_⟩
  rw [encodeArray, List.append_assoc, List.cons_append]

theorem encodeItems_append (items others : List Tree) :
    Tree.encodeItems (items ++ others) = Tree.encodeItems items ++ Tree.encodeItems others := by
  induction items with
  | nil => rfl
  | cons tree items ih => rw [List.cons_append, Tree.encodeItems, Tree.encodeItems, ih, List.append_assoc]

theorem encodeOpens_item (items : List Tree) (outer : List (List Tree)) (tree : Tree) :
    encodeOpens ((items ++ [tree]) :: outer) = encodeOpens (items :: outer) ++ tree.encode := by
  rw [encodeOpens, encodeOpens, encodeItems_append, List.append_assoc, List.cons_append,
    Tree.encodeItems, Tree.encodeItems, List.append_nil]

theorem encodeOpens_closing (items : List Tree) (outer : List (List Tree)) :
    encodeOpens (items :: outer) ++ [stArrayEnd] =
      encodeOpens outer ++ (Tree.array items).encode := by
  rw [encodeOpens, Tree.encode, encodeArray, List.append_assoc, List.cons_append]

end HybridDatabase.Storage
