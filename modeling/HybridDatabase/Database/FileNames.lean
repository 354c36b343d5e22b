/-
# The names of the data files

`load_data` looks for the data files of a database in a directory.  A data file is called as
the database, with a dot and digits behind it; the files are put in the order of these
numbers, and a hole between the first and the last one is looked for by counting.

Counting finds a hole only as long as no two names have the same number: `db.1` and `db.01`
fill up what `db.2` leaves.
-/

import Mathlib.Data.List.Nodup
import HybridDatabase.Storage.Format

namespace HybridDatabase.Database

open HybridDatabase.Storage

/-! ## The source -/

def isDigit (c : UInt8) : Bool := 48 ≤ c && c ≤ 57

def isSpace (c : UInt8) : Bool := c = 32 || (9 ≤ c && c ≤ 13)

/-- The number that the digits at the begin of a text denote. -/
def digitsValue (text : Bytes) : ℤ :=
  (text.takeWhile isDigit).foldl (fun value c => 10 * value + ((c.toNat : ℤ) - 48)) 0

/-- `atol`, which does not leave the range of a `long`. -/
def atol (text : Bytes) : ℤ :=
  match text.dropWhile isSpace with
  | [] => 0
  | c :: text =>
      if c = 45 then max (-2 ^ 63) (-digitsValue text)
      else if c = 43 then min (2 ^ 63 - 1) (digitsValue text)
      else min (2 ^ 63 - 1) (digitsValue (c :: text))

/-- The number in the name of a file. -/
def fileNumber (dbName name : Bytes) : ℤ := atol (name.drop dbName.length)

/-- `db_files_select`. -/
def dbFilesSelect : Bytes → Bytes → Bool
  | [], name => name.all isDigit
  | _ :: _, [] => false
  | c :: dbName, d :: name => c = d && dbFilesSelect dbName name

/-- `db_files_sort`. -/
def dbFilesSort (dbName a b : Bytes) : ℤ :=
  if !dbName.isPrefixOf a then 0
  else if !dbName.isPrefixOf b then 0
  else if fileNumber dbName a = fileNumber dbName b then 0
  else if fileNumber dbName a > fileNumber dbName b then 1 else -1

/-- What `scandir` answers with for a directory; how it orders names that compare as equal
is left open. -/
structure Scanned (dbName : Bytes) (listing files : List Bytes) : Prop where
  perm : files.Perm (listing.filter (dbFilesSelect dbName))
  sorted : files.Pairwise fun a b => dbFilesSort dbName a b ≤ 0

/-- The numbers of the files, in order. -/
def numbers (dbName : Bytes) (files : List Bytes) : List ℤ := files.map (fileNumber dbName)

/-- The check of `load_data` for holes. -/
def noneMissing (dbName : Bytes) (files : List Bytes) : Bool :=
  match (numbers dbName files).head?, (numbers dbName files).getLast? with
  | some first, some last => last - first = (files.length : ℤ) - 1
  | _, _ => true

/-! ## Consecutive numbers -/

/-- The numbers from `first` to `last`, each once. -/
def Consecutive (numbers : List ℤ) : Prop :=
  ∀ first ∈ numbers.head?, ∀ last ∈ numbers.getLast?,
    numbers = (List.range ((last - first).toNat + 1)).map fun i : ℕ => first + (i : ℤ)

/-- Numbers that grow, grow by one at least. -/
theorem length_le_of_growing {a last : ℤ} {l : List ℤ} (growing : (a :: l).Pairwise (· < ·))
    (isLast : (a :: l).getLast? = some last) : a + l.length ≤ last := by
  induction l generalizing a with
  | nil =>
      cases isLast
      simp
  | cons b l ih =>
      obtain ⟨first, others⟩ := List.pairwise_cons.mp growing
      have step := first b List.mem_cons_self
      have rest := ih others (by rwa [List.getLast?_cons_cons] at isLast)
      rw [List.length_cons]
      push_cast
      omega

/-- As many growing numbers as there is room for leave no number out. -/
theorem consecutive_of_growing {a last : ℤ} {l : List ℤ} (growing : (a :: l).Pairwise (· < ·))
    (isLast : (a :: l).getLast? = some last) (full : last = a + l.length) :
    a :: l = (List.range (l.length + 1)).map fun i : ℕ => a + (i : ℤ) := by
  induction l generalizing a with
  | nil => simp
  | cons b l ih =>
      obtain ⟨first, others⟩ := List.pairwise_cons.mp growing
      have step := first b List.mem_cons_self
      rw [List.getLast?_cons_cons] at isLast
      have rest := length_le_of_growing others isLast
      rw [List.length_cons] at full
      push_cast at full
      obtain rfl : b = a + 1 := by omega
      have tail := ih others isLast (by omega)
      rw [List.length_cons, List.range_succ_eq_map, List.map_cons, List.map_map, tail]
      refine congrArg₂ List.cons (by simp) (List.map_congr_left fun i _ => ?_)
      simp only [Function.comp_apply, Nat.succ_eq_add_one]
      push_cast
      omega

/-! ## Holes -/

/-- Files that pass the check have consecutive numbers. -/
def FindsHoles (dbName : Bytes) (files : List Bytes) : Prop :=
  noneMissing dbName files = true → Consecutive (numbers dbName files)

variable {dbName : Bytes} {listing files : List Bytes}

theorem isPrefixOf_of_select : ∀ {dbName name : Bytes}, dbFilesSelect dbName name = true →
    dbName.isPrefixOf name = true
  | [], name, _ => by cases name <;> rfl
  | c :: dbName, d :: name, selected => by
      rw [dbFilesSelect, Bool.and_eq_true, decide_eq_true_iff] at selected
      rw [List.isPrefixOf_cons_cons, Bool.and_eq_true, beq_iff_eq]
      exact ⟨selected.1, isPrefixOf_of_select selected.2⟩

/-- The selected files are put in the order of their numbers. -/
theorem Scanned.sorted_numbers (scanned : Scanned dbName listing files) :
    (numbers dbName files).Pairwise (· ≤ ·) := by
  rw [numbers, List.pairwise_map]
  refine scanned.sorted.imp_of_mem fun {a b} insideA insideB ordered => ?_
  have selected {name : Bytes} (inside : name ∈ files) : dbName.isPrefixOf name = true :=
    isPrefixOf_of_select (List.mem_filter.mp (scanned.perm.mem_iff.mp inside)).2
  unfold dbFilesSort at ordered
  rw [selected insideA, selected insideB] at ordered
  simp only [Bool.not_true, Bool.false_eq_true, if_false] at ordered
  split_ifs at ordered with same greater
  · exact same.le
  · omega
  · omega

/-- The check finds every hole exactly where it fails or no two selected names have the same
number. -/
theorem findsHoles_iff (dbName : Bytes) (listing files : List Bytes)
    (scanned : Scanned dbName listing files) :
    FindsHoles dbName files ↔ (noneMissing dbName files = true →
      (numbers dbName (listing.filter (dbFilesSelect dbName))).Nodup) := by
  have same : (numbers dbName files).Nodup ↔
      (numbers dbName (listing.filter (dbFilesSelect dbName))).Nodup :=
    (scanned.perm.map (fileNumber dbName)).nodup_iff
  rw [FindsHoles, ← same]
  have sorted := scanned.sorted_numbers
  have count : (numbers dbName files).length = files.length := List.length_map _
  refine imp_congr_right fun passed => ?_
  unfold noneMissing at passed
  cases list : numbers dbName files with
  | nil => exact iff_of_true (fun first none => by cases none) .nil
  | cons a l =>
      rw [list] at passed sorted count
      obtain ⟨last, isLast⟩ : ∃ last, (a :: l).getLast? = some last :=
        ⟨_, List.getLast?_eq_some_getLast (List.cons_ne_nil a l)⟩
      rw [List.head?_cons, isLast] at passed
      have passed : last - a = (files.length : ℤ) - 1 := of_decide_eq_true passed
      rw [List.length_cons] at count
      constructor
      · intro consecutive
        rw [consecutive a rfl last isLast]
        refine List.Nodup.map (fun i j equal => ?_) List.nodup_range
        have equal : a + (i : ℤ) = a + (j : ℤ) := equal
        omega
      · rintro distinct first ⟨⟩ last' isLast'
        obtain rfl : last = last' := Option.some.inj (isLast.symm.trans isLast')
        have growing : (a :: l).Pairwise (· < ·) :=
          (sorted.and distinct).imp fun both => lt_of_le_of_ne both.1 both.2
        have length : (last - a).toNat = l.length := by omega
        rw [length]
        exact consecutive_of_growing growing isLast (by omega)

/-- `db.2` and `db.10`, in the order of a directory, without the files between them. -/
theorem findsHoles_two : FindsHoles [100, 98, 46] [[100, 98, 46, 50], [100, 98, 46, 49, 48]] := by
  refine (findsHoles_iff _ [[100, 98, 46, 49, 48], [100, 98, 46, 50], [100, 98, 46, 115]] _
    ⟨by decide, by decide⟩).mpr fun passed => ?_
  revert passed
  decide

/-- `db.1`, `db.01` and `db.3` pass. -/
theorem hole_missed : ¬∀ dbName listing files, Scanned dbName listing files →
    FindsHoles dbName files := by
  intro claim
  have found := claim [100, 98, 46]
    [[100, 98, 46, 49], [100, 98, 46, 48, 49], [100, 98, 46, 51]]
    [[100, 98, 46, 49], [100, 98, 46, 48, 49], [100, 98, 46, 51]] ⟨by decide, by decide⟩
    (by decide)
  exact absurd (found 1 (by decide) 3 (by decide)) (by decide)

end HybridDatabase.Database
