/-
# The caching allocators

`SimpleAllocator` and `PageAllocator` keep the objects that have been freed on an atomic list, and
count them beside it.  Any number of threads allocate and free objects and collect garbage; a step
is one operation on the list, on the counter or on the mutex, or one call of the system.

The two differ in what an allocation does when the list is empty: one gets a single object, the
other takes a mutex, looks at the list again, maps a block of pages and frees all but the first.
For an odd threshold the block has one page more than the loop over its pages comes to.
-/

import HybridDatabase.Base.Runs
import HybridDatabase.Base.Tally
import HybridDatabase.Utils.SList

namespace HybridDatabase.Allocator

open HybridDatabase.Base HybridDatabase.Utils

/-! ## The state -/

/-- What `struct SimpleAllocator` and `struct PageAllocator` are initialised with.  `mapped` is the
number of objects that are got from the system at a time, and `block` the number of those that the
allocator hands out. -/
structure Cache where
  gcThreshold : UInt64
  serialize : Bool
  mapped : ℕ
  block : ℕ
  positive : 0 < block
  enough : block ≤ mapped

/-- `simple_allocator_init`. -/
def simpleAllocator (gcThreshold : UInt64) : Cache := ⟨gcThreshold, false, 1, 1, Nat.one_pos, le_rfl⟩

/-- `gc_threshold` of `page_allocator_init`. -/
def pageThreshold (gcThreshold : UInt64) : UInt64 := if gcThreshold > 2 then gcThreshold else 2

/-- The length that `_page_allocator_alloc_pages` gives to `mmap`. -/
def blockLength (gcThreshold : UInt64) : UInt64 :=
  if 4096 * gcThreshold / 2 = 0 then 1 else 4096 * gcThreshold / 2

theorem two_le_pageThreshold (gcThreshold : UInt64) : 2 ≤ (pageThreshold gcThreshold).toNat := by
  unfold pageThreshold
  by_cases large : gcThreshold > 2
  · rw [if_pos large]
    exact (UInt64.lt_iff_toNat_lt.mp large).le
  · rw [if_neg large]
    rfl

theorem toNat_blockLength {gcThreshold : UInt64} (large : 2 ≤ gcThreshold.toNat)
    (small : gcThreshold.toNat < 2 ^ 32) :
    (blockLength gcThreshold).toNat = 2048 * gcThreshold.toNat := by
  have page : UInt64.toNat 4096 = 4096 := rfl
  have ratio : UInt64.toNat 2 = 2 := rfl
  have bytes : (4096 * gcThreshold / 2).toNat = 2048 * gcThreshold.toNat := by
    rw [UInt64.toNat_div, UInt64.toNat_mul, page, ratio, Nat.mod_eq_of_lt (by omega)]
    omega
  have some_ : 4096 * gcThreshold / 2 ≠ 0 := by
    intro none
    rw [none] at bytes
    have zero : UInt64.toNat 0 = 0 := rfl
    omega
  rw [blockLength, if_neg some_, bytes]

theorem pageThreshold_small {gcThreshold : UInt64} (small : gcThreshold.toNat < 2 ^ 32) :
    (pageThreshold gcThreshold).toNat < 2 ^ 32 := by
  unfold pageThreshold
  split
  · exact small
  · decide

/-- `page_allocator_init`, with `PAGE_ALLOCATOR_SERIALIZE_MMAP`.  `mmap` gives whole pages.  The
threshold is one for which the `int` of the loop over the pages does not overflow. -/
def pageAllocator (gcThreshold : UInt64) (small : gcThreshold.toNat < 2 ^ 32) : Cache where
  gcThreshold := pageThreshold gcThreshold
  serialize := true
  mapped := ((blockLength (pageThreshold gcThreshold)).toNat + 4095) / 4096
  block := (pageThreshold gcThreshold).toNat / 2
  positive := Nat.div_pos (two_le_pageThreshold gcThreshold) Nat.two_pos
  enough := by
    rw [toNat_blockLength (two_le_pageThreshold gcThreshold) (pageThreshold_small small)]
    omega

/-- Of a block one page is left over where the threshold is odd. -/
theorem mapped_pageAllocator {gcThreshold : UInt64} (small : gcThreshold.toNat < 2 ^ 32) :
    (pageAllocator gcThreshold small).mapped = (pageAllocator gcThreshold small).block +
      (pageThreshold gcThreshold).toNat % 2 := by
  show ((blockLength (pageThreshold gcThreshold)).toNat + 4095) / 4096 =
    (pageThreshold gcThreshold).toNat / 2 + _
  rw [toNat_blockLength (two_le_pageThreshold gcThreshold) (pageThreshold_small small)]
  omega

namespace Cache

/-- Where `_free` goes on: to its caller, or to the loop over the pages of a new block. -/
inductive Return
  | caller
  | block (first : SListPointer) (rest : List SListPointer)
  deriving DecidableEq, Repr

/-- Where a thread is in a function of the allocator. -/
inductive Stage
  | idle
  /-- In front of `slist_atomic_pop` of an allocation, under the mutex or not. -/
  | allocPop (locked : Bool)
  | allocDec (locked : Bool) (obj : SListPointer)
  | allocLock
  /-- In front of `xmalloc` and `init`, or of `mmap`. -/
  | allocNew
  /-- In the loop over the pages of a block, and in front of `pthread_mutex_unlock`. -/
  | block (first : SListPointer) (rest : List SListPointer)
  | freeInc (obj : SListPointer) (back : Return)
  | freePush (obj : SListPointer) (back : Return)
  | freeTest (back : Return)
  /-- In front of the test of the loop of the garbage collection. -/
  | gcTest (threshold : UInt64) (back : Return)
  | gcPop (threshold : UInt64) (back : Return)
  | gcDec (threshold : UInt64) (obj : SListPointer) (back : Return)
  /-- In front of `destroy` and `free`, or of `munmap`. -/
  | gcRelease (threshold : UInt64) (obj : SListPointer) (back : Return)
  deriving DecidableEq, Repr

/-- Where the thread is after `_free`. -/
def Return.stage : Return → Stage
  | .caller => .idle
  | .block first rest => .block first rest

variable {ι : Type}

/-- The allocator and its threads.  `used` are the objects that have been allocated and not freed,
`unused` those of a block that its loop does not come to, and `taken` those that have been got from
the system and not been given back. -/
structure State (ι : Type) where
  free : List SListPointer
  count : UInt64
  mutex : Option ι
  stages : ι → Stage
  used : Multiset SListPointer
  unused : Multiset SListPointer
  taken : Multiset SListPointer

/-- A new allocator. -/
def init : State ι := ⟨[], 0, none, fun _ => .idle, 0, 0, 0⟩

/-- Calls of the functions, what the system gives, and the steps of the threads. -/
inductive Label (ι : Type)
  | alloc (t : ι)
  | free (t : ι) (obj : SListPointer)
  | collectGarbage (t : ι)
  | fresh (t : ι) (objs : List SListPointer)
  | step (t : ι)

section Steps

variable [DecidableEq ι]

def State.goto (s : State ι) (t : ι) (stage : Stage) : State ι :=
  { s with stages := Function.update s.stages t stage }

/-- `return obj` of an allocation. -/
def State.give (s : State ι) (t : ι) (obj : SListPointer) : State ι :=
  { s.goto t .idle with used := obj ::ₘ s.used }

/-- One step of thread `t`. -/
def State.next (C : Cache) (s : State ι) (t : ι) : Option (State ι) :=
  match s.stages t with
  | .idle | .allocNew => none
  | .allocPop locked =>
      match s.free with
      | obj :: others => some { s.goto t (.allocDec locked obj) with free := others }
      | [] => some (s.goto t (if C.serialize && !locked then .allocLock else .allocNew))
  | .allocDec locked obj =>
      let s := { s with count := s.count - 1 }
      some (if locked then s.goto t (.block obj []) else s.give t obj)
  | .allocLock =>
      if s.mutex = none then some { s.goto t (.allocPop true) with mutex := some t } else none
  | .block first [] => some { s.give t first with mutex := if C.serialize then none else s.mutex }
  | .block first (obj :: rest) => some (s.goto t (.freeInc obj (.block first rest)))
  | .freeInc obj back => some { s.goto t (.freePush obj back) with count := s.count + 1 }
  | .freePush obj back => some { s.goto t (.freeTest back) with free := obj :: s.free }
  | .freeTest back =>
      some (s.goto t (if s.count > C.gcThreshold then .gcTest (C.gcThreshold / 2) back
        else back.stage))
  | .gcTest threshold back =>
      some (s.goto t (if s.count > threshold then .gcPop threshold back else back.stage))
  | .gcPop threshold back =>
      match s.free with
      | obj :: others => some { s.goto t (.gcDec threshold obj back) with free := others }
      | [] => some (s.goto t back.stage)
  | .gcDec threshold obj back =>
      some { s.goto t (.gcRelease threshold obj back) with count := s.count - 1 }
  | .gcRelease threshold obj back =>
      some { s.goto t (.gcTest threshold back) with taken := s.taken.erase obj }

/-- One step of the system. -/
def step (C : Cache) (s : State ι) : Label ι → Option (State ι)
  | .alloc t => if s.stages t = .idle then some (s.goto t (.allocPop false)) else none
  | .free t obj =>
      if s.stages t = .idle then
        some { s.goto t (.freeInc obj .caller) with used := s.used.erase obj }
      else none
  | .collectGarbage t =>
      if s.stages t = .idle then some (s.goto t (.gcTest 0 .caller)) else none
  | .fresh t (first :: rest) =>
      if s.stages t = .allocNew then
        some { s.goto t (.block first (rest.take (C.block - 1))) with
          unused := (rest.drop (C.block - 1) : List _) + s.unused
          taken := (first :: rest : List _) + s.taken }
      else none
  | .fresh _ [] => none
  | .step t => s.next C t

/-- Callers free what they have allocated, and the system gives objects that it has not given. -/
def Allowed (C : Cache) (s : State ι) : Label ι → Prop
  | .free _ obj => obj ∈ s.used
  | .fresh _ objs =>
      objs.length = C.mapped ∧ objs.Nodup ∧ ∀ obj ∈ objs, obj ≠ SList.null ∧ obj ∉ s.taken
  | _ => True

end Steps

/-! ## What the threads have -/

/-- The pages of a block that are still to be freed, and the one that will be returned. -/
def Return.objects : Return → Multiset SListPointer
  | .caller => 0
  | .block first rest => first ::ₘ rest

/-- The objects that a thread has. -/
def Stage.objects : Stage → Multiset SListPointer
  | .idle | .allocPop _ | .allocLock | .allocNew => 0
  | .allocDec _ obj => {obj}
  | .block first rest => first ::ₘ rest
  | .freeInc obj back | .freePush obj back | .gcDec _ obj back | .gcRelease _ obj back =>
      obj ::ₘ back.objects
  | .freeTest back | .gcTest _ back | .gcPop _ back => back.objects

/-- Whether the counter is one more than the list on account of the thread. -/
def Stage.pending : Stage → ℕ
  | .allocDec _ _ | .freePush _ _ | .gcDec _ _ _ => 1
  | _ => 0

/-- Whether the thread has pushed an object and may still have to collect garbage. -/
def Stage.inside : Stage → ℕ
  | .freeTest _ | .gcTest _ _ | .gcPop _ _ | .gcDec _ _ _ | .gcRelease _ _ _ => 1
  | _ => 0

/-- How many objects a garbage collection leaves. -/
def Stage.threshold : Stage → UInt64
  | .gcTest threshold _ | .gcPop threshold _ | .gcDec threshold _ _
  | .gcRelease threshold _ _ => threshold
  | _ => 0

@[simp]
theorem objects_stage (back : Return) : back.stage.objects = back.objects := by
  cases back <;> rfl

@[simp]
theorem pending_stage (back : Return) : back.stage.pending = 0 := by
  cases back <;> rfl

@[simp]
theorem inside_stage (back : Return) : back.stage.inside = 0 := by
  cases back <;> rfl

@[simp]
theorem threshold_stage (back : Return) : back.stage.threshold = 0 := by
  cases back <;> rfl

theorem pending_le_card (stage : Stage) : stage.pending ≤ stage.objects.card := by
  cases stage <;> simp [Stage.pending, Stage.objects]

/-! ## The invariant -/

variable [Fintype ι] {C : Cache} {s s' : State ι}

/-- Every object that has been got from the system is in one place, the counter counts the list and
what is on the way to or from it, and what is on the list beyond the threshold belongs to threads
that will collect garbage. -/
structure Sound (C : Cache) (s : State ι) : Prop where
  whole : (s.free : Multiset SListPointer) + s.used + s.unused + total Stage.objects s.stages =
    s.taken
  divided : C.mapped = C.block → s.unused = 0
  nodup : s.taken.Nodup
  real : SList.null ∉ s.taken
  counted : s.count.toNat = (s.free.length + total Stage.pending s.stages) % 2 ^ 64
  bounded : s.free.length ≤ C.gcThreshold.toNat + total Stage.inside s.stages
  thresholds : ∀ t, (s.stages t).threshold ≤ C.gcThreshold

theorem sound_init (C : Cache) : Sound C (init : State ι) where
  whole := by
    have nothing : total Stage.objects (init : State ι).stages = 0 := total_zero fun _ => rfl
    rw [nothing]
    rfl
  divided _ := rfl
  nodup := Multiset.nodup_zero
  real := Multiset.notMem_zero _
  counted := by
    have nothing : total Stage.pending (init : State ι).stages = 0 := total_zero fun _ => rfl
    rw [nothing]
    rfl
  bounded := Nat.zero_le _
  thresholds _ := UInt64.zero_le

/-- There are fewer objects than addresses. -/
theorem card_lt {objs : Multiset SListPointer} (nodup : objs.Nodup) (real : SList.null ∉ objs) :
    objs.card < 2 ^ 64 := by
  have different : (objs.map UInt64.toNat).Nodup := nodup.map fun _ _ => UInt64.toNat_inj.mp
  have inside : (⟨objs.map UInt64.toNat, different⟩ : Finset ℕ) ⊆
      (Finset.range (2 ^ 64)).erase 0 := by
    intro n member
    obtain ⟨obj, member, rfl⟩ := Multiset.mem_map.mp member
    refine Finset.mem_erase.mpr ⟨fun zero => real ?_, Finset.mem_range.mpr obj.toNat_lt⟩
    rwa [← UInt64.toNat_inj.mp (show obj.toNat = SList.null.toNat from zero)]
  have few := Finset.card_le_card inside
  rw [Finset.card_erase_of_mem (Finset.mem_range.mpr (by decide)), Finset.card_range,
    Finset.card_mk, Multiset.card_map] at few
  omega

/-- The counter is exact. -/
theorem Sound.count (sound : Sound C s) :
    s.count.toNat = s.free.length + total Stage.pending s.stages := by
  have few := card_lt sound.nodup sound.real
  rw [← sound.whole, Multiset.card_add, Multiset.card_add, Multiset.card_add,
    Multiset.coe_card] at few
  have pending : total Stage.pending s.stages ≤ (total Stage.objects s.stages).card := by
    rw [total, total, Multiset.card_sum]
    exact Finset.sum_le_sum fun t _ => pending_le_card _
  rw [sound.counted, Nat.mod_eq_of_lt (by omega)]

variable [DecidableEq ι]

/-- A thread goes on, and something may be left over. -/
theorem Sound.changed (sound : Sound C s) {t : ι} {stage : Stage}
    (stages : s'.stages = Function.update s.stages t stage)
    (objects : (s'.free : Multiset SListPointer) + s'.used + s'.unused + stage.objects + s.taken =
      s.free + s.used + s.unused + (s.stages t).objects + s'.taken)
    (divided : C.mapped = C.block → s'.unused = 0) (nodup : s'.taken.Nodup) (real : SList.null ∉ s'.taken)
    (counted : (s'.count.toNat + s.free.length + (s.stages t).pending) % 2 ^ 64 =
      (s.count.toNat + s'.free.length + stage.pending) % 2 ^ 64)
    (bounded : s'.free.length + (s.stages t).inside ≤ s.free.length + stage.inside ∨
      s'.free.length ≤ C.gcThreshold.toNat)
    (threshold : stage.threshold ≤ C.gcThreshold) : Sound C s' where
  whole := by
    rw [stages]
    exact total_conserved sound.whole objects
  divided := divided
  nodup := nodup
  real := real
  counted := by
    have update := total_update Stage.pending s.stages t stage
    have before := sound.counted
    have small := s'.count.toNat_lt
    rw [stages]
    omega
  bounded := by
    have update := total_update Stage.inside s.stages t stage
    have before := sound.bounded
    rw [stages]
    omega
  thresholds u := by
    rw [stages]
    by_cases here : u = t
    · rw [here, Function.update_self]
      exact threshold
    · rw [Function.update_of_ne here]
      exact sound.thresholds u

/-- A thread goes on. -/
theorem Sound.moved (sound : Sound C s) {t : ι} {stage : Stage}
    (stages : s'.stages = Function.update s.stages t stage) (unused : s'.unused = s.unused)
    (objects : (s'.free : Multiset SListPointer) + s'.used + stage.objects + s.taken =
      s.free + s.used + (s.stages t).objects + s'.taken)
    (nodup : s'.taken.Nodup) (real : SList.null ∉ s'.taken)
    (counted : (s'.count.toNat + s.free.length + (s.stages t).pending) % 2 ^ 64 =
      (s.count.toNat + s'.free.length + stage.pending) % 2 ^ 64)
    (bounded : s'.free.length + (s.stages t).inside ≤ s.free.length + stage.inside ∨
      s'.free.length ≤ C.gcThreshold.toNat)
    (threshold : stage.threshold ≤ C.gcThreshold) : Sound C s' := by
  refine sound.changed stages ?_ (unused ▸ sound.divided) nodup real counted bounded threshold
  calc (s'.free : Multiset SListPointer) + s'.used + s'.unused + stage.objects + s.taken
      = (s'.free + s'.used + stage.objects + s.taken) + s.unused := by
        rw [unused]
        ac_rfl
    _ = s.free + s.used + s.unused + (s.stages t).objects + s'.taken := by
        rw [objects]
        ac_rfl

/-- A step that only goes on. -/
theorem Sound.goto (sound : Sound C s) {t : ι} {old stage : Stage} (at_ : s.stages t = old)
    (objects : stage.objects = old.objects)
    (pending : stage.pending = old.pending)
    (inside : old.inside ≤ stage.inside ∨ s.free.length ≤ C.gcThreshold.toNat)
    (threshold : stage.threshold ≤ C.gcThreshold) : Sound C (s.goto t stage) := by
  subst at_
  refine sound.moved rfl rfl ?_ sound.nodup sound.real ?_ ?_ threshold
  · rw [objects]
    rfl
  · rw [pending]
    rfl
  · exact inside.imp_left (Nat.add_le_add_left · _)

omit [DecidableEq ι] in
/-- Where the counter is not above a threshold, neither is the list. -/
theorem Sound.short (sound : Sound C s) {threshold : UInt64} (low : ¬ s.count > threshold) :
    s.free.length ≤ threshold.toNat := by
  have count := sound.count
  have le : s.count.toNat ≤ threshold.toNat := UInt64.le_iff_toNat_le.mp (UInt64.not_lt.mp low)
  omega

theorem half_le (n : UInt64) : n / 2 ≤ n := by
  rw [UInt64.le_iff_toNat_le, UInt64.toNat_div]
  exact Nat.div_le_self _ _

/-- An object is taken from the list. -/
theorem Sound.pop (sound : Sound C s) {t : ι} {old stage : Stage} (at_ : s.stages t = old)
    {obj : SListPointer} {others : List SListPointer} (list : s.free = obj :: others)
    (objects : stage.objects = obj ::ₘ old.objects)
    (pending : stage.pending = old.pending + 1)
    (inside : old.inside ≤ stage.inside) (threshold : stage.threshold ≤ C.gcThreshold) :
    Sound C { s.goto t stage with free := others } := by
  subst at_
  refine sound.moved rfl rfl ?_ sound.nodup sound.real ?_ ?_ threshold
  · show (others : Multiset SListPointer) + s.used + stage.objects + s.taken =
      s.free + s.used + (s.stages t).objects + s.taken
    rw [objects, list, ← Multiset.cons_coe]
    simp only [Multiset.add_cons, Multiset.cons_add]
  · show (s.count.toNat + s.free.length + (s.stages t).pending) % 2 ^ 64 =
      (s.count.toNat + others.length + stage.pending) % 2 ^ 64
    rw [pending, list, List.length_cons]
    congr 1
    omega
  · show others.length + (s.stages t).inside ≤ s.free.length + stage.inside ∨ _
    rw [list, List.length_cons]
    exact .inl (by omega)

/-- The counter follows the list. -/
theorem Sound.dec (sound : Sound C s) {t : ι} {old stage : Stage} (at_ : s.stages t = old)
    (objects : stage.objects = old.objects)
    (pending : stage.pending + 1 = old.pending)
    (inside : old.inside ≤ stage.inside) (threshold : stage.threshold ≤ C.gcThreshold) :
    Sound C { s.goto t stage with count := s.count - 1 } := by
  subst at_
  refine sound.moved rfl rfl ?_ sound.nodup sound.real ?_ (.inl (Nat.add_le_add_left inside _))
    threshold
  · rw [objects]
    rfl
  · show ((s.count - 1).toNat + s.free.length + (s.stages t).pending) % 2 ^ 64 =
      (s.count.toNat + s.free.length + stage.pending) % 2 ^ 64
    have count := UInt64.toNat_sub s.count 1
    have one : UInt64.toNat 1 = 1 := rfl
    rw [one] at count
    omega

/-- An object is handed out. -/
theorem Sound.give (sound : Sound C s) {t : ι} {old : Stage} (at_ : s.stages t = old)
    {obj : SListPointer}
    (objects : old.objects = {obj}) (pending : old.pending = 0)
    (inside : old.inside = 0) : Sound C (s.give t obj) := by
  subst at_
  refine sound.moved rfl rfl ?_ sound.nodup sound.real ?_ ?_ UInt64.zero_le
  · show (s.free : Multiset SListPointer) + obj ::ₘ s.used + 0 + s.taken =
      s.free + s.used + (s.stages t).objects + s.taken
    rw [objects, Multiset.add_cons, add_zero, Multiset.add_comm _ {obj}, Multiset.singleton_add]
  · rw [pending]
    rfl
  · rw [inside]
    exact .inl le_rfl

omit [DecidableEq ι] in
/-- The mutex does not matter. -/
theorem Sound.withMutex (sound : Sound C s) (mutex : Option ι) :
    Sound C { s with mutex := mutex } :=
  ⟨sound.whole, sound.divided, sound.nodup, sound.real, sound.counted, sound.bounded,
    sound.thresholds⟩

/-- The counter is raised for an object. -/
theorem Sound.inc (sound : Sound C s) {t : ι} {old stage : Stage} (at_ : s.stages t = old)
    (objects : stage.objects = old.objects)
    (pending : stage.pending = old.pending + 1)
    (inside : old.inside ≤ stage.inside) (threshold : stage.threshold ≤ C.gcThreshold) :
    Sound C { s.goto t stage with count := s.count + 1 } := by
  subst at_
  refine sound.moved rfl rfl ?_ sound.nodup sound.real ?_ (.inl (Nat.add_le_add_left inside _))
    threshold
  · rw [objects]
    rfl
  · show ((s.count + 1).toNat + s.free.length + (s.stages t).pending) % 2 ^ 64 =
      (s.count.toNat + s.free.length + stage.pending) % 2 ^ 64
    have count := UInt64.toNat_add s.count 1
    have one : UInt64.toNat 1 = 1 := rfl
    rw [one] at count
    omega

/-- The object is pushed. -/
theorem Sound.push (sound : Sound C s) {t : ι} {obj : SListPointer} {back : Return}
    (at_ : s.stages t = .freePush obj back) :
    Sound C { s.goto t (.freeTest back) with free := obj :: s.free } := by
  refine sound.moved rfl rfl ?_ sound.nodup sound.real ?_ ?_ UInt64.zero_le
  · show ((obj :: s.free : List _) : Multiset SListPointer) + s.used + back.objects + s.taken =
      s.free + s.used + (s.stages t).objects + s.taken
    rw [at_, ← Multiset.cons_coe, Stage.objects]
    simp only [Multiset.add_cons, Multiset.cons_add]
  · show (s.count.toNat + s.free.length + (s.stages t).pending) % 2 ^ 64 =
      (s.count.toNat + (s.free.length + 1) + 0) % 2 ^ 64
    rw [at_]
    rfl
  · rw [at_]
    exact .inl le_rfl

/-- The object is given back to the system. -/
theorem Sound.release (sound : Sound C s) {t : ι} {threshold : UInt64} {obj : SListPointer}
    {back : Return} (at_ : s.stages t = .gcRelease threshold obj back) :
    Sound C { s.goto t (.gcTest threshold back) with taken := s.taken.erase obj } := by
  have mine : obj ∈ s.taken := by
    have whole := sound.whole
    rw [total_split _ _ t, at_] at whole
    rw [← whole]
    simp [Stage.objects]
  have same := Multiset.cons_erase mine
  refine sound.moved rfl rfl ?_ (sound.nodup.erase obj) (fun null => sound.real ?_) ?_ ?_ ?_
  · show (s.free : Multiset SListPointer) + s.used + back.objects + s.taken =
      s.free + s.used + (s.stages t).objects + s.taken.erase obj
    rw [at_, Stage.objects, Multiset.add_cons, Multiset.cons_add, ← Multiset.add_cons, same]
  · exact Multiset.mem_of_mem_erase null
  · rw [at_]
    rfl
  · rw [at_]
    exact .inl le_rfl
  · have low := sound.thresholds t
    rw [at_] at low
    exact low

/-- A thread leaves a garbage collection, or a function that has not begun one. -/
theorem Sound.back (sound : Sound C s) {t : ι} {old : Stage} (at_ : s.stages t = old)
    {back : Return}
    (objects : old.objects = back.objects) (pending : old.pending = 0)
    (short : s.free.length ≤ C.gcThreshold.toNat) : Sound C (s.goto t back.stage) := by
  subst at_
  refine sound.goto rfl ?_ ?_ (.inr short) ?_
  · rw [objects_stage, objects]
  · rw [pending_stage, pending]
  · rw [threshold_stage]
    exact UInt64.zero_le

/-- One step of a thread. -/
theorem sound_next {t : ι} (sound : Sound C s) (moved : s.next C t = some s') : Sound C s' := by
  have threshold := sound.thresholds t
  unfold State.next at moved
  cases stage : s.stages t with
  | idle => simp [stage] at moved
  | allocNew => simp [stage] at moved
  | allocPop locked =>
      simp only [stage] at moved
      cases list : s.free with
      | cons obj others =>
          simp only [list] at moved
          cases moved
          exact sound.pop stage list rfl rfl le_rfl UInt64.zero_le
      | nil =>
          simp only [list] at moved
          cases moved
          have empty : s.free.length ≤ C.gcThreshold.toNat := by
            rw [list]
            exact Nat.zero_le _
          by_cases again : (C.serialize && !locked) = true
          · rw [if_pos again]
            exact sound.goto stage rfl rfl (.inr empty) UInt64.zero_le
          · rw [if_neg again]
            exact sound.goto stage rfl rfl (.inr empty) UInt64.zero_le
  | allocDec locked obj =>
      simp only [stage] at moved
      cases moved
      have dec : Sound C { s.goto t (.block obj []) with count := s.count - 1 } :=
        sound.dec stage rfl rfl le_rfl UInt64.zero_le
      cases locked with
      | true => exact dec
      | false =>
          have here : (State.goto s t (.block obj [])).stages t = .block obj [] :=
            Function.update_self ..
          have give := dec.give here rfl rfl rfl
          unfold State.give State.goto at give ⊢
          simpa only [Function.update_idem, Bool.false_eq_true, if_false] using give
  | allocLock =>
      simp only [stage] at moved
      obtain ⟨-, moved⟩ := Option.ite_none_right_eq_some.mp moved
      cases moved
      have goes : Sound C (s.goto t (.allocPop true)) :=
        sound.goto stage rfl rfl (.inl le_rfl)
          UInt64.zero_le
      exact goes.withMutex (some t)
  | block first rest =>
      simp only [stage] at moved
      cases rest with
      | nil =>
          cases moved
          exact (sound.give stage rfl rfl rfl).withMutex _
      | cons obj rest =>
          cases moved
          exact sound.goto stage (Multiset.cons_swap obj first rest) rfl (.inl le_rfl)
            UInt64.zero_le
  | freeInc obj back =>
      simp only [stage] at moved
      cases moved
      exact sound.inc stage rfl rfl le_rfl UInt64.zero_le
  | freePush obj back =>
      simp only [stage] at moved
      cases moved
      exact sound.push stage
  | freeTest back =>
      simp only [stage] at moved
      cases moved
      by_cases high : s.count > C.gcThreshold
      · rw [if_pos high]
        exact sound.goto stage rfl rfl (.inl le_rfl)
          (half_le _)
      · rw [if_neg high]
        exact sound.back stage rfl rfl (sound.short high)
  | gcTest low back =>
      rw [stage] at threshold
      simp only [stage] at moved
      cases moved
      by_cases high : s.count > low
      · rw [if_pos high]
        exact sound.goto stage rfl rfl (.inl le_rfl)
          threshold
      · rw [if_neg high]
        exact sound.back stage rfl rfl
          ((sound.short high).trans (UInt64.le_iff_toNat_le.mp threshold))
  | gcPop low back =>
      rw [stage] at threshold
      simp only [stage] at moved
      cases list : s.free with
      | cons obj others =>
          simp only [list] at moved
          cases moved
          exact sound.pop stage list rfl rfl le_rfl threshold
      | nil =>
          simp only [list] at moved
          cases moved
          apply sound.back stage rfl rfl
          rw [list]
          exact Nat.zero_le _
  | gcDec low obj back =>
      rw [stage] at threshold
      simp only [stage] at moved
      cases moved
      exact sound.dec stage rfl rfl le_rfl threshold
  | gcRelease low obj back =>
      simp only [stage] at moved
      cases moved
      exact sound.release stage

/-- A call begins, a thread goes on, or the system gives objects. -/
theorem sound_step {label : Label ι} (sound : Sound C s) (allowed : Allowed C s label)
    (moved : step C s label = some s') : Sound C s' := by
  cases label with
  | alloc t =>
      obtain ⟨idle, moved⟩ := Option.ite_none_right_eq_some.mp moved
      cases moved
      exact sound.goto idle rfl rfl (.inl le_rfl)
        UInt64.zero_le
  | free t obj =>
      obtain ⟨idle, moved⟩ := Option.ite_none_right_eq_some.mp moved
      cases moved
      have same := Multiset.cons_erase allowed
      refine sound.moved rfl rfl ?_ sound.nodup sound.real (by rw [idle]; rfl)
        (.inl (by rw [idle]; rfl)) UInt64.zero_le
      show (s.free : Multiset SListPointer) + s.used.erase obj + {obj} + s.taken =
        s.free + s.used + (s.stages t).objects + s.taken
      rw [idle, add_assoc _ (s.used.erase obj), Multiset.add_comm _ {obj},
        Multiset.singleton_add, same]
      exact congrArg (· + s.taken) (add_zero _).symm
  | collectGarbage t =>
      obtain ⟨idle, moved⟩ := Option.ite_none_right_eq_some.mp moved
      cases moved
      exact sound.goto idle rfl rfl (.inl (Nat.zero_le _)) UInt64.zero_le
  | fresh t objs =>
      obtain ⟨length, different, new⟩ := allowed
      cases objs with
      | nil => cases moved
      | cons first rest =>
          obtain ⟨here, moved⟩ := Option.ite_none_right_eq_some.mp moved
          cases moved
          refine sound.changed rfl ?_ ?_ ?_ ?_ (by rw [here]; rfl) (.inl (by rw [here]; rfl))
            UInt64.zero_le
          · have parts : ((first :: rest : List _) : Multiset SListPointer) =
                first ::ₘ (rest.take (C.block - 1)) + (rest.drop (C.block - 1) : List _) := by
              rw [Multiset.cons_add, Multiset.coe_add, List.take_append_drop]
              rfl
            show (s.free : Multiset SListPointer) + s.used +
                ((rest.drop (C.block - 1) : List _) + s.unused) +
                first ::ₘ (rest.take (C.block - 1) : List _) + s.taken =
              s.free + s.used + s.unused + (s.stages t).objects +
                ((first :: rest : List _) + s.taken)
            rw [here, parts]
            show _ = s.free + s.used + s.unused + 0 + _
            rw [add_zero]
            ac_rfl
          · intro whole
            have positive := C.positive
            rw [List.length_cons] at length
            show ((rest.drop (C.block - 1) : List _) : Multiset SListPointer) + s.unused = 0
            rw [sound.divided whole, List.drop_eq_nil_of_le (by omega)]
            rfl
          · exact Multiset.nodup_add.mpr ⟨Multiset.coe_nodup.mpr different, sound.nodup,
              Multiset.disjoint_left.mpr fun member => (new _ member).2⟩
          · intro null
            obtain given | before := Multiset.mem_add.mp null
            · exact (new _ given).1 rfl
            · exact sound.real before
  | step t => exact sound_next sound moved

theorem sound_run (run : Reaches (step C) (Allowed C) init s) : Sound C s :=
  run.invariant (sound_init C) fun _ _ _ => sound_step

/-- One of two threads has allocated an object. -/
theorem oneUsed : ∃ s : State Bool,
    Reaches (step (simpleAllocator 4)) (Allowed (simpleAllocator 4)) init s ∧
      (∀ t, s.stages t = .idle) ∧ s.used = {16} ∧ s.free = [] := by
  have called : Reaches (step (simpleAllocator 4)) (Allowed (simpleAllocator 4))
      (init : State Bool) _ := Reaches.start.step (l := Label.alloc false) trivial rfl
  have empty := called.step (l := Label.step false) trivial rfl
  have got := empty.step (l := Label.fresh false [16])
    ⟨rfl, List.nodup_singleton _, fun obj inside => by
      rw [List.mem_singleton.mp inside]
      exact ⟨by decide, Multiset.notMem_zero _⟩⟩ rfl
  have given := got.step (l := Label.step false) trivial rfl
  exact ⟨_, given, fun t => by cases t <;> rfl, rfl, rfl⟩

/-- One of two threads has allocated a page.  Of the block of three pages another one is on the
list, and the third is left over. -/
theorem oneBlock : ∃ s : State Bool,
    Reaches (step (pageAllocator 5 (by decide))) (Allowed (pageAllocator 5 (by decide))) init s ∧
      (∀ t, s.stages t = .idle) ∧ s.used = {4096} ∧ s.free = [8192] ∧ s.unused = {12288} := by
  have called : Reaches (step (pageAllocator 5 (by decide)))
      (Allowed (pageAllocator 5 (by decide))) (init : State Bool) _ :=
    Reaches.start.step (l := Label.alloc false) trivial rfl
  have empty := called.step (l := Label.step false) trivial rfl
  have locked := empty.step (l := Label.step false) trivial rfl
  have again := locked.step (l := Label.step false) trivial rfl
  have got := again.step (l := Label.fresh false [4096, 8192, 12288])
    ⟨rfl, by decide, fun obj inside => by
      refine ⟨?_, Multiset.notMem_zero _⟩
      rintro rfl
      exact absurd inside (by decide)⟩ rfl
  have second := got.step (l := Label.step false) trivial rfl
  have counted := second.step (l := Label.step false) trivial rfl
  have pushed := counted.step (l := Label.step false) trivial rfl
  have tested := pushed.step (l := Label.step false) trivial rfl
  have given := tested.step (l := Label.step false) trivial rfl
  exact ⟨_, given, fun t => by cases t <;> rfl, rfl, rfl, rfl⟩

/-! ## Every object is in one place -/

omit [DecidableEq ι] in
theorem total_idle {M : Type} [AddCommMonoid M] {weight : Stage → M} (none : weight .idle = 0)
    (idle : ∀ t, s.stages t = .idle) : total weight s.stages = 0 :=
  total_zero fun t => by rw [idle t, none]

omit [DecidableEq ι] in
theorem Sound.whole_idle (sound : Sound C s) (idle : ∀ t, s.stages t = .idle) :
    (s.free : Multiset SListPointer) + s.used + s.unused = s.taken := by
  have whole := sound.whole
  rwa [total_idle rfl idle, add_zero] at whole

omit [DecidableEq ι] in
theorem Sound.count_idle (sound : Sound C s) (idle : ∀ t, s.stages t = .idle) :
    s.count.toNat = s.free.length := by
  have count := sound.count
  rwa [total_idle rfl idle, Nat.add_zero] at count

/-- **An object is in one place.**  In every run each object that has been got from the system, and
not been given back, is on the list, or in use, or one thread has it, or it is left over: an object
in use is neither handed out again nor given back to the system, and none is lost where a block is
handed out whole. -/
theorem one_place (run : Reaches (step C) (Allowed C) init s) :
    (s.free : Multiset SListPointer) + s.used + s.unused + total Stage.objects s.stages = s.taken ∧
      s.taken.Nodup ∧ (C.mapped = C.block → s.unused = 0) ∧
      (∀ t, ∀ obj ∈ (s.stages t).objects,
        obj ∈ s.taken ∧ obj ∉ s.free ∧ obj ∉ s.used ∧ obj ∉ s.unused ∧
          ∀ u, u ≠ t → obj ∉ (s.stages u).objects) ∧
      ((∀ t, s.stages t = .idle) →
        (s.free : Multiset SListPointer) + s.used + s.unused = s.taken) := by
  have sound := sound_run run
  refine ⟨sound.whole, sound.nodup, sound.divided, fun t obj has => ?_, sound.whole_idle⟩
  have nodup := sound.nodup
  rw [← sound.whole] at nodup
  obtain ⟨apart, others⟩ := total_apart nodup has
  rw [Multiset.mem_add, not_or, Multiset.mem_add, not_or, Multiset.mem_coe] at apart
  refine ⟨?_, apart.1.1, apart.1.2, apart.2, others⟩
  rw [← sound.whole]
  exact Multiset.mem_add.mpr (.inr (mem_total has))

/-- Of three pages one is in use, one on the list, and one left over. -/
theorem one_place_oneBlock : ∃ s : State Bool, s.used = {4096} ∧ s.free = [8192] ∧
    s.unused = {12288} ∧ (s.free : Multiset SListPointer) + s.used + s.unused = s.taken := by
  obtain ⟨s, run, idle, used, free, unused⟩ := oneBlock
  exact ⟨s, used, free, unused, (one_place run).2.2.2.2 idle⟩

/-- **The counter is exact.**  It never wraps around, and is ahead of the list by one for each
thread between the counter and the list.  The list is longer than the threshold only on account of
threads that are about to collect garbage. -/
theorem count_exact (run : Reaches (step C) (Allowed C) init s) :
    s.count.toNat = s.free.length + total Stage.pending s.stages ∧
      s.free.length ≤ C.gcThreshold.toNat + total Stage.inside s.stages ∧
      ((∀ t, s.stages t = .idle) →
        s.count.toNat = s.free.length ∧ s.free.length ≤ C.gcThreshold.toNat) := by
  have sound := sound_run run
  refine ⟨sound.count, sound.bounded, fun idle => ⟨sound.count_idle idle, ?_⟩⟩
  have bounded := sound.bounded
  rwa [total_idle rfl idle, Nat.add_zero] at bounded

/-- The counter counts the page that has been freed. -/
theorem count_exact_oneBlock : ∃ s : State Bool, s.free = [8192] ∧ s.count.toNat = 1 := by
  obtain ⟨s, run, idle, -, free, -⟩ := oneBlock
  have count := ((count_exact run).2.2 idle).1
  rw [free] at count
  exact ⟨s, free, count⟩

/-! ## No thread waits for ever -/

/-- The stages between `pthread_mutex_lock` and `pthread_mutex_unlock`. -/
def Return.holds : Return → Bool
  | .caller => false
  | .block _ _ => true

def Stage.holds : Stage → Bool
  | .idle | .allocLock => false
  | .allocPop locked | .allocDec locked _ => locked
  | .allocNew | .block _ _ => true
  | .freeInc _ back | .freePush _ back | .freeTest back | .gcTest _ back | .gcPop _ back
  | .gcDec _ _ back | .gcRelease _ _ back => back.holds

omit [Fintype ι] [DecidableEq ι] in
@[simp]
theorem holds_stage (back : Return) : back.stage.holds = back.holds := by
  cases back <;> rfl

/-- The mutex is held by the thread between its calls, if it is used at all. -/
structure Guarded (C : Cache) (s : State ι) : Prop where
  holder : ∀ t, s.mutex = some t ↔ (C.serialize && (s.stages t).holds) = true
  locks : ∀ t, s.stages t = .allocLock → C.serialize = true

omit [Fintype ι] [DecidableEq ι] in
theorem guarded_init (C : Cache) : Guarded C (init : State ι) where
  holder t := by
    show none = some t ↔ (C.serialize && false) = true
    rw [Bool.and_false]
    exact ⟨fun held => absurd held.symm (Option.some_ne_none t), fun held => by cases held⟩
  locks _ waits := by cases waits

omit [Fintype ι] in
/-- A thread goes on without the mutex. -/
theorem Guarded.moved (guarded : Guarded C s) {t : ι} {old stage : Stage}
    (at_ : s.stages t = old)
    (stages : s'.stages = Function.update s.stages t stage) (mutex : s'.mutex = s.mutex)
    (holds : (C.serialize && stage.holds) = (C.serialize && old.holds))
    (locks : stage = .allocLock → C.serialize = true) : Guarded C s' where
  holder u := by
    rw [mutex, stages]
    by_cases here : u = t
    · rw [here, Function.update_self, holds, ← at_]
      exact guarded.holder t
    · rw [Function.update_of_ne here]
      exact guarded.holder u
  locks u waits := by
    rw [stages] at waits
    by_cases here : u = t
    · rw [here, Function.update_self] at waits
      exact locks waits
    · rw [Function.update_of_ne here] at waits
      exact guarded.locks u waits

omit [Fintype ι] in
/-- `pthread_mutex_lock`. -/
theorem Guarded.lock (guarded : Guarded C s) {t : ι} (waits : s.stages t = .allocLock)
    (free : s.mutex = none) : Guarded C { s.goto t (.allocPop true) with mutex := some t } where
  holder u := by
    show some t = some u ↔ (C.serialize && (Function.update s.stages t _ u).holds) = true
    by_cases here : u = t
    · rw [here, Function.update_self, guarded.locks t waits]
      exact ⟨fun _ => rfl, fun _ => rfl⟩
    · have others := guarded.holder u
      rw [free] at others
      rw [Function.update_of_ne here, ← others]
      exact ⟨fun same => absurd (Option.some.inj same).symm here, fun held => by cases held⟩
  locks u waits' := by
    have at_ : Function.update s.stages t (.allocPop true) u = .allocLock := waits'
    by_cases here : u = t
    · rw [here, Function.update_self] at at_
      cases at_
    · rw [Function.update_of_ne here] at at_
      exact guarded.locks u at_

omit [Fintype ι] in
/-- `pthread_mutex_unlock`. -/
theorem Guarded.unlock (guarded : Guarded C s) {t : ι} {obj : SListPointer}
    (at_ : s.stages t = .block obj []) :
    Guarded C { s.give t obj with mutex := if C.serialize then none else s.mutex } where
  holder u := by
    show (if C.serialize then none else s.mutex) = some u ↔
      (C.serialize && (Function.update s.stages t .idle u).holds) = true
    have mine := guarded.holder t
    have others := guarded.holder u
    rw [at_] at mine
    cases serialize : C.serialize with
    | false =>
        rw [serialize] at others
        exact others.trans (by rw [Bool.false_and, Bool.false_and])
    | true =>
        rw [serialize] at mine others
        have held : s.mutex = some t := mine.mpr rfl
        by_cases here : u = t
        · rw [here, Function.update_self]
          exact ⟨fun none => (by cases none), fun holds => (by cases holds)⟩
        · rw [Function.update_of_ne here, ← others, held]
          exact ⟨fun none => (by cases none),
            fun same => absurd (Option.some.inj same).symm here⟩
  locks u waits := by
    have at_' : Function.update s.stages t .idle u = .allocLock := waits
    by_cases here : u = t
    · rw [here, Function.update_self] at at_'
      cases at_'
    · rw [Function.update_of_ne here] at at_'
      exact guarded.locks u at_'

omit [Fintype ι] in
theorem guarded_next {t : ι} (guarded : Guarded C s) (moved : s.next C t = some s') :
    Guarded C s' := by
  unfold State.next at moved
  cases stage : s.stages t with
  | idle => simp [stage] at moved
  | allocNew => simp [stage] at moved
  | allocPop locked =>
      simp only [stage] at moved
      cases list : s.free with
      | cons obj others =>
          simp only [list] at moved
          cases moved
          exact guarded.moved stage rfl rfl rfl fun same => by cases same
      | nil =>
          simp only [list] at moved
          cases moved
          refine guarded.moved stage rfl rfl ?_ ?_
          · cases C.serialize <;> cases locked <;> rfl
          · intro same
            by_contra off
            rw [Bool.not_eq_true] at off
            rw [off] at same
            cases same
  | allocDec locked obj =>
      simp only [stage] at moved
      cases moved
      cases locked with
      | true => exact guarded.moved stage rfl rfl rfl fun same => by cases same
      | false => exact guarded.moved stage rfl rfl rfl fun same => by cases same
  | allocLock =>
      simp only [stage] at moved
      obtain ⟨free, moved⟩ := Option.ite_none_right_eq_some.mp moved
      cases moved
      exact guarded.lock stage free
  | block first rest =>
      simp only [stage] at moved
      cases rest with
      | nil =>
          cases moved
          exact guarded.unlock stage
      | cons obj rest =>
          cases moved
          exact guarded.moved stage rfl rfl rfl fun same => by cases same
  | freeTest back | gcTest low back =>
      simp only [stage] at moved
      cases moved
      refine guarded.moved stage rfl rfl ?_ fun same => ?_
      · rw [apply_ite Stage.holds, holds_stage]
        simp only [Stage.holds, ite_self]
      · cases back <;> split at same <;> cases same
  | gcPop low back =>
      simp only [stage] at moved
      cases list : s.free with
      | cons obj others =>
          simp only [list] at moved
          cases moved
          exact guarded.moved stage rfl rfl rfl fun same => by cases same
      | nil =>
          simp only [list] at moved
          cases moved
          refine guarded.moved stage rfl rfl (by rw [holds_stage]; rfl) fun same => ?_
          cases back <;> cases same
  | freeInc obj back | freePush obj back | gcDec low obj back | gcRelease low obj back =>
      simp only [stage] at moved
      cases moved
      exact guarded.moved stage rfl rfl rfl fun same => by cases same

omit [Fintype ι] in
theorem guarded_step {label : Label ι} (guarded : Guarded C s)
    (moved : step C s label = some s') : Guarded C s' := by
  cases label with
  | alloc t | free t obj | collectGarbage t =>
      obtain ⟨idle, moved⟩ := Option.ite_none_right_eq_some.mp moved
      cases moved
      exact guarded.moved idle rfl rfl rfl fun same => by cases same
  | fresh t objs =>
      cases objs with
      | nil => cases moved
      | cons first rest =>
          obtain ⟨here, moved⟩ := Option.ite_none_right_eq_some.mp moved
          cases moved
          exact guarded.moved here rfl rfl rfl fun same => by cases same
  | step t => exact guarded_next guarded moved

omit [Fintype ι] in
/-- Only `pthread_mutex_lock` and the system let a thread wait. -/
theorem next_isSome {t : ι} (busy : s.stages t ≠ .idle) (unlocked : s.stages t ≠ .allocLock)
    (served : s.stages t ≠ .allocNew) : (s.next C t).isSome = true := by
  unfold State.next
  cases stage : s.stages t with
  | idle => exact absurd stage busy
  | allocLock => exact absurd stage unlocked
  | allocNew => exact absurd stage served
  | allocPop locked => cases s.free <;> rfl
  | gcPop low back => cases s.free <;> rfl
  | block first rest => cases rest <;> rfl
  | _ => rfl

omit [Fintype ι] in
/-- **Nobody waits for ever.**  At most one thread is between the calls of the mutex, where pages
are got from the system, and while a call of the allocator has not returned some thread can go on or
waits for the system. -/
theorem never_stuck (run : Reaches (step C) (Allowed C) init s) :
    (C.serialize = true → ∀ t u, (s.stages t).holds = true → (s.stages u).holds = true → t = u) ∧
      ∀ t, s.stages t ≠ .idle → ∃ u, (s.next C u).isSome = true ∨ s.stages u = .allocNew := by
  have guarded : Guarded C s :=
    run.invariant (guarded_init C) fun _ _ _ guarded _ => guarded_step guarded
  constructor
  · intro serialize t u first second
    have held := (guarded.holder t).mpr (by rw [serialize, first]; rfl)
    exact Option.some.inj (held.symm.trans
      ((guarded.holder u).mpr (by rw [serialize, second]; rfl)))
  · intro t busy
    by_cases served : s.stages t = .allocNew
    · exact ⟨t, .inr served⟩
    by_cases waits : s.stages t = .allocLock
    · cases mutex : s.mutex with
      | none =>
          refine ⟨t, .inl ?_⟩
          unfold State.next
          rw [waits]
          exact congrArg Option.isSome (if_pos mutex)
      | some u =>
          have holds := (Bool.and_eq_true _ _ ▸ (guarded.holder u).mp mutex).2
          by_cases new : s.stages u = .allocNew
          · exact ⟨u, .inr new⟩
          · refine ⟨u, .inl (next_isSome (fun idle => ?_) (fun lock => ?_) new)⟩
            · rw [idle] at holds
              cases holds
            · rw [lock] at holds
              cases holds
    · exact ⟨t, .inl (next_isSome busy waits served)⟩

/-- One thread has got a block of two pages, and the other one waits for the mutex. -/
theorem never_stuck_pages : ∃ s : State Bool, s.stages true = .allocLock ∧
    ∃ u, (s.next (pageAllocator 4 (by decide)) u).isSome = true ∨ s.stages u = .allocNew := by
  have first : Reaches (step (pageAllocator 4 (by decide))) (Allowed (pageAllocator 4 (by decide)))
      (init : State Bool) _ := Reaches.start.step (l := Label.alloc false) trivial rfl
  have second := first.step (l := Label.alloc true) trivial rfl
  have empty := second.step (l := Label.step false) trivial rfl
  have waits := empty.step (l := Label.step true) trivial rfl
  have locked := waits.step (l := Label.step false) trivial rfl
  have again := locked.step (l := Label.step false) trivial rfl
  have got := again.step (l := Label.fresh false [4096, 8192])
    ⟨rfl, by decide, fun obj inside => by
      refine ⟨?_, Multiset.notMem_zero _⟩
      rintro rfl
      exact absurd inside (by decide)⟩ rfl
  exact ⟨_, rfl, (never_stuck got).2 true (by decide)⟩

/-! ## Calls that nobody disturbs -/

omit [Fintype ι] in
/-- The loop of the garbage collection, alone: the objects that were pushed last go. -/
theorem gc_alone {s : State ι} {t : ι} {threshold : UInt64} {back : Return}
    (at_ : s.stages t = .gcTest threshold back) (count : s.count.toNat = s.free.length) :
    ∃ n s', runSteps (step C) s (List.replicate n (.step t)) = some s' ∧
      s'.stages = Function.update s.stages t back.stage ∧ s'.used = s.used ∧
      s'.unused = s.unused ∧ s'.free = s.free.drop (s.free.length - threshold.toNat) ∧
      s'.count.toNat = s'.free.length := by
  by_cases high : s.count > threshold
  · have more : threshold.toNat < s.free.length := by
      rw [← count]
      exact UInt64.lt_iff_toNat_lt.mp high
    cases list : s.free with
    | nil =>
        rw [list] at more
        exact absurd more (Nat.not_lt_zero _)
    | cons obj others =>
        rw [list, List.length_cons] at count more
        set s₁ := s.goto t (.gcPop threshold back) with h₁
        set s₂ := { s₁.goto t (.gcDec threshold obj back) with free := others } with h₂
        set s₃ := { s₂.goto t (.gcRelease threshold obj back) with count := s₂.count - 1 } with h₃
        set s₄ := { s₃.goto t (.gcTest threshold back) with taken := s₃.taken.erase obj } with h₄
        have one : (s.count - 1).toNat = others.length := by
          have sub := UInt64.toNat_sub s.count 1
          have one : UInt64.toNat 1 = 1 := rfl
          have small := s.count.toNat_lt
          omega
        obtain ⟨n, s', run, stages, used, unused, free, count'⟩ :=
          gc_alone (show s₄.stages t = .gcTest threshold back from Function.update_self ..) one
        have first : s.next C t = some s₁ := by
          unfold State.next
          simp only [at_, if_pos high]
          rfl
        have second : s₁.next C t = some s₂ := by
          have here : s₁.stages t = .gcPop threshold back := Function.update_self ..
          have same : s₁.free = obj :: others := list
          unfold State.next
          simp only [here, same]
          rfl
        have third : s₂.next C t = some s₃ := by
          have here : s₂.stages t = .gcDec threshold obj back := Function.update_self ..
          unfold State.next
          simp only [here]
          rfl
        have fourth : s₃.next C t = some s₄ := by
          have here : s₃.stages t = .gcRelease threshold obj back := Function.update_self ..
          unfold State.next
          simp only [here]
          rfl
        refine ⟨n + 4, s', ?_, ?_, used, unused, ?_, count'⟩
        · exact runSteps_cons first (runSteps_cons second (runSteps_cons third
            (runSteps_cons fourth run)))
        · rw [stages, h₄, h₃, h₂, h₁]
          simp only [State.goto, Function.update_idem]
        · have drop : (obj :: others).length - threshold.toNat =
              (others.length - threshold.toNat) + 1 := by
            rw [List.length_cons]
            omega
          rw [free, drop]
          rfl
  · refine ⟨1, s.goto t back.stage, ?_, rfl, rfl, rfl, ?_, count⟩
    · refine runSteps_cons ?_ rfl
      show s.next C t = _
      unfold State.next
      simp only [at_, if_neg high]
    · have short : s.free.length - threshold.toNat = 0 := by
        have low := UInt64.le_iff_toNat_le.mp (UInt64.not_lt.mp high)
        omega
      rw [short]
      rfl
termination_by s.free.length
decreasing_by
  rw [list]
  exact Nat.lt_succ_self _

/-- **A garbage collection that nobody disturbs** gives everything on the list back to the system,
and so does the destruction of the allocator; what is left over of blocks stays. -/
theorem collect_alone (run : Reaches (step C) (Allowed C) init s) (idle : ∀ u, s.stages u = .idle)
    (t : ι) : ∃ n s',
      runSteps (step C) s (.collectGarbage t :: List.replicate n (.step t)) = some s' ∧
        (∀ u, s'.stages u = .idle) ∧ s'.free = [] ∧ s'.count = 0 ∧ s'.used = s.used ∧
          s'.unused = s.unused ∧ s'.taken = s.used + s.unused ∧
          (C.mapped = C.block → s'.taken = s.used) := by
  have sound := sound_run run
  have count := sound.count_idle idle
  set s₁ := s.goto t (.gcTest 0 .caller) with h₁
  have first : step C s (.collectGarbage t) = some s₁ := if_pos (idle t)
  obtain ⟨n, s', loop, stages, used, unused, free, count'⟩ :=
    gc_alone (C := C) (show s₁.stages t = .gcTest 0 .caller from Function.update_self ..) count
  have all := runSteps_cons first loop
  have quiet (u : ι) : s'.stages u = .idle := by
    rw [stages, h₁, State.goto, Function.update_idem]
    by_cases here : u = t
    · rw [here, Function.update_self]
      rfl
    · rw [Function.update_of_ne here, idle u]
  have empty : s'.free = [] := by
    rw [free]
    exact List.drop_length
  have placed :=
    (sound_run (reaches_of_runSteps run (fun label inside u => ?_) all)).whole_idle quiet
  · rw [empty, Multiset.coe_nil, zero_add, used, unused] at placed
    refine ⟨n, s', all, quiet, empty, UInt64.toNat_inj.mp ?_, used, unused, placed.symm,
      fun whole => ?_⟩
    · rw [count', empty]
      rfl
    · rw [← placed]
      show s.used + s.unused = s.used
      rw [sound.divided whole, add_zero]
  · obtain rfl | later := List.mem_cons.mp inside
    · trivial
    · rw [(List.mem_replicate.mp later).2]
      trivial

/-- The page on the list goes, and the one that is left over does not. -/
theorem collect_alone_oneBlock : ∃ s s' : State Bool, s.free = [8192] ∧ s'.free = [] ∧
    s'.used = {4096} ∧ s'.taken = {4096} + {12288} := by
  obtain ⟨s, run, idle, used, list, unused⟩ := oneBlock
  obtain ⟨n, s', -, -, free, -, used', -, taken, -⟩ := collect_alone run idle true
  rw [used, unused] at taken
  exact ⟨s, s', list, free, used'.trans used, taken⟩

omit [Fintype ι] in
/-- The first steps of `_free`. -/
theorem push_alone {t : ι} {obj : SListPointer} {back : Return}
    (at_ : s.stages t = .freeInc obj back) : ∃ s',
      runSteps (step C) s [.step t, .step t] = some s' ∧
      s'.stages = Function.update s.stages t (.freeTest back) ∧
      s'.free = obj :: s.free ∧ s'.used = s.used := by
  set s₁ := { s.goto t (.freePush obj back) with count := s.count + 1 } with h₁
  set s₂ := { s₁.goto t (.freeTest back) with free := obj :: s₁.free } with h₂
  have first : s.next C t = some s₁ := by
    unfold State.next
    simp only [at_]
    rfl
  have second : s₁.next C t = some s₂ := by
    have here : s₁.stages t = .freePush obj back := Function.update_self ..
    unfold State.next
    simp only [here]
    rfl
  refine ⟨s₂, runSteps_cons first (runSteps_cons second rfl), ?_, rfl, rfl⟩
  rw [h₂, h₁]
  simp only [State.goto, Function.update_idem]

omit [Fintype ι] in
/-- The rest of `_free`, alone. -/
theorem test_alone {t : ι} {back : Return} (at_ : s.stages t = .freeTest back)
    (count : s.count.toNat = s.free.length) : ∃ n s',
      runSteps (step C) s (List.replicate n (.step t)) = some s' ∧
        s'.stages = Function.update s.stages t back.stage ∧ s'.used = s.used ∧
          s'.free = if s.free.length ≤ C.gcThreshold.toNat then s.free
            else s.free.drop (s.free.length - C.gcThreshold.toNat / 2) := by
  by_cases high : s.count > C.gcThreshold
  · set s₁ := s.goto t (.gcTest (C.gcThreshold / 2) back) with h₁
    have first : s.next C t = some s₁ := by
      unfold State.next
      simp only [at_, if_pos high]
      rfl
    have long : ¬ s.free.length ≤ C.gcThreshold.toNat := by
      rw [← count]
      exact Nat.not_le.mpr (UInt64.lt_iff_toNat_lt.mp high)
    obtain ⟨n, s', loop, stages, used, -, free, -⟩ := gc_alone (C := C)
      (show s₁.stages t = .gcTest (C.gcThreshold / 2) back from Function.update_self ..) count
    refine ⟨n + 1, s', runSteps_cons first loop, ?_, used, ?_⟩
    · rw [stages, h₁, State.goto, Function.update_idem]
    · rw [if_neg long, free, UInt64.toNat_div]
      rfl
  · have short : s.free.length ≤ C.gcThreshold.toNat := by
      rw [← count]
      exact UInt64.le_iff_toNat_le.mp (UInt64.not_lt.mp high)
    refine ⟨1, s.goto t back.stage, runSteps_cons ?_ rfl, rfl, rfl, (if_pos short).symm⟩
    show s.next C t = _
    unfold State.next
    simp only [at_, if_neg high]

/-- **Freeing an object that nobody disturbs** puts it on the list; where the list is then longer
than the threshold, only the objects stay that were freed first, half as many as the threshold. -/
theorem free_alone (run : Reaches (step C) (Allowed C) init s) (idle : ∀ u, s.stages u = .idle)
    (t : ι) {obj : SListPointer} (mine : obj ∈ s.used) : ∃ n s',
      runSteps (step C) s (.free t obj :: List.replicate n (.step t)) = some s' ∧
        (∀ u, s'.stages u = .idle) ∧ s'.used = s.used.erase obj ∧
          s'.free = if s.free.length + 1 ≤ C.gcThreshold.toNat then obj :: s.free
            else (obj :: s.free).drop (s.free.length + 1 - C.gcThreshold.toNat / 2) := by
  set s₀ := { s.goto t (.freeInc obj .caller) with used := s.used.erase obj } with h₀
  have first : step C s (.free t obj) = some s₀ := if_pos (idle t)
  obtain ⟨s₁, pushed, stages₁, free₁, used₁⟩ := push_alone (C := C)
    (show s₀.stages t = .freeInc obj .caller from Function.update_self ..)
  have reached : Reaches (step C) (Allowed C) init s₁ := by
    refine reaches_of_runSteps (run.step (l := .free t obj) mine first)
      (fun label inside u => ?_) pushed
    rw [(List.mem_replicate.mp (show label ∈ List.replicate 2 (.step t) from inside)).2]
    trivial
  have others (u : ι) (other : u ≠ t) : s₁.stages u = .idle := by
    rw [stages₁, h₀, State.goto, Function.update_idem, Function.update_of_ne other, idle u]
  have here : s₁.stages t = .freeTest .caller := by
    rw [stages₁, Function.update_self]
  have count : s₁.count.toNat = s₁.free.length := by
    have exact_ := (sound_run reached).count
    have quiet : total Stage.pending s₁.stages = 0 := by
      rw [total_alone t fun u other => by rw [others u other]; rfl, here]
      rfl
    rwa [quiet, Nat.add_zero] at exact_
  obtain ⟨n, s', tested, stages, used, free⟩ := test_alone (C := C) here count
  have length : s₁.free.length = s.free.length + 1 := by
    rw [free₁]
    rfl
  refine ⟨2 + n, s', runSteps_cons first ?_, fun u => ?_, ?_, ?_⟩
  · rw [List.replicate_add]
    exact runSteps_append pushed tested
  · rw [stages]
    by_cases same : u = t
    · rw [same, Function.update_self]
      rfl
    · rw [Function.update_of_ne same, others u same]
  · rw [used, used₁]
  · rw [free, length, free₁]
    rfl

/-- The object goes to the list. -/
theorem free_alone_oneUsed : ∃ s : State Bool, s.free = [16] ∧ ∀ t, s.stages t = .idle := by
  obtain ⟨s, run, idle, used, empty⟩ := oneUsed
  have mine : 16 ∈ s.used := by
    rw [used]
    exact Multiset.mem_singleton_self 16
  obtain ⟨n, s', -, idle', -, free⟩ := free_alone run idle true mine
  rw [empty] at free
  exact ⟨s', free, idle'⟩

end Cache

end HybridDatabase.Allocator
