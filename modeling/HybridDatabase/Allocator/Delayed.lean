/-
# The allocators that free later

`GenericAllocator` and `VPageAllocator` keep what has been freed on an atomic list, with the time of
the transaction that freed it.  A garbage collection asks `get_time` for the smallest start time of
all running transactions, and gives back to the system what is not younger.

Any number of threads allocate, free and collect, while the handles of the database begin and end
their transactions; a step is one operation on the list, on the counter or on a handle.
-/

import HybridDatabase.Allocator.Caches
import HybridDatabase.Utils.Stack

namespace HybridDatabase.Allocator

open HybridDatabase.Base HybridDatabase.Utils

namespace Delayed

/-! ## The state -/

/-- `struct GenericAllocator`, or `struct VPageAllocator`. -/
inductive Kind
  | generic
  | vpage
  deriving DecidableEq, Repr

/-- `struct GenericAllocatorItem` and `struct VPageAllocatorItem`. -/
structure Item where
  ptr : SListPointer
  time : UInt64
  deriving DecidableEq, Repr

/-- `~(uint64_t)0`. -/
def never : UInt64 := -1

/-- Where a thread is in a function of the allocator; `now` is what `get_time` has returned. -/
inductive Stage (ι : Type)
  | idle
  /-- `slist_atomic_pop` in `vpage_allocator_alloc`. -/
  | allocPop
  | allocDec (item : Item)
  /-- `xmalloc`, or `page_alloc`. -/
  | allocNew
  | freeInc (item : Item)
  | freePush (item : Item)
  | freeTest
  /-- `pthread_mutex_lock` in `get_time`. -/
  | gcLock
  /-- The loop of `get_time` over the handles. -/
  | gcScan (rest : List ι) (now : UInt64)
  /-- The test of the loop of `_vpage_allocator_gc`. -/
  | gcTest (now : UInt64)
  | gcPop (now : UInt64)
  | gcPopDec (now : UInt64) (item : Item)
  /-- `page->timestamp > time`. -/
  | gcJudge (now : UInt64) (item : Item)
  /-- `page_free` in the first loop. -/
  | gcFree (now : UInt64) (item : Item)
  /-- `slist_atomic_swap`, with the page that is already on the private list. -/
  | gcSwap (now : UInt64) (mine : List Item)
  /-- The loop over the private list. -/
  | gcItems (now : UInt64) (mine : List Item)
  | gcPush (now : UInt64) (item : Item) (mine : List Item)
  /-- `atomic_dec` in front of `free`. -/
  | gcDec (now : UInt64) (item : Item) (mine : List Item)
  /-- `free`, or `page_free` in the second loop. -/
  | gcRelease (now : UInt64) (item : Item) (mine : List Item)
  /-- `atomic_dec` behind `page_free`. -/
  | gcDrop (now : UInt64) (mine : List Item)
  deriving DecidableEq, Repr

variable {τ ι : Type}

/-- The allocator, its threads and the handles of the database.  `used` are the objects that have
been allocated and not freed, `taken` those that have been got from the system and not been given
back, and `freedAt` are the times they have been freed at.  `older` are the handles whose
transactions have been running since a garbage collection of the thread began. -/
structure State (τ ι : Type) where
  free : List Item
  count : UInt64
  gcThreshold : UInt64
  stages : τ → Stage ι
  used : Multiset SListPointer
  taken : Multiset SListPointer
  freedAt : SListPointer → UInt64
  startTime : ι → UInt64
  registered : List ι
  handlesMutex : Option τ
  older : τ → ι → Prop

/-- A new allocator of a database without handles. -/
def init (gcThreshold : UInt64) : State τ ι :=
  ⟨[], 0, gcThreshold, fun _ => .idle, 0, 0, fun _ => 0, fun _ => 0, [], none, fun _ _ => False⟩

/-- Calls of the functions, what the system gives, the steps of the threads, and what handles do. -/
inductive Label (τ ι : Type)
  | alloc (t : τ)
  | free (t : τ) (ptr : SListPointer) (time : UInt64)
  | collectGarbage (t : τ)
  | fresh (t : τ) (ptr : SListPointer)
  | step (t : τ)
  | register (h : ι)
  | unregister (h : ι)
  | begin (h : ι) (time : UInt64)
  | finish (h : ι)

section Steps

variable [DecidableEq τ] [DecidableEq ι]

def State.goto (s : State τ ι) (t : τ) (stage : Stage ι) : State τ ι :=
  { s with stages := Function.update s.stages t stage }

/-- A garbage collection begins. -/
def State.collect (s : State τ ι) (t : τ) : State τ ι :=
  { s.goto t .gcLock with older := Function.update s.older t fun h => s.startTime h ≠ 0 }

/-- `if (t && t < current_time) current_time = t`. -/
def earlier (time now : UInt64) : UInt64 := if time ≠ 0 ∧ time < now then time else now

/-- One step of thread `t`. -/
def State.next (K : Kind) (s : State τ ι) (t : τ) : Option (State τ ι) :=
  match s.stages t with
  | .idle | .allocNew => none
  | .allocPop =>
      match s.free with
      | item :: others => some { s.goto t (.allocDec item) with free := others }
      | [] => some (s.goto t .allocNew)
  | .allocDec item =>
      some { s.goto t .idle with count := s.count - 1, used := item.ptr ::ₘ s.used }
  | .freeInc item => some { s.goto t (.freePush item) with count := s.count + 1 }
  | .freePush item => some { s.goto t .freeTest with free := item :: s.free }
  | .freeTest => some (if s.count > s.gcThreshold then s.collect t else s.goto t .idle)
  | .gcLock =>
      if s.handlesMutex = none then
        some { s.goto t (.gcScan s.registered never) with handlesMutex := some t }
      else none
  | .gcScan (h :: rest) now => some (s.goto t (.gcScan rest (earlier (s.startTime h) now)))
  | .gcScan [] now =>
      let stage := match K with
        | .generic => .gcSwap now []
        | .vpage => .gcTest now
      some { s.goto t stage with handlesMutex := none }
  | .gcTest now => some (s.goto t (if s.count ≠ 0 then .gcPop now else .idle))
  | .gcPop now =>
      match s.free with
      | item :: others => some { s.goto t (.gcPopDec now item) with free := others }
      | [] => some (s.goto t .idle)
  | .gcPopDec now item => some { s.goto t (.gcJudge now item) with count := s.count - 1 }
  | .gcJudge now item =>
      some (s.goto t (if item.time > now then .gcSwap now [item] else .gcFree now item))
  | .gcFree now item => some { s.goto t (.gcTest now) with taken := s.taken.erase item.ptr }
  | .gcSwap now mine => some { s.goto t (.gcItems now s.free) with free := mine }
  | .gcItems _ [] => some (s.goto t .idle)
  | .gcItems now (item :: mine) =>
      some (s.goto t (if item.time > now then .gcPush now item mine
        else match K with
          | .generic => .gcDec now item mine
          | .vpage => .gcRelease now item mine))
  | .gcPush now item mine => some { s.goto t (.gcItems now mine) with free := item :: s.free }
  | .gcDec now item mine =>
      some { s.goto t (.gcRelease now item mine) with count := s.count - 1 }
  | .gcRelease now item mine =>
      let stage := match K with
        | .generic => .gcItems now mine
        | .vpage => .gcDrop now mine
      some { s.goto t stage with taken := s.taken.erase item.ptr }
  | .gcDrop now mine => some { s.goto t (.gcItems now mine) with count := s.count - 1 }

/-- One step of the system. -/
def step (K : Kind) (s : State τ ι) : Label τ ι → Option (State τ ι)
  | .alloc t =>
      if s.stages t = .idle then
        some (s.goto t (match K with
          | .generic => .allocNew
          | .vpage => .allocPop))
      else none
  | .free t ptr time =>
      if s.stages t = .idle then
        some { s.goto t (.freeInc ⟨ptr, time⟩) with
          used := s.used.erase ptr
          freedAt := Function.update s.freedAt ptr time }
      else none
  | .collectGarbage t => if s.stages t = .idle then some (s.collect t) else none
  | .fresh t ptr =>
      if s.stages t = .allocNew then
        some { s.goto t .idle with taken := ptr ::ₘ s.taken, used := ptr ::ₘ s.used }
      else none
  | .step t => s.next K t
  | .register h =>
      if s.handlesMutex = none ∧ h ∉ s.registered then
        some { s with registered := s.registered ++ [h] }
      else none
  | .unregister h =>
      if s.handlesMutex = none then
        some { s with
          registered := if h ∈ s.registered then Stack.moveLast (s.registered.idxOf h) s.registered
            else s.registered }
      else none
  | .begin h time =>
      if s.startTime h = 0 then
        some { s with startTime := Function.update s.startTime h time }
      else none
  | .finish h =>
      some { s with
        startTime := Function.update s.startTime h 0
        older := fun t g => s.older t g ∧ g ≠ h }

/-- Callers free what they have allocated, the system gives objects that it has not given, and only
handles that are registered run transactions. -/
def Allowed (s : State τ ι) : Label τ ι → Prop
  | .free _ ptr _ => ptr ∈ s.used
  | .fresh _ ptr => ptr ≠ SList.null ∧ ptr ∉ s.taken
  | .unregister h => s.startTime h = 0
  | .begin h _ => h ∈ s.registered
  | _ => True

end Steps

/-! ## What the threads have -/

/-- The objects of a list of items. -/
def objectsOf (items : List Item) : Multiset SListPointer := (items.map Item.ptr : List _)

/-- The objects that a thread has. -/
def Stage.objects : Stage ι → Multiset SListPointer
  | .idle | .allocPop | .allocNew | .freeTest | .gcLock | .gcScan _ _ | .gcTest _ | .gcPop _ => 0
  | .allocDec item | .freeInc item | .freePush item | .gcPopDec _ item | .gcJudge _ item
  | .gcFree _ item => {item.ptr}
  | .gcSwap _ mine | .gcItems _ mine | .gcDrop _ mine => objectsOf mine
  | .gcPush _ item mine | .gcDec _ item mine | .gcRelease _ item mine =>
      item.ptr ::ₘ objectsOf mine

/-- By how much the thread makes the counter of a `GenericAllocator` run ahead of the list. -/
def Stage.pending : Stage ι → ℕ
  | .allocDec _ | .freePush _ | .gcPopDec _ _ => 1
  | .gcSwap _ mine | .gcItems _ mine | .gcRelease _ _ mine => mine.length
  | .gcPush _ _ mine | .gcDec _ _ mine => mine.length + 1
  | _ => 0

/-- The stages of `_vpage_allocator_gc` alone. -/
def Stage.ofPages : Stage ι → Bool
  | .gcTest _ | .gcPop _ | .gcPopDec _ _ | .gcJudge _ _ | .gcFree _ _ | .gcDrop _ _ => true
  | _ => false

@[simp]
theorem card_objectsOf (items : List Item) : (objectsOf items).card = items.length := by
  rw [objectsOf, Multiset.coe_card, List.length_map]

@[simp]
theorem objectsOf_cons (item : Item) (items : List Item) :
    objectsOf (item :: items) = item.ptr ::ₘ objectsOf items := rfl

theorem pending_le_card (stage : Stage ι) : stage.pending ≤ stage.objects.card := by
  cases stage <;> simp [Stage.pending, Stage.objects]

/-! ## The invariant -/

variable [Fintype τ] {K : Kind} {s s' : State τ ι}

/-- Every object that has been got from the system is in one place, and the counter of a
`GenericAllocator` counts what is on the list and what garbage collections have in hand. -/
structure Sound (K : Kind) (s : State τ ι) : Prop where
  whole : objectsOf s.free + s.used + total Stage.objects s.stages = s.taken
  nodup : s.taken.Nodup
  real : SList.null ∉ s.taken
  plain : K = .generic → ∀ t, (s.stages t).ofPages = false
  counted : K = .generic →
    s.count.toNat = (s.free.length + total Stage.pending s.stages) % 2 ^ 64

theorem sound_init (K : Kind) (gcThreshold : UInt64) :
    Sound K (init gcThreshold : State τ ι) where
  whole := by
    have nothing : total Stage.objects (init gcThreshold : State τ ι).stages = 0 :=
      total_zero fun _ => rfl
    rw [nothing]
    rfl
  nodup := Multiset.nodup_zero
  real := Multiset.notMem_zero _
  plain _ _ := rfl
  counted _ := by
    have nothing : total Stage.pending (init gcThreshold : State τ ι).stages = 0 :=
      total_zero fun _ => rfl
    rw [nothing]
    rfl

/-- The counter of a `GenericAllocator` is exact. -/
theorem Sound.count (sound : Sound .generic s) :
    s.count.toNat = s.free.length + total Stage.pending s.stages := by
  have few := Cache.card_lt sound.nodup sound.real
  rw [← sound.whole, Multiset.card_add, Multiset.card_add, card_objectsOf] at few
  have pending : total Stage.pending s.stages ≤ (total Stage.objects s.stages).card := by
    rw [total, total, Multiset.card_sum]
    exact Finset.sum_le_sum fun t _ => pending_le_card _
  rw [sound.counted rfl, Nat.mod_eq_of_lt (by omega)]

variable [DecidableEq τ]

/-- A thread goes on. -/
theorem Sound.moved (sound : Sound K s) {t : τ} {old stage : Stage ι} (at_ : s.stages t = old)
    (stages : s'.stages = Function.update s.stages t stage)
    (objects : objectsOf s'.free + s'.used + stage.objects + s.taken =
      objectsOf s.free + s.used + old.objects + s'.taken)
    (nodup : s'.taken.Nodup) (real : SList.null ∉ s'.taken)
    (plain : K = .generic → old.ofPages = false → stage.ofPages = false)
    (counted : K = .generic → old.ofPages = false →
      (s'.count.toNat + s.free.length + old.pending) % 2 ^ 64 =
        (s.count.toNat + s'.free.length + stage.pending) % 2 ^ 64) : Sound K s' where
  whole := by
    subst at_
    rw [stages]
    exact total_conserved sound.whole objects
  nodup := nodup
  real := real
  plain generic u := by
    rw [stages]
    by_cases here : u = t
    · rw [here, Function.update_self]
      exact plain generic (at_ ▸ sound.plain generic t)
    · rw [Function.update_of_ne here]
      exact sound.plain generic u
  counted generic := by
    have update := total_update Stage.pending s.stages t stage
    have before := sound.counted generic
    have small := s'.count.toNat_lt
    have moved := counted generic (at_ ▸ sound.plain generic t)
    rw [at_] at update
    rw [stages]
    omega

/-- A step that only goes on. -/
theorem Sound.goto (sound : Sound K s) {t : τ} {old stage : Stage ι} (at_ : s.stages t = old)
    (objects : stage.objects = old.objects)
    (plain : K = .generic → old.ofPages = false → stage.ofPages = false)
    (pending : K = .generic → old.ofPages = false → stage.pending = old.pending) :
    Sound K (s.goto t stage) := by
  refine sound.moved at_ rfl ?_ sound.nodup sound.real plain fun generic same => ?_
  · rw [objects]
    rfl
  · rw [pending generic same]
    rfl

omit [DecidableEq τ] in
/-- The handles and their times do not matter. -/
theorem Sound.withHandles (sound : Sound K s) (startTime : ι → UInt64) (registered : List ι)
    (mutex : Option τ) (older : τ → ι → Prop) :
    Sound K { s with
      startTime := startTime, registered := registered, handlesMutex := mutex, older := older } :=
  ⟨sound.whole, sound.nodup, sound.real, sound.plain, sound.counted⟩

/-- A thread moves items between the list and itself. -/
theorem Sound.list (sound : Sound K s) {t : τ} {old stage : Stage ι} (at_ : s.stages t = old)
    {free : List Item} (objects : objectsOf free + stage.objects = objectsOf s.free + old.objects)
    (plain : old.ofPages = false → stage.ofPages = false)
    (pending : free.length + stage.pending = s.free.length + old.pending) :
    Sound K { s.goto t stage with free := free } := by
  refine sound.moved at_ rfl ?_ sound.nodup sound.real (fun _ => plain) fun _ _ => ?_
  · show objectsOf free + s.used + stage.objects + s.taken =
      objectsOf s.free + s.used + old.objects + s.taken
    rw [add_right_comm (objectsOf free), objects, add_right_comm (objectsOf s.free)]
  · show (s.count.toNat + s.free.length + old.pending) % 2 ^ 64 =
      (s.count.toNat + free.length + stage.pending) % 2 ^ 64
    rw [Nat.add_assoc, ← pending, Nat.add_assoc]

/-- `slist_atomic_pop`. -/
theorem Sound.pop (sound : Sound K s) {t : τ} {old stage : Stage ι} (at_ : s.stages t = old)
    {item : Item} {others : List Item} (list : s.free = item :: others)
    (mine : stage.objects = {item.ptr}) (nothing : old.objects = 0)
    (plain : old.ofPages = false → stage.ofPages = false)
    (pending : stage.pending = old.pending + 1) :
    Sound K { s.goto t stage with free := others } := by
  refine sound.list at_ ?_ plain ?_
  · rw [mine, nothing, list, objectsOf_cons, add_zero, Multiset.add_comm, Multiset.singleton_add]
  · rw [pending, list, List.length_cons]
    omega

/-- The counter is lowered. -/
theorem Sound.dec (sound : Sound K s) {t : τ} {old stage : Stage ι} (at_ : s.stages t = old)
    (objects : stage.objects = old.objects)
    (plain : K = .generic → old.ofPages = false → stage.ofPages = false)
    (pending : K = .generic → old.ofPages = false → stage.pending + 1 = old.pending) :
    Sound K { s.goto t stage with count := s.count - 1 } := by
  refine sound.moved at_ rfl ?_ sound.nodup sound.real plain fun generic same => ?_
  · rw [objects]
    rfl
  · show ((s.count - 1).toNat + s.free.length + old.pending) % 2 ^ 64 =
      (s.count.toNat + s.free.length + stage.pending) % 2 ^ 64
    have count := UInt64.toNat_sub s.count 1
    have one : UInt64.toNat 1 = 1 := rfl
    have less := pending generic same
    rw [one] at count
    omega

/-- An object is given back to the system. -/
theorem Sound.release (sound : Sound K s) {t : τ} {old stage : Stage ι} (at_ : s.stages t = old)
    {obj : SListPointer} (objects : old.objects = obj ::ₘ stage.objects)
    (plain : K = .generic → old.ofPages = false → stage.ofPages = false)
    (pending : K = .generic → old.ofPages = false → stage.pending = old.pending) :
    Sound K { s.goto t stage with taken := s.taken.erase obj } := by
  have mine : obj ∈ s.taken := by
    have whole := sound.whole
    rw [total_split _ _ t, at_, objects] at whole
    rw [← whole]
    simp
  have same := Multiset.cons_erase mine
  refine sound.moved at_ rfl ?_ (sound.nodup.erase obj) (fun null => sound.real ?_) plain
    fun generic same => ?_
  · show objectsOf s.free + s.used + stage.objects + s.taken =
      objectsOf s.free + s.used + old.objects + s.taken.erase obj
    rw [objects, Multiset.add_cons, Multiset.cons_add, ← Multiset.add_cons, same]
  · exact Multiset.mem_of_mem_erase null
  · rw [pending generic same]
    rfl

/-- A page of the list is handed out. -/
theorem Sound.give (sound : Sound K s) {t : τ} {item : Item}
    (at_ : s.stages t = .allocDec item) :
    Sound K { s.goto t .idle with count := s.count - 1, used := item.ptr ::ₘ s.used } := by
  refine sound.moved at_ rfl ?_ sound.nodup sound.real (fun _ same => same) fun _ _ => ?_
  · show objectsOf s.free + item.ptr ::ₘ s.used + 0 + s.taken =
      objectsOf s.free + s.used + {item.ptr} + s.taken
    rw [Multiset.add_cons, add_zero, Multiset.add_comm _ {item.ptr}, Multiset.singleton_add]
  · show ((s.count - 1).toNat + s.free.length + 1) % 2 ^ 64 =
      (s.count.toNat + s.free.length + 0) % 2 ^ 64
    have count := UInt64.toNat_sub s.count 1
    have one : UInt64.toNat 1 = 1 := rfl
    rw [one] at count
    omega

/-- The counter is raised for an item. -/
theorem Sound.inc (sound : Sound K s) {t : τ} {item : Item} (at_ : s.stages t = .freeInc item) :
    Sound K { s.goto t (.freePush item) with count := s.count + 1 } := by
  refine sound.moved at_ rfl rfl sound.nodup sound.real (fun _ same => same) fun _ _ => ?_
  show ((s.count + 1).toNat + s.free.length + 0) % 2 ^ 64 =
    (s.count.toNat + s.free.length + 1) % 2 ^ 64
  have count := UInt64.toNat_add s.count 1
  have one : UInt64.toNat 1 = 1 := rfl
  rw [one] at count
  omega

/-- A garbage collection begins. -/
theorem Sound.collect (sound : Sound K s) {t : τ} {old : Stage ι}
    (at_ : s.stages t = old) (objects : old.objects = 0) (pending : old.pending = 0) :
    Sound K (s.collect t) := by
  have goes : Sound K (s.goto t .gcLock) :=
    sound.goto at_ objects.symm (fun _ _ => rfl) fun _ _ => pending.symm
  exact goes.withHandles _ _ _ _

/-- One step of a thread. -/
theorem sound_next [DecidableEq ι] {t : τ} (sound : Sound K s) (moved : s.next K t = some s') :
    Sound K s' := by
  unfold State.next at moved
  cases stage : s.stages t with
  | idle => simp [stage] at moved
  | allocNew => simp [stage] at moved
  | allocPop =>
      simp only [stage] at moved
      cases list : s.free with
      | cons item others =>
          simp only [list] at moved
          cases moved
          exact sound.pop stage list rfl rfl (fun same => same) rfl
      | nil =>
          simp only [list] at moved
          cases moved
          exact sound.goto stage rfl (fun _ same => same) fun _ _ => rfl
  | allocDec item =>
      simp only [stage] at moved
      cases moved
      exact sound.give stage
  | freeInc item =>
      simp only [stage] at moved
      cases moved
      exact sound.inc stage
  | freePush item =>
      simp only [stage] at moved
      cases moved
      refine sound.list stage ?_ (fun same => same) rfl
      exact (add_zero _).trans (add_comm (objectsOf s.free) {item.ptr}).symm
  | freeTest =>
      simp only [stage] at moved
      cases moved
      by_cases high : s.count > s.gcThreshold
      · rw [if_pos high]
        exact sound.collect stage rfl rfl
      · rw [if_neg high]
        exact sound.goto stage rfl (fun _ same => same) fun _ _ => rfl
  | gcLock =>
      simp only [stage] at moved
      obtain ⟨-, moved⟩ := Option.ite_none_right_eq_some.mp moved
      cases moved
      have goes : Sound K (s.goto t (.gcScan s.registered never)) :=
        sound.goto stage rfl (fun _ same => same) fun _ _ => rfl
      exact goes.withHandles _ _ (some t) _
  | gcScan rest now =>
      cases rest with
      | nil =>
          simp only [stage] at moved
          cases moved
          cases K with
          | generic =>
              have goes : Sound .generic (s.goto t (.gcSwap now [])) :=
                sound.goto stage rfl (fun _ same => same) fun _ _ => rfl
              exact goes.withHandles _ _ none _
          | vpage =>
              have goes : Sound .vpage (s.goto t (.gcTest now)) :=
                sound.goto stage rfl (fun generic => by cases generic) fun _ _ => rfl
              exact goes.withHandles _ _ none _
      | cons h rest =>
          simp only [stage] at moved
          cases moved
          exact sound.goto stage rfl (fun _ same => same) fun _ _ => rfl
  | gcTest now =>
      simp only [stage] at moved
      cases moved
      by_cases more : s.count ≠ 0
      · rw [if_pos more]
        exact sound.goto stage rfl (fun _ same => by cases same) fun _ _ => rfl
      · rw [if_neg more]
        exact sound.goto stage rfl (fun _ _ => rfl) fun _ _ => rfl
  | gcPop now =>
      simp only [stage] at moved
      cases list : s.free with
      | cons item others =>
          simp only [list] at moved
          cases moved
          exact sound.pop stage list rfl rfl (fun same => by cases same) rfl
      | nil =>
          simp only [list] at moved
          cases moved
          exact sound.goto stage rfl (fun _ _ => rfl) fun _ _ => rfl
  | gcPopDec now item =>
      simp only [stage] at moved
      cases moved
      exact sound.dec stage rfl (fun _ same => by cases same) fun _ same => by cases same
  | gcJudge now item =>
      simp only [stage] at moved
      cases moved
      by_cases young : item.time > now
      · rw [if_pos young]
        exact sound.goto stage rfl (fun _ _ => rfl) fun _ same => by cases same
      · rw [if_neg young]
        exact sound.goto stage rfl (fun _ same => by cases same) fun _ same => by cases same
  | gcFree now item =>
      simp only [stage] at moved
      cases moved
      exact sound.release stage rfl (fun _ same => by cases same) fun _ same => by cases same
  | gcSwap now mine =>
      simp only [stage] at moved
      cases moved
      exact sound.list stage (add_comm _ _) (fun _ => rfl) (Nat.add_comm _ _)
  | gcItems now mine =>
      cases mine with
      | nil =>
          simp only [stage] at moved
          cases moved
          exact sound.goto stage rfl (fun _ _ => rfl) fun _ _ => rfl
      | cons item mine =>
          simp only [stage] at moved
          cases moved
          by_cases young : item.time > now
          · rw [if_pos young]
            exact sound.goto stage rfl (fun _ _ => rfl) fun _ _ => rfl
          · rw [if_neg young]
            cases K with
            | generic => exact sound.goto stage rfl (fun _ _ => rfl) fun _ _ => rfl
            | vpage =>
                exact sound.goto stage rfl (fun _ _ => rfl) fun generic => by cases generic
  | gcPush now item mine =>
      simp only [stage] at moved
      cases moved
      refine sound.list stage ?_ (fun _ => rfl) (Nat.add_right_comm _ 1 _)
      show item.ptr ::ₘ objectsOf s.free + objectsOf mine =
        objectsOf s.free + item.ptr ::ₘ objectsOf mine
      rw [Multiset.cons_add, Multiset.add_cons]
  | gcDec now item mine =>
      simp only [stage] at moved
      cases moved
      exact sound.dec stage rfl (fun _ _ => rfl) fun _ _ => rfl
  | gcRelease now item mine =>
      simp only [stage] at moved
      cases moved
      cases K with
      | generic => exact sound.release stage rfl (fun _ _ => rfl) fun _ _ => rfl
      | vpage =>
          exact sound.release stage rfl (fun generic => by cases generic)
            fun generic => by cases generic
  | gcDrop now mine =>
      simp only [stage] at moved
      cases moved
      exact sound.dec stage rfl (fun _ same => by cases same) fun _ same => by cases same

/-- A call begins, a thread goes on, the system gives an object, or a handle does something. -/
theorem sound_step [DecidableEq ι] {label : Label τ ι} (sound : Sound K s)
    (allowed : Allowed s label) (moved : step K s label = some s') : Sound K s' := by
  cases label with
  | alloc t =>
      obtain ⟨idle, moved⟩ := Option.ite_none_right_eq_some.mp moved
      cases moved
      cases K with
      | generic => exact sound.goto idle rfl (fun _ same => same) fun _ _ => rfl
      | vpage => exact sound.goto idle rfl (fun _ same => same) fun _ _ => rfl
  | free t ptr time =>
      obtain ⟨idle, moved⟩ := Option.ite_none_right_eq_some.mp moved
      cases moved
      have same := Multiset.cons_erase allowed
      refine sound.moved idle rfl ?_ sound.nodup sound.real (fun _ same => same) fun _ _ => rfl
      show objectsOf s.free + s.used.erase ptr + {ptr} + s.taken =
        objectsOf s.free + s.used + 0 + s.taken
      rw [add_assoc _ (s.used.erase ptr), Multiset.add_comm _ {ptr}, Multiset.singleton_add, same,
        add_zero]
  | collectGarbage t =>
      obtain ⟨idle, moved⟩ := Option.ite_none_right_eq_some.mp moved
      cases moved
      exact sound.collect idle rfl rfl
  | fresh t ptr =>
      obtain ⟨real, new⟩ := allowed
      obtain ⟨here, moved⟩ := Option.ite_none_right_eq_some.mp moved
      cases moved
      refine sound.moved here rfl ?_ (Multiset.nodup_cons.mpr ⟨new, sound.nodup⟩) ?_
        (fun _ same => same) fun _ _ => rfl
      · show objectsOf s.free + ptr ::ₘ s.used + 0 + s.taken =
          objectsOf s.free + s.used + 0 + ptr ::ₘ s.taken
        simp only [add_zero, Multiset.add_cons, Multiset.cons_add]
      · intro null
        obtain given | before := Multiset.mem_cons.mp null
        · exact real given.symm
        · exact sound.real before
  | step t => exact sound_next sound moved
  | register h =>
      obtain ⟨-, moved⟩ := Option.ite_none_right_eq_some.mp moved
      cases moved
      exact sound.withHandles _ _ _ _
  | unregister h =>
      obtain ⟨-, moved⟩ := Option.ite_none_right_eq_some.mp moved
      cases moved
      exact sound.withHandles _ _ _ _
  | begin h time =>
      obtain ⟨-, moved⟩ := Option.ite_none_right_eq_some.mp moved
      cases moved
      exact sound.withHandles _ _ _ _
  | finish h =>
      cases moved
      exact sound.withHandles _ _ _ _

theorem sound_run [DecidableEq ι] {gcThreshold : UInt64}
    (run : Reaches (step K) Allowed (init gcThreshold) s) : Sound K s :=
  run.invariant (sound_init K gcThreshold) fun _ _ _ => sound_step

/-- One of two threads has freed a page at time 7. -/
theorem oneFreed (K : Kind) : ∃ s : State Bool Bool,
    Reaches (step K) Allowed (init 4) s ∧ (∀ t, s.stages t = .idle) ∧ s.taken = {16} ∧
      s.free = [⟨16, 7⟩] ∧ s.count = 1 := by
  have got : ∃ s : State Bool Bool, Reaches (step K) Allowed (init 4) s ∧
      s.stages = (fun _ => .idle) ∧ s.used = {16} ∧ s.taken = {16} ∧ s.free = [] ∧ s.count = 0 ∧
        s.gcThreshold = 4 := by
    cases K with
    | generic =>
        have called : Reaches (step .generic) Allowed (init 4 : State Bool Bool) _ :=
          Reaches.start.step (l := Label.alloc false) trivial rfl
        have given := called.step (l := Label.fresh false 16)
          ⟨by decide, Multiset.notMem_zero _⟩ rfl
        exact ⟨_, given, funext fun t => by cases t <;> rfl, rfl, rfl, rfl, rfl, rfl⟩
    | vpage =>
        have called : Reaches (step .vpage) Allowed (init 4 : State Bool Bool) _ :=
          Reaches.start.step (l := Label.alloc false) trivial rfl
        have empty := called.step (l := Label.step false) trivial rfl
        have given := empty.step (l := Label.fresh false 16)
          ⟨by decide, Multiset.notMem_zero _⟩ rfl
        exact ⟨_, given, funext fun t => by cases t <;> rfl, rfl, rfl, rfl, rfl, rfl⟩
  obtain ⟨⟨_, _, _, _, _, _, _, _, _, _, _⟩, run, rfl, rfl, rfl, rfl, rfl, rfl⟩ := got
  have called := run.step (l := Label.free false 16 7) (Multiset.mem_singleton_self 16) rfl
  have counted := called.step (l := Label.step false) trivial rfl
  have pushed := counted.step (l := Label.step false) trivial rfl
  have back := pushed.step (l := Label.step false) trivial rfl
  exact ⟨_, back, fun t => by cases t <;> rfl, rfl, rfl, rfl⟩

/-! ## Every object is in one place -/

omit [DecidableEq τ] in
theorem total_idle {M : Type} [AddCommMonoid M] {weight : Stage ι → M} (none : weight .idle = 0)
    (idle : ∀ t, s.stages t = .idle) : total weight s.stages = 0 :=
  total_zero fun t => by rw [idle t, none]

omit [DecidableEq τ] in
theorem Sound.whole_idle (sound : Sound K s) (idle : ∀ t, s.stages t = .idle) :
    objectsOf s.free + s.used = s.taken := by
  have whole := sound.whole
  rwa [total_idle rfl idle, add_zero] at whole

/-- **No object is lost or given twice.**  In every run each object that has been got from the
system, and not been given back, is on the list, or in use, or one thread has it; so it is given
back once, and not while it is in use. -/
theorem no_object_lost [DecidableEq ι] {gcThreshold : UInt64}
    (run : Reaches (step K) Allowed (init gcThreshold) s) :
    objectsOf s.free + s.used + total Stage.objects s.stages = s.taken ∧ s.taken.Nodup ∧
      (∀ t, ∀ obj ∈ (s.stages t).objects, obj ∈ s.taken ∧ obj ∉ objectsOf s.free ∧ obj ∉ s.used ∧
        ∀ u, u ≠ t → obj ∉ (s.stages u).objects) ∧
      ((∀ t, s.stages t = .idle) → objectsOf s.free + s.used = s.taken) := by
  have sound := sound_run run
  refine ⟨sound.whole, sound.nodup, fun t obj has => ?_, sound.whole_idle⟩
  have nodup := sound.nodup
  rw [← sound.whole] at nodup
  obtain ⟨apart, others⟩ := total_apart nodup has
  rw [Multiset.mem_add, not_or] at apart
  refine ⟨?_, apart.1, apart.2, others⟩
  rw [← sound.whole]
  exact Multiset.mem_add.mpr (.inr (mem_total has))

theorem no_object_lost_oneFreed : ∃ s : State Bool Bool,
    s.taken = {16} ∧ objectsOf s.free + s.used = s.taken := by
  obtain ⟨s, run, idle, taken, -⟩ := oneFreed .vpage
  exact ⟨s, taken, (no_object_lost run).2.2.2 idle⟩

omit [DecidableEq τ] in
theorem Sound.count_idle (sound : Sound .generic s) (idle : ∀ t, s.stages t = .idle) :
    s.count.toNat = s.free.length := by
  have count := sound.count
  rwa [total_idle rfl idle, Nat.add_zero] at count

/-- **The queue of a `GenericAllocator` is counted.**  The counter never wraps around; it is ahead
of the list by what garbage collections have taken from the list and not given back yet, and by one
for each thread that is about to push an item. -/
theorem queue_counted [DecidableEq ι] {gcThreshold : UInt64}
    (run : Reaches (step .generic) Allowed (init gcThreshold) s) :
    s.count.toNat = s.free.length + total Stage.pending s.stages ∧
      ((∀ t, s.stages t = .idle) → s.count.toNat = s.free.length) := by
  have sound := sound_run run
  exact ⟨sound.count, sound.count_idle⟩

theorem queue_counted_oneFreed : ∃ s : State Bool Bool, s.free = [⟨16, 7⟩] ∧ s.count.toNat = 1 := by
  obtain ⟨s, run, idle, -, free, -⟩ := oneFreed .generic
  have count := (queue_counted run).2 idle
  rw [free] at count
  exact ⟨s, free, count⟩

end Delayed

end HybridDatabase.Allocator
