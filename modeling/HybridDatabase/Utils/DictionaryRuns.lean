/-
# The dictionary as a map

A dictionary stands for a finite map: the pairs of its buckets are the pairs of the map,
through every sequence of calls.
-/

import HybridDatabase.Base.Runs
import HybridDatabase.Utils.DictionaryMap
import Mathlib.Data.Set.Card

namespace HybridDatabase.Utils

open HybridDatabase.Base

variable {V : Type}

open NumDictionary

/-- A call; `page_alloc` would give `page`. -/
inductive DictionaryCall (V : Type)
  | insert (key : UInt64) (value : V) (page : ℕ)
  | remove (key : UInt64)
  | get (key : UInt64)
  | visit

/-- What a call answers: whether it did anything, the value it found, the pairs it visited. -/
inductive DictionaryAnswer (V : Type)
  | done (success : Bool)
  | found (value : Option V)
  | visited (pairs : List (UInt64 × V))

/-- A dictionary and the map that it stands for. -/
structure MappedDictionary (V : Type) where
  dictionary : NumDictionary V
  map : UInt64 → Option V

namespace MappedDictionary

variable (nodeSize : ℕ)

/-- An initialised dictionary, in any memory. -/
def start (memory : ℕ → DictionaryNode V) : MappedDictionary V :=
  ⟨NumDictionary.init memory, fun _ => none⟩

/-- The dictionary does not grow beyond the list of capacities. -/
def Allowed (g : MappedDictionary V) : DictionaryCall V → Prop
  | .insert _ _ page => g.dictionary.RoomFor ∧ g.dictionary.FreshPage page
  | _ => True

instance (g : MappedDictionary V) (call : DictionaryCall V) : Decidable (g.Allowed call) := by
  cases call with
  | insert key value page =>
      unfold Allowed RoomFor FreshPage
      infer_instance
  | remove key => exact instDecidableTrue
  | get key => exact instDecidableTrue
  | visit => exact instDecidableTrue

/-- What the dictionary does. -/
def perform (s : NumDictionary V) : DictionaryCall V →
    Option (DictionaryAnswer V × NumDictionary V)
  | .insert key value page => do
      let (success, s) ← s.insert nodeSize page key value
      return (.done success, s)
  | .remove key => do
      let (success, s) ← s.remove key
      return (.done success, s)
  | .get key => do
      let node ← s.getNode key
      return (.found (if node = 0 then none else some (s.nodes node).value), s)
  | .visit => do
      let pairs ← s.visit
      return (.visited pairs, s)

/-- What becomes of the map; the value of the first insert stays. -/
def after (map : UInt64 → Option V) : DictionaryCall V → UInt64 → Option V
  | .insert key value _ => if (map key).isSome then map else Function.update map key (some value)
  | .remove key => Function.update map key none
  | _ => map

/-- What a map answers. -/
def Answers (map : UInt64 → Option V) : DictionaryCall V → DictionaryAnswer V → Prop
  | .insert key _ _, .done success => success = (map key).isNone
  | .remove key, .done success => success = (map key).isSome
  | .get key, .found value => value = map key
  | .visit, .visited pairs => (pairs.map Prod.fst).Nodup ∧
      ∀ key value, (key, value) ∈ pairs ↔ map key = some value
  | _, _ => False

/-- One call. -/
def step (g : MappedDictionary V) (call : DictionaryCall V) : Option (MappedDictionary V) :=
  if g.Allowed call then
    (perform nodeSize g.dictionary call).map fun (_, s) => ⟨s, after g.map call⟩
  else none

/-- The dictionary stands for the map: every node is in the bucket of its hash or free, no
node is in two places, and the size is that of the map. -/
structure Right (g : MappedDictionary V) : Prop where
  nodes : ∃ chains free, Filled g.dictionary.capacity g.dictionary.nodes g.dictionary.buckets
      chains ∧ Chain (nextOf g.dictionary.nodes) 0 g.dictionary.freeNodes free ∧
    (chains.flatten ++ free).Nodup
  size : g.dictionary.size = {key | g.map key ≠ none}.ncard
  light : g.dictionary.size * 2 ≤ g.dictionary.capacity + 1

/-- What every call keeps. -/
structure Kept (g : MappedDictionary V) (chains : List (List ℕ)) (free : List ℕ) : Prop where
  chained : g.dictionary.Chained nodeSize chains free
  light : g.dictionary.Light
  paged : g.dictionary.Paged
  pairs : ∀ key value, (key, value) ∈ NumDictionary.pairs g.dictionary.nodes chains ↔
    g.map key = some value

variable {nodeSize} {g : MappedDictionary V} {chains : List (List ℕ)} {free : List ℕ}

theorem kept_start (memory : ℕ → DictionaryNode V) : (start memory).Kept nodeSize [] [] := by
  refine ⟨⟨Nat.zero_lt_succ _, rfl, ⟨rfl, rfl, ?_, ?_⟩, rfl, List.nodup_nil, List.nodup_nil, rfl, ?_⟩,
    Nat.zero_le _, fun _ among => (nomatch among), fun key value => ?_⟩
  · intro i first chain atBucket
    cases atBucket
  · intro i chain found
    cases found
  · exact fun _ among => (nomatch among)
  · exact ⟨fun among => (nomatch among), fun present => (nomatch present)⟩

theorem Kept.nodup_keys (kept : g.Kept nodeSize chains free) :
    ((NumDictionary.pairs g.dictionary.nodes chains).map Prod.fst).Nodup := by
  rw [NumDictionary.pairs, List.map_map]
  exact kept.chained.keys

theorem Kept.right (kept : g.Kept nodeSize chains free) : g.Right := by
  refine ⟨⟨chains, free, kept.chained.filled, kept.chained.freeChain, kept.chained.different⟩,
    ?_, kept.light⟩
  have keys : {key | g.map key ≠ none} =
      ((NumDictionary.pairs g.dictionary.nodes chains).map Prod.fst).toFinset := by
    ext key
    rw [Set.mem_ofPred_eq, List.coe_toFinset, Set.mem_ofPred_eq, List.mem_map]
    constructor
    · intro present
      obtain ⟨value, some⟩ := Option.ne_none_iff_exists'.mp present
      exact ⟨(key, value), (kept.pairs key value).mpr some, rfl⟩
    · rintro ⟨⟨_, value⟩, among, rfl⟩ absent
      rw [(kept.pairs _ value).mp among] at absent
      cases absent
  rw [keys, Set.ncard_coe_finset, List.toFinset_card_of_nodup kept.nodup_keys,
    kept.chained.size, NumDictionary.pairs, List.length_map, List.length_map]

theorem Kept.absent (kept : g.Kept nodeSize chains free) {key : UInt64}
    (missing : ∀ value, (key, value) ∉ NumDictionary.pairs g.dictionary.nodes chains) :
    g.map key = none := by
  cases found : g.map key with
  | none => rfl
  | some value => exact absurd ((kept.pairs key value).mpr found) (missing value)

/-- An insert is allowed where the dictionary can grow and gets a page of its own. -/
theorem Kept.insert (kept : g.Kept nodeSize chains free) (positive : 0 < nodeSize)
    (small : nodeSize ≤ dictionaryPageSize - 16) (key : UInt64) (value : V) {page : ℕ}
    (room : g.dictionary.RoomFor) (fresh : g.dictionary.FreshPage page) :
    ∃ success s chains' free',
      g.dictionary.insert nodeSize page key value = some (success, s) ∧
      success = (g.map key).isNone ∧
      Kept nodeSize ⟨s, after g.map (.insert key value page)⟩ chains' free' := by
  obtain ⟨success, s, chains', free', done, chained, light, paged, present, absent⟩ :=
    kept.chained.insert kept.light kept.paged room fresh positive small key value
  refine ⟨success, s, chains', free', done, ?_, chained, light, paged, fun k v => ?_⟩
  · cases success with
    | false =>
        obtain ⟨⟨v, among⟩, -⟩ := present rfl
        rw [(kept.pairs key v).mp among]
        rfl
    | true =>
        rw [kept.absent (absent rfl).1]
        rfl
  · cases success with
    | false =>
        obtain ⟨⟨w, among⟩, perm⟩ := present rfl
        have there : (g.map key).isSome = true := by
          rw [(kept.pairs key w).mp among]
          rfl
        rw [perm.mem_iff, kept.pairs, after, if_pos there]
    | true =>
        obtain ⟨missing, perm⟩ := absent rfl
        have none := kept.absent missing
        have gone : ¬(g.map key).isSome = true := by
          rw [none]
          exact Bool.false_ne_true
        rw [perm.mem_iff, List.mem_cons, kept.pairs, after, if_neg gone, Prod.mk.injEq]
        show _ ↔ Function.update g.map key (some value) k = some v
        by_cases same : k = key
        · subst same
          rw [Function.update_self, none, Option.some.injEq]
          simp [eq_comm]
        · rw [Function.update_of_ne same]
          simp [same]

theorem Kept.remove (kept : g.Kept nodeSize chains free) (key : UInt64) :
    ∃ success s chains' free', g.dictionary.remove key = some (success, s) ∧
      success = (g.map key).isSome ∧
      Kept nodeSize ⟨s, after g.map (.remove key)⟩ chains' free' := by
  obtain ⟨success, s, chains', free', done, chained, light, paged, absent, present⟩ :=
    kept.chained.remove kept.light kept.paged key
  refine ⟨success, s, chains', free', done, ?_, chained, light, paged, fun k v => ?_⟩
  · cases success with
    | false =>
        rw [kept.absent (absent rfl).1]
        rfl
    | true =>
        obtain ⟨v, perm⟩ := present rfl
        rw [(kept.pairs key v).mp (perm.mem_iff.mpr List.mem_cons_self)]
        rfl
  · cases success with
    | false =>
        obtain ⟨missing, perm⟩ := absent rfl
        have none := kept.absent missing
        rw [perm.mem_iff, kept.pairs, after, ← none, Function.update_eq_self]
    | true =>
        obtain ⟨w, perm⟩ := present rfl
        have keys := (perm.map Prod.fst).nodup_iff.mp kept.nodup_keys
        obtain ⟨out, -⟩ := List.nodup_cons.mp keys
        show _ ↔ Function.update g.map key Option.none k = some v
        by_cases same : k = key
        · subst same
          rw [Function.update_self]
          refine ⟨fun among => ?_, fun wrong => (nomatch wrong)⟩
          exact absurd (List.mem_map_of_mem among) out
        · rw [Function.update_of_ne same, ← kept.pairs, perm.mem_iff, List.mem_cons]
          simp [same]

/-- Every allowed call is answered as the map answers it. -/
theorem Kept.call (kept : g.Kept nodeSize chains free) (positive : 0 < nodeSize)
    (small : nodeSize ≤ dictionaryPageSize - 16) {call : DictionaryCall V}
    (allowed : g.Allowed call) :
    ∃ answer s chains' free', perform nodeSize g.dictionary call = some (answer, s) ∧
      Answers g.map call answer ∧ Kept nodeSize ⟨s, after g.map call⟩ chains' free' := by
  cases call with
  | insert key value page =>
      obtain ⟨success, s, chains', free', done, answer, kept'⟩ :=
        kept.insert positive small key value allowed.1 allowed.2
      exact ⟨.done success, s, chains', free', by rw [perform, done]; rfl, answer, kept'⟩
  | remove key =>
      obtain ⟨success, s, chains', free', done, answer, kept'⟩ := kept.remove key
      exact ⟨.done success, s, chains', free', by rw [perform, done]; rfl, answer, kept'⟩
  | get key =>
      obtain ⟨node, got, result⟩ := kept.chained.getNode key
      refine ⟨_, g.dictionary, chains, free, by rw [perform, got]; rfl, ?_, kept⟩
      cases result with
      | inl missing =>
          obtain ⟨rfl, missing⟩ := missing
          refine (kept.absent fun value among => ?_).symm
          obtain ⟨other, inside, equal⟩ := List.mem_map.mp among
          exact missing other inside (congrArg Prod.fst equal)
      | inr found =>
          obtain ⟨real, among, same⟩ := found
          show (if node = 0 then none else some (g.dictionary.nodes node).value) = g.map key
          rw [if_neg real]
          refine ((kept.pairs key _).mp ?_).symm
          rw [← same]
          exact List.mem_map_of_mem among
  | visit =>
      refine ⟨_, g.dictionary, chains, free, by rw [perform, kept.chained.visit]; rfl, ?_, kept⟩
      exact ⟨kept.nodup_keys, kept.pairs⟩

/-- In every state that is reached the dictionary stands for its map, and every call that
is allowed comes back with the answer of the map. -/
theorem dictionary_is_map {nodeSize : ℕ} (positive : 0 < nodeSize)
    (small : nodeSize ≤ dictionaryPageSize - 16) (memory : ℕ → DictionaryNode V)
    (g : MappedDictionary V) (reaches : Reaches (step nodeSize) anyStep (start memory) g) :
    g.Right ∧ ∀ call, g.Allowed call → ∃ answer s,
      perform nodeSize g.dictionary call = some (answer, s) ∧ Answers g.map call answer := by
  obtain ⟨chains, free, kept⟩ : ∃ chains free, g.Kept nodeSize chains free := by
    induction reaches with
    | start => exact ⟨[], [], kept_start memory⟩
    | step before _ moved ih =>
        obtain ⟨chains, free, kept⟩ := ih
        unfold step at moved
        obtain ⟨allowed, moved⟩ := Option.ite_none_right_eq_some.mp moved
        obtain ⟨answer, s, chains', free', done, -, kept'⟩ := kept.call positive small allowed
        rw [done] at moved
        cases moved
        exact ⟨chains', free', kept'⟩
  refine ⟨kept.right, fun call allowed => ?_⟩
  obtain ⟨answer, s, -, -, done, answers, -⟩ := kept.call positive small allowed
  exact ⟨answer, s, done, answers⟩

/-- Nodes of 24 bytes, and one key that is inserted twice and then removed. -/
theorem dictionary_is_map_twice : ∃ g : MappedDictionary ℕ,
    runSteps (step 24) (start fun _ => ⟨0, 0, 0⟩) [.insert 5 1 4096, .insert 5 2 8192, .remove 5] =
      some g ∧ g.Right := by
  have ran : (runSteps (step 24) (start fun _ => ⟨0, 0, 0⟩)
      [.insert 5 1 4096, .insert 5 2 8192, .remove 5]).isSome = true := by decide +kernel
  obtain ⟨g, done⟩ := Option.isSome_iff_exists.mp ran
  have reaches : Reaches (step 24) anyStep (start fun _ => ⟨0, 0, 0⟩) g :=
    reaches_of_runSteps .start (fun _ _ _ => trivial) done
  exact ⟨g, done, (dictionary_is_map (Nat.zero_lt_succ _) (by decide) _ g reaches).1⟩

end MappedDictionary

end HybridDatabase.Utils
