/-
# The chains of a dictionary

The nodes of a dictionary form one chain for each bucket and the chain of the free nodes.
This file says what the walks along the chains find, and that a change of the capacity puts
every node into the bucket of its hash.
-/

import HybridDatabase.Base.Chain
import HybridDatabase.Utils.NumDictionary
import Mathlib.Data.List.Forall2
import Mathlib.Data.List.Perm.Basic

namespace HybridDatabase.Utils

open HybridDatabase.Base

variable {V : Type}

/-- The pointers of the nodes. -/
def nextOf (nodes : ℕ → DictionaryNode V) : ℕ → ℕ := fun node => (nodes node).next

theorem nextOf_setNext (nodes : ℕ → DictionaryNode V) (node next : ℕ) :
    nextOf (setNext nodes node next) = Function.update (nextOf nodes) node next := by
  funext other
  unfold nextOf setNext
  by_cases same : other = node
  · subst same
    rw [Function.update_self, Function.update_self]
  · rw [Function.update_of_ne same, Function.update_of_ne same]

/-- Keys and values stay; outside the list, so do the pointers. -/
structure SameBut (moved : List ℕ) (nodes nodes' : ℕ → DictionaryNode V) : Prop where
  key : ∀ node, (nodes' node).key = (nodes node).key
  value : ∀ node, (nodes' node).value = (nodes node).value
  next : ∀ node ∉ moved, nextOf nodes' node = nextOf nodes node

namespace SameBut

variable {nodes nodes' nodes'' : ℕ → DictionaryNode V} {moved moved' : List ℕ}

theorem refl (moved : List ℕ) (nodes : ℕ → DictionaryNode V) : SameBut moved nodes nodes :=
  ⟨fun _ => rfl, fun _ => rfl, fun _ _ => rfl⟩

theorem trans (first : SameBut moved nodes nodes') (second : SameBut moved' nodes' nodes'') :
    SameBut (moved ++ moved') nodes nodes'' := by
  refine ⟨fun node => (second.key node).trans (first.key node),
    fun node => (second.value node).trans (first.value node), fun node outside => ?_⟩
  rw [List.mem_append, not_or] at outside
  rw [second.next node outside.2, first.next node outside.1]

theorem setNext (nodes : ℕ → DictionaryNode V) (node next : ℕ) :
    SameBut [node] nodes (setNext nodes node next) := by
  refine ⟨fun other => ?_, fun other => ?_, fun other outside => ?_⟩
  · unfold Utils.setNext
    by_cases same : other = node
    · subst same
      rw [Function.update_self]
    · rw [Function.update_of_ne same]
  · unfold Utils.setNext
    by_cases same : other = node
    · subst same
      rw [Function.update_self]
    · rw [Function.update_of_ne same]
  · rw [nextOf_setNext]
    exact Function.update_of_ne (fun same => outside (List.mem_singleton.mpr same)) _ _

/-- A chain without a moved node stays. -/
theorem chain {a : ℕ} {chain : List ℕ} (same : SameBut moved nodes nodes')
    (apart : List.Disjoint moved chain) (h : Chain (nextOf nodes) 0 a chain) :
    Chain (nextOf nodes') 0 a chain :=
  h.congr fun node among => same.next node fun inside => apart inside among

end SameBut

/-! ## Buckets -/

/-- The buckets hold these chains, and every node is in the bucket of its hash. -/
structure Filled (capacity : ℕ) (nodes : ℕ → DictionaryNode V) (buckets : List ℕ)
    (chains : List (List ℕ)) : Prop where
  bucketCount : buckets.length = capacity
  chainCount : chains.length = capacity
  chain : ∀ (i first : ℕ) (chain : List ℕ), buckets[i]? = some first → chains[i]? = some chain →
    Chain (nextOf nodes) 0 first chain
  hashed : ∀ (i : ℕ) (chain : List ℕ), chains[i]? = some chain →
    ∀ node ∈ chain, ndictHash capacity (nodes node).key = some i

theorem ndictHash_lt {capacity i : ℕ} {key : UInt64} (hash : ndictHash capacity key = some i) :
    i < capacity := by
  unfold ndictHash at hash
  split at hash
  · cases hash
  · rename_i positive
    cases hash
    exact Nat.mod_lt _ (Nat.pos_of_ne_zero positive)

theorem ndictHash_some {capacity : ℕ} (positive : capacity ≠ 0) (key : UInt64) :
    ∃ i, ndictHash capacity key = some i := ⟨_, if_neg positive⟩

namespace Filled

variable {capacity : ℕ} {nodes nodes' : ℕ → DictionaryNode V} {buckets : List ℕ}
  {chains : List (List ℕ)}

theorem empty (capacity : ℕ) (nodes : ℕ → DictionaryNode V) :
    Filled capacity nodes (List.replicate capacity 0) (List.replicate capacity []) := by
  refine ⟨List.length_replicate, List.length_replicate, ?_, ?_⟩
  · intro i first chain atBucket atChain
    obtain rfl := List.eq_of_mem_replicate (List.mem_of_getElem? atBucket)
    obtain rfl := List.eq_of_mem_replicate (List.mem_of_getElem? atChain)
    rfl
  · intro i chain found node among
    obtain rfl := List.eq_of_mem_replicate (List.mem_of_getElem? found)
    cases among

/-- A bucket with its chain. -/
theorem bucket {i : ℕ} (filled : Filled capacity nodes buckets chains) (inside : i < capacity) :
    ∃ first chain, buckets[i]? = some first ∧ chains[i]? = some chain ∧
      Chain (nextOf nodes) 0 first chain := by
  have low : i < buckets.length := by
    rw [filled.bucketCount]
    exact inside
  have low' : i < chains.length := by
    rw [filled.chainCount]
    exact inside
  have first := List.getElem?_eq_getElem low
  have chain := List.getElem?_eq_getElem low'
  exact ⟨_, _, first, chain, filled.chain i _ _ first chain⟩

/-- Pointers of other nodes change. -/
theorem sameBut {moved : List ℕ} (filled : Filled capacity nodes buckets chains)
    (same : SameBut moved nodes nodes') (apart : List.Disjoint moved chains.flatten) :
    Filled capacity nodes' buckets chains := by
  refine ⟨filled.bucketCount, filled.chainCount, ?_, ?_⟩
  · intro i first chain atBucket atChain
    refine same.chain (fun node inside among => apart inside ?_)
      (filled.chain i first chain atBucket atChain)
    exact List.mem_flatten_of_mem (List.mem_of_getElem? atChain) among
  · intro i chain found node among
    rw [same.key]
    exact filled.hashed i chain found node among

end Filled

/-- The nodes of all chains, with one chain replaced. -/
theorem flatten_set {α : Type} {chains : List (List α)} {i : ℕ} {old new : List α}
    (found : chains[i]? = some old) :
    (old ++ (chains.set i new).flatten).Perm (new ++ chains.flatten) := by
  induction chains generalizing i with
  | nil => cases found
  | cons chain chains ih =>
      cases i with
      | zero =>
          cases found
          simp only [List.set_cons_zero, List.flatten_cons]
          exact List.perm_append_comm_assoc _ _ _
      | succ i =>
          have inner := ih (i := i) found
          simp only [List.set_cons_succ, List.flatten_cons]
          have front : (old ++ (chain ++ (chains.set i new).flatten)).Perm
              (chain ++ (old ++ (chains.set i new).flatten)) :=
            List.perm_append_comm_assoc _ _ _
          have back : (chain ++ (new ++ chains.flatten)).Perm
              (new ++ (chain ++ chains.flatten)) := List.perm_append_comm_assoc _ _ _
          exact (front.trans (inner.append_left chain)).trans back

namespace Filled

variable {capacity : ℕ} {nodes nodes' : ℕ → DictionaryNode V} {buckets : List ℕ}
  {chains : List (List ℕ)}

/-- A node is put in front of the bucket of its hash. -/
theorem put {node i first : ℕ} (filled : Filled capacity nodes buckets chains)
    (real : node ≠ 0) (new : node ∉ chains.flatten)
    (hash : ndictHash capacity (nodes node).key = some i) (atBucket : buckets[i]? = some first) :
    ∃ chains', Filled capacity (setNext nodes node first) (buckets.set i node) chains' ∧
      chains'.flatten.Perm (node :: chains.flatten) := by
  obtain ⟨first', chain, atBucket', atChain, links⟩ := filled.bucket (ndictHash_lt hash)
  rw [atBucket] at atBucket'
  cases atBucket'
  have moved := filled.sameBut (SameBut.setNext nodes node first) (List.singleton_disjoint.mpr new)
  refine ⟨chains.set i (node :: chain), ⟨?_, ?_, ?_, ?_⟩, ?_⟩
  · rw [List.length_set, filled.bucketCount]
  · rw [List.length_set, filled.chainCount]
  · intro j first' chain' atBucket' atChain'
    rw [List.getElem?_set] at atBucket' atChain'
    by_cases same : i = j
    · subst same
      have low : i < buckets.length := (List.getElem?_eq_some_iff.mp atBucket).1
      have low' : i < chains.length := (List.getElem?_eq_some_iff.mp atChain).1
      rw [if_pos rfl, if_pos low] at atBucket'
      rw [if_pos rfl, if_pos low'] at atChain'
      cases atBucket'
      cases atChain'
      apply (moved.chain i first chain atBucket atChain).push real
      rw [nextOf_setNext, Function.update_self]
    · rw [if_neg same] at atBucket' atChain'
      exact moved.chain j first' chain' atBucket' atChain'
  · intro j chain' atChain' other among
    rw [List.getElem?_set] at atChain'
    by_cases same : i = j
    · subst same
      have low' : i < chains.length := (List.getElem?_eq_some_iff.mp atChain).1
      rw [if_pos rfl, if_pos low'] at atChain'
      cases atChain'
      obtain rfl | among := List.mem_cons.mp among
      · rw [(SameBut.setNext nodes other first).key]
        exact hash
      · exact moved.hashed i chain atChain other among
    · rw [if_neg same] at atChain'
      exact moved.hashed j chain' atChain' other among
  · have perm : (chain ++ (chains.set i (node :: chain)).flatten).Perm
        ((node :: chain) ++ chains.flatten) := flatten_set atChain
    refine List.perm_append_left_iff chain |>.mp (perm.trans ?_)
    exact List.perm_middle.symm

/-- A node is in one chain only. -/
theorem index_unique {i j node : ℕ} {chain chain' : List ℕ}
    (filled : Filled capacity nodes buckets chains) (found : chains[i]? = some chain)
    (found' : chains[j]? = some chain') (among : node ∈ chain) (among' : node ∈ chain') :
    i = j := by
  have hash := filled.hashed i chain found node among
  rw [filled.hashed j chain' found' node among'] at hash
  exact (Option.some.inj hash).symm

/-- One chain loses nodes. -/
theorem replace {i first : ℕ} {chain chain' moved : List ℕ}
    (filled : Filled capacity nodes buckets chains) (found : chains[i]? = some chain)
    (fewer : ∀ node ∈ chain', node ∈ chain) (same : SameBut moved nodes nodes')
    (inside : ∀ node ∈ moved, node ∈ chain) (links : Chain (nextOf nodes') 0 first chain') :
    Filled capacity nodes' (buckets.set i first) (chains.set i chain') := by
  refine ⟨?_, ?_, ?_, ?_⟩
  · rw [List.length_set, filled.bucketCount]
  · rw [List.length_set, filled.chainCount]
  · intro j first' other atBucket atChain
    rw [List.getElem?_set] at atBucket atChain
    by_cases equal : i = j
    · subst equal
      rw [if_pos rfl] at atBucket atChain
      obtain ⟨-, ⟨⟩⟩ := Option.ite_none_right_eq_some.mp atBucket
      obtain ⟨-, ⟨⟩⟩ := Option.ite_none_right_eq_some.mp atChain
      exact links
    · rw [if_neg equal] at atBucket atChain
      refine same.chain (fun node among among' => ?_) (filled.chain j first' other atBucket atChain)
      exact equal (filled.index_unique found atChain (inside node among) among')
  · intro j other atChain node among
    rw [same.key]
    rw [List.getElem?_set] at atChain
    by_cases equal : i = j
    · subst equal
      rw [if_pos rfl] at atChain
      obtain ⟨-, ⟨⟩⟩ := Option.ite_none_right_eq_some.mp atChain
      exact filled.hashed i chain found node (fewer node among)
    · rw [if_neg equal] at atChain
      exact filled.hashed j other atChain node among

end Filled

/-! ## Walks along a chain -/

namespace NumDictionary

variable {nodes : ℕ → DictionaryNode V} {chain : List ℕ} {first fuel : ℕ}

/-- The walk finds the first node with the key. -/
theorem findFrom_chain (key : UInt64) (links : Chain (nextOf nodes) 0 first chain)
    (enough : chain.length < fuel) :
    findFrom nodes key fuel first =
      some ((chain.find? fun node => (nodes node).key = key).getD 0) := by
  induction chain generalizing first fuel with
  | nil =>
      obtain ⟨fuel, rfl⟩ := Nat.exists_eq_add_of_lt enough
      obtain rfl : first = 0 := links
      rfl
  | cons node others ih =>
      obtain ⟨rfl, real, rest⟩ := links
      obtain ⟨fuel, rfl⟩ : ∃ n, fuel = n + 1 := ⟨fuel - 1, by omega⟩
      rw [findFrom, if_neg real]
      by_cases found : (nodes first).key = key
      · rw [if_pos found, List.find?_cons_of_pos (by simpa using found)]
        rfl
      · rw [if_neg found, List.find?_cons_of_neg (by simpa using found)]
        exact ih rest (Nat.lt_of_succ_lt_succ enough)

/-- The walk visits the pairs of the chain. -/
theorem visitFrom_chain (links : Chain (nextOf nodes) 0 first chain)
    (enough : chain.length < fuel) :
    visitFrom nodes fuel first =
      some (chain.map fun node => ((nodes node).key, (nodes node).value)) := by
  induction chain generalizing first fuel with
  | nil =>
      obtain ⟨fuel, rfl⟩ := Nat.exists_eq_add_of_lt enough
      obtain rfl : first = 0 := links
      rfl
  | cons node others ih =>
      obtain ⟨rfl, real, rest⟩ := links
      obtain ⟨fuel, rfl⟩ : ∃ n, fuel = n + 1 := ⟨fuel - 1, by omega⟩
      rw [visitFrom, if_neg real]
      have shorter : others.length < fuel := Nat.lt_of_succ_lt_succ enough
      have tail : visitFrom nodes fuel (nodes first).next = some (others.map fun node =>
          ((nodes node).key, (nodes node).value)) := ih rest shorter
      rw [tail]
      rfl

/-! ## Another capacity -/

/-- The nodes of one chain go into the new buckets. -/
theorem moveChain_filled {newCap : ℕ} {buckets : List ℕ} {chains : List (List ℕ)}
    (positive : newCap ≠ 0) (links : Chain (nextOf nodes) 0 first chain)
    (enough : chain.length < fuel) (filled : Filled newCap nodes buckets chains)
    (different : (chain ++ chains.flatten).Nodup) :
    ∃ buckets' nodes' chains', moveChain newCap fuel first buckets nodes =
        some (buckets', nodes') ∧
      Filled newCap nodes' buckets' chains' ∧
      chains'.flatten.Perm (chain ++ chains.flatten) ∧ SameBut chain nodes nodes' := by
  induction chain generalizing first fuel nodes buckets chains with
  | nil =>
      obtain ⟨fuel, rfl⟩ := Nat.exists_eq_add_of_lt enough
      obtain rfl : first = 0 := links
      exact ⟨buckets, nodes, chains, rfl, filled, List.Perm.refl _, .refl [] nodes⟩
  | cons node others ih =>
      obtain ⟨rfl, real, rest⟩ := links
      obtain ⟨fuel, rfl⟩ : ∃ n, fuel = n + 1 := ⟨fuel - 1, by omega⟩
      rw [List.cons_append] at different
      obtain ⟨absent, different⟩ := List.nodup_cons.mp different
      rw [List.mem_append, not_or] at absent
      obtain ⟨i, hash⟩ := ndictHash_some positive (nodes first).key
      obtain ⟨head, -, atBucket, -⟩ := filled.bucket (ndictHash_lt hash)
      obtain ⟨chains₁, filled₁, perm₁⟩ := filled.put real absent.2 hash atBucket
      have same₁ := SameBut.setNext nodes first head
      have rest₁ := same₁.chain (List.singleton_disjoint.mpr absent.1) rest
      have different₁ : (others ++ chains₁.flatten).Nodup := by
        apply (perm₁.append_left others).nodup_iff.mpr
        refine List.perm_middle.nodup_iff.mpr (List.nodup_cons.mpr ⟨?_, different⟩)
        rw [List.mem_append, not_or]
        exact absent
      obtain ⟨buckets', nodes', chains', moved, filled', perm', same'⟩ :=
        ih rest₁ (Nat.lt_of_succ_lt_succ enough) filled₁ different₁
      refine ⟨buckets', nodes', chains', ?_, filled', ?_, same₁.trans same'⟩
      · rw [moveChain, if_neg real]
        simp only [hash, atBucket, Option.bind_eq_bind, Option.bind_some]
        exact moved
      · refine perm'.trans ((perm₁.append_left others).trans ?_)
        exact List.perm_middle

theorem forall₂_sameBut {nodes' : ℕ → DictionaryNode V} {moved old : List ℕ}
    {oldChains : List (List ℕ)} (same : SameBut moved nodes nodes')
    (apart : List.Disjoint moved oldChains.flatten)
    (links : List.Forall₂ (Chain (nextOf nodes) 0) old oldChains) :
    List.Forall₂ (Chain (nextOf nodes') 0) old oldChains := by
  induction links with
  | nil => exact .nil
  | cons link others ih =>
      rw [List.flatten_cons, List.disjoint_append_right] at apart
      exact .cons (same.chain apart.1 link) (ih apart.2)

/-- The nodes of all chains go into the new buckets. -/
theorem moveChains_filled {newCap : ℕ} {old buckets : List ℕ} {oldChains chains : List (List ℕ)}
    (positive : newCap ≠ 0)
    (links : List.Forall₂ (Chain (nextOf nodes) 0) old oldChains)
    (enough : oldChains.flatten.length < fuel) (filled : Filled newCap nodes buckets chains)
    (different : (oldChains.flatten ++ chains.flatten).Nodup) :
    ∃ buckets' nodes' chains', moveChains newCap fuel old buckets nodes =
        some (buckets', nodes') ∧
      Filled newCap nodes' buckets' chains' ∧
      chains'.flatten.Perm (oldChains.flatten ++ chains.flatten) ∧
      SameBut oldChains.flatten nodes nodes' := by
  induction old generalizing oldChains nodes buckets chains with
  | nil =>
      cases links
      exact ⟨buckets, nodes, chains, rfl, filled, List.Perm.refl _, .refl [] nodes⟩
  | cons first old ih =>
      obtain _ | ⟨link, others⟩ := links
      rename_i chain oldChains
      rw [List.flatten_cons] at different enough
      rw [List.length_append] at enough
      rw [List.append_assoc] at different
      obtain ⟨-, different', apart⟩ := List.nodup_append'.mp different
      have first' : (chain ++ chains.flatten).Nodup := by
        refine different.sublist ?_
        exact (List.sublist_append_right _ _).append_left chain
      have shorter : chain.length < fuel := by omega
      have shorter' : oldChains.flatten.length < fuel := by omega
      obtain ⟨buckets₁, nodes₁, chains₁, moved₁, filled₁, perm₁, same₁⟩ :=
        moveChain_filled positive link shorter filled first'
      have others₁ := forall₂_sameBut same₁
        (List.disjoint_of_disjoint_append_right_left apart) others
      have different₁ : (oldChains.flatten ++ chains₁.flatten).Nodup := by
        apply (perm₁.append_left _).nodup_iff.mpr
        exact (List.perm_append_comm_assoc _ _ _).nodup_iff.mpr different
      obtain ⟨buckets', nodes', chains', moved', filled', perm', same'⟩ :=
        ih others₁ shorter' filled₁ different₁
      refine ⟨buckets', nodes', chains', ?_, filled', ?_, same₁.trans same'⟩
      · rw [moveChains, moved₁]
        exact moved'
      · refine perm'.trans ((perm₁.append_left _).trans ?_)
        rw [List.flatten_cons, List.append_assoc]
        exact List.perm_append_comm_assoc _ _ _

end NumDictionary

end HybridDatabase.Utils
