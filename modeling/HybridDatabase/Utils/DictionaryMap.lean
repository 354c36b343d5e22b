/-
# The operations of a dictionary

Every operation keeps the nodes in order: each is in the bucket of its hash or free, and in
one place only.  What it does to the pairs in the buckets is what its name says.
-/

import HybridDatabase.Utils.DictionaryChains

namespace HybridDatabase.Utils

open HybridDatabase.Base

variable {V : Type}

namespace NumDictionary

/-! ## What the operations keep -/

/-- The buckets hold these chains and `free_nodes` holds these nodes, no node twice.  Nodes
are cut from the pages. -/
structure Chained (nodeSize : ℕ) (s : NumDictionary V) (chains : List (List ℕ))
    (free : List ℕ) : Prop where
  below : s.capacityIndex < 60
  index : ndictCapacities[s.capacityIndex]? = some s.capacity
  filled : Filled s.capacity s.nodes s.buckets chains
  freeChain : Chain (nextOf s.nodes) 0 s.freeNodes free
  different : (chains.flatten ++ free).Nodup
  keys : (chains.flatten.map fun node => (s.nodes node).key).Nodup
  size : s.size = chains.flatten.length
  onPages : ∀ node ∈ chains.flatten ++ free, ∃ page ∈ s.pages, node ∈ pageNodes nodeSize page

/-- The pairs of the nodes in the buckets. -/
def pairs (nodes : ℕ → DictionaryNode V) (chains : List (List ℕ)) : List (UInt64 × V) :=
  chains.flatten.map fun node => ((nodes node).key, (nodes node).value)

variable {nodeSize : ℕ} {s : NumDictionary V} {chains : List (List ℕ)} {free : List ℕ}

/-! ## The capacities -/

/-- From one capacity to the next: more by two at least, and not much more than double. -/
theorem ndictCapacities_step : ∀ i < 59,
    ndictCapacities.getD i 0 + 2 ≤ ndictCapacities.getD (i + 1) 0 ∧
      (i ≠ 0 → ndictCapacities.getD (i + 1) 0 ≤ 2 * ndictCapacities.getD i 0 + 3) := by
  decide

theorem ndictCapacities_positive : ∀ i < 60, (ndictCapacities.getD i 0 = 0 ↔ i = 0) := by
  decide

theorem ndictCapacities_getD {i c : ℕ} (found : ndictCapacities[i]? = some c) :
    ndictCapacities.getD i 0 = c := by
  rw [List.getD_eq_getElem?_getD, found]
  rfl

theorem ndictCapacities_some {i : ℕ} (below : i < 61) :
    ndictCapacities[i]? = some (ndictCapacities.getD i 0) := by
  have inside : i < ndictCapacities.length := below
  rw [List.getD_eq_getElem?_getD, List.getElem?_eq_getElem inside]
  rfl

theorem Chained.capacity_eq (chained : s.Chained nodeSize chains free) :
    s.capacity = ndictCapacities.getD s.capacityIndex 0 :=
  (ndictCapacities_getD chained.index).symm

theorem Chained.capacity_zero (chained : s.Chained nodeSize chains free) :
    s.capacity = 0 ↔ s.capacityIndex = 0 := by
  rw [chained.capacity_eq]
  exact ndictCapacities_positive _ chained.below

/-! ## Nodes and their chains -/

theorem length_le_flatten {chain : List ℕ} {i : ℕ} (found : chains[i]? = some chain) :
    chain.length ≤ chains.flatten.length :=
  (List.sublist_flatten_of_mem (List.mem_of_getElem? found)).length_le

theorem mem_flatten_of {chain : List ℕ} {i node : ℕ} (found : chains[i]? = some chain)
    (among : node ∈ chain) : node ∈ chains.flatten :=
  List.mem_flatten_of_mem (List.mem_of_getElem? found) among

/-- A node of the buckets is in the chain of its hash. -/
theorem Chained.mem_chain (chained : s.Chained nodeSize chains free) {node i : ℕ}
    (among : node ∈ chains.flatten) (hash : ndictHash s.capacity (s.nodes node).key = some i)
    {chain : List ℕ} (found : chains[i]? = some chain) : node ∈ chain := by
  obtain ⟨chain', among', inside⟩ := List.mem_flatten.mp among
  obtain ⟨j, found'⟩ := List.getElem?_of_mem among'
  have hash' := chained.filled.hashed j chain' found' node inside
  rw [hash] at hash'
  cases hash'
  rw [found] at found'
  cases found'
  exact inside

theorem Chained.ne_zero (chained : s.Chained nodeSize chains free) {node : ℕ}
    (among : node ∈ chains.flatten) : node ≠ 0 := by
  obtain ⟨chain, among', inside⟩ := List.mem_flatten.mp among
  obtain ⟨i, found⟩ := List.getElem?_of_mem among'
  have low : i < s.capacity := by
    rw [← chained.filled.chainCount]
    exact (List.getElem?_eq_some_iff.mp found).1
  obtain ⟨first, chain', -, found', links⟩ := chained.filled.bucket low
  rw [found] at found'
  cases found'
  exact links.ne_null node inside

/-- `ndict_generic_get_node` finds the node with the key, if there is one. -/
theorem Chained.getNode (chained : s.Chained nodeSize chains free) (key : UInt64) :
    ∃ node, s.getNode key = some node ∧
      (node = 0 ∧ (∀ other ∈ chains.flatten, (s.nodes other).key ≠ key) ∨
        node ≠ 0 ∧ node ∈ chains.flatten ∧ (s.nodes node).key = key) := by
  unfold NumDictionary.getNode
  by_cases empty : s.capacity = 0
  · have none : chains = [] := by
      rw [← List.length_eq_zero_iff, chained.filled.chainCount, empty]
    refine ⟨0, if_pos empty, .inl ⟨rfl, ?_⟩⟩
    rw [none]
    exact fun _ among => (nomatch among)
  · obtain ⟨i, hash⟩ := ndictHash_some empty key
    obtain ⟨first, chain, atBucket, found, links⟩ := chained.filled.bucket (ndictHash_lt hash)
    have short := length_le_flatten found
    have walk := findFrom_chain key links (show chain.length < s.size + 1 by
      rw [chained.size]
      omega)
    rw [if_neg empty]
    simp only [hash, atBucket, Option.bind_eq_bind, Option.bind_some]
    refine ⟨_, walk, ?_⟩
    cases result : chain.find? fun node => (s.nodes node).key = key with
    | none =>
        refine .inl ⟨rfl, fun other among same => ?_⟩
        have inside := chained.mem_chain among (same ▸ hash) found
        have different := List.find?_eq_none.mp result other inside
        exact different (decide_eq_true same)
    | some node =>
        have inside := List.mem_of_find?_eq_some result
        have same : (s.nodes node).key = key := by simpa using List.find?_some result
        exact .inr ⟨links.ne_null node inside, mem_flatten_of found inside, same⟩

/-! ## Another capacity -/

theorem Chained.forall₂ (chained : s.Chained nodeSize chains free) :
    List.Forall₂ (Chain (nextOf s.nodes) 0) s.buckets chains := by
  refine List.forall₂_iff_get.mpr ⟨?_, fun i low low' => ?_⟩
  · rw [chained.filled.bucketCount, chained.filled.chainCount]
  · exact chained.filled.chain i _ _ (List.getElem?_eq_getElem low) (List.getElem?_eq_getElem low')

/-- The state after `_ndict_resize`: the same nodes in other buckets. -/
structure Resized (nodeSize : ℕ) (s s' : NumDictionary V) (chains : List (List ℕ))
    (free : List ℕ) (chains' : List (List ℕ)) : Prop where
  chained : s'.Chained nodeSize chains' free
  size : s'.size = s.size
  pages : s'.pages = s.pages
  perm : chains'.flatten.Perm chains.flatten
  same : SameBut chains.flatten s.nodes s'.nodes

theorem Chained.resize (chained : s.Chained nodeSize chains free) (up : Bool) {index : ℕ}
    (next : (if up then s.capacityIndex + 1 else s.capacityIndex - 1) = index)
    (below : index < 60) (positive : index ≠ 0) :
    ∃ s' chains', s.resize up = some s' ∧ Resized nodeSize s s' chains free chains' ∧
      s'.capacityIndex = index := by
  have found := ndictCapacities_some (Nat.lt_succ_of_lt below)
  have newCap : ndictCapacities.getD index 0 ≠ 0 :=
    fun zero => positive ((ndictCapacities_positive index below).mp zero)
  have none : (List.replicate (ndictCapacities.getD index 0) ([] : List ℕ)).flatten = [] :=
    List.flatten_replicate_nil
  have nodesOnce : chains.flatten.Nodup := (List.nodup_append'.mp chained.different).1
  obtain ⟨buckets', nodes', chains', moved, filled, perm, same⟩ :=
    moveChains_filled newCap chained.forall₂
      (show chains.flatten.length < s.size + 1 by rw [chained.size]; omega)
      (Filled.empty _ s.nodes) (by rw [none, List.append_nil]; exact nodesOnce)
  rw [none, List.append_nil] at perm
  have apart : List.Disjoint chains.flatten free :=
    (List.nodup_append'.mp chained.different).2.2
  refine ⟨{ s with
      capacity := ndictCapacities.getD index 0
      capacityIndex := index
      buckets := buckets'
      nodes := nodes' }, chains', ?_, ⟨⟨below, found, filled, ?_, ?_, ?_, ?_, ?_⟩, rfl, rfl, perm,
      same⟩, rfl⟩
  · unfold NumDictionary.resize
    simp only [next, found, Option.bind_eq_bind, Option.bind_some, if_neg newCap, moved]
    rfl
  · exact same.chain apart chained.freeChain
  · exact (perm.append_right free).nodup_iff.mpr chained.different
  · have keys : (chains'.flatten.map fun node => (nodes' node).key) =
        chains'.flatten.map fun node => (s.nodes node).key :=
      List.map_congr_left fun node _ => same.key node
    show (chains'.flatten.map fun node => (nodes' node).key).Nodup
    rw [keys]
    exact (perm.map _).nodup_iff.mpr chained.keys
  · show s.size = chains'.flatten.length
    rw [perm.length_eq]
    exact chained.size
  · intro node among
    exact chained.onPages node ((perm.append_right free).mem_iff.mp among)

/-! ## Free nodes -/

/-- Other nodes change. -/
theorem Chained.congr (chained : s.Chained nodeSize chains free)
    {nodes' : ℕ → DictionaryNode V}
    (same : ∀ node ∈ chains.flatten ++ free, nodes' node = s.nodes node) :
    ({ s with nodes := nodes' } : NumDictionary V).Chained nodeSize chains free := by
  have inChains : ∀ node ∈ chains.flatten, nodes' node = s.nodes node := fun node among =>
    same node (List.mem_append_left _ among)
  refine ⟨chained.below, chained.index, ⟨chained.filled.bucketCount, chained.filled.chainCount,
    ?_, ?_⟩, ?_, chained.different, ?_, chained.size, chained.onPages⟩
  · intro i first chain atBucket found
    refine (chained.filled.chain i first chain atBucket found).congr fun node among => ?_
    show (nodes' node).next = (s.nodes node).next
    rw [inChains node (mem_flatten_of found among)]
  · intro i chain found node among
    show ndictHash s.capacity (nodes' node).key = some i
    rw [inChains node (mem_flatten_of found among)]
    exact chained.filled.hashed i chain found node among
  · refine chained.freeChain.congr fun node among => ?_
    show (nodes' node).next = (s.nodes node).next
    rw [same node (List.mem_append_right _ among)]
  · show (chains.flatten.map fun node => (nodes' node).key).Nodup
    rw [List.map_congr_left fun node among => congrArg DictionaryNode.key (inChains node among)]
    exact chained.keys

/-- A node that is in no bucket and not free. -/
structure Loose (nodeSize : ℕ) (s : NumDictionary V) (chains : List (List ℕ)) (free : List ℕ)
    (node : ℕ) : Prop where
  real : node ≠ 0
  out : node ∉ chains.flatten ++ free
  onPage : ∃ page ∈ s.pages, node ∈ pageNodes nodeSize page

/-- A loose node becomes free. -/
theorem Chained.pushFree {node : ℕ} (chained : s.Chained nodeSize chains free)
    (loose : s.Loose nodeSize chains free node) :
    (s.pushFree node).Chained nodeSize chains (node :: free) := by
  have out := loose.out
  rw [List.mem_append, not_or] at out
  have still : ∀ other ∈ chains.flatten ++ free,
      setNext s.nodes node s.freeNodes other = s.nodes other := by
    intro other among
    refine Function.update_of_ne ?_ _ _
    rintro rfl
    exact loose.out among
  have kept := chained.congr still
  refine ⟨kept.below, kept.index, kept.filled, ?_, ?_, kept.keys, kept.size, ?_⟩
  · apply kept.freeChain.push loose.real
    show nextOf (setNext s.nodes node s.freeNodes) node = s.freeNodes
    rw [nextOf_setNext, Function.update_self]
  · refine List.perm_middle.nodup_iff.mpr (List.nodup_cons.mpr ⟨loose.out, chained.different⟩)
  · intro other among
    obtain rfl | among := List.mem_cons.mp (List.perm_middle.mem_iff.mp among)
    · exact loose.onPage
    · exact chained.onPages other among

/-- The first free node becomes loose. -/
theorem Chained.popFree {node : ℕ} (chained : s.Chained nodeSize chains (node :: free)) :
    s.popFree.1 = node ∧ s.popFree.2.nodes = s.nodes ∧ s.popFree.2.pages = s.pages ∧
      s.popFree.2.size = s.size ∧ s.popFree.2.capacity = s.capacity ∧
      s.popFree.2.Chained nodeSize chains free ∧
      s.popFree.2.Loose nodeSize chains free node := by
  obtain ⟨first, real, rest⟩ := chained.freeChain
  have different := List.perm_middle.nodup_iff.mp chained.different
  obtain ⟨out, different'⟩ := List.nodup_cons.mp different
  have popped : (if s.freeNodes = 0 then 0 else (s.nodes s.freeNodes).next) =
      nextOf s.nodes node := by
    rw [first, if_neg real]
    rfl
  refine ⟨first, rfl, rfl, rfl, rfl, ⟨chained.below, chained.index, chained.filled, ?_, different',
    chained.keys, chained.size, ?_⟩, ⟨real, out, ?_⟩⟩
  · show Chain (nextOf s.nodes) 0 (if s.freeNodes = 0 then 0 else (s.nodes s.freeNodes).next) free
    rw [popped]
    exact rest
  · intro other among
    exact chained.onPages other (List.perm_middle.mem_iff.mpr (List.mem_cons_of_mem _ among))
  · exact chained.onPages node (List.perm_middle.mem_iff.mpr List.mem_cons_self)

/-! ## New nodes -/

/-- `page_alloc` gives a page of its own. -/
def FreshPage (s : NumDictionary V) (page : ℕ) : Prop :=
  page ≠ 0 ∧ dictionaryPageSize ∣ page ∧ page ∉ s.pages

/-- The pages are pages. -/
def Paged (s : NumDictionary V) : Prop := ∀ page ∈ s.pages, dictionaryPageSize ∣ page

theorem mem_pageNodes {page node : ℕ} (positive : 0 < nodeSize)
    (among : node ∈ pageNodes nodeSize page) :
    page + 16 ≤ node ∧ node < page + dictionaryPageSize := by
  obtain ⟨i, below, rfl⟩ := List.mem_map.mp among
  have below : i < (dictionaryPageSize - 16) / nodeSize := List.mem_range.mp below
  have inside := Nat.mul_le_of_le_div nodeSize (i + 1) (dictionaryPageSize - 16)
    (Nat.succ_le_of_lt below)
  rw [Nat.add_mul, Nat.one_mul, Nat.mul_comm i] at inside
  unfold dictionaryPageSize at *
  omega

/-- The nodes of two pages are different. -/
theorem page_eq_of_node {page page' node : ℕ} (positive : 0 < nodeSize)
    (aligned : dictionaryPageSize ∣ page) (aligned' : dictionaryPageSize ∣ page')
    (among : node ∈ pageNodes nodeSize page) (among' : node ∈ pageNodes nodeSize page') :
    page = page' := by
  have inside := mem_pageNodes positive among
  have inside' := mem_pageNodes positive among'
  unfold dictionaryPageSize at *
  omega

theorem nodup_pageNodes (positive : 0 < nodeSize) (page : ℕ) :
    (pageNodes nodeSize page).Nodup := by
  refine List.Nodup.map ?_ List.nodup_range
  intro i j same
  have same : page + 16 + nodeSize * i = page + 16 + nodeSize * j := same
  exact Nat.eq_of_mul_eq_mul_left positive (Nat.add_left_cancel same)

/-- Loose nodes become free one after another. -/
theorem Chained.pushAll {nodes : List ℕ} (chained : s.Chained nodeSize chains free)
    (different : nodes.Nodup) (loose : ∀ node ∈ nodes, s.Loose nodeSize chains free node) :
    (nodes.foldl (fun s node => s.pushFree node) s).Chained nodeSize chains
        (nodes.reverse ++ free) ∧
      (nodes.foldl (fun s node => s.pushFree node) s).pages = s.pages ∧
      ∀ node ∈ chains.flatten,
        (nodes.foldl (fun s node => s.pushFree node) s).nodes node = s.nodes node := by
  induction nodes generalizing s free with
  | nil => exact ⟨chained, rfl, fun _ _ => rfl⟩
  | cons node nodes ih =>
      obtain ⟨absent, different⟩ := List.nodup_cons.mp different
      have first := loose node List.mem_cons_self
      have rest : ∀ other ∈ nodes, (s.pushFree node).Loose nodeSize chains (node :: free) other := by
        intro other among
        have other' := loose other (List.mem_cons_of_mem _ among)
        refine ⟨other'.real, ?_, other'.onPage⟩
        intro inside
        obtain rfl | inside := List.mem_cons.mp (List.perm_middle.mem_iff.mp inside)
        · exact absent among
        · exact other'.out inside
      obtain ⟨kept, pages, same⟩ := ih (chained.pushFree first) different rest
      refine ⟨?_, pages, fun other among => (same other among).trans ?_⟩
      · rw [List.reverse_cons, List.append_assoc]
        exact kept
      · refine Function.update_of_ne ?_ _ _
        rintro rfl
        exact first.out (List.mem_append_left _ among)

/-- The node that `ndict_insert` takes is loose. -/
theorem Chained.takeNode {page : ℕ} (chained : s.Chained nodeSize chains free)
    (paged : s.Paged) (fresh : s.FreshPage page) (positive : 0 < nodeSize)
    (small : nodeSize ≤ dictionaryPageSize - 16) :
    ∃ node s' free', s.takeNode nodeSize page = (node, s') ∧
      s'.Chained nodeSize chains free' ∧ s'.Loose nodeSize chains free' node ∧ s'.Paged ∧
      ∀ other ∈ chains.flatten, s'.nodes other = s.nodes other := by
  cases free with
  | cons node rest =>
      obtain ⟨first, nodes, pages, -, -, kept, loose⟩ := chained.popFree
      refine ⟨node, s.popFree.2, rest, ?_, kept, loose, ?_, fun other _ => congrFun nodes other⟩
      · unfold NumDictionary.takeNode
        have real : s.popFree.1 ≠ 0 := first.symm ▸ loose.real
        show (if s.popFree.1 = 0 then _ else (s.popFree.1, s.popFree.2)) = _
        rw [if_neg real, first]
      · intro page among
        rw [pages] at among
        exact paged page among
  | nil =>
      have none : s.freeNodes = 0 := chained.freeChain
      set t : NumDictionary V := { s with freeNodes := 0, pages := page :: s.pages } with ht
      have started : t.Chained nodeSize chains [] :=
        ⟨chained.below, chained.index, chained.filled, rfl, chained.different, chained.keys,
          chained.size, fun node among => by
            obtain ⟨other, inside, onPage⟩ := chained.onPages node among
            exact ⟨other, List.mem_cons_of_mem _ inside, onPage⟩⟩
      have loose : ∀ node ∈ pageNodes nodeSize page, t.Loose nodeSize chains [] node := by
        intro node among
        refine ⟨?_, fun inside => ?_, page, List.mem_cons_self, among⟩
        · have inPage := mem_pageNodes positive among
          omega
        · obtain ⟨other, onPages, onPage⟩ := chained.onPages node inside
          have same := page_eq_of_node positive fresh.2.1 (paged other onPages) among onPage
          exact fresh.2.2 (same ▸ onPages)
      obtain ⟨pushed, pages, same⟩ :=
        started.pushAll (nodup_pageNodes positive page) loose
      obtain ⟨node, rest, reversed⟩ : ∃ node rest,
          (pageNodes nodeSize page).reverse = node :: rest := by
        refine List.exists_cons_of_ne_nil fun empty => ?_
        have count : (pageNodes nodeSize page).length = 0 := by
          rw [List.reverse_eq_nil_iff.mp empty]
          rfl
        rw [pageNodes, List.length_map, List.length_range] at count
        have some := Nat.div_pos small positive
        omega
      rw [List.append_nil, reversed] at pushed
      obtain ⟨first, nodes, pages', -, -, kept, loose⟩ := pushed.popFree
      refine ⟨node, _, rest, ?_, kept, loose, ?_, ?_⟩
      · unfold NumDictionary.takeNode
        have empty : s.popFree = (0, { s with freeNodes := 0 }) := by
          unfold NumDictionary.popFree
          rw [none, if_pos rfl]
        rw [empty]
        show NumDictionary.popFree _ = _
        rw [← first]
      · intro other among
        rw [pages', pages] at among
        obtain rfl | among := List.mem_cons.mp among
        · exact fresh.2.1
        · exact paged other among
      · intro other among
        rw [nodes]
        exact same other among

/-! ## Inserting -/

/-- The greatest size for which the list of capacities has an entry. -/
def RoomFor (s : NumDictionary V) : Prop := s.size * 2 + 1 ≤ 64294967299

/-- Half of the capacity is enough for the nodes. -/
def Light (s : NumDictionary V) : Prop := s.size * 2 ≤ s.capacity + 1

/-- The dictionary grows when it has to. -/
theorem Chained.grow (chained : s.Chained nodeSize chains free) (light : s.Light)
    (room : s.RoomFor) :
    ∃ s' chains', (if s.capacity < s.size * 2 + 1 then s.resize true else some s) = some s' ∧
      Resized nodeSize s s' chains free chains' ∧ s'.size * 2 + 1 ≤ s'.capacity := by
  unfold Light at light
  unfold RoomFor at room
  by_cases full : s.capacity < s.size * 2 + 1
  · have low : s.capacityIndex < 59 := by
      have below := chained.below
      have notLast : s.capacityIndex ≠ 59 := by
        intro last
        have capacity := chained.capacity_eq
        rw [last] at capacity
        have value : ndictCapacities.getD 59 0 = 64294967299 := by decide
        omega
      omega
    obtain ⟨s', chains', grown, resized, index⟩ :=
      chained.resize true (if_pos rfl) (Nat.succ_lt_succ low) (Nat.succ_ne_zero _)
    refine ⟨s', chains', ?_, resized, ?_⟩
    · rw [if_pos full]
      exact grown
    · have capacity := chained.capacity_eq
      have capacity' := resized.chained.capacity_eq
      have step := (ndictCapacities_step s.capacityIndex low).1
      have size := resized.size
      rw [index] at capacity'
      omega
  · refine ⟨s, chains, if_neg full, ⟨chained, rfl, rfl, List.Perm.refl _, .refl _ _⟩, ?_⟩
    omega

/-- What `ndict_generic_insert` leaves. -/
structure Inserted (nodeSize : ℕ) (s s' : NumDictionary V) (chains chains' : List (List ℕ))
    (key : UInt64) (value : V) (answer : Bool) : Prop where
  chained : ∃ free', s'.Chained nodeSize chains' free'
  light : s'.Light
  pages : s'.pages = s.pages
  present : answer = false → (∃ other ∈ chains.flatten, (s.nodes other).key = key) ∧
    (pairs s'.nodes chains').Perm (pairs s.nodes chains)
  absent : answer = true → (∀ other ∈ chains.flatten, (s.nodes other).key ≠ key) ∧
    (pairs s'.nodes chains').Perm ((key, value) :: pairs s.nodes chains)

theorem Resized.pairs_perm {s' : NumDictionary V} {chains' : List (List ℕ)}
    (resized : Resized nodeSize s s' chains free chains') :
    (pairs s'.nodes chains').Perm (pairs s.nodes chains) := by
  have same : pairs s'.nodes chains' = pairs s.nodes chains' :=
    List.map_congr_left fun node _ => by rw [resized.same.key, resized.same.value]
  rw [same]
  exact resized.perm.map _

theorem Chained.insertNode {node : ℕ} (chained : s.Chained nodeSize chains free)
    (loose : s.Loose nodeSize chains free node) (light : s.Light) (room : s.RoomFor) :
    ∃ answer s' chains', s.insertNode node = some (answer, s') ∧
      Inserted nodeSize s s' chains chains' (s.nodes node).key (s.nodes node).value answer := by
  obtain ⟨present, got, result⟩ := chained.getNode (s.nodes node).key
  have out := loose.out
  rw [List.mem_append, not_or] at out
  unfold NumDictionary.insertNode
  simp only [got, Option.bind_eq_bind, Option.bind_some]
  cases result with
  | inr found =>
      obtain ⟨real, among, same⟩ := found
      refine ⟨false, s.pushFree node, chains, if_pos real, ⟨⟨_, chained.pushFree loose⟩, light, rfl,
        fun _ => ⟨⟨present, among, same⟩, ?_⟩, fun wrong => (nomatch wrong)⟩⟩
      have still : pairs (s.pushFree node).nodes chains = pairs s.nodes chains := by
        refine List.map_congr_left fun other among => ?_
        have different : other ≠ node := by
          rintro rfl
          exact out.1 among
        have kept : (s.pushFree node).nodes other = s.nodes other :=
          Function.update_of_ne different _ _
        rw [kept]
      rw [still]
  | inl missing =>
      obtain ⟨none, missing⟩ := missing
      obtain ⟨t, grownChains, grown, resized, large⟩ := chained.grow light room
      have positive : t.capacity ≠ 0 := by omega
      obtain ⟨i, hash⟩ := ndictHash_some positive (t.nodes node).key
      obtain ⟨first, -, atBucket, -⟩ := resized.chained.filled.bucket (ndictHash_lt hash)
      have out' : node ∉ grownChains.flatten := fun among =>
        out.1 (resized.perm.mem_iff.mp among)
      obtain ⟨chains', filled, perm⟩ :=
        resized.chained.filled.put loose.real out' hash atBucket
      have same := SameBut.setNext t.nodes node first
      have outFree : node ∉ free := out.2
      refine ⟨true, { t with
        nodes := setNext t.nodes node first
        buckets := t.buckets.set i node
        size := t.size + 1 }, chains', ?_, ⟨⟨free, ?_⟩, ?_, resized.pages,
          fun wrong => (nomatch wrong), fun _ => ⟨missing, ?_⟩⟩⟩
      · rw [if_neg (not_not.mpr none)]
        by_cases full : s.capacity < s.size * 2 + 1
        · rw [if_pos full] at grown ⊢
          simp only [grown, Option.bind_some, hash, atBucket]
          rfl
        · rw [if_neg full] at grown ⊢
          cases grown
          simp only [Option.bind_some, hash, atBucket]
          rfl
      · refine ⟨resized.chained.below, resized.chained.index, filled, ?_, ?_, ?_, ?_, ?_⟩
        · exact same.chain (List.singleton_disjoint.mpr outFree) resized.chained.freeChain
        · refine (perm.append_right free).nodup_iff.mpr (List.nodup_cons.mpr ⟨?_, ?_⟩)
          · exact fun among => (List.mem_append.mp among).elim out' outFree
          · exact resized.chained.different
        · show (chains'.flatten.map fun other => (setNext t.nodes node first other).key).Nodup
          rw [List.map_congr_left fun other _ => same.key other]
          refine (perm.map _).nodup_iff.mpr (List.nodup_cons.mpr ⟨?_, resized.chained.keys⟩)
          intro among
          obtain ⟨other, among, equal⟩ := List.mem_map.mp among
          have equal : (t.nodes other).key = (t.nodes node).key := equal
          rw [resized.same.key, resized.same.key] at equal
          exact missing other (resized.perm.mem_iff.mp among) equal
        · show t.size + 1 = chains'.flatten.length
          rw [perm.length_eq, resized.chained.size]
          rfl
        · intro other among
          obtain rfl | among := List.mem_cons.mp ((perm.append_right free).mem_iff.mp among)
          · have onPage := loose.onPage
            rw [← resized.pages] at onPage
            exact onPage
          · exact resized.chained.onPages other among
      · show (t.size + 1) * 2 ≤ t.capacity + 1
        omega
      · have still : pairs (setNext t.nodes node first) chains' = pairs t.nodes chains' :=
          List.map_congr_left fun other _ => by rw [same.key, same.value]
        have added : (pairs t.nodes chains').Perm
            (((t.nodes node).key, (t.nodes node).value) :: pairs t.nodes grownChains) :=
          perm.map _
        rw [resized.same.key, resized.same.value] at added
        show (pairs (setNext t.nodes node first) chains').Perm _
        rw [still]
        exact added.trans (resized.pairs_perm.cons _)

theorem Chained.light_of {s' : NumDictionary V} {free' : List ℕ}
    (chained : s.Chained nodeSize chains free) (chained' : s'.Chained nodeSize chains free')
    (light : s.Light) : s'.Light := by
  have capacity := chained'.filled.chainCount
  rw [chained.filled.chainCount] at capacity
  unfold Light at light ⊢
  rw [chained'.size, ← chained.size, ← capacity]
  exact light

/-- What `ndict_insert` does. -/
theorem Chained.insert {page : ℕ} (chained : s.Chained nodeSize chains free) (light : s.Light)
    (paged : s.Paged) (room : s.RoomFor) (fresh : s.FreshPage page) (positive : 0 < nodeSize)
    (small : nodeSize ≤ dictionaryPageSize - 16) (key : UInt64) (value : V) :
    ∃ answer s' chains' free', s.insert nodeSize page key value = some (answer, s') ∧
      s'.Chained nodeSize chains' free' ∧ s'.Light ∧ s'.Paged ∧
      (answer = false → (∃ v, (key, v) ∈ pairs s.nodes chains) ∧
        (pairs s'.nodes chains').Perm (pairs s.nodes chains)) ∧
      (answer = true → (∀ v, (key, v) ∉ pairs s.nodes chains) ∧
        (pairs s'.nodes chains').Perm ((key, value) :: pairs s.nodes chains)) := by
  obtain ⟨node, t, free₁, taken, kept, loose, paged', same⟩ :=
    chained.takeNode paged fresh positive small
  set u : NumDictionary V :=
    { t with nodes := Function.update t.nodes node ⟨(t.nodes node).next, key, value⟩ } with hu
  have others : ∀ other ∈ chains.flatten ++ free₁, u.nodes other = t.nodes other := by
    intro other among
    refine Function.update_of_ne ?_ _ _
    rintro rfl
    exact loose.out among
  have written : u.Chained nodeSize chains free₁ := kept.congr others
  have atNode : u.nodes node = ⟨(t.nodes node).next, key, value⟩ := Function.update_self _ _ _
  have size : u.size = s.size := written.size.trans chained.size.symm
  have light' : u.Light := chained.light_of written light
  have room' : u.RoomFor := by
    unfold RoomFor
    rw [size]
    exact room
  obtain ⟨answer, s', chains', done, inserted⟩ := written.insertNode
    ⟨loose.real, loose.out, loose.onPage⟩ light' room'
  obtain ⟨free', chained'⟩ := inserted.chained
  have still : pairs u.nodes chains = pairs s.nodes chains :=
    List.map_congr_left fun other among => by
      rw [others other (List.mem_append_left _ among), same other among]
  have key' : (u.nodes node).key = key := by rw [atNode]
  have value' : (u.nodes node).value = value := by rw [atNode]
  refine ⟨answer, s', chains', free', ?_, chained', inserted.light, ?_, ?_, ?_⟩
  · unfold NumDictionary.insert
    rw [taken]
    show (if node = 0 then none else u.insertNode node) = _
    rw [if_neg loose.real]
    exact done
  · intro other among
    rw [inserted.pages] at among
    exact paged' other among
  · intro wrong
    obtain ⟨⟨other, among, equal⟩, perm⟩ := inserted.present wrong
    rw [still] at perm
    refine ⟨⟨(u.nodes other).value, ?_⟩, perm⟩
    rw [← still, ← key', ← equal]
    exact List.mem_map_of_mem among
  · intro right
    obtain ⟨missing, perm⟩ := inserted.absent right
    rw [still, key', value'] at perm
    refine ⟨fun v among => ?_, perm⟩
    rw [← still] at among
    obtain ⟨other, inside, equal⟩ := List.mem_map.mp among
    exact missing other inside ((congrArg Prod.fst equal).trans key'.symm)

/-! ## Removing -/

/-- The loop of `ndict_generic_remove` ends at the null pointer. -/
theorem removeFrom_absent {key : UInt64} {slot : Slot} {first fuel : ℕ} {rest : List ℕ}
    (points : s.load slot = some first) (links : Chain (nextOf s.nodes) 0 first rest)
    (missing : ∀ node ∈ rest, (s.nodes node).key ≠ key) (enough : rest.length < fuel) :
    removeFrom key s fuel slot = some none := by
  induction rest generalizing first fuel slot with
  | nil =>
      obtain ⟨fuel, rfl⟩ := Nat.exists_eq_add_of_lt enough
      obtain rfl : first = 0 := links
      rw [removeFrom]
      simp only [points, Option.bind_eq_bind, Option.bind_some, if_true]
  | cons node others ih =>
      obtain ⟨rfl, real, rest⟩ := links
      obtain ⟨fuel, rfl⟩ : ∃ n, fuel = n + 1 := ⟨fuel - 1, by omega⟩
      rw [removeFrom]
      simp only [points, Option.bind_eq_bind, Option.bind_some, if_neg real,
        if_neg (missing first List.mem_cons_self)]
      exact ih rfl rest (fun other among => missing other (List.mem_cons_of_mem _ among))
        (Nat.lt_of_succ_lt_succ enough)

/-- The pointer to a node: the one that the walk starts from, or that of the node before. -/
def slotBefore (slot : Slot) (before : List ℕ) : Slot :=
  match before.getLast? with
  | none => slot
  | some node => .next node

/-- The loop of `ndict_generic_remove` takes out the node with the key. -/
theorem removeFrom_found {key : UInt64} {slot : Slot} {first fuel x : ℕ} {before after : List ℕ}
    (points : s.load slot = some first)
    (links : Chain (nextOf s.nodes) 0 first (before ++ x :: after))
    (missing : ∀ node ∈ before, (s.nodes node).key ≠ key) (found : (s.nodes x).key = key)
    (enough : before.length < fuel) :
    removeFrom key s fuel slot =
      some (some ((s.store (s.nodes x).next (slotBefore slot before)).pushFree x)) := by
  induction before generalizing first fuel slot with
  | nil =>
      obtain ⟨rfl, real, -⟩ := links
      obtain ⟨fuel, rfl⟩ : ∃ n, fuel = n + 1 := ⟨fuel - 1, by omega⟩
      rw [removeFrom]
      simp only [points, Option.bind_eq_bind, Option.bind_some, if_neg real, if_pos found]
      rfl
  | cons node others ih =>
      obtain ⟨rfl, real, rest⟩ := links
      obtain ⟨fuel, rfl⟩ : ∃ n, fuel = n + 1 := ⟨fuel - 1, by omega⟩
      rw [removeFrom]
      simp only [points, Option.bind_eq_bind, Option.bind_some, if_neg real,
        if_neg (missing first List.mem_cons_self)]
      have points' : s.load (.next first) = some (s.nodes first).next := rfl
      have tail := ih points' rest
        (fun other among => missing other (List.mem_cons_of_mem _ among))
        (Nat.lt_of_succ_lt_succ enough)
      rw [tail]
      cases others with
      | nil => rfl
      | cons other others =>
          have last : (other :: others).getLast? = some ((other :: others).getLast (by simp)) :=
            List.getLast?_eq_some_getLast _
          rw [slotBefore, slotBefore, List.getLast?_cons_cons, last]

/-- The pointer in front of a node gets the pointer behind it. -/
theorem Chained.unlink {i x : ℕ} {before after : List ℕ}
    (chained : s.Chained nodeSize chains free) (found : chains[i]? = some (before ++ x :: after)) :
    let t := s.store (s.nodes x).next (slotBefore (.bucket i) before)
    Filled t.capacity t.nodes t.buckets (chains.set i (before ++ after)) ∧
      (∃ moved, SameBut moved s.nodes t.nodes ∧ List.Disjoint moved free) ∧
      t = { s with nodes := t.nodes, buckets := t.buckets } := by
  have nodesOnce : chains.flatten.Nodup := (List.nodup_append'.mp chained.different).1
  have apart : List.Disjoint chains.flatten free := (List.nodup_append'.mp chained.different).2.2
  have chainOnce : (before ++ x :: after).Nodup :=
    nodesOnce.sublist (List.sublist_flatten_of_mem (List.mem_of_getElem? found))
  have low : i < chains.length := (List.getElem?_eq_some_iff.mp found).1
  have low' : i < s.capacity := by
    rw [← chained.filled.chainCount]
    exact low
  obtain ⟨first, chain, atBucket, found', links⟩ := chained.filled.bucket low'
  rw [found] at found'
  cases found'
  have fewer : ∀ node ∈ before ++ after, node ∈ before ++ x :: after := fun node among =>
    List.perm_middle.mem_iff.mpr (List.mem_cons_of_mem x among)
  obtain rfl | ⟨others, p, rfl⟩ := List.eq_nil_or_concat' before
  · obtain ⟨rfl, real, rest⟩ := links
    exact ⟨chained.filled.replace found fewer (.refl [] _) (fun _ among => (nomatch among)) rest,
      ⟨[], .refl [] _, List.disjoint_nil_left free⟩, rfl⟩
  · have slot : slotBefore (.bucket i) (others ++ [p]) = .next p := by
      rw [slotBefore, List.getLast?_concat]
    have among : p ∈ others ++ [p] ++ x :: after :=
      List.mem_append_left _ (List.mem_append_right _ (List.mem_singleton_self p))
    have inside : ∀ node ∈ [p], node ∈ others ++ [p] ++ x :: after := by
      intro node only
      rw [List.mem_singleton.mp only]
      exact among
    have same := SameBut.setNext s.nodes p (s.nodes x).next
    have links' : Chain (nextOf (setNext s.nodes p (s.nodes x).next)) 0 first
        (others ++ [p] ++ after) := by
      rw [List.append_assoc] at links chainOnce ⊢
      rw [nextOf_setNext]
      exact links.unlink chainOnce
    have filled := chained.filled.replace found fewer same inside links'
    rw [slot]
    refine ⟨?_, ⟨[p], same, ?_⟩, rfl⟩
    · have still : s.buckets.set i first = s.buckets := by
        obtain ⟨low, rfl⟩ := List.getElem?_eq_some_iff.mp atBucket
        exact List.set_getElem_self low
      rw [still] at filled
      exact filled
    · refine List.singleton_disjoint.mpr fun isFree => ?_
      exact apart (mem_flatten_of found among) isFree

/-- The dictionary shrinks when it is too large. -/
theorem Chained.shrink (chained : s.Chained nodeSize chains free) (light : s.Light)
    (some : s.capacity ≠ 0) :
    ∃ s' chains', (if s.size * 4 < s.capacity then s.resize false else Option.some s) =
        Option.some s' ∧
      Resized nodeSize s s' chains free chains' ∧ s'.Light := by
  have positive : s.capacityIndex ≠ 0 := fun zero => some (chained.capacity_zero.mpr zero)
  have stays : Resized nodeSize s s chains free chains :=
    ⟨chained, rfl, rfl, List.Perm.refl _, .refl _ _⟩
  by_cases large : s.size * 4 < s.capacity
  · rw [if_pos large]
    by_cases first : s.capacityIndex = 1
    · -- The entry in front of the first capacity is 0, which ends the call.
      refine ⟨s, chains, ?_, stays, light⟩
      unfold NumDictionary.resize
      have entry : ndictCapacities[1 - 1]? = Option.some 0 := rfl
      simp only [first, Bool.false_eq_true, if_false, entry, Option.bind_eq_bind,
        Option.bind_some, if_true]
    · have below := chained.below
      obtain ⟨s', chains', shrunk, resized, index⟩ :=
        chained.resize false (if_neg Bool.false_ne_true)
          (show s.capacityIndex - 1 < 60 by omega) (by omega)
      refine ⟨s', chains', shrunk, resized, ?_⟩
      have capacity := chained.capacity_eq
      have capacity' := resized.chained.capacity_eq
      have step := (ndictCapacities_step (s.capacityIndex - 1) (by omega)).2 (by omega)
      have size := resized.size
      rw [show s.capacityIndex - 1 + 1 = s.capacityIndex by omega] at step
      rw [index] at capacity'
      unfold Light
      omega
  · exact ⟨s, chains, if_neg large, stays, light⟩

/-- What `ndict_remove` does. -/
theorem Chained.remove (chained : s.Chained nodeSize chains free) (light : s.Light)
    (paged : s.Paged) (key : UInt64) :
    ∃ answer s' chains' free', s.remove key = some (answer, s') ∧
      s'.Chained nodeSize chains' free' ∧ s'.Light ∧ s'.Paged ∧
      (answer = false → (∀ v, (key, v) ∉ pairs s.nodes chains) ∧
        (pairs s'.nodes chains').Perm (pairs s.nodes chains)) ∧
      (answer = true → ∃ v,
        (pairs s.nodes chains).Perm ((key, v) :: pairs s'.nodes chains')) := by
  unfold NumDictionary.remove
  by_cases empty : s.capacity = 0
  · have none : chains = [] := by
      rw [← List.length_eq_zero_iff, chained.filled.chainCount, empty]
    refine ⟨false, s, chains, free, if_pos empty, chained, light, paged,
      fun _ => ⟨fun v among => ?_, List.Perm.refl _⟩, fun wrong => (nomatch wrong)⟩
    rw [none] at among
    cases among
  · rw [if_neg empty]
    obtain ⟨i, hash⟩ := ndictHash_some empty key
    obtain ⟨first, chain, atBucket, found, links⟩ := chained.filled.bucket (ndictHash_lt hash)
    have short := length_le_flatten found
    have size := chained.size
    simp only [hash, Option.bind_eq_bind, Option.bind_some]
    have points : s.load (.bucket i) = some first := atBucket
    have enough : chain.length < s.size + 1 := by omega
    cases result : chain.find? fun node => (s.nodes node).key = key with
    | none =>
        have missing : ∀ node ∈ chain, (s.nodes node).key ≠ key := fun node among same =>
          List.find?_eq_none.mp result node among (decide_eq_true same)
        rw [removeFrom_absent points links missing enough]
        refine ⟨false, s, chains, free, rfl, chained, light, paged,
          fun _ => ⟨fun v among => ?_, List.Perm.refl _⟩, fun wrong => (nomatch wrong)⟩
        obtain ⟨node, inside, equal⟩ := List.mem_map.mp among
        have same : (s.nodes node).key = key := congrArg Prod.fst equal
        exact missing node (chained.mem_chain inside (same ▸ hash) found) same
    | some x =>
        obtain ⟨same, before, after, rfl, others⟩ := List.find?_eq_some_iff_append.mp result
        have same : (s.nodes x).key = key := of_decide_eq_true same
        have missing : ∀ node ∈ before, (s.nodes node).key ≠ key := fun node among equal => by
          have other := others node among
          rw [decide_eq_true equal] at other
          cases other
        have early : before.length < s.size + 1 := by
          rw [List.length_append] at enough
          omega
        have taken := removeFrom_found points links missing same early
        obtain ⟨filled, ⟨moved, sameBut, apart⟩, state⟩ := chained.unlink found
        set t := s.store (s.nodes x).next (slotBefore (.bucket i) before) with ht
        set left := chains.set i (before ++ after) with hleft
        have among : x ∈ chains.flatten :=
          mem_flatten_of found (List.mem_append_right _ List.mem_cons_self)
        have perm : (x :: left.flatten).Perm chains.flatten := by
          have both : (before ++ x :: after ++ left.flatten).Perm
              (before ++ after ++ chains.flatten) := flatten_set found
          refine (List.perm_append_left_iff (before ++ after)).mp (List.Perm.trans ?_ both)
          exact List.perm_middle.trans (List.perm_middle.append_right left.flatten).symm
        have once : (x :: (left.flatten ++ free)).Nodup :=
          (perm.append_right free).nodup_iff.mpr chained.different
        obtain ⟨out, once⟩ := List.nodup_cons.mp once
        have capacity : t.capacity = s.capacity := by rw [state]
        have pages : t.pages = s.pages := by rw [state]
        have freeNodes : t.freeNodes = s.freeNodes := by rw [state]
        have index : t.capacityIndex = s.capacityIndex := by rw [state]
        have size' : t.size = s.size := by rw [state]
        set u : NumDictionary V := { t with size := t.size - 1 } with hu
        have chained' : u.Chained nodeSize left free := by
          refine ⟨?_, ?_, filled, ?_, once, ?_, ?_, ?_⟩
          · show t.capacityIndex < 60
            rw [index]
            exact chained.below
          · show ndictCapacities[t.capacityIndex]? = some t.capacity
            rw [index, capacity]
            exact chained.index
          · show Chain (nextOf t.nodes) 0 t.freeNodes free
            rw [freeNodes]
            exact sameBut.chain apart chained.freeChain
          · show (left.flatten.map fun node => (t.nodes node).key).Nodup
            rw [List.map_congr_left fun node _ => sameBut.key node]
            have keys := (perm.map fun node => (s.nodes node).key).nodup_iff.mpr chained.keys
            exact (List.nodup_cons.mp keys).2
          · show t.size - 1 = left.flatten.length
            rw [size', size, ← perm.length_eq]
            rfl
          · intro node inside
            show ∃ page ∈ t.pages, node ∈ pageNodes nodeSize page
            rw [pages]
            exact chained.onPages node
              ((perm.append_right free).mem_iff.mp (List.mem_cons_of_mem x inside))
        have loose : u.Loose nodeSize left free x := by
          refine ⟨chained.ne_zero among, out, ?_⟩
          show ∃ page ∈ t.pages, x ∈ pageNodes nodeSize page
          rw [pages]
          exact chained.onPages x (List.mem_append_left _ among)
        have light' : (u.pushFree x).Light := by
          show (t.size - 1) * 2 ≤ t.capacity + 1
          unfold Light at light
          omega
        have some' : (u.pushFree x).capacity ≠ 0 := by
          show t.capacity ≠ 0
          rw [capacity]
          exact empty
        obtain ⟨s', chains', shrunk, resized, light''⟩ :=
          (chained'.pushFree loose).shrink light' some'
        refine ⟨true, s', chains', _, ?_, resized.chained, light'', ?_,
          fun wrong => (nomatch wrong), fun _ => ⟨(s.nodes x).value, ?_⟩⟩
        · rw [taken]
          show (if (u.pushFree x).size * 4 < (u.pushFree x).capacity then
              ((u.pushFree x).resize false).bind fun s => some (true, s)
            else some (true, u.pushFree x)) = some (true, s')
          by_cases large : (u.pushFree x).size * 4 < (u.pushFree x).capacity
          · rw [if_pos large] at shrunk ⊢
            rw [shrunk]
            rfl
          · rw [if_neg large] at shrunk ⊢
            rw [Option.some.inj shrunk]
        · intro page inside
          rw [resized.pages] at inside
          exact paged page (pages ▸ inside)
        · have still : pairs (u.pushFree x).nodes left = pairs s.nodes left := by
            refine List.map_congr_left fun node _ => ?_
            have pushed := SameBut.setNext t.nodes x t.freeNodes
            show ((setNext t.nodes x t.freeNodes node).key,
              (setNext t.nodes x t.freeNodes node).value) = _
            rw [pushed.key, pushed.value, sameBut.key, sameBut.value]
          have others := resized.pairs_perm
          rw [still] at others
          have both : (((s.nodes x).key, (s.nodes x).value) :: pairs s.nodes left).Perm
              (pairs s.nodes chains) :=
            perm.map fun node => ((s.nodes node).key, (s.nodes node).value)
          rw [same] at both
          exact both.symm.trans (others.symm.cons _)

/-! ## Visiting -/

theorem mapM_visitFrom {nodes : ℕ → DictionaryNode V} {buckets : List ℕ} {fuel : ℕ}
    (links : List.Forall₂ (Chain (nextOf nodes) 0) buckets chains)
    (enough : chains.flatten.length < fuel) :
    buckets.mapM (visitFrom nodes fuel) = some (chains.map fun chain =>
      chain.map fun node => ((nodes node).key, (nodes node).value)) := by
  induction links with
  | nil => rfl
  | cons link others ih =>
      rw [List.flatten_cons, List.length_append] at enough
      rw [List.mapM_cons, visitFrom_chain link (by omega), ih (by omega)]
      rfl

/-- `ndictFor` visits the pairs of the nodes in the buckets. -/
theorem Chained.visit (chained : s.Chained nodeSize chains free) :
    s.visit = some (pairs s.nodes chains) := by
  have all : s.buckets.take s.capacity = s.buckets := by
    rw [← chained.filled.bucketCount, List.take_length]
  have enough : chains.flatten.length < s.size + 1 := by
    rw [chained.size]
    omega
  unfold NumDictionary.visit
  rw [all, mapM_visitFrom chained.forall₂ enough]
  show some (chains.map _).flatten = _
  rw [← List.map_flatten]
  rfl

end NumDictionary

end HybridDatabase.Utils
