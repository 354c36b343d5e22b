/-
# Runs of the atomic list

At every moment at most one thread has the first pointer of the list, and then the head is the
marker.  So the last exchange of a call does to the list what the call does as a whole, and
the account of the items is right in every run.
-/

import HybridDatabase.Utils.SList

namespace HybridDatabase.Utils.SList

open HybridDatabase.Base

variable {ι : Type} {head : SListPointer} {s s' : Threads ι} {a a' : Account ι}
  {t u : ι} {p : SListPointer}

/-! ## The first pointer -/

/-- The first pointer of the list is not the marker. -/
theorem Account.Placed.ne_marker (placed : a.Placed head) {next : SListPointer → SListPointer}
    (chain : Chain next null p a.items) : p ≠ marker := by
  rintro rfl
  obtain ⟨others, items, -⟩ := chain.eq_cons null_ne_marker.symm
  exact (placed.inside marker (items ▸ List.mem_cons_self)).2.2 rfl

/-- Thread `t` moves items between the list, what belongs to it and what is free. -/
theorem Account.Placed.move (placed : a.Placed head) (t : ι)
    (mine : ∀ u, u ≠ t → a'.mine u = a.mine u)
    (listed : ∀ p ∈ a'.items, p ∈ a.items ∨ p ∈ a.mine t)
    (owned : ∀ p ∈ a'.mine t, p ∉ a'.items ∧
      (p ∈ a.items ∨ p ∈ a.mine t ∨ p ≠ null ∧ p ≠ marker ∧ a.Free head p)) : a'.Placed head := by
  have fromList (p : SListPointer) (inside : p ∈ a'.items) :
      p ≠ head ∧ p ≠ null ∧ p ≠ marker := by
    obtain already | own := listed p inside
    · exact placed.inside p already
    · exact (placed.outside t p own).2
  have away (u : ι) (other : u ≠ t) (p : SListPointer) (inside : p ∈ a'.mine t) :
      p ∉ a.mine u := by
    obtain already | own | ⟨-, -, -, -, free⟩ := (owned p inside).2
    · exact fun used => (placed.outside u p used).1 already
    · exact placed.apart t u other.symm p own
    · exact free u
  constructor
  case apart =>
    intro t₁ u different p inside
    by_cases first : t₁ = t
    · subst first
      rw [mine u different.symm]
      exact away u different.symm p inside
    · rw [mine t₁ first] at inside
      by_cases second : u = t
      · rw [second]
        exact fun own => away t₁ first p own inside
      · rw [mine u second]
        exact placed.apart t₁ u different p inside
  case outside =>
    intro u p inside
    by_cases this : u = t
    · rw [this] at inside
      refine ⟨(owned p inside).1, ?_⟩
      obtain already | own | ⟨real, unmarked, other, -⟩ := (owned p inside).2
      · exact placed.inside p already
      · exact (placed.outside t p own).2
      · exact ⟨other, real, unmarked⟩
    · rw [mine u this] at inside
      refine ⟨fun listed' => ?_, (placed.outside u p inside).2⟩
      obtain already | own := listed p listed'
      · exact (placed.outside u p inside).1 already
      · exact placed.apart u t this p inside own
  case inside => exact fromList

/-- Nothing is moved. -/
theorem Account.Placed.congr (placed : a.Placed head) (items : a'.items = a.items)
    (mine : a'.mine = a.mine) : a'.Placed head := by
  obtain ⟨apart, outside, inside⟩ := placed
  constructor
  · rw [mine]
    exact apart
  · rw [mine, items]
    exact outside
  · rw [items]
    exact inside

theorem Sound.of_held (sound : Sound head s a) (holds : s.held t = some p) :
    s.next head = marker ∧ Chain s.next null p a.items ∧ ∀ u, u ≠ t → s.held u = none := by
  cases sound.front with
  | free nobody =>
      rw [nobody t] at holds
      cases holds
  | held t' p' holds' others marked chain =>
      have same : t = t' := by
        by_contra other
        rw [others t other] at holds
        cases holds
      obtain rfl := same
      obtain rfl : p = p' := Option.some.inj (holds.symm.trans holds')
      exact ⟨marked, chain, others⟩

/-- A thread that finds another pointer than the marker finds the list. -/
theorem Sound.of_unmarked (sound : Sound head s a) (unmarked : s.next head ≠ marker) :
    (∀ t, s.held t = none) ∧ Chain s.next null (s.next head) a.items := by
  cases sound.front with
  | free nobody chain => exact ⟨nobody, chain⟩
  | held _ _ _ _ marked => exact absurd marked unmarked

/-- Nothing that matters for the first pointer has changed. -/
theorem Front.kept {items : List SListPointer} (front : Front head s items)
    (held : ∀ u, s'.held u = s.held u) (first : s'.next head = s.next head)
    (next : ∀ p ∈ items, s'.next p = s.next p) : Front head s' items := by
  cases front with
  | free nobody chain =>
      refine .free (fun u => (held u).trans (nobody u)) ?_
      rw [first]
      exact chain.congr next
  | held t p holds others marked chain =>
      exact .held t p ((held t).trans holds) (fun u other => (held u).trans (others u other))
        (first.trans marked) (chain.congr next)

/-! ## Parts of a step -/

theorem held_eq {stage : Stage} (at_ : s.stages t = stage) : s.held t = stage.held s.next := by
  rw [Threads.held, at_]

/-- What a call has is as it was, as long as its own items and the one it has taken are. -/
theorem Stage.Shape.congr {next next' : SListPointer → SListPointer} {mine : List SListPointer}
    {empty empty' : Bool} {stage : Stage} (shape : stage.Shape next mine empty)
    (own : ∀ p ∈ mine, next' p = next p)
    (first : ∀ p, stage.held next = some p → p ≠ null → next' p = next p)
    (still : empty = true → empty' = true) :
    stage.Shape next' mine empty' ∧ stage.held next' = stage.held next := by
  cases stage with
  | idle | popGet | popNext item | pushGet item | pushStore item first => exact ⟨shape, rfl⟩
  | popSwap item after =>
      refine ⟨⟨shape.1, shape.2.trans ?_⟩, rfl⟩
      by_cases real : item ≠ null
      · rw [if_pos real, if_pos real, first item rfl real]
      · rw [if_neg real, if_neg real]
  | popped item => exact ⟨⟨shape.1, shape.2.1, fun none => still (shape.2.2 none)⟩, rfl⟩
  | pushTest item | pushSwap item =>
      obtain rfl : mine = [item] := shape
      refine ⟨rfl, ?_⟩
      unfold Stage.held
      dsimp only
      rw [own item (List.mem_singleton_self item)]
  | swapGet headB | swapNext headB first | swapped headB =>
      obtain ⟨items, rfl, other, chain⟩ := shape
      refine ⟨⟨items, rfl, other, ?_⟩, rfl⟩
      rw [own headB List.mem_cons_self]
      exact chain.congr fun p inside => own p (List.mem_cons_of_mem _ inside)
  | swapSwap headB first after | swapStore headB first =>
      obtain ⟨items, rfl, other, chain⟩ := shape
      refine ⟨⟨items, rfl, other, ?_⟩, rfl⟩
      exact chain.congr fun p inside => own p (List.mem_cons_of_mem _ inside)

variable [DecidableEq ι]

/-- A thread takes the first pointer, or finds the marker. -/
theorem Sound.get (sound : Sound head s a) (nothing : s.held t = none)
    (others : ∀ u, u ≠ t → s'.held u = s.held u)
    (next : s'.next = Function.update s.next head marker)
    (held : s'.held t = if s.next head = marker then none else some (s.next head)) :
    Front head s' a.items := by
  by_cases marked : s.next head = marker
  · have same : s'.next = s.next := by
      rw [next, ← marked]
      exact Function.update_eq_self head s.next
    rw [if_pos marked] at held
    refine sound.front.kept (fun u => ?_) (by rw [same]) fun p _ => by rw [same]
    by_cases this : u = t
    · rw [this, held, nothing]
    · exact others u this
  · rw [if_neg marked] at held
    obtain ⟨nobody, chain⟩ := sound.of_unmarked marked
    refine .held t (s.next head) held (fun u other => (others u other).trans (nobody u)) ?_ ?_
    · rw [next, Function.update_self]
    · rw [next]
      exact chain.update (fun inside => (sound.placed.inside head inside).1 rfl) marker

/-- A thread puts another list in the place of the marker. -/
theorem Sound.put {items : List SListPointer} (sound : Sound head s a) (holds : s.held t = some p)
    (others : ∀ u, u ≠ t → s'.held u = s.held u) {first : SListPointer}
    (next : s'.next = Function.update s.next head first) (held : s'.held t = none)
    (chain : Chain s.next null first items) (outside : head ∉ items) : Front head s' items := by
  obtain ⟨-, -, alone⟩ := sound.of_held holds
  refine .free (fun u => ?_) ?_
  · by_cases this : u = t
    · rw [this, held]
    · rw [others u this, alone u this]
  · rw [next, Function.update_self]
    exact chain.update outside first

/-- A step of thread `t` leaves the other threads as they are. -/
theorem Sound.stepped (sound : Sound head s a) {next : SListPointer → SListPointer} {stage : Stage}
    (frame : ∀ p, p ≠ head → p ∉ a.mine t → next p = s.next p)
    (mine : ∀ u, u ≠ t → a'.mine u = a.mine u)
    (empty : ∀ u, a'.empty u = (a.empty u || a'.items.isEmpty)) (placed : a'.Placed head)
    (shape : stage.Shape next (a'.mine t) (a'.empty t))
    (front : (∀ u, u ≠ t → (⟨next, Function.update s.stages t stage⟩ : Threads ι).held u =
      s.held u) → Front head ⟨next, Function.update s.stages t stage⟩ a'.items)
    (whole : (a'.taken ++ a'.items).Perm a'.given) :
    Sound head ⟨next, Function.update s.stages t stage⟩ a' := by
  have others (u : ι) (other : u ≠ t) : (s.stages u).Shape next (a.mine u) (a'.empty u) ∧
      (s.stages u).held next = (s.stages u).held s.next := by
    refine (sound.shape u).congr (fun p inside => ?_) (fun p holds real => ?_) fun already => ?_
    · exact frame p (sound.placed.outside u p inside).2.1 (sound.placed.apart u t other p inside)
    · obtain ⟨-, chain, -⟩ := sound.of_held (t := u) holds
      obtain ⟨rest, items, -⟩ := chain.eq_cons real
      have inside : p ∈ a.items := items ▸ List.mem_cons_self
      exact frame p (sound.placed.inside p inside).1 fun used =>
        (sound.placed.outside t p used).1 inside
    · rw [empty, already, Bool.true_or]
  constructor
  case placed => exact placed
  case shape =>
    intro u
    dsimp only
    by_cases this : u = t
    · rw [this, Function.update_self]
      exact shape
    · rw [Function.update_of_ne this, mine u this]
      exact (others u this).1
  case front =>
    refine front fun u other => ?_
    unfold Threads.held
    dsimp only
    rw [Function.update_of_ne other]
    exact (others u other).2
  case seen =>
    intro u _ none
    rw [empty, none]
    exact Bool.or_true _
  case whole => exact whole

theorem Account.empty_after (a : Account ι) (t : ι) (stage : Stage) (u : ι) :
    (a.after t stage).empty u = (a.empty u || (a.after t stage).items.isEmpty) := by
  cases stage <;> rfl

/-- A step that leaves the account as it is. -/
theorem Sound.quiet (sound : Sound head s a) {old : Stage} (same : a.exchange t old = a)
    {next : SListPointer → SListPointer} {stage : Stage}
    (frame : ∀ p, p ≠ head → p ∉ a.mine t → next p = s.next p)
    (shape : ∀ empty, (a.empty t = true ∨ a.items = [] → empty = true) →
      stage.Shape next (a.mine t) empty)
    (front : (∀ u, u ≠ t → (⟨next, Function.update s.stages t stage⟩ : Threads ι).held u =
      s.held u) → Front head ⟨next, Function.update s.stages t stage⟩ a.items) :
    Sound head ⟨next, Function.update s.stages t stage⟩ (a.after t old) := by
  have empty := a.empty_after t old t
  have items : (a.after t old).items = a.items := by
    show (a.exchange t old).items = a.items
    rw [same]
  have mine : (a.after t old).mine = a.mine := by
    show (a.exchange t old).mine = a.mine
    rw [same]
  refine sound.stepped frame (fun u _ => by rw [mine]) (a.empty_after t old)
    (sound.placed.congr items mine) ?_ (by rw [items]; exact front) ?_
  · rw [mine]
    refine shape _ fun already => ?_
    rw [empty, items]
    obtain already | none := already
    · rw [already, Bool.true_or]
    · rw [none]
      exact Bool.or_true _
  · show ((a.exchange t old).taken ++ (a.exchange t old).items).Perm (a.exchange t old).given
    rw [same]
    exact sound.whole

theorem store_frame (next : SListPointer → SListPointer) {b : SListPointer}
    {mine : List SListPointer} (among : b = head ∨ b ∈ mine) (v : SListPointer) :
    ∀ p, p ≠ head → p ∉ mine → Function.update next b v p = next p := by
  intro p other outside
  refine Function.update_of_ne ?_ _ _
  rintro rfl
  exact among.elim other outside

/-! ## The steps of a thread -/

theorem held_goto (next : SListPointer → SListPointer) (s : Threads ι) (t : ι) (stage : Stage) :
    (⟨next, Function.update s.stages t stage⟩ : Threads ι).held t = stage.held next := by
  unfold Threads.held
  dsimp only
  rw [Function.update_self]

/-- A step that changes neither the head nor what the thread has taken. -/
theorem Sound.unmoved (sound : Sound head s a) {old : Stage} (at_ : s.stages t = old)
    (same : a.exchange t old = a) {next : SListPointer → SListPointer} {stage : Stage}
    (frame : ∀ p, p ∉ a.mine t → next p = s.next p)
    (shape : ∀ empty, (a.empty t = true ∨ a.items = [] → empty = true) →
      stage.Shape next (a.mine t) empty)
    (held : stage.held next = old.held s.next) :
    Sound head ⟨next, Function.update s.stages t stage⟩ (a.after t old) := by
  refine sound.quiet same (fun p _ => frame p) shape fun others => ?_
  refine sound.front.kept (fun u => ?_) ?_ fun p inside => ?_
  · by_cases this : u = t
    · rw [this, held_goto, held, held_eq at_]
    · exact others u this
  · exact frame head fun used => (sound.placed.outside t head used).2.1 rfl
  · exact frame p fun used => (sound.placed.outside t p used).1 inside

theorem sound_step (sound : Sound head s a) (moved : s.step head t = some s') :
    Sound head s' (a.after t (s.stages t)) := by
  have shape := sound.shape t
  have atHead (v : SListPointer) : ∀ p, p ≠ head → p ∉ a.mine t →
      Function.update s.next head v p = s.next p := store_frame s.next (.inl rfl) v
  unfold Threads.step at moved
  cases stage : s.stages t with
  | idle => simp [stage] at moved
  | popGet =>
      rw [stage] at shape moved
      cases moved
      refine sound.quiet rfl (atHead marker) (fun empty _ => ?_) fun others => ?_
      · split <;> exact shape
      · apply sound.get (held_eq stage) others rfl
        rw [held_goto]
        split <;> rfl
  | popNext item =>
      rw [stage] at shape moved
      cases moved
      exact sound.unmoved stage rfl (fun _ _ => rfl) (fun _ _ => ⟨shape, rfl⟩) rfl
  | popSwap item after =>
      rw [stage] at shape moved
      cases moved
      have holds : s.held t = some item := held_eq stage
      obtain ⟨-, chain, -⟩ := sound.of_held holds
      refine sound.stepped (atHead after) (fun _ _ => rfl) (a.empty_after t _) ?_ ?_
        (fun others => sound.put holds others rfl (held_goto _ s t _) ?_ ?_) ?_
      · refine sound.placed.move t (fun _ _ => rfl) (fun p inside => .inl (List.mem_of_mem_tail inside))
          fun p inside => ?_
        have inside : p ∈ a.mine t := inside
        rw [shape.1] at inside
        cases inside
      · refine ⟨shape.1, sound.placed.ne_marker chain, ?_⟩
        rintro rfl
        have empty : a.items.tail = [] := by rw [chain.eq_nil, List.tail_nil]
        rw [a.empty_after]
        show (a.empty t || a.items.tail.isEmpty) = true
        rw [empty]
        exact Bool.or_true _
      · show Chain s.next null after a.items.tail
        rw [shape.2]
        by_cases real : item ≠ null
        · obtain ⟨others, items, rest⟩ := chain.eq_cons real
          rw [if_pos real, items]
          exact rest
        · rw [not_not.mp real] at chain
          rw [if_neg real, chain.eq_nil]
          rfl
      · exact fun inside => (sound.placed.inside head (List.mem_of_mem_tail inside)).1 rfl
      · show ((a.taken ++ if item ≠ null then [item] else []) ++ a.items.tail).Perm a.given
        refine .trans ?_ sound.whole
        by_cases real : item ≠ null
        · obtain ⟨others, items, -⟩ := chain.eq_cons real
          rw [if_pos real, items, List.append_assoc]
          exact .refl _
        · rw [not_not.mp real] at chain
          rw [if_neg real, chain.eq_nil, List.tail_nil, List.append_nil]
  | popped item =>
      rw [stage] at shape moved
      cases moved
      exact sound.unmoved stage rfl (fun _ _ => rfl) (fun _ _ => shape.1) rfl
  | pushGet item =>
      rw [stage] at shape moved
      cases moved
      refine sound.quiet rfl (atHead marker) (fun empty _ => shape) fun others => ?_
      apply sound.get (held_eq stage) others rfl
      rw [held_goto]
      rfl
  | pushStore item first =>
      rw [stage] at shape moved
      cases moved
      have own : item ∈ a.mine t := shape ▸ List.mem_singleton_self item
      refine sound.unmoved stage rfl (fun p outside => Function.update_of_ne ?_ _ _)
        (fun _ _ => shape) ?_
      · rintro rfl
        exact outside own
      · simp only [Stage.held, Threads.store, Function.update_self]
  | pushTest item =>
      rw [stage] at shape moved
      cases moved
      refine sound.unmoved stage rfl (fun _ _ => rfl) (fun _ _ => ?_) ?_
      · split <;> exact shape
      · split
        · next marked => exact (if_pos marked).symm
        · next unmarked => exact (if_neg unmarked).symm
  | pushSwap item =>
      rw [stage] at shape moved
      cases moved
      have holds : s.held t = some (s.next item) := held_eq stage
      obtain ⟨-, chain, -⟩ := sound.of_held holds
      have own : item ∈ a.mine t := shape ▸ List.mem_singleton_self item
      obtain ⟨-, other, real, -⟩ := sound.placed.outside t item own
      have mine : (a.after t (.pushSwap item)).mine t = [] := Function.update_self ..
      refine sound.stepped (atHead item) (fun _ other => Function.update_of_ne other _ _)
        (a.empty_after t _) ?_ mine
        (fun others => sound.put holds others rfl (held_goto _ s t _) (chain.push real rfl) ?_) ?_
      · refine sound.placed.move t (fun _ other => Function.update_of_ne other _ _)
          (fun p inside => ?_) fun p inside => ?_
        · obtain rfl | inside := List.mem_cons.mp inside
          · exact .inr own
          · exact .inl inside
        · rw [mine] at inside
          cases inside
      · intro inside
        obtain rfl | inside := List.mem_cons.mp inside
        · exact other rfl
        · exact (sound.placed.inside head inside).1 rfl
      · show (a.taken ++ item :: a.items).Perm (a.given ++ [item])
        exact List.perm_middle.trans
          ((sound.whole.cons item).trans (List.perm_append_singleton item a.given).symm)
  | swapGet headB =>
      rw [stage] at shape moved
      cases moved
      obtain ⟨items, nodes, outside, chain⟩ := shape
      have others (p : SListPointer) (inside : p ∈ headB :: items) :
          Function.update s.next head marker p = s.next p := by
        refine Function.update_of_ne ?_ _ _
        exact (sound.placed.outside t p (nodes ▸ inside)).2.1
      have shape : ∃ items, a.mine t = headB :: items ∧ headB ∉ items ∧
          Chain (Function.update s.next head marker) null
            (Function.update s.next head marker headB) items := by
        refine ⟨items, nodes, outside, ?_⟩
        rw [others headB List.mem_cons_self]
        exact chain.congr fun p inside => others p (List.mem_cons_of_mem _ inside)
      refine sound.quiet rfl (atHead marker) (fun empty _ => ?_) fun others => ?_
      · split <;> exact shape
      · apply sound.get (held_eq stage) others rfl
        rw [held_goto]
        split <;> rfl
  | swapNext headB first =>
      rw [stage] at shape moved
      cases moved
      exact sound.unmoved stage rfl (fun _ _ => rfl) (fun _ _ => shape) rfl
  | swapSwap headB first after =>
      rw [stage] at shape moved
      cases moved
      have holds : s.held t = some first := held_eq stage
      obtain ⟨-, chain, -⟩ := sound.of_held holds
      obtain ⟨items, nodes, outside, chain'⟩ := shape
      have mine : (a.after t (.swapSwap headB first after)).mine t = headB :: a.items :=
        Function.update_self ..
      have tail : (a.mine t).tail = items := by rw [nodes, List.tail_cons]
      have own : headB ∈ a.mine t := nodes ▸ List.mem_cons_self
      obtain ⟨unlisted, other, -, -⟩ := sound.placed.outside t headB own
      have away : ∀ p ∈ items, p ≠ head ∧ p ∉ a.items := fun p inside =>
        have used := sound.placed.outside t p (nodes ▸ List.mem_cons_of_mem _ inside)
        ⟨used.2.1, used.1⟩
      refine sound.stepped (atHead after) (fun _ other => Function.update_of_ne other _ _)
        (a.empty_after t _) ?_ ?_
        (fun others => sound.put holds others rfl (held_goto _ s t _) ?_ ?_) ?_
      · refine sound.placed.move t (fun _ other => Function.update_of_ne other _ _)
          (fun p inside => .inr (List.mem_of_mem_tail inside)) fun p inside => ?_
        rw [mine] at inside
        show p ∉ (a.mine t).tail ∧ _
        rw [tail]
        obtain rfl | inside := List.mem_cons.mp inside
        · exact ⟨outside, .inr (.inl own)⟩
        · exact ⟨fun used => (away p used).2 inside, .inl inside⟩
      · rw [mine]
        refine ⟨a.items, rfl, unlisted, chain.update ?_ after⟩
        exact fun inside => (sound.placed.inside head inside).1 rfl
      · show Chain s.next null after (a.mine t).tail
        rw [tail]
        exact chain'
      · show head ∉ (a.mine t).tail
        rw [tail]
        exact fun inside => (away head inside).1 rfl
      · show ((a.taken ++ a.items) ++ (a.mine t).tail).Perm (a.given ++ (a.mine t).tail)
        exact sound.whole.append_right _
  | swapStore headB first =>
      rw [stage] at shape moved
      cases moved
      obtain ⟨items, nodes, outside, chain⟩ := shape
      have own : headB ∈ a.mine t := nodes ▸ List.mem_cons_self
      refine sound.unmoved stage rfl (fun p away => Function.update_of_ne ?_ _ _)
        (fun _ _ => ⟨items, nodes, outside, ?_⟩) rfl
      · rintro rfl
        exact away own
      · show Chain (Function.update s.next headB first) null
          (Function.update s.next headB first headB) items
        rw [Function.update_self]
        exact chain.update outside first
  | swapped headB =>
      rw [stage] at shape moved
      cases moved
      have mine : (a.after t (.swapped headB)).mine t = [] := Function.update_self ..
      refine sound.stepped (fun _ _ _ => rfl) (fun _ other => Function.update_of_ne other _ _)
        (a.empty_after t _) ?_ mine (fun others => ?_) sound.whole
      · refine sound.placed.move t (fun _ other => Function.update_of_ne other _ _)
          (fun p inside => .inl inside) fun p inside => ?_
        rw [mine] at inside
        cases inside
      · refine sound.front.kept (fun u => ?_) rfl fun _ _ => rfl
        by_cases this : u = t
        · rw [this, held_goto, held_eq stage]
          rfl
        · exact others u this

/-! ## The other steps -/

/-- A call begins. -/
theorem Sound.begin (sound : Sound head s a) (idle : s.stages t = .idle) {stage : Stage}
    {nodes : List SListPointer} (free : ∀ p ∈ nodes, p ≠ null ∧ p ≠ marker ∧ a.Free head p)
    (shape : ∀ empty, stage.Shape s.next nodes empty) (held : stage.held s.next = none) :
    Sound head (s.goto t stage) (a.begin t nodes) := by
  have mine : (a.begin t nodes).mine t = nodes := Function.update_self ..
  constructor
  case placed =>
    refine sound.placed.move t (fun _ other => Function.update_of_ne other _ _)
      (fun p inside => .inl inside) fun p inside => ?_
    rw [mine] at inside
    obtain ⟨real, unmarked, unused⟩ := free p inside
    exact ⟨unused.2.1, .inr (.inr ⟨real, unmarked, unused⟩)⟩
  case shape =>
    intro u
    unfold Threads.goto Account.begin
    dsimp only
    by_cases this : u = t
    · rw [this]
      simp only [Function.update_self]
      exact shape _
    · simp only [Function.update_of_ne this]
      exact sound.shape u
  case front =>
    refine sound.front.kept (fun u => ?_) rfl fun _ _ => rfl
    unfold Threads.goto
    by_cases this : u = t
    · rw [this, held_goto, held, held_eq idle]
      rfl
    · unfold Threads.held
      dsimp only
      rw [Function.update_of_ne this]
  case seen =>
    intro u running none
    have none : a.items = [] := none
    unfold Account.begin
    dsimp only
    by_cases this : u = t
    · rw [this, Function.update_self, none]
      rfl
    · unfold Threads.goto at running
      dsimp only at running
      rw [Function.update_of_ne this] at running ⊢
      exact sound.seen u running none
  case whole => exact sound.whole

omit [DecidableEq ι] in
/-- A store to an item that is not in use. -/
theorem Sound.store (sound : Sound head s a) {b : SListPointer} (free : a.Free head b)
    (p : SListPointer) : Sound head (s.store b p) a := by
  obtain ⟨other, unlisted, unused⟩ := free
  have elsewhere : ∀ q, q ≠ b → (s.store b p).next q = s.next q := fun q apart =>
    Function.update_of_ne apart _ _
  have listed : ∀ q ∈ a.items, (s.store b p).next q = s.next q := by
    refine fun q inside => elsewhere q ?_
    rintro rfl
    exact unlisted inside
  have each (u : ι) : (s.stages u).Shape (s.store b p).next (a.mine u) (a.empty u) ∧
      (s.stages u).held (s.store b p).next = (s.stages u).held s.next := by
    refine (sound.shape u).congr (fun q inside => ?_) (fun q holds real => ?_) id
    · apply elsewhere q
      rintro rfl
      exact unused u inside
    · obtain ⟨-, chain, -⟩ := sound.of_held (t := u) holds
      obtain ⟨rest, items, -⟩ := chain.eq_cons real
      exact listed q (items ▸ List.mem_cons_self)
  exact {
    placed := sound.placed
    shape := fun u => (each u).1
    front := sound.front.kept (fun u => (each u).2)
      (elsewhere head other.symm) listed
    seen := sound.seen
    whole := sound.whole }

omit [DecidableEq ι] in
theorem sound_init (head : SListPointer) {next : SListPointer → SListPointer}
    (empty : next head = null) :
    Sound head ⟨next, fun _ : ι => .idle⟩ .init where
  placed := Account.placed_init head
  shape _ := rfl
  front := .free (fun _ => rfl) empty
  seen _ running := absurd rfl running
  whole := .refl _

/-- What a step of the threads keeps. -/
theorem sound_label {S S' : Threads ι × Account ι} {label : Label ι}
    (sound : Sound head S.1 S.2) (allowed : Allowed head S label)
    (moved : step head S label = some S') : Sound head S'.1 S'.2 := by
  cases label with
  | pop t =>
      obtain ⟨idle, moved⟩ := Option.ite_none_right_eq_some.mp moved
      cases moved
      exact sound.begin idle (fun _ inside => (nomatch inside)) (fun _ => rfl) rfl
  | push t item =>
      obtain ⟨idle, moved⟩ := Option.ite_none_right_eq_some.mp moved
      cases moved
      refine sound.begin idle (fun p inside => ?_) (fun _ => rfl) rfl
      rw [List.mem_singleton.mp inside]
      exact allowed
  | swap t headB items =>
      obtain ⟨idle, moved⟩ := Option.ite_none_right_eq_some.mp moved
      cases moved
      obtain ⟨real, outside, chain, free⟩ := allowed
      refine sound.begin idle (fun p inside => ⟨?_, free p inside⟩)
        (fun _ => ⟨items, rfl, outside, chain⟩) rfl
      obtain rfl | inside := List.mem_cons.mp inside
      · exact real
      · exact chain.ne_null p inside
  | step t =>
      obtain ⟨s', stepped, rfl⟩ := Option.map_eq_some_iff.mp moved
      exact sound_step sound stepped
  | store b p =>
      cases moved
      exact sound.store allowed p

/-! ## The list in every run -/

/-- No item is lost or there twice, and the marker stays what it is. -/
structure Correct (head : SListPointer) (s : Threads ι) (a : Account ι) : Prop where
  /-- What was given is what was taken and what is on the list. -/
  once : (a.taken ++ a.items).Perm a.given
  /-- While no call runs the account tells what is on the list. -/
  quiescent : (∀ t, s.stages t = .idle) →
    s.next head ≠ marker ∧ Chain s.next null (s.next head) a.items
  popped : ∀ t item, s.stages t = .popped item →
    item ≠ marker ∧ (item = null → a.empty t = true)
  /-- A swap returns the items that the account says were taken. -/
  swapped : ∀ t headB, s.stages t = .swapped headB → ∃ items, a.mine t = headB :: items ∧
    Chain s.next null (s.next headB) items ∧ ∀ p ∈ items, p ≠ marker
  follows : ∀ t p, (s.stages t).follows = some p → p ≠ null ∧ p ≠ marker

omit [DecidableEq ι] in
theorem Sound.follows (sound : Sound head s a) (follows : (s.stages t).follows = some p) :
    p ≠ null ∧ p ≠ marker := by
  have shape := sound.shape t
  cases stage : s.stages t with
  | popNext item =>
      rw [stage] at follows
      obtain ⟨real, same⟩ := Option.ite_none_left_eq_some.mp follows
      cases same
      have holds : s.held t = some p := held_eq stage
      exact ⟨real, sound.placed.ne_marker (sound.of_held holds).2.1⟩
  | pushStore item first | pushTest item =>
      rw [stage] at follows shape
      cases follows
      exact (sound.placed.outside t p (shape ▸ List.mem_singleton_self p)).2.2
  | swapNext headB first | swapStore headB first =>
      rw [stage] at follows shape
      cases follows
      obtain ⟨items, nodes, -⟩ := shape
      exact (sound.placed.outside t p (nodes ▸ List.mem_cons_self)).2.2
  | _ =>
      rw [stage] at follows
      cases follows

omit [DecidableEq ι] in
theorem Sound.correct (sound : Sound head s a) : Correct head s a where
  once := sound.whole
  quiescent idle := by
    cases sound.front with
    | free _ chain => exact ⟨sound.placed.ne_marker chain, chain⟩
    | held t p holds =>
        rw [held_eq (idle t)] at holds
        cases holds
  popped t item stage := by
    have shape := sound.shape t
    rw [stage] at shape
    exact shape.2
  swapped t headB stage := by
    have shape := sound.shape t
    rw [stage] at shape
    obtain ⟨items, nodes, -, chain⟩ := shape
    refine ⟨items, nodes, chain, fun p inside => ?_⟩
    exact (sound.placed.outside t p (nodes ▸ List.mem_cons_of_mem _ inside)).2.2.2
  follows _ _ follows := sound.follows follows

/-- In every run of any number of threads that push items which are on no list, pop, and swap
with lists of their own, the list is correct. -/
theorem slist_correct (head : SListPointer) (next : SListPointer → SListPointer)
    (empty : next head = null) (S : Threads ι × Account ι)
    (reaches : Reaches (step head) (Allowed head) (⟨next, fun _ => .idle⟩, .init) S) :
    Correct head S.1 S.2 := by
  have sound : Sound head S.1 S.2 :=
    reaches.invariant (sound_init head empty) fun _ _ _ => sound_label
  exact sound.correct

/-- A pop that finds the marker of a push waits for the item. -/
theorem slist_correct_pop : ∃ S : Threads Bool × Account Bool,
    Reaches (step 8) (Allowed 8) (⟨fun _ => null, fun _ => .idle⟩, .init) S ∧
    S.1.stages false = .popped 16 ∧ S.2.taken = [16] ∧ Correct 8 S.1 S.2 := by
  have pushed : Reaches (step 8) (Allowed 8) (⟨fun _ => null, fun _ : Bool => .idle⟩, .init) _ :=
    .step .start (show Allowed 8 _ (.push true 16) from
      ⟨by decide, by decide, by decide, List.not_mem_nil, fun _ => List.not_mem_nil⟩) rfl
  have popping : Reaches (step 8) (Allowed 8) (⟨fun _ => null, fun _ : Bool => .idle⟩, .init) _ :=
    .step pushed (show Allowed 8 _ (.pop false) from trivial) rfl
  have steps : ∀ l ∈ [true, false, true, true, true, false, false, false].map Label.step,
      ∀ S : Threads Bool × Account Bool, Allowed 8 S l := by
    intro l inside S
    obtain ⟨t, -, rfl⟩ := List.mem_map.mp inside
    trivial
  have reaches := reaches_of_runSteps popping steps rfl
  exact ⟨_, reaches, rfl, rfl, slist_correct 8 _ rfl _ reaches⟩

end HybridDatabase.Utils.SList
