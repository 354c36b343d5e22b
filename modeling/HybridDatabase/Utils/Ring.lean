/-
# Circular lists with a head

A `List` is a pair of pointers; the items of a list and its head are linked in a circle in
both directions.  The circle is compared with the list of the items.
-/

import Mathlib.Data.List.Chain
import Mathlib.Data.List.Nodup
import Mathlib.Logic.Function.Basic

namespace HybridDatabase.Utils

variable {α : Type}

/-- The memory of the `struct List`s. -/
structure Links (α : Type) where
  next : α → α
  prev : α → α

namespace Links

section Operations

variable [DecidableEq α]

/-- `list_join_items`. -/
def listJoinItems (a b : α) (s : Links α) : Links α :=
  ⟨Function.update s.next a b, Function.update s.prev b a⟩

/-- `list_init_head`. -/
def listInitHead (head : α) (s : Links α) : Links α :=
  ⟨Function.update s.next head head, Function.update s.prev head head⟩

/-- `list_add_begin`. -/
def listAddBegin (head item : α) (s : Links α) : Links α :=
  (s.listJoinItems item (s.next head)).listJoinItems head item

/-- `list_add_end`. -/
def listAddEnd (head item : α) (s : Links α) : Links α :=
  (s.listJoinItems (s.prev head) item).listJoinItems item head

/-- `list_remove`. -/
def listRemove (item : α) (s : Links α) : Links α := s.listJoinItems (s.prev item) (s.next item)

/-- In `list_swap`: the items of `b` whose pointers `a` has got are linked to `a`. -/
def listFix (a b : α) (s : Links α) : Links α :=
  if s.next a ≠ b then
    let s : Links α := { s with prev := Function.update s.prev (s.next a) a }
    { s with next := Function.update s.next (s.prev a) a }
  else s.listInitHead a

/-- `list_swap`. -/
def listSwap (a b : α) (s : Links α) : Links α :=
  let s : Links α :=
    ⟨Function.update (Function.update s.next a (s.next b)) b (s.next a),
      Function.update (Function.update s.prev a (s.prev b)) b (s.prev a)⟩
  (s.listFix a b).listFix b a

end Operations

/-! ## The circle -/

/-- `a` stands before `b`. -/
def Joined (s : Links α) (a b : α) : Prop := s.next a = b ∧ s.prev b = a

/-- The circle of the head and these items. -/
structure Ring (s : Links α) (head : α) (items : List α) : Prop where
  nodup : (head :: items).Nodup
  linked : (head :: (items ++ [head])).IsChain s.Joined

variable {s s' : Links α} {head item : α} {items front rest : List α}

theorem isChain_frame {l : List α} (chain : l.IsChain s.Joined)
    (next : ∀ a ∈ l.dropLast, s'.next a = s.next a) (prev : ∀ b ∈ l.tail, s'.prev b = s.prev b) :
    l.IsChain s'.Joined := by
  induction l with
  | nil => exact .nil
  | cons a l ih =>
      cases l with
      | nil => exact .singleton a
      | cons b l =>
          obtain ⟨joined, chain⟩ := List.isChain_cons_cons.mp chain
          have first : s'.Joined a b :=
            ⟨(next a List.mem_cons_self).trans joined.1, (prev b List.mem_cons_self).trans joined.2⟩
          refine List.isChain_cons_cons.mpr ⟨first, ih chain (fun c inside => ?_) fun c inside => ?_⟩
          · exact next c (List.mem_cons_of_mem a inside)
          · exact prev c (List.mem_cons_of_mem b inside)

theorem ring_listInitHead [DecidableEq α] (head : α) (s : Links α) : (s.listInitHead head).Ring head [] :=
  ⟨List.nodup_singleton head, List.isChain_pair.mpr ⟨Function.update_self .., Function.update_self ..⟩⟩

/-- The neighbours of an item. -/
theorem Ring.neighbours (ring : s.Ring head (front ++ item :: rest)) :
    s.prev item = (head :: front).getLast (List.cons_ne_nil _ _) ∧
      s.next item = rest.headD head := by
  have linked := ring.linked
  have split : head :: (front ++ item :: rest ++ [head]) =
      (head :: front) ++ item :: (rest ++ [head]) := by simp
  rw [split, List.isChain_append] at linked
  obtain ⟨-, rightChain, before⟩ := linked
  have after := (List.isChain_cons.mp rightChain).1
  refine ⟨(before _ (List.getLast_mem_getLast? _) item rfl).2, (after _ ?_).1⟩
  rw [List.head?_append]
  cases rest <;> rfl

theorem Ring.next_head (ring : s.Ring head items) : s.next head = items.headD head := by
  have linked := ring.linked
  cases items with
  | nil => exact (List.isChain_cons_cons.mp linked).1.1
  | cons first items => exact (List.isChain_cons_cons.mp linked).1.1

theorem Ring.prev_head (ring : s.Ring head items) : s.prev head = items.getLastD head := by
  have linked := ring.linked
  rw [← List.cons_append, List.isChain_append] at linked
  have joined := (linked.2.2 _ (List.getLast_mem_getLast? (List.cons_ne_nil head items)) head rfl).2
  rw [joined]
  cases items with
  | nil => rfl
  | cons first items =>
      rw [List.getLast_cons (List.cons_ne_nil first items), List.getLastD_eq_getLast?,
        List.getLast?_eq_some_getLast (List.cons_ne_nil first items), Option.getD_some]

/-! ## The operations on the circle -/

/-- The two sides of a place in the circle: none of them touches a change of the pointers
across the place. -/
theorem Ring.sides (nodup : (head :: (front ++ rest)).Nodup) :
    ∃ P p q Q, head :: front = P ++ [p] ∧ rest ++ [head] = q :: Q ∧
      p ∉ P ∧ q ∉ front ∧ p ∉ rest ∧ q ∉ Q := by
  obtain ⟨P, p, left⟩ : ∃ P p, head :: front = P ++ [p] :=
    ⟨_, _, (List.dropLast_append_getLast (List.cons_ne_nil head front)).symm⟩
  obtain ⟨q, Q, right⟩ : ∃ q Q, rest ++ [head] = q :: Q := by
    cases rest with
    | nil => exact ⟨head, [], rfl⟩
    | cons q rest => exact ⟨q, rest ++ [head], rfl⟩
  obtain ⟨out, nodup⟩ := List.nodup_cons.mp nodup
  rw [List.mem_append, not_or] at out
  obtain ⟨nodupFront, nodupRest, apart⟩ := List.nodup_append.mp nodup
  have leftNodup : (P ++ [p]).Nodup := left ▸ List.nodup_cons.mpr ⟨out.1, nodupFront⟩
  have rightNodup : (q :: Q).Nodup := by
    rw [← right, List.nodup_append]
    refine ⟨nodupRest, List.nodup_singleton head, fun a inside b last same => out.2 ?_⟩
    rwa [← List.mem_singleton.mp last, ← same]
  have isP : p ∈ head :: front := left ▸ List.mem_append_right P (List.mem_singleton_self p)
  have isQ : q ∈ rest ++ [head] := right ▸ List.mem_cons_self
  refine ⟨P, p, q, Q, left, right, ?_, fun inside => ?_, fun inside => ?_,
    (List.nodup_cons.mp rightNodup).1⟩
  · intro inside
    exact (List.nodup_append.mp leftNodup).2.2 p inside p (List.mem_singleton_self p) rfl
  · rcases List.mem_append.mp isQ with other | last
    · exact apart q inside q other rfl
    · exact out.1 (List.mem_singleton.mp last ▸ inside)
  · rcases List.mem_cons.mp isP with first | other
    · exact out.2 (first ▸ inside)
    · exact apart p other p inside rfl

/-- Two pieces of a circle are linked. -/
theorem isChain_listJoinItems [DecidableEq α] {P Q : List α} {p q : α}
    (left : (P ++ [p]).IsChain s.Joined) (right : (q :: Q).IsChain s.Joined)
    (pLeft : p ∉ P) (qLeft : q ∉ (P ++ [p]).tail) (pRight : p ∉ (q :: Q).dropLast)
    (qRight : q ∉ Q) : (P ++ p :: q :: Q).IsChain (s.listJoinItems p q).Joined := by
  refine List.isChain_append_cons_cons.mpr ⟨?_,
    ⟨Function.update_self .., Function.update_self ..⟩, ?_⟩
  · refine isChain_frame left (fun a inside => Function.update_of_ne ?_ ..)
      fun b inside => Function.update_of_ne ?_ ..
    · rw [List.dropLast_concat] at inside
      exact fun same => pLeft (same ▸ inside)
    · exact fun same => qLeft (same ▸ inside)
  · refine isChain_frame right (fun a inside => Function.update_of_ne ?_ ..)
      fun b inside => Function.update_of_ne ?_ ..
    · exact fun same => pRight (same ▸ inside)
    · exact fun same => qRight (same ▸ inside)

theorem Ring.listRemove [DecidableEq α] (ring : s.Ring head (front ++ item :: rest)) :
    (s.listRemove item).Ring head (front ++ rest) := by
  have fewer : (head :: (front ++ rest)).Nodup := by
    refine ring.nodup.sublist (List.Sublist.cons_cons head ?_)
    exact (List.Sublist.refl front).append (List.sublist_cons_self item rest)
  obtain ⟨P, p, q, Q, left, right, pP, qFront, pRest, qQ⟩ := Ring.sides fewer
  have before : head :: (front ++ item :: rest ++ [head]) = P ++ p :: item :: q :: Q := by
    rw [List.append_assoc, List.cons_append, right, ← List.cons_append, left]
    simp
  have after : head :: (front ++ rest ++ [head]) = P ++ p :: q :: Q := by
    rw [List.append_assoc, right, ← List.cons_append, left]
    simp
  have linked := ring.linked
  rw [before, List.isChain_append_cons_cons, List.isChain_cons_cons] at linked
  obtain ⟨chainLeft, joinedLeft, joinedRight, chainRight⟩ := linked
  have joins : s.listRemove item = s.listJoinItems p q := by
    rw [Links.listRemove, joinedLeft.2, joinedRight.1]
  refine ⟨fewer, ?_⟩
  rw [after, joins]
  refine isChain_listJoinItems chainLeft chainRight pP ?_ ?_ qQ
  · rwa [← left]
  · rwa [← right, List.dropLast_concat]

/-- An item is put between two neighbours. -/
theorem Ring.insert [DecidableEq α] (ring : s.Ring head (front ++ rest))
    (fresh : item ∉ head :: (front ++ rest)) :
    ((s.listJoinItems item (rest.headD head)).listJoinItems (front.getLastD head) item).Ring head
      (front ++ item :: rest) := by
  obtain ⟨P, p, q, Q, left, right, pP, qFront, pRest, qQ⟩ := Ring.sides ring.nodup
  have isP : front.getLastD head = p := by
    have same := congrArg List.getLast? left
    rw [List.getLast?_cons, List.getLast?_concat, Option.some.injEq] at same
    rw [← same, List.getLastD_eq_getLast?]
  have isQ : rest.headD head = q := by
    have same := congrArg List.head? right
    rw [List.head?_append, List.head?_cons] at same
    cases rest with
    | nil => exact Option.some.inj same
    | cons first rest => exact Option.some.inj same
  have before : head :: (front ++ rest ++ [head]) = P ++ p :: q :: Q := by
    rw [List.append_assoc, right, ← List.cons_append, left]
    simp
  have after : head :: (front ++ item :: rest ++ [head]) = P ++ p :: item :: q :: Q := by
    rw [List.append_assoc, List.cons_append, right, ← List.cons_append, left]
    simp
  have outLeft : item ∉ P ++ [p] := by
    rw [← left]
    simp only [List.mem_cons, List.mem_append, not_or] at fresh ⊢
    exact ⟨fresh.1, fresh.2.1⟩
  have outRight : item ∉ q :: Q := by
    rw [← right]
    simp only [List.mem_cons, List.mem_append, not_or] at fresh ⊢
    exact ⟨fresh.2.2, fresh.1, List.not_mem_nil⟩
  have linked := ring.linked
  rw [before, List.isChain_append_cons_cons] at linked
  obtain ⟨chainLeft, -, chainRight⟩ := linked
  rw [isP, isQ]
  have second : (item :: q :: Q).IsChain (s.listJoinItems item q).Joined := by
    refine isChain_listJoinItems (P := []) (.singleton item) chainRight List.not_mem_nil
      List.not_mem_nil (fun inside => outRight ((List.dropLast_sublist _).subset inside)) qQ
  have first : (P ++ [p]).IsChain (s.listJoinItems item q).Joined := by
    refine isChain_frame chainLeft (fun a inside => Function.update_of_ne ?_ ..)
      fun b inside => Function.update_of_ne ?_ ..
    · exact fun same => outLeft (same ▸ (List.dropLast_sublist _).subset inside)
    · rw [← left] at inside
      exact fun same => qFront (same ▸ inside)
  refine ⟨?_, ?_⟩
  · have perm : (head :: (front ++ item :: rest)).Perm (item :: head :: (front ++ rest)) :=
      (List.perm_middle.cons head).trans (List.Perm.swap item head _)
    exact perm.nodup_iff.mpr (List.nodup_cons.mpr ⟨fresh, ring.nodup⟩)
  · rw [after]
    refine isChain_listJoinItems first second pP ?_ ?_ outRight
    · exact fun inside => outLeft (List.mem_of_mem_tail inside)
    · rw [List.dropLast_cons_of_ne_nil (List.cons_ne_nil q Q), ← right, List.dropLast_concat,
        List.mem_cons, not_or]
      refine ⟨fun same => outLeft ?_, pRest⟩
      rw [← same]
      exact List.mem_append_right P (List.mem_singleton_self p)

theorem Ring.listAddBegin [DecidableEq α] (ring : s.Ring head items)
    (fresh : item ∉ head :: items) : (s.listAddBegin head item).Ring head (item :: items) := by
  rw [Links.listAddBegin, ring.next_head]
  have both : s.Ring head ([] ++ items) := ring
  exact both.insert fresh

theorem Ring.listAddEnd [DecidableEq α] (ring : s.Ring head items)
    (fresh : item ∉ head :: items) : (s.listAddEnd head item).Ring head (items ++ [item]) := by
  have both : s.Ring head (items ++ []) := by rwa [List.append_nil]
  have inserted := both.insert (by rwa [List.append_nil])
  -- the source links the two sides in the other order
  have order : s.listAddEnd head item =
      (s.listJoinItems item head).listJoinItems (items.getLastD head) item := by
    have other : item ≠ head := fun same => fresh (same ▸ List.mem_cons_self)
    have last : items.getLastD head ≠ item := by
      rintro rfl
      cases items with
      | nil => exact other rfl
      | cons first items =>
          refine fresh (List.mem_cons_of_mem head ?_)
          rw [List.getLastD_eq_getLast?, List.getLast?_eq_some_getLast (List.cons_ne_nil first items)]
          exact List.getLast_mem _
    rw [Links.listAddEnd, ring.prev_head]
    exact congrArg₂ Links.mk (Function.update_comm last ..) (Function.update_comm other ..)
  rw [order]
  exact inserted

/-- A circle whose pointers are as they were. -/
theorem Ring.congr (ring : s.Ring head items)
    (same : ∀ a ∈ head :: items, s'.next a = s.next a ∧ s'.prev a = s.prev a) :
    s'.Ring head items := by
  have among : ∀ a ∈ head :: (items ++ [head]), a ∈ head :: items := by
    intro a inside
    simp only [List.mem_cons, List.mem_append, List.not_mem_nil, or_false] at inside ⊢
    tauto
  refine ⟨ring.nodup, isChain_frame ring.linked (fun a inside => ?_) fun a inside => ?_⟩
  · exact (same a (among a ((List.dropLast_sublist _).subset inside))).1
  · exact (same a (among a (List.mem_of_mem_tail inside))).2

/-- Adding and removing an item change the pointers of the circle and of the item only. -/
theorem Ring.listAddEnd_frame [DecidableEq α] (ring : s.Ring head items) {a : α}
    (outside : a ∉ item :: head :: items) :
    (s.listAddEnd head item).next a = s.next a ∧ (s.listAddEnd head item).prev a = s.prev a := by
  have other := List.ne_of_not_mem_cons outside
  have outside := List.not_mem_of_not_mem_cons outside
  have before : a ≠ s.prev head := by
    rw [ring.prev_head]
    rintro rfl
    apply outside
    cases items with
    | nil => exact List.mem_cons_self
    | cons first items =>
        rw [List.getLastD_eq_getLast?, List.getLast?_eq_some_getLast (List.cons_ne_nil first items)]
        exact List.mem_cons_of_mem head (List.getLast_mem _)
  refine ⟨?_, ?_⟩
  · exact (Function.update_of_ne other _ _).trans (Function.update_of_ne before _ _)
  · exact (Function.update_of_ne (List.ne_of_not_mem_cons outside) _ _).trans
      (Function.update_of_ne other _ _)

theorem Ring.listRemove_frame [DecidableEq α] (ring : s.Ring head (front ++ item :: rest)) {a : α}
    (outside : a ∉ head :: (front ++ item :: rest)) :
    (s.listRemove item).next a = s.next a ∧ (s.listRemove item).prev a = s.prev a := by
  obtain ⟨prev, next⟩ := ring.neighbours
  refine ⟨Function.update_of_ne ?_ _ _, Function.update_of_ne ?_ _ _⟩
  · rw [prev]
    rintro rfl
    apply outside
    have inside := List.getLast_mem (List.cons_ne_nil head front)
    rw [List.mem_cons] at inside ⊢
    exact inside.imp id (List.mem_append_left _)
  · rw [next]
    rintro rfl
    apply outside
    cases rest with
    | nil => exact List.mem_cons_self
    | cons first rest =>
        refine List.mem_cons_of_mem head (List.mem_append_right front ?_)
        exact List.mem_cons_of_mem item List.mem_cons_self

/-! ## Swapping -/

/-- The head `a` has the pointers of the head `b` of these items. -/
structure Copied (s : Links α) (a b : α) (items : List α) : Prop where
  next : s.next a = items.headD b
  prev : s.prev a = items.getLastD b
  linked : items.IsChain s.Joined

theorem Ring.copied (ring : s.Ring head items) : s.Copied head head items where
  next := ring.next_head
  prev := ring.prev_head
  linked := by
    have linked := ring.linked
    rw [← List.cons_append, List.isChain_append] at linked
    exact (List.isChain_cons.mp linked.1).2

/-- The items get their new head, and no other pointer changes. -/
theorem Copied.listFix [DecidableEq α] {a b : α} (copied : s.Copied a b items)
    (nodup : (a :: items).Nodup) (other : b ∉ items) :
    (s.listFix a b).Ring a items ∧ ∀ c ∉ a :: items,
      (s.listFix a b).next c = s.next c ∧ (s.listFix a b).prev c = s.prev c := by
  unfold Links.listFix
  cases items with
  | nil =>
      have next : s.next a = b := copied.next
      rw [if_neg (not_not.mpr next)]
      refine ⟨ring_listInitHead a s, fun c outside => ?_⟩
      have apart := List.ne_of_not_mem_cons outside
      exact ⟨Function.update_of_ne apart _ _, Function.update_of_ne apart _ _⟩
  | cons first rest =>
      obtain ⟨outside, distinct⟩ := List.nodup_cons.mp nodup
      obtain ⟨last, isLast⟩ : ∃ last, (first :: rest).getLast? = some last :=
        ⟨_, List.getLast?_eq_some_getLast (List.cons_ne_nil first rest)⟩
      have next : s.next a = first := copied.next
      have prev := copied.prev
      rw [List.getLastD_eq_getLast?, isLast, Option.getD_some] at prev
      have inside : last ∈ first :: rest := List.mem_of_getLast? isLast
      have firstOther : a ≠ first := fun same => outside (same ▸ List.mem_cons_self)
      have lastOther : a ≠ last := fun same => outside (same ▸ inside)
      have started : s.next a ≠ b := by
        rw [next]
        rintro rfl
        exact other List.mem_cons_self
      rw [if_pos started]
      dsimp only
      rw [Function.update_of_ne (next ▸ firstOther), next, prev]
      refine ⟨⟨nodup, ?_⟩, fun c away => ⟨?_, ?_⟩⟩
      · have inner : (first :: rest).IsChain (Links.Joined
            ⟨Function.update s.next last a, Function.update s.prev first a⟩) := by
          refine isChain_frame copied.linked (fun c among => Function.update_of_ne ?_ _ _)
            fun c among => Function.update_of_ne ?_ _ _
          · rintro rfl
            rw [List.getLast?_eq_some_getLast (List.cons_ne_nil first rest),
              Option.some.injEq] at isLast
            have split := List.dropLast_append_getLast (List.cons_ne_nil first rest)
            rw [isLast] at split
            rw [← split] at distinct
            exact (List.nodup_append.mp distinct).2.2 c among c (List.mem_singleton_self c) rfl
          · rintro rfl
            exact (List.nodup_cons.mp distinct).1 among
        show (a :: first :: (rest ++ [a])).IsChain _
        rw [List.isChain_cons_cons, ← List.cons_append, List.isChain_append]
        refine ⟨⟨?_, Function.update_self ..⟩, inner, .singleton a, ?_⟩
        · exact (Function.update_of_ne lastOther _ _).trans next
        · rintro c isLast' d ⟨⟩
          rw [isLast] at isLast'
          cases isLast'
          exact ⟨Function.update_self .., (Function.update_of_ne firstOther _ _).trans prev⟩
      · refine Function.update_of_ne ?_ _ _
        rintro rfl
        exact away (List.mem_cons_of_mem a inside)
      · refine Function.update_of_ne ?_ _ _
        rintro rfl
        exact away (List.mem_cons_of_mem a List.mem_cons_self)

/-- Two lists change their items. -/
theorem Ring.listSwap [DecidableEq α] {a b : α} {items items' : List α} (ring : s.Ring a items)
    (ring' : s.Ring b items') (apart : ∀ c ∈ a :: items, c ∉ b :: items') :
    (s.listSwap a b).Ring a items' ∧ (s.listSwap a b).Ring b items ∧
      ∀ c, c ∉ a :: items → c ∉ b :: items' →
        (s.listSwap a b).next c = s.next c ∧ (s.listSwap a b).prev c = s.prev c := by
  have different : a ≠ b := by
    rintro rfl
    exact apart a List.mem_cons_self List.mem_cons_self
  obtain ⟨outA, distinct⟩ := List.nodup_cons.mp ring.nodup
  obtain ⟨outB, distinct'⟩ := List.nodup_cons.mp ring'.nodup
  have awayA : a ∉ items' := fun inside => apart a List.mem_cons_self (List.mem_cons_of_mem b inside)
  have awayB : b ∉ items := fun inside => apart b (List.mem_cons_of_mem a inside) List.mem_cons_self
  unfold Links.listSwap
  dsimp only
  generalize heads : (⟨Function.update (Function.update s.next a (s.next b)) b (s.next a),
    Function.update (Function.update s.prev a (s.prev b)) b (s.prev a)⟩ : Links α) = c
  have kept : ∀ d, d ≠ a → d ≠ b → c.next d = s.next d ∧ c.prev d = s.prev d := by
    intro d first second
    subst heads
    simp only [Function.update_of_ne second, Function.update_of_ne first, and_self]
  -- The inner pointers of both lists are as they were.
  have inner : ∀ l : List α, a ∉ l → b ∉ l → l.IsChain s.Joined → l.IsChain c.Joined := by
    intro l first second chain
    refine isChain_frame chain (fun d inside => ?_) fun d inside => ?_
    · have inside := (List.dropLast_sublist l).subset inside
      exact (kept d (fun same => first (same ▸ inside)) fun same => second (same ▸ inside)).1
    · have inside := List.mem_of_mem_tail inside
      exact (kept d (fun same => first (same ▸ inside)) fun same => second (same ▸ inside)).2
  have copiedA : c.Copied a b items' := by
    refine ⟨?_, ?_, inner items' awayA outB ring'.copied.linked⟩
    · subst heads
      simp only [Function.update_of_ne different, Function.update_self]
      exact ring'.next_head
    · subst heads
      simp only [Function.update_of_ne different, Function.update_self]
      exact ring'.prev_head
  have copiedB : c.Copied b a items := by
    refine ⟨?_, ?_, inner items outA awayB ring.copied.linked⟩
    · subst heads
      simp only [Function.update_self]
      exact ring.next_head
    · subst heads
      simp only [Function.update_self]
      exact ring.prev_head
  obtain ⟨ringA, frameA⟩ := copiedA.listFix (List.nodup_cons.mpr ⟨awayA, distinct'⟩) outB
  have other : ∀ d ∈ b :: items, d ∉ a :: items' := by
    intro d inside inside'
    obtain rfl | inside := List.mem_cons.mp inside
    · obtain same | inside' := List.mem_cons.mp inside'
      · exact different same.symm
      · exact outB inside'
    · obtain rfl | inside' := List.mem_cons.mp inside'
      · exact outA inside
      · exact apart d (List.mem_cons_of_mem a inside) (List.mem_cons_of_mem b inside')
  generalize c.listFix a b = d at ringA frameA
  have copiedB : d.Copied b a items := by
    refine ⟨(frameA b (other b List.mem_cons_self)).1.trans copiedB.next,
      (frameA b (other b List.mem_cons_self)).2.trans copiedB.prev, ?_⟩
    refine isChain_frame copiedB.linked (fun e inside => ?_) fun e inside => ?_
    · have inside := (List.dropLast_sublist items).subset inside
      exact (frameA e (other e (List.mem_cons_of_mem b inside))).1
    · have inside := List.mem_of_mem_tail inside
      exact (frameA e (other e (List.mem_cons_of_mem b inside))).2
  obtain ⟨ringB, frameB⟩ := copiedB.listFix (List.nodup_cons.mpr ⟨awayB, distinct⟩) outA
  refine ⟨ringA.congr fun e inside => frameB e fun inside' => other e inside' inside, ringB,
    fun e first second => ?_⟩
  have apartA := List.ne_of_not_mem_cons first
  have apartB := List.ne_of_not_mem_cons second
  have offB : e ∉ b :: items := fun inside =>
    (List.mem_cons.mp inside).elim apartB (List.not_mem_of_not_mem_cons first)
  have offA : e ∉ a :: items' := fun inside =>
    (List.mem_cons.mp inside).elim apartA (List.not_mem_of_not_mem_cons second)
  exact ⟨(frameB e offB).1.trans ((frameA e offA).1.trans (kept e apartA apartB).1),
    (frameB e offB).2.trans ((frameA e offA).2.trans (kept e apartA apartB).2)⟩

/-- An empty list does not change where its head is taken for an item of it. -/
theorem Ring.head_moved [DecidableEq α] (ring : s.Ring head []) :
    (s.listRemove head).listAddBegin head head = s := by
  have next : s.next head = head := ring.next_head
  have prev : s.prev head = head := ring.prev_head
  have same : s.listJoinItems head head = s := by
    have unchanged := congrArg₂ Links.mk (Function.update_eq_self head s.next)
      (Function.update_eq_self head s.prev)
    rwa [next, prev] at unchanged
  rw [Links.listRemove, next, prev, same, Links.listAddBegin, next, same, same]

end Links

end HybridDatabase.Utils
