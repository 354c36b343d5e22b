/-
# The operations of a paged stack

A push writes to the first place that is free, a pop and an erasure leave the other items
where they are, and a swap leaves all of them.
-/

import HybridDatabase.Utils.PagedStacks

namespace HybridDatabase.Utils.PagedStacks

open HybridDatabase.Base

variable {ι α : Type} {N page : ℕ} {m m' : PagedStacks ι α} {b : ι} {blocks front own : List ℕ}
  {last used : ℕ} {entries : List (Place ι × α)}

/-! ## The pages -/

/-- Which pages a stack has after a push. -/
def Grown (m m' : PagedStacks ι α) (page : ℕ) (blocks blocks' : List ℕ) : Prop :=
  blocks' = blocks ∧ m'.pages = m.pages ∨ blocks' = blocks ++ [page] ∧ m'.pages = page :: m.pages

/-- The pages a stack no longer has are freed. -/
def Shrunk (m m' : PagedStacks ι α) (blocks blocks' : List ℕ) : Prop :=
  ∃ gone, blocks = blocks' ++ gone ∧ m.pages.Perm (gone ++ m'.pages)

theorem Shrunk.refl (same : m'.pages = m.pages) : Shrunk m m' blocks blocks :=
  ⟨[], (List.append_nil blocks).symm, same ▸ .refl _⟩

theorem Shrunk.trans {m'' : PagedStacks ι α} {blocks' blocks'' : List ℕ}
    (first : Shrunk m m' blocks blocks') (second : Shrunk m' m'' blocks' blocks'') :
    Shrunk m m'' blocks blocks'' := by
  obtain ⟨gone, rfl, pages⟩ := first
  obtain ⟨gone', rfl, pages'⟩ := second
  refine ⟨gone' ++ gone, List.append_assoc _ _ _, ?_⟩
  calc List.Perm m.pages (gone ++ m'.pages) := pages
    List.Perm _ (gone ++ (gone' ++ m''.pages)) := pages'.append_left gone
    List.Perm _ (gone' ++ (gone ++ m''.pages)) := List.perm_append_comm_assoc _ _ _
    List.Perm _ (gone' ++ gone ++ m''.pages) := .of_eq (List.append_assoc _ _ _).symm

theorem Shrunk.subset {blocks' : List ℕ} (shrunk : Shrunk m m' blocks blocks') {n : ℕ}
    (inside : n ∈ blocks') : n ∈ blocks := by
  obtain ⟨gone, rfl, -⟩ := shrunk
  exact List.mem_append_left gone inside

/-- The pages that are left are still allocated. -/
theorem Shrunk.allocated {blocks' : List ℕ} (shrunk : Shrunk m m' blocks blocks')
    (nodup : blocks.Nodup) (allocated : ∀ n ∈ blocks, n ∈ m.pages) :
    ∀ n ∈ blocks', n ∈ m'.pages := by
  obtain ⟨gone, rfl, pages⟩ := shrunk
  intro n inside
  have before := allocated n (List.mem_append_left gone inside)
  rw [pages.mem_iff, List.mem_append] at before
  refine before.resolve_left fun freed => ?_
  exact (List.nodup_append.mp nodup).2.2 n inside n freed rfl

/-! ## Pushing -/

/-- There is a place in the last page. -/
structure Room (N : ℕ) (m : PagedStacks ι α) (b : ι) (front : List ℕ) (last used : ℕ)
    (entries : List (Place ι × α)) : Prop where
  ring : m.links.Ring (.head b) ((front ++ [last]).map .page)
  header : m.stack b =
    ⟨front.length + 1, ⟨.page last, 0⟩, ⟨.page last, used⟩, ⟨.page last, N⟩⟩
  low : used < N
  places : entries.map Prod.fst = fill N front ++ part last used
  data : ∀ e ∈ entries, m.data e.1 = e.2

/-- The place is that of no other item. -/
theorem Room.fresh (room : Room N m b front last used entries) :
    ∀ e ∈ entries, e.1 ≠ ⟨.page last, used⟩ := by
  intro e inside same
  have among : e.1 ∈ entries.map Prod.fst := List.mem_map_of_mem inside
  rw [room.places, same, List.mem_append] at among
  have nodup : (front ++ [last]).Nodup := List.Nodup.of_map _ (List.nodup_cons.mp room.ring.nodup).2
  obtain among | among := among
  · obtain ⟨n, among, block, -⟩ := mem_fill.mp among
    cases block
    exact (List.nodup_append.mp nodup).2.2 last among last (List.mem_singleton_self last) rfl
  · exact Nat.lt_irrefl used (mem_part.mp among).2

/-- A stack whose last page is not full has room. -/
theorem Keeps.room (keeps : Keeps N m b blocks entries)
    (free : (m.stack b).ptr ≠ (m.stack b).end_) :
    ∃ front last used, Room N m b front last used entries ∧ blocks = front ++ [last] := by
  obtain ⟨-, -, block, header⟩ | ⟨front, last, used, rfl, -, le, header, places⟩ := keeps.cases
  · rw [header] at free
    exact absurd rfl free
  · refine ⟨front, last, used, ⟨keeps.ring, header, lt_of_le_of_ne le ?_, places, keeps.data⟩, rfl⟩
    rintro rfl
    rw [header] at free
    exact free rfl

variable [DecidableEq ι]

theorem Room.store (room : Room N m b front last used entries) (item : α) :
    Keeps N (m.store b item) b (front ++ [last])
      (entries ++ [((m.store b item).topPlace b, item)]) := by
  have top : (m.store b item).topPlace b = ⟨.page last, used⟩ := by
    unfold PagedStacks.store topPlace
    dsimp only
    rw [Function.update_self, room.header]
    rfl
  rw [top]
  refine ⟨room.ring, ?_, fun e inside => ?_⟩
  · have places : (entries ++ [((⟨.page last, used⟩ : Place ι), item)]).map Prod.fst =
        fill N front ++ part last (used + 1) := by
      rw [List.map_append, room.places, part_succ, List.append_assoc]
      rfl
    rw [places]
    refine .some front last (used + 1) (Nat.succ_pos used) room.low ?_
    show Function.update m.stack b _ b = _
    rw [Function.update_self, room.header]
  · show Function.update m.data (m.stack b).ptr item e.1 = e.2
    rw [room.header]
    obtain inside | inside := List.mem_append.mp inside
    · rw [Function.update_of_ne (room.fresh e inside)]
      exact room.data e inside
    · rw [List.mem_singleton.mp inside, Function.update_self]

theorem store_frame (header : (m.stack b).ptr.block = .page last) (item : α)
    (inside : last ∈ own) : Frame m (m.store b item) b own where
  stack c other := Function.update_of_ne other _ _
  links _ _ _ := ⟨rfl, rfl⟩
  data a outside := by
    refine Function.update_of_ne ?_ _ _
    rintro rfl
    exact outside last inside header

theorem fstackExpand_add (N : ℕ) (ring : m.links.Ring (.head b) (blocks.map .page)) (fresh : page ∉ blocks)
    (more : (m.stack b).blockCount + 1 ≠ 1 ∨ m.links.next (.head b) = .head b) :
    m.fstackExpand N page b =
      { m with
        links := m.links.listAddEnd (.head b) (.page page)
        pages := page :: m.pages
        stack := Function.update m.stack b ⟨(m.stack b).blockCount + 1, ⟨.page page, 0⟩,
          ⟨.page page, 0⟩, ⟨.page page, N⟩⟩ } ∧
      (m.links.listAddEnd (.head b) (.page page)).Ring (.head b) ((blocks ++ [page]).map .page) ∧
      Frame m (m.fstackExpand N page b) b (page :: blocks) := by
  have unlisted : Block.page page ∉ Block.head b :: blocks.map Block.page := by
    simp [fresh]
  have added := ring.listAddEnd unlisted
  have last : (m.links.listAddEnd (.head b) (.page page)).prev (.head b) = .page page := by
    rw [added.prev_head, List.getLastD_concat]
  have result : m.fstackExpand N page b =
      { m with
        links := m.links.listAddEnd (.head b) (.page page)
        pages := page :: m.pages
        stack := Function.update m.stack b ⟨(m.stack b).blockCount + 1, ⟨.page page, 0⟩,
          ⟨.page page, 0⟩, ⟨.page page, N⟩⟩ } := by
    unfold fstackExpand
    simp only [if_pos more, last]
  refine ⟨result, by rwa [List.map_append], ?_⟩
  rw [result]
  refine ⟨fun c other => Function.update_of_ne other _ _, fun a other outside => ?_, fun _ _ => rfl⟩
  refine ring.listAddEnd_frame (show a ∉ Block.page page :: Block.head b :: blocks.map Block.page
    from ?_)
  simp only [List.mem_cons, List.mem_map, not_or, not_exists, not_and]
  refine ⟨outside page List.mem_cons_self, other, fun n inside same => ?_⟩
  exact outside n (List.mem_cons_of_mem page inside) same.symm

/-- A full stack gets another page, or the one it has kept. -/
theorem Keeps.expand (keeps : Keeps N m b blocks entries) (positive : 0 < N)
    (fresh : page ∉ blocks) (full : (m.stack b).ptr = (m.stack b).end_) :
    ∃ front last used, Room N (m.fstackExpand N page b) b front last used entries ∧
      Grown m (m.fstackExpand N page b) page blocks (front ++ [last]) ∧
      Frame m (m.fstackExpand N page b) b (page :: blocks) := by
  have ring := keeps.ring
  have pointers := keeps.pointers
  generalize places : entries.map Prod.fst = list at pointers
  generalize header : m.stack b = S at pointers full
  cases pointers with
  | empty block blocks few head =>
      obtain rfl := List.map_eq_nil_iff.mp places
      cases blocks with
      | nil =>
          obtain ⟨result, added, frame⟩ := fstackExpand_add N ring fresh
            (.inr ring.next_head)
          refine ⟨[], page, 0, ⟨?_, ?_, positive, rfl, nofun⟩, ?_, frame⟩
          · rw [result]
            exact added
          · rw [result]
            show Function.update m.stack b _ b = _
            rw [Function.update_self, header, head]
            rfl
          · rw [result]
            exact .inr ⟨rfl, rfl⟩
      | cons kept blocks =>
          obtain rfl : blocks = [] := by
            rw [List.length_cons] at few
            exact List.eq_nil_of_length_eq_zero (by omega)
          have next : m.links.next (.head b) = .page kept := ring.next_head
          have prev : m.links.prev (.head b) = .page kept := ring.prev_head
          have enough : ¬ ((m.stack b).blockCount + 1 ≠ 1 ∨
              m.links.next (.head b) = .head b) := by
            rw [header, head, next]
            simp
          have result : m.fstackExpand N page b =
              { m with
                stack := Function.update m.stack b
                  ⟨0 + 1, ⟨.page kept, 0⟩, ⟨.page kept, 0⟩, ⟨.page kept, N⟩⟩ } := by
            unfold fstackExpand
            simp only [if_neg enough]
            rw [prev, header, head]
          refine ⟨[], kept, 0, ⟨?_, ?_, positive, rfl, nofun⟩, ?_, ?_⟩
          · rw [result]
            exact ring
          · rw [result]
            exact Function.update_self ..
          · rw [result]
            exact .inl ⟨rfl, rfl⟩
          · rw [result]
            exact ⟨fun c other => Function.update_of_ne other _ _, fun _ _ _ => ⟨rfl, rfl⟩, fun _ _ => rfl⟩
  | some front last used some le head =>
      obtain rfl : used = N := by
        rw [head] at full
        exact (Place.mk.inj full).2
      obtain ⟨result, added, frame⟩ := fstackExpand_add used ring fresh (.inl (by
        rw [header, head]
        simp))
      refine ⟨front ++ [last], page, 0, ⟨?_, ?_, positive, ?_, ?_⟩, ?_, frame⟩
      · rw [result]
        exact added
      · rw [result]
        show Function.update m.stack b _ b = _
        rw [Function.update_self, header, head, List.length_append]
        rfl
      · rw [places, fill_append_singleton]
        exact (List.append_nil _).symm
      · rw [result]
        exact keeps.data
      · rw [result]
        exact .inr ⟨rfl, rfl⟩

/-- A push. -/
theorem Keeps.push (keeps : Keeps N m b blocks entries) (positive : 0 < N)
    (fresh : page ∉ blocks) (item : α) :
    ∃ blocks', Keeps N (m.fstackPush N page b item) b blocks'
        (entries ++ [((m.fstackPush N page b item).topPlace b, item)]) ∧
      Grown m (m.fstackPush N page b item) page blocks blocks' ∧
      Frame m (m.fstackPush N page b item) b (page :: blocks) := by
  unfold fstackPush
  by_cases full : (m.stack b).ptr = (m.stack b).end_
  · rw [if_pos full]
    obtain ⟨front, last, used, room, grown, frame⟩ := keeps.expand positive fresh full
    have header : ((m.fstackExpand N page b).stack b).ptr.block = .page last := by
      rw [room.header]
    have among : last ∈ front ++ [last] := List.mem_append_right _ (List.mem_singleton_self last)
    have inside : last ∈ page :: blocks := by
      obtain ⟨same, -⟩ | ⟨same, -⟩ := grown
      · exact List.mem_cons_of_mem page (same ▸ among)
      · rw [same] at among
        simpa [or_comm] using among
    exact ⟨front ++ [last], room.store item, grown, frame.trans (store_frame header item inside)⟩
  · rw [if_neg full]
    obtain ⟨front, last, used, room, rfl⟩ := keeps.room full
    refine ⟨front ++ [last], room.store item, .inl ⟨rfl, rfl⟩, ?_⟩
    have header : (m.stack b).ptr.block = .page last := by rw [room.header]
    exact store_frame header item
      (List.mem_cons_of_mem page (List.mem_append_right _ (List.mem_singleton_self last)))

/-! ## Popping and erasing -/

/-- The items of the last page are gone.  The page is freed, unless it is the only one. -/
theorem Keeps.shrink (keeps : Keeps N m b (front ++ [last]) entries) (positive : 0 < N)
    (count : (m.stack b).blockCount = front.length + 1)
    (places : entries.map Prod.fst = fill N front ++ part last used) (allocated : last ∈ m.pages) :
    ∃ m' blocks', m.fstackShrink N b = some m' ∧
      Keeps N m' b blocks' (entries.take (front.length * N)) ∧
      (m'.stack b).blockCount = front.length ∧ Shrunk m m' (front ++ [last]) blocks' ∧
      Frame m m' b (front ++ [last]) := by
  have ring := keeps.ring
  have prev : m.links.prev (.head b) = .page last := by
    rw [ring.prev_head, List.map_append, List.map_singleton, List.getLastD_concat]
  have rest : (entries.take (front.length * N)).map Prod.fst = fill N front := by
    rw [List.map_take, places, ← length_fill ι, List.take_left]
  have data : ∀ e ∈ entries.take (front.length * N), m.data e.1 = e.2 :=
    fun e inside => keeps.data e (List.mem_of_mem_take inside)
  have fewer : (m.stack b).blockCount - 1 = front.length := by rw [count, Nat.add_sub_cancel]
  unfold fstackShrink
  simp only [fewer, prev, Option.bind_eq_bind]
  obtain rfl | ⟨front', last', rfl⟩ := List.eq_nil_or_concat' front
  · rw [if_neg (by simp)]
    simp only [Option.bind_some, prev]
    refine ⟨_, [last], rfl, ⟨ring, ?_, data⟩, ?_, .refl rfl,
      ⟨fun c other => Function.update_of_ne other _ _, fun _ _ _ => ⟨rfl, rfl⟩, fun _ _ => rfl⟩⟩
    · rw [rest]
      exact .empty (.page last) [last] le_rfl (Function.update_self ..)
    · show (Function.update m.stack b _ b).blockCount = 0
      rw [Function.update_self]
      rfl
  · have removed : (m.links.listRemove (.page last)).Ring (.head b)
        ((front' ++ [last']).map .page) := by
      have whole : m.links.Ring (.head b) ((front' ++ [last']).map .page ++ .page last :: []) := by
        rw [← List.map_singleton, ← List.map_append]
        exact ring
      have removed := whole.listRemove
      rwa [List.append_nil] at removed
    have prev' : (m.links.listRemove (.page last)).prev (.head b) = .page last' := by
      rw [removed.prev_head, List.map_append, List.map_singleton, List.getLastD_concat]
    rw [if_pos (by simp)]
    simp only [pageFree, if_pos allocated, Option.bind_some, prev']
    refine ⟨_, front' ++ [last'], rfl, ⟨removed, ?_, data⟩, ?_, ⟨[last], rfl, List.perm_cons_erase allocated⟩,
      ⟨fun c other => Function.update_of_ne other _ _, fun a other outside => ?_, fun _ _ => rfl⟩⟩
    · rw [rest, fill_append_singleton]
      refine .some front' last' N positive le_rfl ?_
      show Function.update m.stack b _ b = _
      rw [Function.update_self, List.length_append]
      rfl
    · show (Function.update m.stack b _ b).blockCount = _
      rw [Function.update_self]
    · have whole : m.links.Ring (.head b) ((front' ++ [last']).map .page ++ .page last :: []) := by
        rw [← List.map_singleton, ← List.map_append]
        exact ring
      apply whole.listRemove_frame
      intro inside
      obtain same | inside := List.mem_cons.mp inside
      · exact other same
      · rw [← List.map_singleton, ← List.map_append] at inside
        obtain ⟨n, among, same⟩ := List.mem_map.mp inside
        exact outside n among same.symm

/-- Shrinking sets the pointers anew. -/
theorem fstackShrink_header {S : StackHeader ι} (same : S.blockCount = (m.stack b).blockCount) :
    fstackShrink N b { m with stack := Function.update m.stack b S } = m.fstackShrink N b := by
  unfold fstackShrink
  simp only [Function.update_self, same]
  by_cases more : (m.stack b).blockCount - 1 ≠ 0
  · rw [if_pos more, if_pos more]
    cases m.links.prev (.head b) with
    | head => rfl
    | page number =>
        by_cases allocated : number ∈ m.pages
        · simp only [pageFree, if_pos allocated, Option.bind_eq_bind, Option.bind_some,
            Function.update_idem]
        · simp only [pageFree, if_neg allocated, Option.bind_eq_bind, Option.bind_none]
  · rw [if_neg more, if_neg more]
    simp only [Option.bind_eq_bind, Option.bind_some, Function.update_idem]

/-- A pop. -/
theorem Keeps.pop {e : Place ι × α} (keeps : Keeps N m b blocks (entries ++ [e])) (positive : 0 < N)
    (allocated : ∀ n ∈ blocks, n ∈ m.pages) :
    ∃ m' blocks', m.fstackPop N b = some m' ∧ Keeps N m' b blocks' entries ∧
      Shrunk m m' blocks blocks' ∧ Frame m m' b blocks := by
  obtain ⟨none, -⟩ | ⟨front, last, used, rfl, some, le, head, places⟩ := keeps.cases
  · exact absurd none (List.append_ne_nil_of_right_ne_nil _ (List.cons_ne_nil e []))
  · have inside : last ∈ front ++ [last] :=
      List.mem_append_right _ (List.mem_singleton_self last)
    unfold fstackPop
    simp only [topPlace, head]
    by_cases bottom : used - 1 = 0
    · rw [if_pos (by rw [bottom])]
      have one : used = 1 := by omega
      subst one
      rw [fstackShrink_header (by rw [head])]
      obtain ⟨m', blocks', shrunk, kept, -, pages, frame⟩ := keeps.shrink positive
        (by rw [head]) places (allocated last inside)
      refine ⟨m', blocks', shrunk, ?_, pages, frame⟩
      have length : front.length * N = entries.length := by
        have total := congrArg List.length places
        rw [List.length_map, List.length_append, List.length_append, length_fill,
          length_part] at total
        exact (Nat.add_right_cancel total).symm
      rwa [length, List.take_left] at kept
    · obtain ⟨before, rfl⟩ : ∃ before, used = before + 1 := ⟨used - 1, by omega⟩
      rw [Nat.add_sub_cancel] at bottom
      simp only [Nat.add_sub_cancel]
      rw [if_neg fun same => bottom (Place.mk.inj same).2]
      rw [part_succ, ← List.append_assoc, List.map_append] at places
      have split := List.append_inj_left' places rfl
      refine ⟨_, front ++ [last], rfl, ⟨keeps.ring, ?_, fun a inside => ?_⟩, .refl rfl,
        fun c other => Function.update_of_ne other _ _, fun _ _ _ => ⟨rfl, rfl⟩, fun _ _ => rfl⟩
      · rw [split]
        exact .some front last before (Nat.pos_of_ne_zero bottom) (Nat.le_of_succ_le le)
          (Function.update_self ..)
      · exact keeps.data a (List.mem_append_left _ inside)

omit [DecidableEq ι] in
theorem Keeps.emptied (keeps : Keeps N m b blocks entries) (none : (m.stack b).blockCount = 0) :
    entries = [] := by
  obtain ⟨rfl, -⟩ | ⟨front, last, used, -, -, -, header, -⟩ := keeps.cases
  · rfl
  · rw [header] at none
    cases none

/-- The loop of an erasure. -/
theorem Keeps.eraseLoop (positive : 0 < N) (fuel : ℕ) (keeps : Keeps N m b blocks entries)
    (allocated : ∀ n ∈ blocks, n ∈ m.pages) (enough : (m.stack b).blockCount ≤ fuel) :
    ∃ m' blocks', PagedStacks.eraseLoop N b fuel m = some m' ∧ Keeps N m' b blocks' [] ∧
      Shrunk m m' blocks blocks' ∧ Frame m m' b blocks := by
  induction fuel generalizing m blocks entries with
  | zero =>
      have none : (m.stack b).blockCount = 0 := Nat.le_zero.mp enough
      obtain rfl := keeps.emptied none
      unfold PagedStacks.eraseLoop
      rw [if_pos none]
      exact ⟨m, blocks, rfl, keeps, .refl rfl, .refl⟩
  | succ fuel ih =>
      unfold PagedStacks.eraseLoop
      by_cases none : (m.stack b).blockCount = 0
      · obtain rfl := keeps.emptied none
        rw [if_pos none]
        exact ⟨m, blocks, rfl, keeps, .refl rfl, .refl⟩
      · rw [if_neg none]
        obtain ⟨-, -, block, header⟩ | ⟨front, last, used, rfl, -, -, header, places⟩ := keeps.cases
        · rw [header] at none
          exact absurd rfl none
        · have inside : last ∈ front ++ [last] :=
            List.mem_append_right _ (List.mem_singleton_self last)
          obtain ⟨m', blocks', shrunk, keeps', count, pages, frame⟩ := keeps.shrink positive
            (by rw [header]) places (allocated last inside)
          rw [shrunk, Option.bind_some]
          have fewer : (m'.stack b).blockCount ≤ fuel := by
            rw [count]
            rw [header] at enough
            exact Nat.le_of_succ_le_succ enough
          obtain ⟨m'', blocks'', erased, keeps'', pages', frame'⟩ := ih keeps'
            (pages.allocated keeps.nodup allocated) fewer
          refine ⟨m'', blocks'', erased, keeps'', pages.trans pages', frame.trans ?_⟩
          exact frame'.mono fun n inside => pages.subset inside

/-- An erasure. -/
theorem Keeps.erase (keeps : Keeps N m b blocks entries) (positive : 0 < N)
    (allocated : ∀ n ∈ blocks, n ∈ m.pages) :
    ∃ m' blocks', m.fstackErase N b = some m' ∧ Keeps N m' b blocks' [] ∧
      Shrunk m m' blocks blocks' ∧ Frame m m' b blocks :=
  keeps.eraseLoop positive _ allocated le_rfl

/-! ## Swapping -/

/-- Two stacks change their items, which stay where they are. -/
theorem Keeps.swap {c : ι} {blocks' : List ℕ} {entries' : List (Place ι × α)} (different : b ≠ c)
    (keeps : Keeps N m b blocks entries) (keeps' : Keeps N m c blocks' entries')
    (apart : ∀ n ∈ blocks, n ∉ blocks') :
    Keeps N (m.fstackSwap b c) b blocks' entries' ∧ Keeps N (m.fstackSwap b c) c blocks entries ∧
      ∀ d, d ≠ b → d ≠ c → ∀ {others rest}, Keeps N m d others rest →
        (∀ n ∈ others, n ∉ blocks ∧ n ∉ blocks') → Keeps N (m.fstackSwap b c) d others rest := by
  have listed {d e : ι} {l l' : List ℕ} (other : d ≠ e) (away : ∀ n ∈ l, n ∉ l') :
      ∀ a ∈ Block.head d :: l.map .page, a ∉ Block.head e :: l'.map .page := by
    intro a inside inside'
    simp only [List.mem_cons, List.mem_map] at inside inside'
    obtain rfl | ⟨n, among, rfl⟩ := inside
    · obtain ⟨⟨⟩⟩ | ⟨n, -, ⟨⟩⟩ := inside'
      exact other rfl
    · obtain ⟨⟨⟩⟩ | ⟨n', among', ⟨⟩⟩ := inside'
      exact away n among among'
  obtain ⟨ring, ring', frame⟩ := keeps.ring.listSwap keeps'.ring (listed different apart)
  refine ⟨⟨ring, ?_, keeps'.data⟩, ⟨ring', ?_, keeps.data⟩, fun d first second others rest kept away => ?_⟩
  · show Pointers N (Function.update (Function.update m.stack b (m.stack c)) c (m.stack b) b) _ _
    rw [Function.update_of_ne different, Function.update_self]
    exact keeps'.pointers
  · show Pointers N (Function.update (Function.update m.stack b (m.stack c)) c (m.stack b) c) _ _
    rw [Function.update_self]
    exact keeps.pointers
  · refine ⟨kept.ring.congr fun a inside => ?_, ?_, kept.data⟩
    · exact frame a (listed first (fun n among => (away n among).1) a inside)
        (listed second (fun n among => (away n among).2) a inside)
    · show Pointers N (Function.update (Function.update m.stack b (m.stack c)) c (m.stack b) d) _ _
      rw [Function.update_of_ne second, Function.update_of_ne first]
      exact kept.pointers

/-! ## Reading -/

omit [DecidableEq ι] in
theorem Keeps.empty_iff (keeps : Keeps N m b blocks entries) :
    (m.stack b).blockCount = 0 ↔ entries = [] := by
  refine ⟨keeps.emptied, ?_⟩
  rintro rfl
  obtain ⟨-, -, block, header⟩ | ⟨front, last, used, -, some, -, -, places⟩ := keeps.cases
  · rw [header]
  · have length := congrArg List.length places
    rw [List.length_append, length_part] at length
    exact absurd length (Nat.ne_of_lt (Nat.add_pos_right _ some))

omit [DecidableEq ι] in
theorem Keeps.size (keeps : Keeps N m b blocks entries) :
    m.fstackSize N b = UInt64.ofNat entries.length := by
  unfold fstackSize
  obtain ⟨rfl, -, block, header⟩ | ⟨front, last, used, -, -, -, header, places⟩ := keeps.cases
  · rw [header]
    have zero : UInt64.ofNat 0 = 0 := rfl
    dsimp only
    rw [zero, UInt64.sub_zero, UInt64.zero_sub, UInt64.neg_mul, UInt64.one_mul,
      UInt64.add_left_neg]
    rfl
  · have length := congrArg List.length places
    rw [List.length_map, List.length_append, length_part, length_fill] at length
    rw [header, length]
    have zero : UInt64.ofNat 0 = 0 := rfl
    have one : UInt64.ofNat 1 = 1 := rfl
    rw [UInt64.ofNat_add, UInt64.ofNat_add, UInt64.ofNat_mul, zero, one, UInt64.sub_zero,
      UInt64.add_sub_cancel]

omit [DecidableEq ι] in
theorem Keeps.top {e : Place ι × α} (keeps : Keeps N m b blocks (entries ++ [e])) :
    m.topPlace b = e.1 ∧ m.fstackTop b = e.2 := by
  have place : m.topPlace b = e.1 := by
    obtain ⟨none, -⟩ | ⟨front, last, used, -, some, -, header, places⟩ := keeps.cases
    · exact absurd none (List.append_ne_nil_of_right_ne_nil _ (List.cons_ne_nil e []))
    · obtain ⟨before, rfl⟩ : ∃ before, used = before + 1 := ⟨used - 1, by omega⟩
      rw [part_succ, ← List.append_assoc, List.map_append] at places
      have same := List.append_inj_right' places rfl
      rw [topPlace, header]
      exact (List.singleton_inj.mp same).symm
  refine ⟨place, ?_⟩
  rw [fstackTop, place]
  exact keeps.data e (List.mem_append_right _ (List.mem_singleton_self e))

/-- From a block on, the loops visit the items of the blocks that follow. -/
theorem forEachLoop_eq {done rest : List ℕ} {fuel : ℕ}
    (ring : m.links.Ring (.head b) ((done ++ (rest ++ [last])).map .page))
    (ptr : (m.stack b).ptr = ⟨.page last, used⟩) (enough : rest.length + 1 < fuel) :
    forEachLoop N b m fuel (((rest ++ [last]).map .page).headD (.head b)) =
      some ((fill N rest ++ part last used).map fun a => (a, m.data a)) := by
  induction rest generalizing done fuel with
  | nil =>
      obtain ⟨fuel, rfl⟩ : ∃ f, fuel = f + 2 := ⟨fuel - 2, by omega⟩
      have next : m.links.next (.page last) = .head b := by
        rw [List.nil_append, List.map_append] at ring
        exact ring.neighbours.2
      show forEachLoop N b m (fuel + 2) (.page last) = _
      rw [forEachLoop, if_neg (page_ne_head last b), next, if_pos rfl, ptr, forEachLoop, if_pos rfl]
      dsimp only
      rw [if_pos rfl, Option.map_some]
      apply congrArg some
      rw [List.append_nil, part, List.map_append, List.map_map]
      rfl
  | cons n rest ih =>
      obtain ⟨fuel, rfl⟩ : ∃ f, fuel = f + 1 := ⟨fuel - 1, by omega⟩
      have next : m.links.next (.page n) = ((rest ++ [last]).map .page).headD (.head b) := by
        rw [List.map_append] at ring
        exact ring.neighbours.2
      have inner : m.links.next (.page n) ≠ .head b := by
        rw [next]
        cases rest with
        | nil => exact page_ne_head last b
        | cons first rest => exact page_ne_head first b
      have others := @ih (done ++ [n]) fuel (by rwa [List.append_assoc]) (by
        rw [List.length_cons] at enough
        omega)
      show forEachLoop N b m (fuel + 1) (.page n) = _
      rw [forEachLoop, if_neg (page_ne_head n b), if_neg inner, next, others]
      have both : (fill N (n :: rest) : List (Place ι)) = part n N ++ fill N rest := rfl
      have items : ((part n N : List (Place ι)).map fun a => (a, m.data a)) =
          (List.range N).map fun k => (⟨.page n, k⟩, m.data ⟨.page n, k⟩) := List.map_map
      dsimp only
      rw [if_pos rfl, Option.map_some]
      apply congrArg some
      rw [both, List.append_assoc, List.map_append, List.map_append, items, List.map_append]

/-- The loops visit the items of the stack from the bottom. -/
theorem Keeps.forEach {fuel : ℕ} (keeps : Keeps N m b blocks entries)
    (enough : blocks.length < fuel) : m.fstackForEach N fuel b = some entries := by
  unfold fstackForEach
  obtain ⟨rfl, -, block, header⟩ | ⟨front, last, used, rfl, -, -, header, places⟩ := keeps.cases
  · rw [header, if_pos rfl]
  · rw [if_neg (by rw [header]; exact Nat.succ_ne_zero _), keeps.ring.next_head]
    rw [List.length_append, List.length_singleton] at enough
    rw [@forEachLoop_eq _ _ N m b last used _ [] front fuel keeps.ring (by rw [header]) enough]
    rw [← places, List.map_map]
    apply congrArg some
    refine (List.map_congr_left fun e inside => ?_).trans (List.map_id entries)
    exact Prod.ext rfl (keeps.data e inside)

end HybridDatabase.Utils.PagedStacks
