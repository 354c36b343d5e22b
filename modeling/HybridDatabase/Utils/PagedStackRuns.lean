/-
# Runs of paged stacks

Whatever is pushed, popped, erased and swapped, each stack keeps a list of items at addresses
that do not change, and the pages allocated are those on the lists of the stacks.
-/

import Mathlib.Logic.Equiv.Basic
import HybridDatabase.Utils.PagedStackSteps

namespace HybridDatabase.Utils.PagedStacks

open HybridDatabase.Base

variable {ι α : Type} {N : ℕ} {m m' : PagedStacks ι α} {b : ι}
  {lists : ι → List (Place ι × α)} {blocks : ι → List ℕ} {blocks' own : List ℕ}
  {entries' : List (Place ι × α)}

/-! ## The system -/

/-- What is done with the stacks, where `page_alloc` would give `page`.  `reuse` is what others
do with their memory. -/
inductive StackCall (ι α : Type)
  | push (stack : ι) (item : α) (page : ℕ)
  | pop (stack : ι)
  | erase (stack : ι)
  | swap (first second : ι)
  | reuse (links : Links (Block ι)) (data : Place ι → α)

variable [DecidableEq ι]

/-- A step of the memory, and of the list of each stack: its items with the addresses they got
when they were pushed. -/
def callStep (N : ℕ) : PagedStacks ι α × (ι → List (Place ι × α)) → StackCall ι α →
    Option (PagedStacks ι α × (ι → List (Place ι × α)))
  | (m, lists), .push b item page =>
      let m := m.fstackPush N page b item
      some (m, Function.update lists b (lists b ++ [(m.topPlace b, item)]))
  | (m, lists), .pop b =>
      (m.fstackPop N b).map fun m => (m, Function.update lists b (lists b).dropLast)
  | (m, lists), .erase b => (m.fstackErase N b).map fun m => (m, Function.update lists b [])
  | (m, lists), .swap b c =>
      some (m.fstackSwap b c,
        Function.update (Function.update lists b (lists c)) c (lists b))
  | (m, lists), .reuse links data => some ({ m with links := links, data := data }, lists)

/-- What callers and the rest of the program keep to. -/
def Allowed (s : PagedStacks ι α × (ι → List (Place ι × α))) : StackCall ι α → Prop
  | .push _ _ page => page ∉ s.1.pages
  | .pop b => s.1.fstackEmpty b = false
  | .erase _ => True
  | .swap b c => b ≠ c
  | .reuse links data =>
      (∀ block, (∀ n, block = .page n → n ∈ s.1.pages) →
        links.next block = s.1.links.next block ∧ links.prev block = s.1.links.prev block) ∧
      ∀ n ∈ s.1.pages, ∀ k, data ⟨.page n, k⟩ = s.1.data ⟨.page n, k⟩

/-! ## The invariant -/

omit [DecidableEq ι] in
/-- The stacks keep these lists in these pages, and no other pages are allocated. -/
structure Sound (N : ℕ) (m : PagedStacks ι α) (lists : ι → List (Place ι × α))
    (blocks : ι → List ℕ) : Prop where
  keeps : ∀ b, Keeps N m b (blocks b) (lists b)
  apart : ∀ b c, b ≠ c → ∀ n ∈ blocks b, n ∉ blocks c
  nodup : m.pages.Nodup
  pages : ∀ n, n ∈ m.pages ↔ ∃ b, n ∈ blocks b

/-- The pages of one stack have changed to these. -/
def Changed (m m' : PagedStacks ι α) (blocks blocks' : List ℕ) : Prop :=
  m'.pages.Nodup ∧ ∀ n, n ∈ m'.pages ↔ n ∈ blocks' ∨ n ∈ m.pages ∧ n ∉ blocks

omit [DecidableEq ι] in
theorem Grown.changed {page : ℕ} {blocks : List ℕ} (grown : Grown m m' page blocks blocks')
    (nodup : m.pages.Nodup) (fresh : page ∉ m.pages) (allocated : ∀ n ∈ blocks, n ∈ m.pages) :
    Changed m m' blocks blocks' := by
  obtain ⟨rfl, pages⟩ | ⟨rfl, pages⟩ := grown
  · rw [Changed, pages]
    refine ⟨nodup, fun n => ⟨fun inside => ?_, fun inside => ?_⟩⟩
    · exact or_iff_not_imp_left.mpr fun outside => ⟨inside, outside⟩
    · exact inside.elim (allocated n) And.left
  · rw [Changed, pages]
    refine ⟨List.nodup_cons.mpr ⟨fresh, nodup⟩, fun n => ?_⟩
    rw [List.mem_cons, List.mem_append, List.mem_singleton]
    constructor
    · rintro (rfl | inside)
      · exact .inl (.inr rfl)
      · by_cases own : n ∈ blocks
        · exact .inl (.inl own)
        · exact .inr ⟨inside, own⟩
    · rintro ((own | rfl) | ⟨inside, -⟩)
      · exact .inr (allocated n own)
      · exact .inl rfl
      · exact .inr inside

omit [DecidableEq ι] in
theorem Shrunk.changed {blocks : List ℕ} (shrunk : Shrunk m m' blocks blocks')
    (nodup : m.pages.Nodup) (distinct : blocks.Nodup) (allocated : ∀ n ∈ blocks, n ∈ m.pages) :
    Changed m m' blocks blocks' := by
  have left := shrunk.allocated distinct allocated
  obtain ⟨gone, rfl, pages⟩ := shrunk
  obtain ⟨-, nodup', apart⟩ := List.nodup_append.mp (pages.nodup_iff.mp nodup)
  refine ⟨nodup', fun n => ⟨fun inside => ?_, ?_⟩⟩
  · by_cases own : n ∈ blocks'
    · exact .inl own
    · refine .inr ⟨pages.mem_iff.mpr (List.mem_append_right gone inside), fun among => ?_⟩
      obtain own' | freed := List.mem_append.mp among
      · exact own own'
      · exact apart n freed n inside rfl
  · rintro (own | ⟨inside, outside⟩)
    · exact left n own
    · refine (List.mem_append.mp (pages.mem_iff.mp inside)).resolve_left fun freed => ?_
      exact outside (List.mem_append_right blocks' freed)

/-- One stack is changed. -/
theorem Sound.change (sound : Sound N m lists blocks) (keeps : Keeps N m' b blocks' entries')
    (frame : Frame m m' b own) (changed : Changed m m' (blocks b) blocks')
    (owned : ∀ n ∈ own, n ∈ blocks b ∨ n ∉ m.pages) (inside : ∀ n ∈ blocks', n ∈ own) :
    Sound N m' (Function.update lists b entries') (Function.update blocks b blocks') := by
  have others : ∀ c, c ≠ b → ∀ n ∈ blocks c, n ∉ own := by
    intro c other n among mine
    obtain mine | unallocated := owned n mine
    · exact sound.apart c b other n among mine
    · exact unallocated ((sound.pages n).mpr ⟨c, among⟩)
  refine ⟨fun c => ?_, fun c d different n => ?_, changed.1, fun n => ?_⟩
  · by_cases this : c = b
    · subst this
      rw [Function.update_self, Function.update_self]
      exact keeps
    · rw [Function.update_of_ne this, Function.update_of_ne this]
      exact (sound.keeps c).frame frame this (others c this)
  · by_cases first : c = b
    · subst first
      rw [Function.update_self, Function.update_of_ne (Ne.symm different)]
      exact fun mine among => others d (Ne.symm different) n among (inside n mine)
    · rw [Function.update_of_ne first]
      by_cases second : d = b
      · subst second
        rw [Function.update_self]
        exact fun among mine => others c first n among (inside n mine)
      · rw [Function.update_of_ne second]
        exact sound.apart c d different n
  · rw [changed.2, sound.pages]
    constructor
    · rintro (mine | ⟨⟨c, among⟩, outside⟩)
      · exact ⟨b, by rwa [Function.update_self]⟩
      · refine ⟨c, ?_⟩
        rwa [Function.update_of_ne]
        rintro rfl
        exact outside among
    · rintro ⟨c, among⟩
      by_cases this : c = b
      · subst this
        rw [Function.update_self] at among
        exact .inl among
      · rw [Function.update_of_ne this] at among
        exact .inr ⟨⟨c, among⟩, sound.apart c b this n among⟩

omit [DecidableEq ι] in
theorem Sound.allocated (sound : Sound N m lists blocks) (b : ι) : ∀ n ∈ blocks b, n ∈ m.pages :=
  fun n inside => (sound.pages n).mpr ⟨b, inside⟩

theorem Sound.shrunk (sound : Sound N m lists blocks) (keeps : Keeps N m' b blocks' entries')
    (shrunk : Shrunk m m' (blocks b) blocks') (frame : Frame m m' b (blocks b)) :
    ∃ blocks, Sound N m' (Function.update lists b entries') blocks :=
  ⟨_, sound.change keeps frame
    (shrunk.changed sound.nodup (sound.keeps b).nodup (sound.allocated b)) (fun _ => .inl)
    fun _ => shrunk.subset⟩

/-- Two stacks are swapped. -/
theorem Sound.swap {c : ι} (sound : Sound N m lists blocks) (different : b ≠ c) :
    Sound N (m.fstackSwap b c) (Function.update (Function.update lists b (lists c)) c (lists b))
      (Function.update (Function.update blocks b (blocks c)) c (blocks b)) := by
  obtain ⟨first, second, others⟩ :=
    (sound.keeps b).swap different (sound.keeps c) (sound.apart b c different)
  have moved : ∀ d, Function.update (Function.update blocks b (blocks c)) c (blocks b) d =
      blocks (Equiv.swap b c d) := by
    intro d
    by_cases isC : d = c
    · rw [isC, Function.update_self, Equiv.swap_apply_right]
    · rw [Function.update_of_ne isC]
      by_cases isB : d = b
      · rw [isB, Function.update_self, Equiv.swap_apply_left]
      · rw [Function.update_of_ne isB, Equiv.swap_apply_of_ne_of_ne isB isC]
  refine ⟨fun d => ?_, fun d e other n => ?_, sound.nodup, fun n => ?_⟩
  · by_cases isC : d = c
    · subst isC
      rw [Function.update_self, Function.update_self]
      exact second
    · rw [Function.update_of_ne isC, Function.update_of_ne isC]
      by_cases isB : d = b
      · subst isB
        rw [Function.update_self, Function.update_self]
        exact first
      · rw [Function.update_of_ne isB, Function.update_of_ne isB]
        exact others d isB isC (sound.keeps d) fun n among =>
          ⟨sound.apart d b isB n among, sound.apart d c isC n among⟩
  · rw [moved, moved]
    exact sound.apart _ _ ((Equiv.swap b c).injective.ne other) n
  · rw [show n ∈ (m.fstackSwap b c).pages ↔ n ∈ m.pages from .rfl, sound.pages]
    constructor
    · rintro ⟨d, among⟩
      exact ⟨Equiv.swap b c d, by rwa [moved, Equiv.swap_apply_self]⟩
    · rintro ⟨d, among⟩
      rw [moved] at among
      exact ⟨_, among⟩

omit [DecidableEq ι] in
/-- Others have used their memory. -/
theorem Sound.reuse {links : Links (Block ι)} {data : Place ι → α}
    (sound : Sound N m lists blocks) (allowed : Allowed (m, lists) (.reuse links data)) :
    Sound N { m with links := links, data := data } lists blocks := by
  obtain ⟨sameLinks, sameData⟩ := allowed
  refine ⟨fun c => ?_, sound.apart, sound.nodup, sound.pages⟩
  have keeps := sound.keeps c
  refine ⟨keeps.ring.congr fun block inside => sameLinks block ?_, keeps.pointers,
    fun e inside => ?_⟩
  · rintro n rfl
    obtain ⟨⟨⟩⟩ | among := List.mem_cons.mp inside
    obtain ⟨n', among, ⟨⟩⟩ := List.mem_map.mp among
    exact sound.allocated c n among
  · obtain ⟨n, among, block⟩ := keeps.pointers.mem (List.mem_map_of_mem inside)
    have place : e.1 = ⟨.page n, e.1.index⟩ := by rw [← block]
    rw [← keeps.data e inside, place]
    exact sameData n (sound.allocated c n among) _

/-- Every step can be taken, and keeps the lists. -/
theorem Sound.step (sound : Sound N m lists blocks) (positive : 0 < N) {call : StackCall ι α}
    (allowed : Allowed (m, lists) call) :
    ∃ m' lists' blocks', callStep N (m, lists) call = some (m', lists') ∧
      Sound N m' lists' blocks' := by
  cases call with
  | push b item page =>
      have fresh : page ∉ m.pages := allowed
      obtain ⟨blocks', keeps, grown, frame⟩ := (sound.keeps b).push positive
        (fun inside => fresh (sound.allocated b page inside)) item
      refine ⟨_, _, _, rfl, sound.change keeps frame
        (grown.changed sound.nodup fresh (sound.allocated b)) (fun n inside => ?_) fun n inside => ?_⟩
      · obtain rfl | inside := List.mem_cons.mp inside
        · exact .inr fresh
        · exact .inl inside
      · obtain ⟨rfl, -⟩ | ⟨rfl, -⟩ := grown
        · exact List.mem_cons_of_mem page inside
        · simpa [or_comm] using inside
  | pop b =>
      have some : lists b ≠ [] := by
        intro none
        have empty : (m.stack b).blockCount = 0 := (sound.keeps b).empty_iff.mpr none
        exact of_decide_eq_false allowed empty
      obtain ⟨rest, e, split⟩ := (List.eq_nil_or_concat' (lists b)).resolve_left some
      have keeps := sound.keeps b
      rw [split] at keeps
      obtain ⟨m', blocks', popped, kept, shrunk, frame⟩ := keeps.pop positive (sound.allocated b)
      obtain ⟨all, sound'⟩ := sound.shrunk kept shrunk frame
      refine ⟨m', Function.update lists b rest, all, ?_, sound'⟩
      rw [callStep, popped, Option.map_some, split, List.dropLast_concat]
  | erase b =>
      obtain ⟨m', blocks', erased, kept, shrunk, frame⟩ :=
        (sound.keeps b).erase positive (sound.allocated b)
      obtain ⟨all, sound'⟩ := sound.shrunk kept shrunk frame
      refine ⟨m', Function.update lists b [], all, ?_, sound'⟩
      rw [callStep, erased, Option.map_some]
  | swap b c => exact ⟨_, _, _, rfl, sound.swap allowed⟩
  | reuse links data => exact ⟨_, _, blocks, rfl, sound.reuse allowed⟩

/-! ## Correctness -/

/-- The stacks agree with the lists: what `fstack_for_each` visits, with its address, and what
the other operations read of it.  Every page allocated is on the list of one stack, there once,
and every stack has as many pages as its items need, or one when it is empty. -/
structure Agrees (N : ℕ) (m : PagedStacks ι α) (lists : ι → List (Place ι × α)) : Prop where
  empty : ∀ b, m.fstackEmpty b = (lists b).isEmpty
  size : ∀ b, m.fstackSize N b = UInt64.ofNat (lists b).length
  top : ∀ b, ∀ e ∈ (lists b).getLast?, m.topPlace b = e.1 ∧ m.fstackTop b = e.2
  forEach : ∀ b, ∀ fuel > m.pages.length, m.fstackForEach N fuel b = some (lists b)
  distinct : ∀ b, ((lists b).map Prod.fst).Nodup
  apart : ∀ b c, b ≠ c → ∀ e ∈ lists b, ∀ e' ∈ lists c, e.1 ≠ e'.1
  pages : ∃ blocks : ι → List ℕ, m.pages.Nodup ∧ (∀ n, n ∈ m.pages ↔ ∃ b, n ∈ blocks b) ∧
    (∀ b c, b ≠ c → ∀ n ∈ blocks b, n ∉ blocks c) ∧
    ∀ b, m.links.Ring (.head b) ((blocks b).map .page) ∧
      (if lists b = [] then (blocks b).length ≤ 1
        else (blocks b).length = ((lists b).length + N - 1) / N)
  next : ∀ call, Allowed (m, lists) call → (callStep N (m, lists) call).isSome

omit [DecidableEq ι] in
/-- How many pages a stack has. -/
theorem Keeps.length_blocks {blocks : List ℕ} {entries : List (Place ι × α)}
    (keeps : Keeps N m b blocks entries) :
    if entries = [] then blocks.length ≤ 1
      else blocks.length = (entries.length + N - 1) / N := by
  obtain ⟨rfl, few, -⟩ | ⟨front, last, used, rfl, some, le, -, places⟩ := keeps.cases
  · rwa [if_pos rfl]
  · have length := congrArg List.length places
    rw [List.length_map, List.length_append, length_part, length_fill] at length
    have filled : entries ≠ [] := by
      rintro rfl
      exact absurd length (Nat.ne_of_lt (Nat.add_pos_right _ some))
    rw [if_neg filled, List.length_append, List.length_singleton, length]
    refine (Nat.div_eq_of_lt_le ?_ ?_).symm
    · rw [Nat.succ_mul]
      omega
    · rw [Nat.succ_mul, Nat.succ_mul]
      omega

theorem Sound.agrees (sound : Sound N m lists blocks) (positive : 0 < N) : Agrees N m lists where
  empty b := by
    rw [fstackEmpty, Bool.eq_iff_iff, decide_eq_true_iff, List.isEmpty_iff]
    exact (sound.keeps b).empty_iff
  size b := (sound.keeps b).size
  top b e last := by
    obtain ⟨rest, split⟩ := List.getLast?_eq_some_iff.mp last
    have keeps := sound.keeps b
    rw [split] at keeps
    exact keeps.top
  forEach b fuel enough := by
    have few : (blocks b).length ≤ m.pages.length :=
      (List.subperm_of_subset (sound.keeps b).nodup (sound.allocated b)).length_le
    exact (sound.keeps b).forEach (Nat.lt_of_le_of_lt few enough)
  distinct b := (sound.keeps b).pointers.nodup (sound.keeps b).nodup
  apart b c different e inside e' inside' same := by
    obtain ⟨n, among, block⟩ := (sound.keeps b).pointers.mem (List.mem_map_of_mem inside)
    obtain ⟨n', among', block'⟩ := (sound.keeps c).pointers.mem (List.mem_map_of_mem inside')
    rw [same, block', Block.page.injEq] at block
    exact sound.apart b c different n among (block ▸ among')
  pages := by
    refine ⟨blocks, sound.nodup, sound.pages, sound.apart, fun b => ⟨(sound.keeps b).ring, ?_⟩⟩
    exact (sound.keeps b).length_blocks
  next call allowed := by
    obtain ⟨m', lists', -, stepped, -⟩ := sound.step positive allowed
    rw [stepped]
    rfl

theorem sound_init (start : ∀ b, m.fstackInit N b = m) (none : m.pages = []) :
    Sound N m (fun _ => []) (fun _ => []) where
  keeps b := by
    have ring : (m.fstackInit N b).links.Ring (.head b) [] := Links.ring_listInitHead _ _
    have header : (m.fstackInit N b).stack b = _ := Function.update_self ..
    rw [start b] at ring header
    exact ⟨ring, .empty (.head b) [] (Nat.zero_le 1) header, nofun⟩
  apart _ _ _ := nofun
  nodup := by
    rw [none]
    exact List.nodup_nil
  pages n := by
    rw [none]
    apply iff_of_false List.not_mem_nil
    rintro ⟨_, inside⟩
    exact List.not_mem_nil inside

/-- However stacks that have been initialised are pushed to, popped, erased and swapped, they
agree with lists of items that keep the address of their push. -/
theorem stacks_agree (positive : 0 < N) (start : ∀ b, m.fstackInit N b = m)
    (none : m.pages = []) {s : PagedStacks ι α × (ι → List (Place ι × α))}
    (reaches : Reaches (callStep N) Allowed (m, fun _ => []) s) : Agrees N s.1 s.2 := by
  obtain ⟨blocks, sound⟩ : ∃ blocks, Sound N s.1 s.2 blocks := by
    induction reaches with
    | start => exact ⟨_, sound_init start none⟩
    | step before allowed moved ih =>
        obtain ⟨blocks, sound⟩ := ih
        obtain ⟨m', lists', blocks', stepped, sound'⟩ := sound.step positive allowed
        rw [stepped] at moved
        cases moved
        exact ⟨blocks', sound'⟩
  exact sound.agrees positive

/-- Of three items, two to a page, the last is popped behind a swap: the second is on top. -/
theorem stacks_agree_swap :
    ∃ m lists, m.pages = [0] ∧ lists true = [(⟨.page 0, 0⟩, 7), (⟨.page 0, 1⟩, 8)] ∧
      Agrees (ι := Bool) (α := ℕ) 2 m lists := by
  let m₀ : PagedStacks Bool ℕ :=
    ⟨⟨id, id⟩, fun b => ⟨0, ⟨.head b, 0⟩, ⟨.head b, 2⟩, ⟨.head b, 2⟩⟩, fun _ => 0, []⟩
  have start : ∀ b, m₀.fstackInit 2 b = m₀ := by
    intro b
    have links : m₀.links.listInitHead (.head b) = m₀.links :=
      congrArg₂ Links.mk (Function.update_eq_self _ id) (Function.update_eq_self _ id)
    have stack := Function.update_eq_self b m₀.stack
    rw [fstackInit, links]
    exact congrArg (PagedStacks.mk m₀.links · m₀.data m₀.pages) stack
  have reaches : Reaches (callStep 2) Allowed (m₀, fun _ => []) _ :=
    .step (l := .pop true) (.step (l := .swap false true)
      (.step (l := .push false 9 1) (.step (l := .push false 8 1)
        (.step (l := .push false 7 0) .start List.not_mem_nil rfl)
          (show 1 ∉ [0] by decide) rfl) (show 1 ∉ [0] by decide) rfl)
        (show false ≠ true by decide) rfl) rfl rfl
  exact ⟨_, _, rfl, rfl, stacks_agree (by decide) start rfl reaches⟩

end HybridDatabase.Utils.PagedStacks
