/-
# Bundles

What a lock guards is one value: the bundle of its cells.  A write to a cell is a write of the
bundle that has been read just before and differs in one cell.  So a transaction over cells is one
over bundles, and where the reads of the bundles return what stands in memory, those of the cells
do.
-/

import HybridDatabase.Stm.Serial

namespace HybridDatabase.Stm.Cells

open HybridDatabase.Base

universe u v w

variable {Lk : Type u} {Cell : Type v} {Val : Type w}

/-- The values of the cells of a lock. -/
abbrev Bundle (Cell : Type v) (Val : Type w) : Type (max v w) := Cell → Option Val

section Memory

variable [DecidableEq Lk] {lockOf : Cell → Lk} {m m' : Cell → Val} {c : Cell} {l : Lk}

/-- What stands in the cells of each lock. -/
def bundle (lockOf : Cell → Lk) (m : Cell → Val) (l : Lk) : Bundle Cell Val :=
  fun c => if lockOf c = l then some (m c) else none

theorem bundle_self (lockOf : Cell → Lk) (m : Cell → Val) (c : Cell) :
    bundle lockOf m (lockOf c) c = some (m c) := if_pos rfl

/-- Equal bundles have equal cells. -/
theorem eq_of_bundle (same : bundle lockOf m (lockOf c) = bundle lockOf m' (lockOf c)) :
    m c = m' c := by
  have same := congrFun same c
  rw [bundle_self, bundle_self] at same
  exact Option.some.inj same

variable [DecidableEq Cell]

/-- Other bundles stay as they are. -/
theorem bundle_update_of_ne (other : l ≠ lockOf c) (value : Val) :
    bundle lockOf (Function.update m c value) l = bundle lockOf m l := by
  funext d
  by_cases mine : lockOf d = l
  · have apart : d ≠ c := fun same => other (same ▸ mine.symm)
    rw [bundle, bundle, if_pos mine, if_pos mine, Function.update_of_ne apart]
  · rw [bundle, bundle, if_neg mine, if_neg mine]

/-- A cell of the bundle is overwritten. -/
theorem bundle_update_self (value : Val) : bundle lockOf (Function.update m c value) (lockOf c) =
    Function.update (bundle lockOf m (lockOf c)) c (some value) := by
  funext d
  by_cases here : d = c
  · rw [here, bundle_self, Function.update_self, Function.update_self]
  · rw [Function.update_of_ne here, bundle, bundle, Function.update_of_ne here]

theorem bundle_update (lockOf : Cell → Lk) (m : Cell → Val) (c : Cell) (value : Val) :
    bundle lockOf (Function.update m c value) = Function.update (bundle lockOf m) (lockOf c)
      (Function.update (bundle lockOf m (lockOf c)) c (some value)) := by
  funext l
  by_cases here : l = lockOf c
  · rw [here, Function.update_self]
    exact bundle_update_self value
  · rw [Function.update_of_ne here]
    exact bundle_update_of_ne here value

/-- The other cells of the bundle are those that stand in memory. -/
theorem bundle_restore (lockOf : Cell → Lk) (m : Cell → Val) (c : Cell) (value : Val) :
    bundle lockOf (Function.update m c value) =
      Function.update (bundle lockOf m) (lockOf c)
        (bundle lockOf (Function.update m c value) (lockOf c)) := by
  rw [bundle_update_self, ← bundle_update]

end Memory

/-! ## Events -/

section Events

variable [DecidableEq Cell]

/-- The events of a transaction over cells, and those of the transaction over bundles: before a
write the bundle is read. -/
inductive Bundled (lockOf : Cell → Lk) :
    List (Event Cell Val) → List (Event Lk (Bundle Cell Val)) → Prop
  | nil : Bundled lockOf [] []
  | read {events events'} {c : Cell} {value : Val} {b : Bundle Cell Val}
      (before : Bundled lockOf events events') (at_ : b c = some value) :
      Bundled lockOf (events ++ [.read c value]) (events' ++ [.read (lockOf c) b])
  | write {events events'} (before : Bundled lockOf events events') (c : Cell) (value : Val)
      (b : Bundle Cell Val) : Bundled lockOf (events ++ [.write c value])
        (events' ++ [.read (lockOf c) b] ++ [.write (lockOf c) (Function.update b c (some value))])
  | trBegin {events events'} (before : Bundled lockOf events events') :
      Bundled lockOf (events ++ [.trBegin]) (events' ++ [.trBegin])
  | trCommit {events events'} (before : Bundled lockOf events events') :
      Bundled lockOf (events ++ [.trCommit]) (events' ++ [.trCommit])
  | trAbort {events events'} (before : Bundled lockOf events events') :
      Bundled lockOf (events ++ [.trAbort]) (events' ++ [.trAbort])

end Events

/-! ## What reads return -/

section Returns

variable {Obj : Type u} [DecidableEq Obj] {m : Obj → Val} {events more : List (Event Obj Val)}
  {k : ℕ} {x : Obj} {value : Val}

/-- What comes later does not matter. -/
theorem returns_append (inside : k < events.length) :
    Returns m (events ++ more) k ↔ Returns m events k := by
  rw [Returns, Returns, List.getElem?_append_left inside, List.take_append_of_le_length inside.le]

theorem returns_last : Returns m (events ++ [.read x value]) events.length ↔
    value = apply m (own events).writes x := by
  rw [Returns, List.getElem?_concat_length, List.take_left]
  refine ⟨fun returns => returns x value rfl, fun same x' value' event => ?_⟩
  cases event
  exact same

/-- Behind the events there is nothing to return. -/
theorem returns_of_le (outside : events.length ≤ k) : Returns m events k := by
  intro x value event
  rw [List.getElem?_eq_none outside] at event
  cases event

theorem returns_front (all : ∀ k, Returns m (events ++ more) k) (k : ℕ) : Returns m events k := by
  rcases Nat.lt_or_ge k events.length with inside | outside
  · exact (returns_append inside).mp (all k)
  · exact returns_of_le outside

/-- One event more. -/
theorem returns_concat {event : Event Obj Val} (older : ∀ k, Returns m events k)
    (last : ∀ x value, event = .read x value → value = apply m (own events).writes x) (k : ℕ) :
    Returns m (events ++ [event]) k := by
  rcases Nat.lt_trichotomy k events.length with inside | rfl | outside
  · exact (returns_append inside).mpr (older k)
  · intro x value here
    rw [List.getElem?_concat_length] at here
    rw [List.take_left]
    exact last x value (Option.some.inj here)
  · exact returns_of_le (by rw [List.length_append]; exact outside)

omit [DecidableEq Obj] in
theorem lt_of_mem_reads (counts : k ∈ (own events).reads) : k < events.length := by
  obtain ⟨x, value, event⟩ := exists_of_mem_reads counts
  exact (List.getElem?_eq_some_iff.mp event).1

end Returns

/-! ## Writes -/

section Writes

variable [DecidableEq Lk] [DecidableEq Cell] {lockOf : Cell → Lk} {m : Cell → Val}
  {writes : List (Cell × Val)} {writes' : List (Lk × Bundle Cell Val)}

/-- Each bundle is written with one cell changed of what stands there. -/
inductive Follows (lockOf : Cell → Lk) (m : Lk → Bundle Cell Val) :
    List (Cell × Val) → List (Lk × Bundle Cell Val) → Prop
  | nil : Follows lockOf m [] []
  | concat {writes : List (Cell × Val)} {writes' : List (Lk × Bundle Cell Val)}
      (before : Follows lockOf m writes writes') (c : Cell) (value : Val) :
      Follows lockOf m (writes ++ [(c, value)])
        (writes' ++ [(lockOf c, Function.update (apply m writes' (lockOf c)) c (some value))])

theorem Follows.length {m : Lk → Bundle Cell Val} (follows : Follows lockOf m writes writes') :
    writes.length = writes'.length := by
  induction follows with
  | nil => rfl
  | concat _ c value ih => rw [List.length_append, List.length_append, ih]; rfl

theorem Follows.take {m : Lk → Bundle Cell Val} (follows : Follows lockOf m writes writes')
    (n : ℕ) : Follows lockOf m (writes.take n) (writes'.take n) := by
  induction follows with
  | nil =>
      rw [List.take_nil, List.take_nil]
      exact .nil
  | @concat writes writes' before c value ih =>
      have length := before.length
      rcases Nat.lt_or_ge writes.length n with long | short
      · rw [List.take_of_length_le (by rw [List.length_append, List.length_singleton]; exact long),
          List.take_of_length_le (by
            rw [List.length_append, List.length_singleton, ← length]
            exact long)]
        exact before.concat c value
      · rw [List.take_append_of_le_length short, List.take_append_of_le_length (length ▸ short)]
        exact ih

/-- The writes lead to the same bundles. -/
theorem Follows.bundle (follows : Follows lockOf (bundle lockOf m) writes writes') :
    bundle lockOf (apply m writes) = apply (bundle lockOf m) writes' := by
  induction follows with
  | nil => rfl
  | concat _ c value ih =>
      rw [apply_concat, apply_concat, bundle_update, ih]

end Writes

/-! ## Transactions over cells -/

section Tracks

variable [DecidableEq Lk] [DecidableEq Cell] {lockOf : Cell → Lk} {m : Cell → Val}
  {events more : List (Event Cell Val)} {events' more' : List (Event Lk (Bundle Cell Val))}
  {reads reads' : List ℕ} {writes : List (Cell × Val)} {writes' : List (Lk × Bundle Cell Val)}

/-- Where some reads of bundles return what stands in memory, so do some reads of cells, and the
writes follow each other. -/
def Answers (lockOf : Cell → Lk) (m : Cell → Val) (events : List (Event Cell Val))
    (events' : List (Event Lk (Bundle Cell Val))) (reads reads' : List ℕ)
    (writes : List (Cell × Val)) (writes' : List (Lk × Bundle Cell Val)) : Prop :=
  (∀ k ∈ reads', Returns (bundle lockOf m) events' k) →
    Follows lockOf (bundle lockOf m) writes writes' ∧ ∀ k ∈ reads, Returns m events k

theorem Answers.append (answers : Answers lockOf m events events' reads reads' writes writes')
    (inside : ∀ k ∈ reads, k < events.length) (inside' : ∀ k ∈ reads', k < events'.length) :
    Answers lockOf m (events ++ more) (events' ++ more') reads reads' writes writes' := by
  intro returns
  obtain ⟨follows, rest⟩ := answers fun k counts =>
    (returns_append (inside' k counts)).mp (returns k counts)
  exact ⟨follows, fun k counts => (returns_append (inside k counts)).mpr (rest k counts)⟩

omit [DecidableEq Lk] [DecidableEq Cell] in
theorem forall₂_of_mem {α β : Type*} {R S : α → β → Prop} {as : List α} {bs : List β}
    (all : List.Forall₂ R as bs) (imp : ∀ a ∈ as, ∀ b ∈ bs, R a b → S a b) :
    List.Forall₂ S as bs := by
  induction all with
  | nil => exact .nil
  | cons first _ ih =>
      refine .cons (imp _ List.mem_cons_self _ List.mem_cons_self first) (ih ?_)
      exact fun a inside b inside' =>
        imp a (List.mem_cons_of_mem _ inside) b (List.mem_cons_of_mem _ inside')

/-- The answers for all that counts, and for what counted when the nested transactions that are open
began. -/
structure Tracks (lockOf : Cell → Lk) (m : Cell → Val) (events : List (Event Cell Val))
    (events' : List (Event Lk (Bundle Cell Val))) (o : Own Cell Val)
    (o' : Own Lk (Bundle Cell Val)) : Prop where
  length : o.writes.length = o'.writes.length
  answers : Answers lockOf m events events' o.reads o'.reads o.writes o'.writes
  marks : List.Forall₂ (fun mark mark' => mark.2 = mark'.2 ∧
    Answers lockOf m events events' (o.reads.take mark.1) (o'.reads.take mark'.1)
      (o.writes.take mark.2) (o'.writes.take mark'.2)) o.marks o'.marks

/-- The marks stay when what counts gets more. -/
theorem Tracks.marked (tracks : Tracks lockOf m events events' (own events) (own events'))
    (more : List (Event Cell Val)) (more' : List (Event Lk (Bundle Cell Val)))
    (moreReads moreReads' : List ℕ) (moreWrites : List (Cell × Val))
    (moreWrites' : List (Lk × Bundle Cell Val)) :
    List.Forall₂ (fun mark mark' => mark.2 = mark'.2 ∧
      Answers lockOf m (events ++ more) (events' ++ more')
        (((own events).reads ++ moreReads).take mark.1)
        (((own events').reads ++ moreReads').take mark'.1)
        (((own events).writes ++ moreWrites).take mark.2)
        (((own events').writes ++ moreWrites').take mark'.2))
      (own events).marks (own events').marks := by
  refine forall₂_of_mem tracks.marks fun mark inside mark' inside' claim => ?_
  obtain ⟨readsWithin, writesWithin⟩ := (sorted_own events).within mark inside
  obtain ⟨readsWithin', writesWithin'⟩ := (sorted_own events').within mark' inside'
  rw [List.take_append_of_le_length readsWithin, List.take_append_of_le_length readsWithin',
    List.take_append_of_le_length writesWithin, List.take_append_of_le_length writesWithin']
  exact ⟨claim.1, claim.2.append (fun k counts => lt_of_mem_reads (List.mem_of_mem_take counts))
    fun k counts => lt_of_mem_reads (List.mem_of_mem_take counts)⟩

/-- What counted still does. -/
theorem Tracks.older (tracks : Tracks lockOf m events events' (own events) (own events'))
    (more : List (Event Cell Val)) {reads' : List ℕ} (returns : ∀ k ∈ (own events').reads ++ reads',
      Returns (bundle lockOf m) (events' ++ more') k) :
    Follows lockOf (bundle lockOf m) (own events).writes (own events').writes ∧
      ∀ k ∈ (own events).reads, Returns m (events ++ more) k := by
  obtain ⟨follows, older⟩ := tracks.answers fun k counts =>
    (returns_append (lt_of_mem_reads counts)).mp (returns k (List.mem_append_left _ counts))
  exact ⟨follows, fun k counts => (returns_append (lt_of_mem_reads counts)).mpr (older k counts)⟩

theorem Tracks.read (tracks : Tracks lockOf m events events' (own events) (own events')) {c : Cell}
    {value : Val} {b : Bundle Cell Val} (at_ : b c = some value) :
    Tracks lockOf m (events ++ [.read c value]) (events' ++ [.read (lockOf c) b])
      ((own events).add (.read c value)) ((own events').add (.read (lockOf c) b)) where
  length := tracks.length
  answers returns := by
    obtain ⟨follows, older⟩ := tracks.older _ returns
    have last := returns _ (List.mem_append_right _ (List.mem_singleton_self _))
    rw [size_own, returns_last, ← follows.bundle] at last
    refine ⟨follows, fun k counts => ?_⟩
    obtain counts | counts := List.mem_append.mp counts
    · exact older k counts
    · rw [List.mem_singleton.mp counts, size_own, returns_last]
      rw [last, bundle_self] at at_
      exact (Option.some.inj at_).symm
  marks := by
    have marked := tracks.marked [.read c value] [.read (lockOf c) b]
      [(own events).size] [(own events').size] [] []
    rwa [List.append_nil, List.append_nil] at marked

theorem Tracks.write (tracks : Tracks lockOf m events events' (own events) (own events')) (c : Cell)
    (value : Val) (b : Bundle Cell Val) :
    Tracks lockOf m (events ++ [.write c value])
      (events' ++ [.read (lockOf c) b] ++ [.write (lockOf c) (Function.update b c (some value))])
      ((own events).add (.write c value)) (((own events').add (.read (lockOf c) b)).add
        (.write (lockOf c) (Function.update b c (some value)))) where
  length := by
    show (_ ++ [_]).length = (_ ++ [_]).length
    rw [List.length_append, List.length_append, tracks.length]
    rfl
  answers returns := by
    have whole : ∀ k ∈ (own events').reads ++ [(own events').size], Returns (bundle lockOf m)
        (events' ++ [.read (lockOf c) b] ++ [.write (lockOf c) (Function.update b c (some value))])
        k := returns
    have last := whole _ (List.mem_append_right _ (List.mem_singleton_self _))
    rw [List.append_assoc] at whole
    obtain ⟨follows, older⟩ := tracks.older [.write c value] whole
    rw [size_own, returns_append (by rw [List.length_append]; exact Nat.lt_succ_self _),
      returns_last] at last
    refine ⟨?_, older⟩
    have written := follows.concat c value
    rwa [← last] at written
  marks := by
    rw [List.append_assoc]
    have marked := tracks.marked [.write c value]
      [.read (lockOf c) b, .write (lockOf c) (Function.update b c (some value))] []
      [(own events').size] [(c, value)] [(lockOf c, Function.update b c (some value))]
    rwa [List.append_nil] at marked

/-- What a nested transaction has done does not count. -/
theorem Tracks.abort (tracks : Tracks lockOf m events events' (own events) (own events')) :
    Tracks lockOf m (events ++ [.trAbort]) (events' ++ [.trAbort]) ((own events).add .trAbort)
      ((own events').add .trAbort) := by
  have marked := tracks.marked [.trAbort] [.trAbort] [] [] [] []
  simp only [List.append_nil] at marked
  have sorted := (sorted_own events).order
  have sorted' := (sorted_own events').order
  unfold Own.add
  cases marks : (own events).marks with
  | nil =>
      rw [marks, List.forall₂_nil_left_iff] at marked
      rw [marked]
      exact ⟨rfl, fun _ => ⟨.nil, fun k counts => by cases counts⟩, .nil⟩
  | cons mark older =>
      rw [marks] at marked sorted
      cases marks' : (own events').marks with
      | nil =>
          rw [marks'] at marked
          cases marked
      | cons mark' older' =>
          rw [marks'] at marked sorted'
          obtain ⟨⟨same, claim⟩, others⟩ := List.forall₂_cons.mp marked
          refine ⟨?_, claim, forall₂_of_mem others fun m inside m' inside' answers => ?_⟩
          · show ((own events).writes.take mark.2).length = ((own events').writes.take mark'.2).length
            rw [List.length_take, List.length_take, same, tracks.length]
          · have order := (List.pairwise_cons.mp sorted).1 m inside
            have order' := (List.pairwise_cons.mp sorted').1 m' inside'
            simp only [List.headD_cons, List.take_take, Nat.min_eq_left order.1,
              Nat.min_eq_left order.2, Nat.min_eq_left order'.1, Nat.min_eq_left order'.2]
            exact answers

theorem Bundled.tracks (m : Cell → Val) (bundled : Bundled lockOf events events') :
    Tracks lockOf m events events' (own events) (own events') := by
  induction bundled with
  | nil =>
      refine ⟨rfl, fun _ => ⟨.nil, fun k counts => ?_⟩, .nil⟩
      cases counts
  | read before at_ ih =>
      rw [own_concat, own_concat]
      exact ih.read at_
  | write before c value b ih =>
      rw [own_concat, own_concat, own_concat]
      exact ih.write c value b
  | @trBegin events events' before ih =>
      rw [own_concat, own_concat]
      have marked := ih.marked [.trBegin] [.trBegin] [] [] [] []
      simp only [List.append_nil] at marked
      refine ⟨ih.length, fun returns => ?_, .cons ⟨ih.length, ?_⟩ marked⟩
      · exact ih.older _ (by rwa [List.append_nil])
      · simp only [Own.add, List.take_length]
        exact fun returns => ih.older _ (by rwa [List.append_nil])
  | @trCommit events events' before ih =>
      rw [own_concat, own_concat]
      have marked := ih.marked [.trCommit] [.trCommit] [] [] [] []
      simp only [List.append_nil] at marked
      have others := List.forall₂_drop 1 marked
      rw [List.drop_one, List.drop_one] at others
      exact ⟨ih.length, fun returns => ih.older _ (by rwa [List.append_nil]), others⟩
  | @trAbort events events' before ih =>
      rw [own_concat, own_concat]
      exact ih.abort

/-- The marks stand at the same writes. -/
theorem Tracks.mark (tracks : Tracks lockOf m events events' (own events) (own events')) :
    ((own events).marks.headD (0, 0)).2 = ((own events').marks.headD (0, 0)).2 := by
  have marks := tracks.marks
  generalize (own events).marks = older at marks
  generalize (own events').marks = older' at marks
  cases marks with
  | nil => rfl
  | cons first _ => exact first.1

/-- Where all reads of bundles return what stands in memory, all reads of cells do. -/
theorem Bundled.returns (bundled : Bundled lockOf events events')
    (all : ∀ k, Returns (bundle lockOf m) events' k) :
    Follows lockOf (bundle lockOf m) (own events).writes (own events').writes ∧
      ∀ k, Returns m events k := by
  induction bundled with
  | nil => exact ⟨.nil, fun k => returns_of_le (Nat.zero_le k)⟩
  | @read events events' c value b before at_ ih =>
      obtain ⟨follows, older⟩ := ih (returns_front all)
      have last := returns_last.mp (all events'.length)
      rw [← follows.bundle] at last
      rw [own_concat, own_concat]
      refine ⟨follows, returns_concat older fun x value' same => ?_⟩
      cases same
      rw [last, bundle_self] at at_
      exact (Option.some.inj at_).symm
  | @write events events' before c value b ih =>
      obtain ⟨follows, older⟩ := ih (returns_front (returns_front all))
      have last := returns_last.mp (returns_front all events'.length)
      have written := follows.concat c value
      rw [own_concat, own_concat, own_concat]
      rw [← last] at written
      exact ⟨written, returns_concat older fun x value' same => by cases same⟩
  | trBegin before ih | trCommit before ih =>
      obtain ⟨follows, older⟩ := ih (returns_front all)
      rw [own_concat, own_concat]
      exact ⟨follows, returns_concat older fun x value' same => by cases same⟩
  | trAbort before ih =>
      obtain ⟨follows, older⟩ := ih (returns_front all)
      have mark := (before.tracks m).mark
      rw [own_concat, own_concat]
      refine ⟨?_, returns_concat older fun x value' same => by cases same⟩
      unfold Own.add
      rw [mark]
      exact follows.take _

end Tracks

end HybridDatabase.Stm.Cells
