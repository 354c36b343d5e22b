/-
# Going back in a writer

A position saved in a writer undoes what has been written since, as long as nothing has been
discarded: the block keeps what was there, up to the ten bytes in front of the element that
was being written.  So going back to a position is going back to the contents the writer had
there, and no later call tells the difference.

Discarding goes back to the start of the block, but not to the depth of a fresh writer.
-/

import HybridDatabase.Storage.WriterCalls

namespace HybridDatabase.Storage

open HybridDatabase.Base

/-- `struct WriterPosition`. -/
structure WriterPosition where
  beginOffset : ℕ
  ptrOffset : ℕ
  depth : ℤ
  deriving DecidableEq, Repr

namespace Writer

/-- `writer_get_position`. -/
def getPosition (W : Writer) : WriterPosition := ⟨W.begin, W.ptr, W.depth⟩

/-- `writer_set_position`. -/
def setPosition (W : Writer) (pos : WriterPosition) : Option Writer := do
  guard (pos.beginOffset ≤ pos.ptrOffset)
  guard (pos.ptrOffset ≤ W.ptr)
  return { W with begin := pos.beginOffset, ptr := pos.ptrOffset, depth := pos.depth }

/-- The pointers are in their order, with ten bytes in front. -/
structure InBounds (W : Writer) : Prop where
  ten_le : 10 ≤ W.begin
  begin_le : W.begin ≤ W.ptr
  ptr_le : W.ptr ≤ W.buf.length

/-- A writer shows what lies between its pointers. -/
theorem InBounds.shows_ {W : Writer} (bounds : W.InBounds) :
    ∃ c : Contents, W.Shows c := by
  have ten_le := bounds.ten_le
  have begin_le := bounds.begin_le
  have ptr_le := bounds.ptr_le
  have split : W.buf = W.buf.take (W.begin - 10) ++ (W.buf.drop (W.begin - 10)).take 10 ++
      (W.buf.drop W.begin).take (W.ptr - W.begin) ++ W.buf.drop W.ptr := by
    have gap := List.take_append_drop 10 (W.buf.drop (W.begin - 10))
    rw [List.drop_drop, Nat.sub_add_cancel ten_le] at gap
    have body := List.take_append_drop (W.ptr - W.begin) (W.buf.drop W.begin)
    rw [List.drop_drop, Nat.add_sub_cancel' begin_le] at body
    rw [List.append_assoc, List.append_assoc, body, gap, List.take_append_drop]
  refine ⟨⟨_, _, W.depth⟩, ⟨⟨⟨_, _, ?_, split⟩, ?_, ?_⟩, rfl⟩⟩
  · rw [List.length_take, List.length_drop]
    omega
  · rw [List.length_take]
    omega
  · simp only [List.length_take, List.length_drop]
    omega

end Writer

/-! ## Writers with saved positions -/

/-- A writer and the positions that may be set, the oldest one first. -/
structure Session (ω π : Type) where
  writer : ω
  saved : List π

/-- The calls of a session.  Positions are saved and set by their number. -/
inductive SessionCall
  | call (call : WriterCall)
  | getPosition
  | setPosition (i : ℕ)
  deriving DecidableEq

/-- One call of a session.  `writer_discart` ends all positions, and going back to one ends
those behind it. -/
def Session.step {ω π : Type} (call : ω → WriterCall → Option ω) (get : ω → π)
    (set : ω → π → Option ω) (s : Session ω π) : SessionCall → Option (Session ω π)
  | .call c => (call s.writer c).map fun W => ⟨W, if c = .discart then [] else s.saved⟩
  | .getPosition => some { s with saved := s.saved ++ [get s.writer] }
  | .setPosition i =>
      s.saved[i]?.bind fun pos => (set s.writer pos).map fun W => ⟨W, s.saved.take i⟩

/-- A session of a writer. -/
abbrev Writer.session : Session Writer WriterPosition → SessionCall →
    Option (Session Writer WriterPosition) :=
  Session.step Writer.call Writer.getPosition Writer.setPosition

/-- A session of the list of bytes: a position is a copy of the contents. -/
abbrev Contents.session : Session Contents Contents → SessionCall →
    Option (Session Contents Contents) :=
  Session.step Contents.call id fun _ c => some c

namespace Contents

/-- Where a writer with these contents stands. -/
def position (c : Contents) : WriterPosition :=
  ⟨c.out.length + 10, c.out.length + 10 + c.body.length, c.depth⟩

/-- What the output of a writer is. -/
def output (c : Contents) : Option Bytes := if c.body = [] then some c.out else none

/-- A block with the contents `c'` still has the bytes of `c` at their places, whatever is in
the ten free bytes. -/
def Kept (c c' : Contents) : Prop :=
  ∀ gap' : Bytes, gap'.length = 10 → ∃ gap : Bytes, gap.length = 10 ∧
    c.out ++ gap ++ c.body <+: c'.out ++ gap' ++ c'.body

variable {c c' c'' : Contents}

theorem Kept.refl (c : Contents) : c.Kept c := fun gap ten => ⟨gap, ten, List.prefix_rfl⟩

theorem Kept.trans (first : c.Kept c') (second : c'.Kept c'') : c.Kept c'' := by
  intro gap'' ten''
  obtain ⟨gap', ten', kept'⟩ := second gap'' ten''
  obtain ⟨gap, ten, kept⟩ := first gap' ten'
  exact ⟨gap, ten, kept.trans kept'⟩

theorem kept_append (c : Contents) (bytes : Bytes) (depth : ℤ) :
    c.Kept { c.append bytes with depth := depth } := by
  refine fun gap ten => ⟨gap, ten, bytes, ?_⟩
  simp only [append, List.append_assoc]

/-- Every call but `writer_discart` keeps the bytes. -/
theorem Kept.call {call : WriterCall} (called : c.call call = some c') (other : call ≠ .discart) :
    c.Kept c' := by
  cases call with
  | writeArray | writeString contents | writeNumber number =>
      cases called
      exact kept_append c _ _
  | writeArrayEnd =>
      obtain ⟨-, called⟩ := Option.ite_none_right_eq_some.mp called
      cases called
      exact kept_append c _ _
  | finish checksum =>
      obtain ⟨-, called⟩ := Option.ite_none_right_eq_some.mp called
      cases called
      -- The header fills the free bytes in front of the element.
      refine fun gap' _ => ⟨_, Writer.length_frameHeader (c.body ++
        Writer.trailer c.body checksum).length, Writer.trailer c.body checksum ++ gap', ?_⟩
      simp only [frame, List.append_assoc, List.append_nil]
  | directWrite buffer =>
      obtain ⟨⟨-, none⟩, called⟩ := Option.ite_none_right_eq_some.mp called
      cases called
      intro gap' ten'
      have enough : 10 ≤ (buffer ++ gap').length := by
        rw [List.length_append, ten']
        exact Nat.le_add_left _ _
      refine ⟨(buffer ++ gap').take 10, List.length_take_of_le enough,
        (buffer ++ gap').drop 10, ?_⟩
      simp only [none, List.append_nil, List.append_assoc, List.take_append_drop]
  | discart => exact absurd rfl other
  | getSpace size =>
      cases called
      exact .refl c

end Contents

namespace Writer

variable {W : Writer} {c c' : Contents}

theorem Shows.getPosition_eq (shows_ : W.Shows c) : W.getPosition = c.position := by
  unfold getPosition Contents.position
  rw [shows_.holds.begin_eq, shows_.holds.ptr_eq, shows_.depth_eq]

theorem Shows.output_eq (shows_ : W.Shows c) : W.output = c.output := by
  unfold Contents.output
  by_cases none : c.body = []
  · rw [if_pos none]
    have holds := shows_.holds
    rw [none] at holds
    exact holds.output
  · rw [if_neg none]
    have inside : W.begin ≠ W.ptr := by
      have positive := List.length_pos_of_ne_nil none
      rw [shows_.holds.begin_eq, shows_.holds.ptr_eq]
      omega
    simp only [Writer.output, inside, guard_false]
    rfl

/-- A writer goes back to the contents it has kept. -/
theorem Shows.setPosition (shows_ : W.Shows c') (kept : c.Kept c') :
    ∃ W', W.setPosition c.position = some W' ∧ W'.Shows c := by
  obtain ⟨gap', rest, ten', buf⟩ := shows_.holds.block
  obtain ⟨gap, ten, more, bytes⟩ := kept gap' ten'
  have ptr_eq := shows_.holds.ptr_eq
  have long : c.out.length + 10 + c.body.length ≤ W.ptr := by
    have total := congrArg List.length bytes
    simp only [List.length_append, ten, ten'] at total
    omega
  have ordered : c.position.beginOffset ≤ c.position.ptrOffset := Nat.le_add_right _ _
  have behind : c.position.ptrOffset ≤ W.ptr := long
  refine ⟨_, by simp only [Writer.setPosition, ordered, behind, guard_true, pure_bind]; rfl, ?_⟩
  refine ⟨⟨⟨gap, more ++ rest, ten, ?_⟩, rfl, rfl⟩, rfl⟩
  rw [← List.append_assoc, bytes]
  exact buf

end Writer

/-! ## The block follows the list of bytes -/

/-- The writer shows the contents, the positions are those of the copies, and every copy is
kept by what came behind it. -/
structure Follows (s : Session Writer WriterPosition) (t : Session Contents Contents) : Prop where
  shows_ : s.writer.Shows t.writer
  saved : s.saved = t.saved.map Contents.position
  kept : (t.saved ++ [t.writer]).Pairwise Contents.Kept

variable {s s' : Session Writer WriterPosition} {t t' : Session Contents Contents}

theorem Follows.step (follows : Follows s t) (call : SessionCall) :
    Option.Rel Follows (Writer.session s call) (Contents.session t call) := by
  obtain ⟨shows_, saved, kept⟩ := follows
  obtain ⟨pairs, -, until_⟩ := List.pairwise_append.mp kept
  cases call with
  | call c =>
      have called := shows_.call c
      simp only [Writer.session, Contents.session, Session.step]
      generalize found : s.writer.call c = W at called
      generalize found' : t.writer.call c = d at called
      cases called with
      | none => exact .none
      | some after =>
          refine .some ⟨after, ?_, ?_⟩
          · split
            · rfl
            · exact saved
          · dsimp only
            split
            · exact List.pairwise_singleton _ _
            · rename_i other
              refine List.pairwise_append.mpr ⟨pairs, List.pairwise_singleton _ _, ?_⟩
              rintro first inside _ (_ | ⟨_, ⟨⟩⟩)
              exact (until_ first inside _ (List.mem_singleton_self _)).trans (.call found' other)
  | getPosition =>
      refine .some ⟨shows_, ?_, ?_⟩
      · simp only [saved, shows_.getPosition_eq, List.map_append, List.map_singleton, id_eq]
      · refine List.pairwise_append.mpr ⟨kept, List.pairwise_singleton _ _, ?_⟩
        rintro first inside _ (_ | ⟨_, ⟨⟩⟩)
        obtain earlier | now := List.mem_append.mp inside
        · exact until_ first earlier _ (List.mem_singleton_self _)
        · rw [List.mem_singleton.mp now]
          exact .refl _
  | setPosition i =>
      simp only [Writer.session, Contents.session, Session.step, saved, List.getElem?_map]
      cases found : t.saved[i]? with
      | none => exact .none
      | some c =>
          obtain ⟨W', set_, shows'⟩ := shows_.setPosition
            (until_ c (List.mem_of_getElem? found) _ (List.mem_singleton_self _))
          simp only [Option.map_some, Option.bind_some, set_]
          refine .some ⟨shows', List.map_take.symm, ?_⟩
          have front : t.saved.take i ++ [c] = t.saved.take (i + 1) := by
            rw [List.take_add_one, found]
            rfl
          dsimp only
          rw [front]
          exact pairs.sublist (List.take_sublist _ _)

theorem Follows.run (follows : Follows s t) (calls : List SessionCall) :
    Option.Rel Follows (runSteps Writer.session s calls) (runSteps Contents.session t calls) :=
  runSteps_rel (fun _ _ call follows => follows.step call) follows calls

/-- The call goes neither back behind the first `n` positions nor to one of them. -/
def SessionCall.Behind (n : ℕ) : SessionCall → Prop
  | .call c => c ≠ .discart
  | .getPosition => True
  | .setPosition i => n ≤ i

/-- Such calls keep the first positions. -/
theorem take_saved_of_behind {n : ℕ} {calls : List SessionCall}
    (behind : ∀ call ∈ calls, call.Behind n) (enough : n ≤ t.saved.length)
    (run : runSteps Contents.session t calls = some t') : t'.saved.take n = t.saved.take n := by
  induction calls generalizing t with
  | nil =>
      cases run
      rfl
  | cons call calls ih =>
      obtain ⟨t₁, moved, others⟩ := Option.bind_eq_some_iff.mp run
      have now := behind call List.mem_cons_self
      have same : t₁.saved.take n = t.saved.take n ∧ n ≤ t₁.saved.length := by
        cases call with
        | call c =>
            obtain ⟨d, -, rfl⟩ := Option.map_eq_some_iff.mp moved
            dsimp only
            rw [if_neg now]
            exact ⟨rfl, enough⟩
        | getPosition =>
            cases moved
            refine ⟨List.take_append_of_le_length enough, ?_⟩
            rw [List.length_append]
            exact Nat.le_add_right_of_le enough
        | setPosition i =>
            obtain ⟨c, found, moved⟩ := Option.bind_eq_some_iff.mp moved
            cases moved
            obtain ⟨inside, -⟩ := List.getElem?_eq_some_iff.mp found
            have later : n ≤ i := now
            refine ⟨?_, ?_⟩
            · rw [List.take_take, min_eq_left later]
            · rw [List.length_take]
              omega
      rw [ih (fun call inside => behind call (List.mem_cons_of_mem _ inside)) same.2 others, same.1]

/-- Sessions that follow the same list of bytes cannot be told apart. -/
theorem Follows.output_eq (follows : Follows s t) (follows' : Follows s' t)
    (later : List SessionCall) :
    (runSteps Writer.session s' later).map (·.writer.output) =
      (runSteps Writer.session s later).map (·.writer.output) := by
  have run := follows.run later
  have run' := follows'.run later
  generalize runSteps Writer.session s later = end_ at run
  generalize runSteps Writer.session s' later = end' at run'
  generalize runSteps Contents.session t later = target at run run'
  cases run with
  | none =>
      cases run'
      rfl
  | some last =>
      cases run' with
      | some last' =>
          rw [Option.map_some, Option.map_some, last.shows_.output_eq, last'.shows_.output_eq]

/-- The calls behind a position that is set again might as well not have been made: every
later sequence of calls succeeds or fails as it would have, with the same output. -/
theorem setPosition_undoes (W : Writer) (bounds : W.InBounds) (before undone : List SessionCall)
    (s s' : Session Writer WriterPosition)
    (start : runSteps Writer.session ⟨W, []⟩ before = some s)
    (behind : ∀ call ∈ undone, call.Behind (s.saved.length + 1))
    (run : runSteps Writer.session s (.getPosition :: undone) = some s') :
    ∃ s'', Writer.session s' (.setPosition s.saved.length) = some s'' ∧
      ∀ later, (runSteps Writer.session s'' later).map (·.writer.output) =
        (runSteps Writer.session s later).map (·.writer.output) := by
  obtain ⟨c, shows_⟩ := bounds.shows_
  have fresh : Follows ⟨W, []⟩ ⟨c, []⟩ := ⟨shows_, rfl, List.pairwise_singleton _ _⟩
  have first := fresh.run before
  rw [start] at first
  generalize runSteps Contents.session ⟨c, []⟩ before = target at first
  cases first with
  | @some _ t follows =>
      have length : s.saved.length = t.saved.length := by rw [follows.saved, List.length_map]
      have second := follows.run (.getPosition :: undone)
      rw [run] at second
      generalize middle : runSteps Contents.session t (.getPosition :: undone) = target at second
      cases second with
      | @some _ t' follows' =>
          have kept : t'.saved.take (s.saved.length + 1) = t.saved ++ [t.writer] := by
            have long : s.saved.length + 1 ≤ (t.saved ++ [t.writer]).length := by
              rw [List.length_append, List.length_singleton, length]
            rw [take_saved_of_behind behind long middle]
            exact List.take_of_length_le (by rw [List.length_append, List.length_singleton, length])
          have found : t'.saved[s.saved.length]? = some t.writer := by
            rw [← List.getElem?_take_of_lt (Nat.lt_succ_self _), kept, length,
              List.getElem?_concat_length]
          have earlier : t'.saved.take s.saved.length = t.saved := by
            calc t'.saved.take s.saved.length
                = (t'.saved.take (s.saved.length + 1)).take s.saved.length := by
                  rw [List.take_take, min_eq_left (Nat.le_succ _)]
              _ = t.saved := by rw [kept, length, List.take_left]
          have target : Contents.session t' (.setPosition s.saved.length) = some t := by
            simp only [Contents.session, Session.step, found, Option.bind_some, Option.map_some,
              earlier]
          have back := follows'.step (.setPosition s.saved.length)
          rw [target] at back
          generalize Writer.session s' (.setPosition s.saved.length) = end_ at back
          cases back with
          | some again => exact ⟨_, rfl, fun later => follows.output_eq again later⟩

/-- The end of an array and of the element around it, undone. -/
theorem setPosition_undoes_finish : ∃ s s',
    runSteps Writer.session ⟨Writer.initSize 0, []⟩ [.call .writeArray, .call (.writeNumber 7)] =
      some s ∧
    runSteps Writer.session s [.getPosition, .call .writeArrayEnd, .call (.finish false),
      .call (.getSpace 50), .call (.directWrite [1, 2])] = some s' ∧
    ∃ s'', Writer.session s' (.setPosition s.saved.length) = some s'' ∧
      ∀ later, (runSteps Writer.session s'' later).map (·.writer.output) =
        (runSteps Writer.session s later).map (·.writer.output) := by
  have runs : ((runSteps Writer.session ⟨Writer.initSize 0, []⟩
      [.call .writeArray, .call (.writeNumber 7)]).bind fun s => runSteps Writer.session s
        [.getPosition, .call .writeArrayEnd, .call (.finish false), .call (.getSpace 50),
          .call (.directWrite [1, 2])]).isSome = true := by decide
  obtain ⟨s', run⟩ := Option.isSome_iff_exists.mp runs
  obtain ⟨s, start, run⟩ := Option.bind_eq_some_iff.mp run
  refine ⟨s, s', start, run, setPosition_undoes (Writer.initSize 0) ⟨le_rfl, le_rfl, by decide⟩
    _ _ s s' start ?_ run⟩
  intro call inside
  simp only [List.mem_cons, List.not_mem_nil, or_false] at inside
  obtain rfl | rfl | rfl | rfl := inside <;> exact nofun

/-! ## Discarding -/

/-- Behind `writer_discart` every sequence of calls that writes whole elements with a fresh
writer succeeds, with the same output. -/
def Writer.Reusable (W : Writer) : Prop :=
  ∀ calls out, (runSteps Writer.call Writer.init calls).bind Writer.output = some out →
    (runSteps Writer.call W.discart calls).bind Writer.output = some out

/-- The smallest element. -/
def smallestElement : List WriterCall := [.writeNumber 0, .finish false]

/-- A writer that has the contents of a fresh one does what a fresh one does. -/
theorem Writer.Shows.reusable {W : Writer} (shows_ : W.discart.Shows .empty) : W.Reusable := by
  intro calls out written
  have fresh := (Writer.shows_initSize 4000).calls calls
  have run := shows_.calls calls
  rw [show Writer.initSize 4000 = Writer.init from rfl] at fresh
  generalize runSteps Writer.call Writer.init calls = F at fresh written
  generalize runSteps Writer.call W.discart calls = D at run
  generalize runSteps Contents.call .empty calls = c at fresh run
  cases fresh with
  | none => cases written
  | some last =>
      cases run with
      | some last' =>
          rw [Option.bind_some, last.output_eq] at written
          rw [Option.bind_some, last'.output_eq, written]

/-- With arrays open no element is finished. -/
theorem Writer.not_reusable {W : Writer} (bounds : W.InBounds) (opened : W.depth ≠ 0) :
    ¬ W.Reusable := by
  intro reusable
  have fresh := (Writer.shows_initSize 4000).calls smallestElement
  rw [show Writer.initSize 4000 = Writer.init from rfl] at fresh
  have written : (runSteps Writer.call Writer.init smallestElement).bind Writer.output =
      some (frame (encodeNumber 0) false) := by
    generalize runSteps Writer.call Writer.init smallestElement = F at fresh
    cases fresh with
    | some last => exact last.output_eq
  have again := reusable _ _ written
  obtain ⟨c, shows_⟩ := bounds.shows_
  have discarded : W.discart.Shows ⟨[], [], W.depth⟩ := ⟨shows_.holds.discart, rfl⟩
  have run := discarded.calls smallestElement
  have stuck : runSteps Contents.call ⟨[], [], W.depth⟩ smallestElement = none := by
    simp only [smallestElement, runSteps, Contents.call, Option.bind_some, Contents.append,
      if_neg opened, Option.bind_none]
  rw [stuck] at run
  generalize runSteps Writer.call W.discart smallestElement = D at run again
  cases run
  cases again

theorem Writer.Shows.inBounds {W : Writer} {c : Contents} (shows_ : W.Shows c) : W.InBounds :=
  have lists := shows_.byteList
  ⟨lists.ten_le, lists.begin_le, lists.ptr_le⟩

/-- After `writer_discart` a writer is as good as a fresh one just when no array was open. -/
theorem Writer.reusable_iff {W : Writer} (bounds : W.InBounds) : W.Reusable ↔ W.depth = 0 := by
  constructor
  · intro reusable
    by_contra opened
    exact Writer.not_reusable bounds opened reusable
  · intro closed
    obtain ⟨c, shows_⟩ := bounds.shows_
    exact Writer.Shows.reusable ⟨shows_.holds.discart, closed⟩

/-- A finished element, and one whose array has been closed, but that has not been finished. -/
theorem Writer.reusable_unfinished : ∃ W,
    runSteps Writer.call Writer.init (smallestElement ++
      [.writeArray, .writeNumber 7, .writeArrayEnd]) = some W ∧
    Writer.init.begin < W.begin ∧ W.begin < W.ptr ∧ W.Reusable := by
  have ran := (Writer.shows_initSize 4000).calls (smallestElement ++
    [.writeArray, .writeNumber 7, .writeArrayEnd])
  rw [show Writer.initSize 4000 = Writer.init from rfl] at ran
  generalize runSteps Writer.call Writer.init _ = end_ at ran
  cases ran with
  | @some W c shows_ =>
      refine ⟨W, rfl, ?_, ?_, (Writer.reusable_iff shows_.inBounds).mpr shows_.depth_eq⟩
      · rw [shows_.holds.begin_eq]
        decide
      · rw [shows_.holds.begin_eq, shows_.holds.ptr_eq]
        decide

/-- The first element of a writer, with one array open. -/
theorem Writer.openArray_not_reusable : ¬ ∀ W : Writer, W.InBounds → W.Reusable := by
  intro claim
  obtain ⟨W, -, holds, depth⟩ := Writer.init_holds.writeArray le_rfl (by decide)
  have bounds : W.InBounds := (show W.Shows ⟨_, _, W.depth⟩ from ⟨holds, rfl⟩).inBounds
  have opened : W.depth ≠ 0 := by
    rw [depth]
    decide
  exact Writer.not_reusable bounds opened (claim W bounds)

end HybridDatabase.Storage
