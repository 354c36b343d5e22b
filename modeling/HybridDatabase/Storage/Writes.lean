/-
# Writing encodings

The counterpart of `Reads`: `Writes d m enc` says that the writing program `m`
appends the bytes `enc` to the open element without a failed assertion, when at most
`d` further levels of arrays are opened on the way.  `WritesElements` says the same
of whole elements.
-/

import HybridDatabase.Storage.Frame

namespace HybridDatabase.Storage

/-- `m` appends `enc`, opening at most `d` levels of arrays. -/
def Writes (d : ℕ) (m : Writer → Option Writer) (enc : Bytes) : Prop :=
  ∀ (W : Writer) (out body : Bytes), W.Holds out body → 0 ≤ W.depth → W.depth + d < 2 ^ 31 →
    ∃ W', m W = some W' ∧ W'.Holds out (body ++ enc) ∧ W'.depth = W.depth

namespace Writes

variable {d d' : ℕ} {m m' : Writer → Option Writer} {enc enc' : Bytes}

theorem nothing (d : ℕ) : Writes d some [] :=
  fun W out body h _ _ => ⟨W, rfl, by rwa [List.append_nil], rfl⟩

theorem mono (h : Writes d m enc) (le : d ≤ d') : Writes d' m enc :=
  fun W out body holds lower upper => h W out body holds lower (by omega)

theorem bind (first : Writes d m enc) (second : Writes d m' enc') :
    Writes d (fun W => do let W ← m W; m' W) (enc ++ enc') := by
  intro W out body h lower upper
  obtain ⟨W₁, write₁, holds₁, depth₁⟩ := first W out body h lower upper
  obtain ⟨W₂, write₂, holds₂, depth₂⟩ := second W₁ out _ holds₁ (by omega) (by omega)
  refine ⟨W₂, ?_, ?_, by omega⟩
  · simp only [write₁, write₂, Option.bind_eq_bind, Option.bind_some]
  · rwa [← List.append_assoc]

theorem writeString {contents : Bytes} (total : (encodeString contents).length + 256 ≤ 2 ^ 64)
    (d : ℕ) : Writes d (fun W => W.writeString contents) (encodeString contents) := by
  intro W out body h _ _
  have fits : contents.length + stString < 2 ^ 64 := by
    simp only [encodeString, List.length_append] at total
    simp only [stString]
    omega
  exact h.writeString fits

theorem writeNumber (number d : ℕ) :
    Writes d (fun W => W.writeNumber number) (encodeNumber number) :=
  fun _ _ _ h _ _ => h.writeNumber number

/-- The brackets of an array around its items. -/
theorem array (items : Writes d m enc) :
    Writes (d + 1) (fun W => do let W ← W.writeArray; let W ← m W; W.writeArrayEnd)
      (encodeArray enc) := by
  intro W out body h lower upper
  push_cast at upper
  obtain ⟨W₁, write₁, holds₁, depth₁⟩ := h.writeArray lower (by omega)
  obtain ⟨W₂, write₂, holds₂, depth₂⟩ := items W₁ out _ holds₁ (by omega) (by omega)
  obtain ⟨W₃, write₃, holds₃, depth₃⟩ := holds₂.writeArrayEnd (by omega)
  refine ⟨W₃, ?_, ?_, by omega⟩
  · simp only [write₁, write₂, write₃, Option.bind_eq_bind, Option.bind_some]
  · simpa [encodeArray] using holds₃

end Writes

/-- Between elements, `m` appends the whole elements `enc`. -/
def WritesElements (m : Writer → Option Writer) (enc : Bytes) : Prop :=
  ∀ (W : Writer) (out : Bytes), W.Holds out [] → W.depth = 0 →
    ∃ W', m W = some W' ∧ W'.Holds (out ++ enc) [] ∧ W'.depth = 0

namespace WritesElements

variable {m m' : Writer → Option Writer} {enc enc' : Bytes}

theorem nothing : WritesElements some [] :=
  fun W out h closed => ⟨W, rfl, by rwa [List.append_nil], closed⟩

/-- A payload and `writer_finish` make one element. -/
theorem finish {d : ℕ} {body : Bytes} (h : Writes d m body) (shallow : d < 2 ^ 31)
    (checksum : Bool) :
    WritesElements (fun W => do let W ← m W; W.finish checksum) (frame body checksum) := by
  intro W out holds closed
  obtain ⟨W₁, write₁, holds₁, depth₁⟩ := h W out [] holds (by omega) (by omega)
  obtain ⟨W₂, write₂, holds₂, depth₂⟩ := holds₁.finish (by omega) checksum
  refine ⟨W₂, ?_, ?_, depth₂⟩
  · simp only [write₁, write₂, Option.bind_eq_bind, Option.bind_some]
  · simpa [frame] using holds₂

theorem bind (first : WritesElements m enc) (second : WritesElements m' enc') :
    WritesElements (fun W => do let W ← m W; m' W) (enc ++ enc') := by
  intro W out h closed
  obtain ⟨W₁, write₁, holds₁, depth₁⟩ := first W out h closed
  obtain ⟨W₂, write₂, holds₂, depth₂⟩ := second W₁ _ holds₁ depth₁
  refine ⟨W₂, ?_, ?_, depth₂⟩
  · simp only [write₁, write₂, Option.bind_eq_bind, Option.bind_some]
  · rwa [← List.append_assoc]

/-- What a fresh writer gives out. -/
theorem output (h : WritesElements m enc) :
    ∃ W, m Writer.init = some W ∧ W.output = some enc := by
  obtain ⟨W, written, holds, -⟩ := h Writer.init [] Writer.init_holds rfl
  exact ⟨W, written, holds.output⟩

end WritesElements

end HybridDatabase.Storage
