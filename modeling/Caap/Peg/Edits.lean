/-
  Caap.Peg.Edits

  A list of edits compiled to the steps of an incremental parse.  Every edit is checked
  against the length of the text that the edits before it give, and then cuts that text at
  its two ends; an end inside a character is no cut (`compileIncrementalEditSteps_ends`).
-/

import Caap.Lib.Result
import Caap.Peg.Text

namespace Caap.Peg

open Lib

/-- An edit: the bytes from `start` up to `oldEnd` give way to the replacement. -/
structure IncrementalEdit where
  start : Nat
  oldEnd : Nat
  replacement : List Char
  ordered : start ≤ oldEnd

/-- `IncrementalEdit::new`, which refuses a reversed range. -/
def IncrementalEdit.new (start oldEnd : Nat) (replacement : List Char) : Option IncrementalEdit :=
  if h : start ≤ oldEnd then some ⟨start, oldEnd, replacement, h⟩ else none

/-- One applied edit with the change of the length. -/
structure IncrementalEditStep where
  start : Nat
  oldEnd : Nat
  delta : Int
  deriving DecidableEq

inductive IncrementalEditError where
  | invalidRange (index start oldEnd len : Nat)
  | deltaOverflow (index insertedLen removedLen : Nat)
  deriving DecidableEq

/-- How a compilation ends that has no result. -/
inductive EditStop where
  | error (e : IncrementalEditError)
  /-- A slice of the text that does not begin or end at a character. -/
  | panic
  deriving DecidableEq

/-- `isize::try_from` of a length. -/
def isizeOf (n : Nat) : Option Int := if n < 2 ^ 63 then some n else none

def checkedLenDelta (insertedLen removedLen : Nat) : Option Int :=
  if removedLen ≤ insertedLen then isizeOf (insertedLen - removedLen)
  else (isizeOf (removedLen - insertedLen)).map (-·)

namespace IncrementalEdit

def removedLen (edit : IncrementalEdit) : Nat := edit.oldEnd - edit.start

/-- The text with the edit, if both slices around it exist. -/
def splice (edit : IncrementalEdit) (current : List Char) : Option (List Char) := do
  let before ← sliceAt current 0 edit.start
  let after ← suffixAt current edit.oldEnd
  some (before ++ edit.replacement ++ after)

end IncrementalEdit

/-- The body of the loop. -/
def compileStep (state : List IncrementalEditStep × List Char) (item : IncrementalEdit × Nat) :
    Except EditStop (List IncrementalEditStep × List Char) :=
  let (steps, current) := state
  let (edit, idx) := item
  let len := byteLen current
  if len < edit.start ∨ len < edit.oldEnd ∨ edit.oldEnd < edit.start then
    .error (.error (.invalidRange idx edit.start edit.oldEnd len))
  else
    match checkedLenDelta (byteLen edit.replacement) edit.removedLen with
    | none =>
      .error (.error (.deltaOverflow idx (byteLen edit.replacement) edit.removedLen))
    | some delta =>
      match edit.splice current with
      | none => .error .panic
      | some newText =>
        .ok (steps ++ [⟨edit.start, edit.oldEnd, delta⟩], newText)

/-- `compile_incremental_edit_steps`. -/
def compileIncrementalEditSteps (oldText : List Char) (edits : List IncrementalEdit) :
    Except EditStop (List IncrementalEditStep × List Char) :=
  foldOk compileStep ([], oldText) edits.zipIdx

/-! ## Cuts at characters -/

variable {text : List Char} {edit : IncrementalEdit}

/-- The edit passes the two checks on a text. -/
def IncrementalEdit.Fits (edit : IncrementalEdit) (text : List Char) : Prop :=
  edit.oldEnd ≤ byteLen text ∧
    (checkedLenDelta (byteLen edit.replacement) edit.removedLen).isSome = true

/-- Both ends of the edit stand between characters. -/
def IncrementalEdit.Cuts (edit : IncrementalEdit) (text : List Char) : Prop :=
  Boundary text edit.start ∧ Boundary text edit.oldEnd

/-- Every edit that passes the checks on its text cuts it between characters. -/
def CutsWhereFits : List Char → List IncrementalEdit → Prop
  | _, [] => True
  | text, edit :: rest => edit.Fits text →
    edit.Cuts text ∧ ∀ next, edit.splice text = some next → CutsWhereFits next rest

/-- Every edit passes the checks on its text and cuts it between characters. -/
def CutsAll : List Char → List IncrementalEdit → Prop
  | _, [] => True
  | text, edit :: rest => (edit.Fits text ∧ edit.Cuts text) ∧
    ∀ next, edit.splice text = some next → CutsAll next rest

theorem cuts_iff_splice : edit.Cuts text ↔ ∃ next, edit.splice text = some next := by
  constructor
  · rintro ⟨hstart, hend⟩
    obtain ⟨before, hbefore⟩ := Option.isSome_iff_exists.mp
      (sliceAt_isSome boundary_zero hstart (Nat.zero_le _))
    obtain ⟨after, hafter⟩ := boundary_iff.mp hend
    exact ⟨_, by rw [IncrementalEdit.splice, hbefore, hafter]; rfl⟩
  · rintro ⟨next, hnext⟩
    obtain ⟨before, hbefore, hnext⟩ := Option.bind_eq_some_iff.mp hnext
    obtain ⟨after, hafter, -⟩ := Option.bind_eq_some_iff.mp hnext
    refine ⟨?_, .of_suffixAt hafter⟩
    rw [Boundary]
    by_contra hnone
    rw [Option.not_isSome_iff_eq_none] at hnone
    rw [sliceAt, suffixAt_zero, hnone] at hbefore
    exact absurd hbefore (by simp)

/-- What one step does. -/
theorem compileStep_cases (steps : List IncrementalEditStep) (text : List Char)
    (edit : IncrementalEdit) (idx : Nat) :
    (¬ edit.Fits text ∧ ∃ e, compileStep (steps, text) (edit, idx) = .error (.error e)) ∨
    (edit.Fits text ∧ edit.splice text = none ∧
      compileStep (steps, text) (edit, idx) = .error .panic) ∨
    (edit.Fits text ∧ ∃ next steps', edit.splice text = some next ∧
      compileStep (steps, text) (edit, idx) = .ok (steps', next)) := by
  have hordered := edit.ordered
  by_cases hlen : edit.oldEnd ≤ byteLen text
  · have hrange : ¬ (byteLen text < edit.start ∨ byteLen text < edit.oldEnd ∨
        edit.oldEnd < edit.start) := by omega
    simp only [compileStep, if_neg hrange, IncrementalEdit.Fits, hlen, true_and]
    cases checkedLenDelta (byteLen edit.replacement) edit.removedLen with
    | none => simp
    | some delta => cases edit.splice text <;> simp
  · have hrange : byteLen text < edit.start ∨ byteLen text < edit.oldEnd ∨
        edit.oldEnd < edit.start := by omega
    exact .inl ⟨fun h => hlen h.1, _, if_pos hrange⟩

/-- The loop from any edit on. -/
theorem foldOk_compileStep (edits : List IncrementalEdit) (steps : List IncrementalEditStep)
    (text : List Char) (idx : Nat) :
    (foldOk compileStep (steps, text) (edits.zipIdx idx) ≠ .error .panic ↔
      CutsWhereFits text edits) ∧
    ((∃ r, foldOk compileStep (steps, text) (edits.zipIdx idx) = .ok r) ↔ CutsAll text edits) := by
  induction edits generalizing steps text idx with
  | nil => simp [CutsWhereFits, CutsAll]
  | cons edit rest ih =>
    rw [List.zipIdx_cons, foldOk_cons, CutsWhereFits, CutsAll, cuts_iff_splice]
    rcases compileStep_cases steps text edit idx with
      ⟨hfits, e, hstep⟩ | ⟨hfits, hsplice, hstep⟩ | ⟨hfits, next, steps', hsplice, hstep⟩
    · rw [hstep, error_bind]
      simp [hfits]
    · rw [hstep, error_bind]
      simp [hfits, hsplice]
    · rw [hstep, ok_bind]
      simpa [hfits, hsplice] using ih steps' next (idx + 1)

/-- The compilation panics exactly when some edit passes the checks on the text that the
    edits before it give and has an end inside a character of that text; it has a result
    exactly when every edit passes the checks and cuts between characters. -/
theorem compileIncrementalEditSteps_ends (oldText : List Char) (edits : List IncrementalEdit) :
    (compileIncrementalEditSteps oldText edits ≠ .error .panic ↔ CutsWhereFits oldText edits) ∧
    ((∃ r, compileIncrementalEditSteps oldText edits = .ok r) ↔ CutsAll oldText edits) :=
  foldOk_compileStep edits [] oldText 0

/-- An insertion in the middle of a character of two bytes. -/
theorem compileIncrementalEditSteps_panics : ∃ edit, IncrementalEdit.new 1 1 ['x'] = some edit ∧
      compileIncrementalEditSteps ['é'] [edit] = .error .panic :=
  ⟨⟨1, 1, ['x'], Nat.le_refl 1⟩, rfl, by decide⟩

end Caap.Peg
