/-
  Caap.Peg.Rounds

  How often the loops of the engine go round.  A repetition goes on only where the position
  moves, so there are no more rounds than bytes; separated lists and operators have no such
  guard and need operands that move.  The growth of a left-recursive rule moves with every
  round as well, but the number of rounds it is given may be smaller than that of the bytes.
-/

import Caap.Peg.LeftRecursion

namespace Caap.Peg

open Lib

/-! ## Repetitions, separated lists and operators -/

/-- Rounds that do not stand still are no more than the bytes that are left. -/
theorem rounds_le_of_roundIn {β γ : Type} {text : List Char} {T : Track} {still : Prop}
    {φ : Nat × γ → β → Prop} {step : Nat → Nat × γ → Eval (β ⊕ (Nat × γ))} (hmoves : ¬still)
    (hstep : ∀ n a, Boundary text a.1 → InText text T (step n a) (RoundIn text a.1 still (φ a)))
    {k n : Nat} {a : Nat × γ} {s : EvalState} (h : Rounds step k n a s) (hs : StateIn text T s)
    (ha : Boundary text a.1) : k ≤ byteLen text - a.1 := by
  have hbound (a : Nat × γ) (ha : Boundary text a.1) : a.1 ≤ byteLen text := ha.le_len
  refine Nat.le_sub_of_add_le' (h.le hbound (fun n a ha => (hstep n a ha).mono fun r hr => ?_) hs ha)
  cases r with
  | inl b => trivial
  | inr a' => exact ⟨hr.2.1, lt_of_le_of_ne hr.1 fun heq => hmoves (hr.2.2 heq.symm)⟩

/-- Whatever the state, the expression matches at `pos` without moving, if it returns. -/
def StandsStill (eval : ExprEval) (ctx : ParseCtx) (scope : Scope) (pos : Nat) (e : PegExpr) : Prop :=
  Keeps (fun _ => True) (fun _ => True) (eval ctx scope e pos) fun o => ∃ value cut, o = .success pos value cut

theorem separatedLoop_stands {eval : ExprEval} {ctx : ParseCtx} {scope : Scope} {pos : Nat}
    {element separator : PegExpr} (hsep : StandsStill eval ctx scope pos separator)
    (helement : StandsStill eval ctx scope pos element) (keepSeparators : Bool) (n : Nat)
    (values : List ParseValue) : Keeps (fun _ => True) (fun _ => True)
      (separatedLoop eval ctx scope element separator keepSeparators n pos values) fun _ => False := by
  induction n generalizing values with
  | zero => exact Keeps.throw trivial
  | succ n ih =>
    refine Keeps.get_bind fun s _ => hsep.bind fun sep hsep => ?_
    obtain ⟨sepValue, cut, rfl⟩ := hsep
    refine helement.bind fun outcome hout => ?_
    obtain ⟨value, cut, rfl⟩ := hout
    exact ih _

/-- Every expression but the comma can end where it starts. -/
def commaMoves : Track := { Track.free with zero := fun e => e ≠ .literal "," }

theorem commaMoves_covers (ctx : ParseCtx) : commaMoves.Covers ctx := by
  refine Track.zero_covers fun e hzero heq => ?_
  rw [heq] at hzero
  exact absurd hzero (by simp [Track.zeroStep])

/-- A run without rules. -/
def noRules (text : List Char) : ParseCtx := memoCtx ⟨[], [], [], [], [], [], []⟩ text

/-- What a repetition has collected. -/
def ParseValue.elements : ParseValue → List ParseValue
  | .node _ values => values
  | _ => []

/-- Two evaluations end at the same place and with values that `R` relates, fail both, or
    end with the same error. -/
def EndAlike (R : ParseValue → ParseValue → Prop) :
    Except Stop ParseOutcome × EvalState → Except Stop ParseOutcome × EvalState → Prop
  | (.ok (.success stop value _), _), (.ok (.success stop' value' _), _) => stop = stop' ∧ R value value'
  | (.ok (.failure _ _), _), (.ok (.failure _ _), _) => True
  | (.error e, _), (.error e', _) => e = e'
  | _, _ => False

/-- The same elements, whatever the form is called. -/
def SameElements (value value' : ParseValue) : Prop := value.elements = value'.elements

/-- An evaluation at `pos` that matches without moving. -/
def EmptyMatch (pos : Nat) : Except Stop ParseOutcome × EvalState → Prop
  | (.ok (.success stop _ _), _) => stop = pos
  | _ => False

section Counted

variable (eval : ExprEval) (ctx : ParseCtx) (scope : Scope) (child : PegExpr)

theorem specCheckpoint_bind {α : Type} (f : List (String × String) → Eval α) (s : EvalState) :
    (specCheckpoint >>= f) s = f s.captures s := rfl

theorem repeatLoop_length (max : Option Nat) (n cur : Nat) (values : List ParseValue) :
    Keeps (fun _ => True) (fun _ => True) (repeatLoop eval ctx scope child max n cur values)
      fun r => values.length ≤ r.2.length := by
  induction n generalizing cur values with
  | zero => exact Keeps.throw trivial
  | succ n ih =>
    have hany : Keeps (fun _ => True) (fun _ => True) (eval ctx scope child cur) fun _ => True := by
      intro s _
      rcases eval ctx scope child cur s with ⟨_ | _, _⟩ <;> exact ⟨trivial, trivial⟩
    have hstop (saved : List (String × String)) : Keeps (fun _ => True) (fun _ => True)
        (specRollback saved >>= fun _ => pure (cur, values)) fun r => values.length ≤ r.2.length :=
      fun _ _ => ⟨le_rfl, trivial⟩
    refine Keeps.ite (fun _ => Keeps.pure le_rfl) fun _ => Keeps.get_bind fun s _ => ?_
    refine hany.bind fun outcome _ => ?_
    cases outcome with
    | failure fp cut => exact hstop _
    | success next value cut =>
      refine Keeps.ite (fun _ => (ih next (values ++ [value])).mono fun r hr => ?_) fun _ => hstop _
      rw [List.length_append] at hr
      omega

/-- The first round of a repetition from the number of values that it may collect. -/
theorem repeatLoop_first {max : Option Nat} (hmax : ¬max.any fun mx => mx ≤ 0) (n pos : Nat)
    (s : EvalState) : repeatLoop eval ctx scope child max (n + 1) pos [] s =
      match eval ctx scope child pos s with
      | (.ok (.success next value _), s') =>
        if pos < next then repeatLoop eval ctx scope child max n next [value] s'
        else (.ok (pos, []), { s' with captures := s.captures })
      | (.ok (.failure _ _), s') => (.ok (pos, []), { s' with captures := s.captures })
      | (.error e, s') => (.error e, s') := by
  rw [repeatLoop, List.length_nil, if_neg hmax, specCheckpoint_bind, bind_run]
  rcases eval ctx scope child pos s with ⟨_ | ⟨next, value, cut⟩ | ⟨fp, cut⟩, s'⟩
  · rfl
  · by_cases hlt : pos < next
    · simp only [if_pos hlt, List.nil_append]
    · simp only [if_neg hlt]
      rfl
  · rfl

end Counted

/-- Given as many rounds as they need, `e{0,}` and `e*` end alike, `e{0,1}` ends where `e?`
    does, and `e{1,}` and `e+` end alike exactly if `e` does not match without moving. -/
theorem repeat_generalises (ctx : ParseCtx) (htokens : TokensValid ctx) (fuel n : Nat) (scope : Scope)
    (e : PegExpr) (pos : Nat) (s : EvalState) (hs : StateInText ctx.text s)
    (hpos : Boundary ctx.text pos) :
    EndAlike SameElements (matchRepeat (parseExpr fuel) ctx scope e 0 none n pos s)
      (matchZeroOrMore (parseExpr fuel) ctx scope e n pos s) ∧
    EndAlike (fun _ _ => True) (matchRepeat (parseExpr fuel) ctx scope e 0 (some 1) (n + 2) pos s)
      (matchOptional (parseExpr fuel) ctx scope e pos s) ∧
    (EndAlike SameElements (matchRepeat (parseExpr fuel) ctx scope e 1 none (n + 1) pos s)
      (matchOneOrMore (parseExpr fuel) ctx scope e n pos s) ↔
        ¬EmptyMatch pos (parseExpr fuel ctx scope e pos s)) := by
  have hle (next : Nat) (value : ParseValue) (cut : Bool) (s' : EvalState)
      (hrun : parseExpr fuel ctx scope e pos s = (.ok (.success next value cut), s')) : pos ≤ next := by
    have hin := ((evaluations_in_text ctx htokens).2 fuel scope s pos hs hpos).1 e
    rw [hrun] at hin
    exact hin.1
  refine ⟨?_, ?_, ?_⟩
  · rw [matchRepeat, matchZeroOrMore, bind_run, bind_run]
    rcases repeatLoop (parseExpr fuel) ctx scope e none n pos [] s with ⟨_ | ⟨cur, values⟩, s'⟩
    · exact rfl
    · exact ⟨rfl, rfl⟩
  · rw [matchRepeat, matchOptional, bind_run, specCheckpoint_bind, bind_run,
      repeatLoop_first _ _ _ _ (by decide)]
    rcases hrun : parseExpr fuel ctx scope e pos s with ⟨_ | ⟨next, value, cut⟩ | ⟨fp, cut⟩, s'⟩
    · exact rfl
    · have hnext : pos ≤ next := hle next value cut s' hrun
      rcases hnext.lt_or_eq with hlt | rfl
      · simp only [if_pos hlt]
        exact ⟨rfl, trivial⟩
      · simp only [lt_irrefl, if_false]
        exact ⟨rfl, trivial⟩
    · exact ⟨rfl, trivial⟩
  · rw [matchRepeat, matchOneOrMore, matchFirst, bind_run, specCheckpoint_bind, bind_run,
      repeatLoop_first _ _ _ _ (by decide)]
    rcases hrun : parseExpr fuel ctx scope e pos s with ⟨_ | ⟨next, value, cut⟩ | ⟨fp, cut⟩, s'⟩
    · exact iff_of_true rfl id
    · have hnext : pos ≤ next := hle next value cut s' hrun
      rcases hnext.lt_or_eq with hlt | rfl
      · refine iff_of_true ?_ hlt.ne'
        simp only [if_pos hlt, bind_run]
        have hlength := repeatLoop_length (parseExpr fuel) ctx scope e none n next [value] s' trivial
        rcases hmore : repeatLoop (parseExpr fuel) ctx scope e none n next [value] s' with ⟨_ | r, s''⟩
        · exact rfl
        · rw [hmore] at hlength
          have hcount : ¬r.2.length < 1 := Nat.not_lt.mpr hlength.1
          simp only [if_neg hcount]
          exact ⟨rfl, rfl⟩
      · refine iff_of_false (fun halike => ?_) (not_not_intro rfl)
        simp only [lt_irrefl, if_false, bind_run] at halike
        rcases hmore : repeatLoop (parseExpr fuel) ctx scope e none n pos [value] s' with ⟨_ | r, s''⟩
        · rw [hmore] at halike
          exact halike
        · rw [hmore] at halike
          exact halike
    · exact iff_of_true trivial id

theorem repeat_generalises_literal : EndAlike SameElements
    (matchRepeat (parseExpr 9) (noRules ['x']) (.new true) (.literal "x") 1 none 9 0 (.new false))
      (matchOneOrMore (parseExpr 9) (noRules ['x']) (.new true) (.literal "x") 8 0 (.new false)) :=
  (repeat_generalises (noRules ['x']) (fun _ h => nomatch h) 9 8 (.new true) (.literal "x") 0
    (.new false) (stateIn_new _ _ _) boundary_zero).2.2.mpr Nat.one_ne_zero

/-- In the empty text `'x'?+` matches and `'x'?{1,}` fails. -/
theorem counted_empty_match :
    (matchRepeat (parseExpr 9) (noRules []) (.new true) (.optional (.literal "x")) 1 none 9 0
      (.new false)).1 = .ok (.failure 0 false) ∧
    (matchOneOrMore (parseExpr 9) (noRules []) (.new true) (.optional (.literal "x")) 9 0
      (.new false)).1 = .ok (.success 0 (.node "one_or_more" [.nil]) false) := by
  decide

/-! ## The growth of left-recursive rules -/

end Caap.Peg
