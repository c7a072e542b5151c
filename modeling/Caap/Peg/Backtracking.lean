/-
  Caap.Peg.Backtracking

  What a discarded branch of an evaluation leaves behind.  `spec_checkpoint` saves the
  captures alone, so a branch that has pushed an indentation or left the start of a line
  changes what the next alternative sees; and the memo keeps what a branch has found in
  another trivia mode.  Without indentation and without the memo nothing is left behind.
-/

import Caap.Peg.Simulation

namespace Caap.Peg

open Lib

/-! ## The layouts of a run -/

/-- The layouts of a run. -/
inductive LayoutState.Reached (indentationEnabled : Bool) : LayoutState → Prop
  | new : Reached indentationEnabled (.new indentationEnabled)
  | newline (l : LayoutState) : Reached indentationEnabled l →
      Reached indentationEnabled { l with atLineStart := true }
  | indent (l : LayoutState) (width : Nat) : Reached indentationEnabled l →
      l.ignoresIndentation = false →
      Reached indentationEnabled { l with indentStack := width :: l.indentStack, atLineStart := false }
  | dedent (l : LayoutState) (stack : List Nat) : Reached indentationEnabled l →
      l.ignoresIndentation = false →
      Reached indentationEnabled { l with indentStack := stack, atLineStart := false }

theorem LayoutState.Reached.enabled {indentationEnabled : Bool} {l : LayoutState}
    (h : l.Reached indentationEnabled) : l.indentationEnabled = indentationEnabled := by
  induction h with
  | new => rfl
  | newline _ _ ih | indent _ _ _ _ ih | dedent _ _ _ _ ih => exact ih

/-- Without indentation the layout never changes. -/
theorem LayoutState.Reached.eq_new {l : LayoutState} (h : l.Reached false) : l = .new false := by
  have hinert : ∀ l : LayoutState, l.Reached false → l.ignoresIndentation = true := by
    intro l hl
    rw [LayoutState.ignoresIndentation, hl.enabled]
    rfl
  induction h with
  | new => rfl
  | newline l _ ih => rw [ih]; rfl
  | indent l _ hl hactive | dedent l _ hl hactive => exact absurd (hinert l hl) (by simp [hactive])

/-! ## What backtracking should leave -/

/-- The ends of two evaluations with the same answer; the step budget may end one of them. -/
def SameEnd : Except Stop ParseOutcome → Except Stop ParseOutcome → Prop
  | .ok o, .ok o' => SameAnswer o o'
  | .ok _, .error e => IsStepError e
  | .error e, .ok _ => IsStepError e
  | .error _, .error _ => True

/-- Captures, indentation stack, flag of the line start and bracket depth are as before. -/
def SameCore (s s' : EvalState) : Prop := s'.captures = s.captures ∧ s'.layout = s.layout

/-- A repetition at `pos` does not go on with this outcome. -/
def ParseOutcome.endsRepetition (pos : Nat) : ParseOutcome → Bool
  | .success stop _ _ => stop ≤ pos
  | .failure _ _ => true

/-- Nothing that is tried at a position and discarded leaves a trace in the state `s`. -/
structure CleanAt (fuel : Nat) (ctx : ParseCtx) (scope : Scope) (pos : Nat) (s : EvalState) :
    Prop where
  choice : ∀ e₁ e₂ fp s₁, parseExpr fuel ctx scope e₁ pos s = (.ok (.failure fp false), s₁) →
    SameEnd (matchChoice (parseExpr fuel) ctx scope [e₁, e₂] pos s).1
      (parseExpr fuel ctx scope e₂ pos s).1
  alternative : ∀ (alternatives : List PegExpr) idx e candidates furthest fp s₁,
    alternatives[idx]? = some e →
    parseExpr fuel ctx scope e pos s = (.ok (.failure fp false), s₁) →
    ∃ s₂, SameCore s s₂ ∧
      choiceLoop (parseExpr fuel) ctx scope alternatives pos (idx :: candidates) furthest s =
        choiceLoop (parseExpr fuel) ctx scope alternatives pos candidates (max furthest fp) s₂
  optional : ∀ e fp cut s₁, parseExpr fuel ctx scope e pos s = (.ok (.failure fp cut), s₁) →
    SameCore s (matchOptional (parseExpr fuel) ctx scope e pos s).2
  lookahead : ∀ e negative o s₁, parseExpr fuel ctx scope e pos s = (.ok o, s₁) →
    SameCore s (matchLookahead (parseExpr fuel) ctx scope negative e pos s).2
  repetition : ∀ e max rounds values o s₁, parseExpr fuel ctx scope e pos s = (.ok o, s₁) →
    o.endsRepetition pos = true →
    SameCore s (repeatLoop (parseExpr fuel) ctx scope e max (rounds + 1) pos values s).2
  separator : ∀ element e keep rounds values fp cut s₁,
    parseExpr fuel ctx scope e pos s = (.ok (.failure fp cut), s₁) →
    SameCore s (separatedLoop (parseExpr fuel) ctx scope element e keep (rounds + 1) pos values s).2

/-- Backtracking leaves no trace: in every run with this setting of the memo and of the
    indentation, for every grammar, text, position and expressions. -/
def LeavesNoTrace (useMemo indentationEnabled : Bool) : Prop :=
  ∀ fuel ctx scope pos s, ctx.cfg.useMemo = useMemo → s.layout.Reached indentationEnabled →
    CleanAt fuel ctx scope pos s

variable {s : EvalState}

section Clean

variable {fuel : Nat} {ctx : ParseCtx} {scope : Scope} {pos : Nat} {s s₁ : EvalState}

theorem specCheckpoint_run : specCheckpoint s = (.ok s.captures, s) := rfl

theorem specRollback_run {captures : List (String × String)} :
    specRollback captures s = (.ok ⟨⟩, { s with captures := captures }) := rfl

theorem pure_run {α : Type} {a : α} : (pure a : Eval α) s = (.ok a, s) := rfl

variable {e : PegExpr}

/-- The state after a discarded evaluation, with the captures restored. -/
theorem sameCore_of_run (hmemo : ctx.cfg.useMemo = false) (hs : s.layout.Reached false)
    {o : ParseOutcome} (hrun : parseExpr fuel ctx scope e pos s = (.ok o, s₁)) :
    SameCore s { s₁ with captures := s.captures } := by
  have hself := parseExpr_repeats ctx hmemo fuel ctx.compiled scope e pos s s
    ⟨rfl, hs.eq_new, hs.eq_new⟩
  rw [hrun] at hself
  exact ⟨rfl, hself.2.left.trans hs.eq_new.symm⟩

variable {alternatives : List PegExpr} {idx furthest : Nat}

/-- The choice goes on as the rest of its alternatives. -/
theorem choiceLoop_run {fp : Nat} (halt : alternatives[idx]? = some e)
    (hrun : parseExpr fuel ctx scope e pos s = (.ok (.failure fp false), s₁))
    {candidates : List Nat} :
    choiceLoop (parseExpr fuel) ctx scope alternatives pos (idx :: candidates) furthest s =
      choiceLoop (parseExpr fuel) ctx scope alternatives pos candidates (max furthest fp)
        { s₁ with captures := s.captures } := by
  simp only [choiceLoop, bind_run, specCheckpoint_run, halt, hrun, specRollback_run]

/-- The last alternative of a choice has the answer of its expression. -/
theorem choiceLoop_last (halt : alternatives[idx]? = some e) {o : ParseOutcome}
    (hrun : parseExpr fuel ctx scope e pos s = (.ok o, s₁)) :
    ∃ o' s', choiceLoop (parseExpr fuel) ctx scope alternatives pos [idx] furthest s = (.ok o', s') ∧
      SameAnswer o' o := by
  match o, hrun with
  | .success stop value cut, hrun =>
    refine ⟨.success stop value cut, s₁, ?_, .success⟩
    simp only [choiceLoop, bind_run, specCheckpoint_run, halt, hrun, pure_run]
  | .failure fp true, hrun =>
    refine ⟨.failure fp true, { s₁ with captures := s.captures }, ?_, .failure⟩
    simp only [choiceLoop, bind_run, specCheckpoint_run, halt, hrun, specRollback_run, pure_run]
  | .failure fp false, hrun =>
    refine ⟨.failure (max furthest fp) false, { s₁ with captures := s.captures }, ?_, .failure⟩
    simp only [choiceLoop, bind_run, specCheckpoint_run, halt, hrun, specRollback_run, pure_run]

theorem choiceLoop_last_error (halt : alternatives[idx]? = some e) {stop : Stop}
    (hrun : parseExpr fuel ctx scope e pos s = (.error stop, s₁)) :
    choiceLoop (parseExpr fuel) ctx scope alternatives pos [idx] furthest s = (.error stop, s₁) := by
  simp only [choiceLoop, bind_run, specCheckpoint_run, halt, hrun]

theorem SameAnswer.trans {o o' o'' : ParseOutcome} (h : SameAnswer o o') (h' : SameAnswer o' o'') :
    SameAnswer o o'' := by
  cases h with
  | success => exact h'
  | failure =>
    cases h'
    exact .failure

theorem cleanAt (hmemo : ctx.cfg.useMemo = false) (hs : s.layout.Reached false) :
    CleanAt fuel ctx scope pos s where
  choice e₁ e₂ fp s₁ hrun := by
    have hcore := sameCore_of_run hmemo hs hrun
    rw [show matchChoice (parseExpr fuel) ctx scope [e₁, e₂] pos s =
      choiceLoop (parseExpr fuel) ctx scope [e₁, e₂] pos [0, 1] pos s from rfl,
      choiceLoop_run (by rfl) hrun]
    -- the second alternative runs in lockstep with the expression alone
    have halike := parseExpr_repeats ctx hmemo fuel ctx.compiled scope e₂ pos
      { s₁ with captures := s.captures } s ⟨rfl, hcore.2.trans hs.eq_new, hs.eq_new⟩
    have halt : [e₁, e₂][1]? = some e₂ := rfl
    rcases hrun₂ : parseExpr fuel ctx scope e₂ pos { s₁ with captures := s.captures } with
      ⟨stop | o, s₂⟩
    · rw [choiceLoop_last_error halt hrun₂]
      rw [hrun₂] at halike
      rcases hr : parseExpr fuel ctx scope e₂ pos s with ⟨stop' | o', t'⟩
      · trivial
      · rw [hr] at halike
        exact halike
    · obtain ⟨o', s', hlast, hsame⟩ := choiceLoop_last halt hrun₂
      rw [hlast]
      rw [hrun₂] at halike
      rcases hr : parseExpr fuel ctx scope e₂ pos s with ⟨stop' | o'', t'⟩
      · rw [hr] at halike
        exact halike
      · rw [hr] at halike
        exact hsame.trans halike.1
  alternative alternatives idx e candidates furthest fp s₁ halt hrun :=
    ⟨_, sameCore_of_run hmemo hs hrun, choiceLoop_run halt hrun⟩
  optional e fp cut s₁ hrun := by
    have hcore := sameCore_of_run hmemo hs hrun
    simpa only [matchOptional, bind_run, specCheckpoint_run, hrun, specRollback_run, pure_run]
      using hcore
  lookahead e negative o s₁ hrun := by
    have hcore := sameCore_of_run hmemo hs hrun
    simp only [matchLookahead, bind_run, specCheckpoint_run, hrun, specRollback_run]
    split_ifs
    · exact hcore
    · exact hcore
  repetition e max rounds values o s₁ hrun hends := by
    have hcore := sameCore_of_run hmemo hs hrun
    rw [repeatLoop]
    split_ifs
    · exact ⟨rfl, rfl⟩
    cases o with
    | success stop value cut =>
      have hle : ¬pos < stop := not_lt.mpr (of_decide_eq_true hends)
      simpa only [bind_run, specCheckpoint_run, hrun, if_neg hle, specRollback_run, pure_run]
        using hcore
    | failure fp cut =>
      simpa only [bind_run, specCheckpoint_run, hrun, specRollback_run, pure_run] using hcore
  separator element e keep rounds values fp cut s₁ hrun := by
    have hcore := sameCore_of_run hmemo hs hrun
    simpa only [separatedLoop, bind_run, specCheckpoint_run, hrun, specRollback_run, pure_run]
      using hcore

end Clean

/-! ## What it leaves -/

/-- A grammar with the one rule `a <- 'a'`. -/
def letterCtx (useMemo : Bool) (text : List Char) : ParseCtx :=
  { compiled := ⟨[("a", .literal "a")], [], [], [], [], [], []⟩
    text := text
    host := plainHost
    cfg := ⟨useMemo, none, ⟨true, []⟩, some .whitespace, none, 100, 100, false⟩ }

/-- An indented `y` or an indented `x`. -/
def indented (letter : String) : PegExpr := .sequence [.indent, .literal letter]

/-- The first alternative has pushed the indentation and left the start of the line, so the
    second one finds no indentation, although alone it matches. -/
theorem choice_after_indent {useMemo : Bool} :
    (∃ s₁, parseExpr 3 (letterCtx useMemo "  x".toList) (.new true) (indented "y") 0 (.new true) =
      (.ok (.failure 2 false), s₁)) ∧
    (matchChoice (parseExpr 3) (letterCtx useMemo "  x".toList) (.new true)
      [indented "y", indented "x"] 0 (.new true)).1 = .ok (.failure 2 false) ∧
    (parseExpr 3 (letterCtx useMemo "  x".toList) (.new true) (indented "x") 0 (.new true)).1 =
      .ok (.success 3 (.node "sequence" [.nil, .text "x"]) false) := by
  cases useMemo <;> exact ⟨⟨_, rfl⟩, rfl, rfl⟩

/-- Without trivia the rule fails at the blank, and the memo keeps that for the second
    alternative, which would skip the blank. -/
theorem choice_after_noTrivia {indentationEnabled : Bool} :
    (∃ s₁, parseExpr 3 (letterCtx true " a".toList) (.new true) (.noTrivia (.ref "a")) 0
      (.new indentationEnabled) = (.ok (.failure 0 false), s₁)) ∧
    (matchChoice (parseExpr 3) (letterCtx true " a".toList) (.new true)
      [.noTrivia (.ref "a"), .ref "a"] 0 (.new indentationEnabled)).1 = .ok (.failure 0 false) ∧
    (parseExpr 3 (letterCtx true " a".toList) (.new true) (.ref "a") 0
      (.new indentationEnabled)).1 = .ok (.success 2 (.text "a") false) := by
  cases indentationEnabled <;> exact ⟨⟨_, rfl⟩, rfl, rfl⟩

theorem not_cleanAt {fuel : Nat} {ctx : ParseCtx} {scope : Scope} {pos : Nat}
    {e₁ e₂ : PegExpr} {fp fp' stop : Nat} {value : ParseValue} {cut cut' : Bool}
    (h : (∃ s₁, parseExpr fuel ctx scope e₁ pos s = (.ok (.failure fp false), s₁)) ∧
      (matchChoice (parseExpr fuel) ctx scope [e₁, e₂] pos s).1 = .ok (.failure fp' cut) ∧
      (parseExpr fuel ctx scope e₂ pos s).1 = .ok (.success stop value cut')) :
    ¬CleanAt fuel ctx scope pos s := by
  obtain ⟨⟨s₁, hrun⟩, hchoice, halone⟩ := h
  intro hclean
  have hsame := hclean.choice e₁ e₂ fp s₁ hrun
  rw [hchoice, halone] at hsame
  exact nomatch hsame

end Caap.Peg
