/-
  Caap.Peg.Trivia

  When skipping trivia comes to an end.  The strategies for whitespace and for comments
  always do, within one round for every character that is left.  A regular expression does
  unless it has an empty match: there it is tried again and again at the same position.
-/

import Caap.Peg.Bounds

namespace Caap.Peg

open Lib

/-- `try_skip` with a number of rounds for its loop. -/
def Skipper.tryRounds (host : Host) (text : List Char) (rounds pos : Nat) :
    Skipper → Except Stop Nat
  | .whitespace => Skipper.trySkip host text pos .whitespace
  | .default => skipDefault text rounds pos
  | .regex pattern => skipRegex host pattern text rounds pos

/-- The strategy returns: a position that is not before `pos`, or the error of a comment
    without an end. -/
def ReturnsFrom (pos : Nat) : Except Stop Nat → Prop
  | .ok stop => pos ≤ stop
  | .error e => CommentError pos e

theorem Comes.returnsFrom {text : List Char} {enough : Prop} {pos : Nat} {r : Except Stop Nat}
    (h : Comes (SkipsIn text pos) enough (CommentError pos) r) (henough : enough) :
    ReturnsFrom pos r := by
  cases r with
  | ok stop => exact h.ends.1
  | error e => exact (h.errors e rfl).resolve_left fun hfuel => hfuel.2 henough

/-- Behind an empty match the loop stands where it was. -/
theorem skipRegex_empty_match {host : Host} {pattern : String} {text : List Char}
    (h : host.regexFind pattern text = some 0) (rounds : Nat) :
    skipRegex host pattern text rounds 0 = .error .fuel := by
  induction rounds with
  | zero => rfl
  | succ rounds ih =>
    rw [skipRegex, sliceFrom, suffixAt_zero, ok_bind]
    simp only [h]
    exact ih

/-- Whatever strategy a grammar asks for: it returns from every position of every text
    after finitely many rounds exactly if it is not a regular expression with an empty
    match. -/
theorem trySkip_returns_iff (host : Host) (spec : String) (skipper : Skipper)
    (hspec : skipStrategyFromConfig host spec = .ok (some skipper)) :
    (∀ text pos, Boundary text pos →
      ∃ rounds, ReturnsFrom pos (skipper.tryRounds host text rounds pos)) ↔
    ∀ pattern, skipper = .regex pattern → ∀ rest, host.regexFind pattern rest ≠ some 0 := by
  constructor
  · rintro h pattern rfl rest hempty
    obtain ⟨rounds, hrounds⟩ := h rest 0 boundary_zero
    rw [Skipper.tryRounds, skipRegex_empty_match hempty] at hrounds
    obtain ⟨start, -, heq⟩ := hrounds
    exact absurd heq (by simp [unterminatedBlockComment])
  · intro hmoves text pos hpos
    have hleft := leftAt_of_boundary hpos
    refine ⟨text.length + 1, ?_⟩
    cases skipper with
    | whitespace =>
      obtain ⟨rest, hrest⟩ := boundary_iff.mp hpos
      simp only [Skipper.tryRounds, Skipper.trySkip, hrest]
      exact Nat.le_add_right _ _
    | default => exact (skipDefault_comes _ pos hpos).returnsFrom hleft
    | regex pattern =>
      exact (skipRegex_comes host pattern _ pos hpos).returnsFrom ⟨hleft, hmoves pattern rfl⟩

/-- Every pattern matches the run of the letter `a` at the position, as `a*` does. -/
def starHost : Host where
  regexFind _ cs := some (cs.takeWhile (· == 'a')).length
  regexError _ := none
  isAlphanumeric := Char.isAlphanum
  regexFind_le _ cs n h := by
    obtain rfl := Option.some.inj h
    exact (List.takeWhile_prefix _).length_le

theorem trySkip_returns_default : skipStrategyFromConfig starHost "default" = .ok (some .default) ∧
      ∃ rounds, ReturnsFrom 0 (Skipper.default.tryRounds starHost "; x".toList rounds 0) :=
  ⟨by decide, (trySkip_returns_iff starHost "default" .default (by decide)).mpr
    (fun _ h => nomatch h) _ 0 boundary_zero⟩

/-- The trivia `a*` in front of `b`: however long the loop runs, it has not ended. -/
theorem trySkip_spins : skipStrategyFromConfig starHost "a*" = .ok (some (.regex "a*")) ∧
    ∀ rounds, skipRegex starHost "a*" ['b'] rounds 0 = .error .fuel :=
  ⟨by decide, skipRegex_empty_match rfl⟩

end Caap.Peg
