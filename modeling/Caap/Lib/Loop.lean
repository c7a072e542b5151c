/-
  Caap.Lib.Loop

  A loop that is given a number of rounds: a round ends it with a result or goes on, and
  without a round left it does what it is told to (`out`).  `Rounds step k n a s` says that
  the loop with `n` rounds left goes on `k` times from `a`.  A loop keeps what its rounds keep
  (`Keeps.loop`), it goes on at most as often as there is measure left where every round
  uses some up (`Rounds.le`), and where it ends by itself it does not depend on `out`
  (`loop_of_not_rounds`).
-/

import Caap.Lib.Effects

namespace Caap.Lib

variable {σ ε α β : Type} {step : Nat → α → ExceptT ε (StateM σ) (β ⊕ α)}

/-- The loop; a round is told how many are left behind it. -/
def loop (step : Nat → α → ExceptT ε (StateM σ) (β ⊕ α)) (out : α → ExceptT ε (StateM σ) β) :
    Nat → α → ExceptT ε (StateM σ) β
  | 0, a => out a
  | n + 1, a => do
    match ← step n a with
    | .inl b => pure b
    | .inr a' => loop step out n a'

/-- The loop with `n` rounds left goes on `k` times. -/
inductive Rounds (step : Nat → α → ExceptT ε (StateM σ) (β ⊕ α)) : Nat → Nat → α → σ → Prop
  | zero {n : Nat} {a : α} {s : σ} : Rounds step 0 n a s
  | succ {k n : Nat} {a a' : α} {s s' : σ} (h : step n a s = (.ok (.inr a'), s'))
      (hrest : Rounds step k n a' s') : Rounds step (k + 1) (n + 1) a s

section Keeps

variable {I : σ → Prop} {E : ε → Prop} {P : α → Prop}

/-- What every round keeps the loop keeps. -/
theorem Keeps.loop {φ : β → Prop} {out : α → ExceptT ε (StateM σ) β} {n : Nat}
    (hstep : ∀ m < n, ∀ a, P a → Keeps I E (step m a) (Sum.elim φ P))
    (hout : ∀ a, P a → Keeps I E (out a) φ) {a : α} (ha : P a) :
    Keeps I E (Lib.loop step out n a) φ := by
  induction n generalizing a with
  | zero => exact hout a ha
  | succ n ih =>
    refine (hstep n (Nat.lt_succ_self n) a ha).bind fun r hr => ?_
    cases r with
    | inl b => exact Keeps.pure hr
    | inr a' => exact ih (fun m hm => hstep m (Nat.lt_succ_of_lt hm)) hr

/-- Rounds that go on only from a smaller size to a greater one. -/
theorem Rounds.le {size : α → Nat} {bound : Nat} (hbound : ∀ a, P a → size a ≤ bound)
    (hstep : ∀ n a, P a →
      Keeps I E (step n a) (Sum.elim (fun _ => True) fun a' => P a' ∧ size a < size a'))
    {k n : Nat} {a : α} {s : σ} (h : Rounds step k n a s) (hs : I s) (ha : P a) :
    size a + k ≤ bound := by
  induction h with
  | zero => exact hbound _ ha
  | succ hrun _ ih =>
    obtain ⟨⟨ha', hlt⟩, hs'⟩ := (hstep _ _ ha).of_ok hs hrun
    have hle := ih hs' ha'
    omega

end Keeps

/-- A loop that ends by itself does not depend on what it does without a round left. -/
theorem loop_of_not_rounds {out out' : α → ExceptT ε (StateM σ) β} {n : Nat} {a : α} {s : σ}
    (h : ¬Rounds step n n a s) : loop step out n a s = loop step out' n a s := by
  induction n generalizing a s with
  | zero => exact absurd .zero h
  | succ n ih =>
    rw [loop, loop, bind_run, bind_run]
    rcases hrun : step n a s with ⟨e | b | a', s'⟩
    · rfl
    · rfl
    · exact ih fun hrest => h (.succ hrun hrest)

end Caap.Lib
