/-
  Caap.Lib.Outcome

  Total correctness of programs in `Except`.  `Meets E x P` says how the program `x` ends:
  with a value in `P`, or with an error that `E` allows.  There is one rule for each way to
  build a program, and for a loop the rule of an invariant with a variant: a loop that is
  given at least its variant in rounds does not run out of them.
-/

import Caap.Lib.Result
import Mathlib.Tactic

namespace Caap.Lib

variable {ε α β σ : Type} {E : ε → Prop}

/-- The program returns a value in `P` or fails with an error in `E`. -/
def Meets (E : ε → Prop) (x : Except ε α) (P : α → Prop) : Prop :=
  (∀ a, x = .ok a → P a) ∧ ∀ e, x = .error e → E e

variable {P : α → Prop}

theorem Meets.ok {a : α} (h : P a) : Meets E (.ok a : Except ε α) P := by
  refine ⟨fun b hb => ?_, fun e he => nomatch he⟩
  cases hb
  exact h

theorem Meets.error {e : ε} (h : E e) : Meets E (.error e : Except ε α) P := by
  refine ⟨(fun b hb => nomatch hb), fun e' he => ?_⟩
  cases he
  exact h

variable {x : Except ε α}

/-- The value of a program that returns one. -/
theorem Meets.of_eq_ok {a : α} (hx : Meets E x P) (h : x = .ok a) : P a :=
  hx.1 a h

theorem Meets.bind {f : α → Except ε β} {Q : β → Prop}
    (hx : Meets E x P) (hf : ∀ a, P a → Meets E (f a) Q) : Meets E (x >>= f) Q := by
  cases x with
  | error e => exact Meets.error (hx.2 e rfl)
  | ok a => exact hf a (hx.1 a rfl)

theorem Meets.mono {Q : α → Prop} (hx : Meets E x P) (h : ∀ a, P a → Q a) : Meets E x Q :=
  ⟨fun a ha => h a (hx.1 a ha), hx.2⟩

/-- More errors may be allowed. -/
theorem Meets.allow {E' : ε → Prop} (hx : Meets E x P) (h : ∀ e, E e → E' e) : Meets E' x P :=
  ⟨hx.1, fun e he => h e (hx.2 e he)⟩

theorem Meets.ite {c : Prop} [Decidable c] {y : Except ε α}
    (hx : c → Meets E x P) (hy : ¬ c → Meets E y P) : Meets E (if c then x else y) P := by
  by_cases hc : c
  · rw [if_pos hc]
    exact hx hc
  · rw [if_neg hc]
    exact hy hc

/-- A program none of whose errors is allowed returns a value. -/
theorem Meets.returns (hx : Meets E x P) (h : ∀ e, ¬ E e) : ∃ a, x = .ok a ∧ P a := by
  cases x with
  | error e => exact absurd (hx.2 e rfl) (h e)
  | ok a => exact ⟨a, rfl, hx.1 a rfl⟩

/-! ## Loops -/

/-- `while cond body`, for at most so many rounds; `late` is the error of a loop that has
    used them up and would go on. -/
def whileLoop (late : ε) (cond : σ → Except ε Bool) (body : σ → Except ε σ) : Nat → σ → Except ε σ
  | rounds, s => do
    if ← cond s then
      match rounds with
      | 0 => .error late
      | rounds + 1 =>
        let s' ← body s
        whileLoop late cond body rounds s'
    else .ok s

/-- The rule of the loop: `inv` holds at the head of every round, the test reads `go`, and
    every round that runs lowers the variant. -/
theorem Meets.whileLoop {late : ε} {cond : σ → Except ε Bool} {body : σ → Except ε σ}
    (inv go : σ → Prop) (variant : σ → Nat)
    (hcond : ∀ s, inv s → Meets E (cond s) fun b => (b = true ↔ go s))
    (hbody : ∀ s, inv s → go s → Meets E (body s) fun s' => inv s' ∧ variant s' < variant s)
    (hgo : ∀ s, inv s → go s → 0 < variant s)
    {rounds : Nat} {s : σ} (hs : inv s) (hrounds : variant s ≤ rounds) :
    Meets E (whileLoop late cond body rounds s) fun s' => inv s' ∧ ¬ go s' := by
  induction rounds generalizing s with
  | zero =>
    rw [Lib.whileLoop]
    refine (hcond s hs).bind fun b hb => ?_
    cases b with
    | false => exact Meets.ok ⟨hs, fun h => nomatch hb.mpr h⟩
    | true =>
      have hpos : 0 < variant s := hgo s hs (hb.mp rfl)
      omega
  | succ rounds ih =>
    rw [Lib.whileLoop]
    refine (hcond s hs).bind fun b hb => ?_
    cases b with
    | false => exact Meets.ok ⟨hs, fun h => nomatch hb.mpr h⟩
    | true =>
      refine (hbody s hs (hb.mp rfl)).bind fun s' hs' => ?_
      have hless : variant s' ≤ rounds := by omega
      exact ih hs'.1 hless

section Counting

variable {late : ε} {body : σ → Except ε σ} {rounds : Nat} {s : σ}

/-- The rule for a test that cannot fail, with an integer for the variant: a round that runs
    finds it not negative and lowers it. -/
theorem Meets.countDown {go : σ → Prop} [DecidablePred go] (inv : σ → Prop) (variant : σ → Int)
    (hbody : ∀ s, inv s → go s → Meets E (body s) fun s' => inv s' ∧ variant s' < variant s)
    (hgo : ∀ s, go s → 0 ≤ variant s) (hs : inv s) (hrounds : variant s < rounds) :
    Meets E (Lib.whileLoop late (fun s => .ok (decide (go s))) body rounds s) fun s' =>
      inv s' ∧ ¬ go s' := by
  refine Meets.whileLoop inv go (fun s => (variant s + 1).toNat)
    (fun s _ => Meets.ok decide_eq_true_iff) (fun s hinv hgo' => ?_) (fun s _ hgo' => ?_) hs
    (by omega)
  · have hnonneg := hgo s hgo'
    exact (hbody s hinv hgo').mono fun s' hs' => ⟨hs'.1, by omega⟩
  · have hnonneg := hgo s hgo'
    omega

/-- The rule for an index that is counted up to a bound. -/
theorem Meets.countUp {index : σ → Int} (bound : Int) (inv : σ → Prop)
    (hbody : ∀ s, inv s → index s < bound → Meets E (body s) fun s' =>
      inv s' ∧ index s < index s') (hs : inv s) (hrounds : bound - index s ≤ rounds) :
    Meets E (Lib.whileLoop late (fun s => .ok (decide (index s < bound))) body rounds s) fun s' =>
      inv s' ∧ ¬ index s' < bound := by
  refine Meets.countDown inv (fun s => bound - index s - 1) (fun s hinv hgo => ?_)
    (fun s hgo => ?_) hs (by omega)
  · exact (hbody s hinv hgo).mono fun s' hs' => ⟨hs'.1, by omega⟩
  · omega

end Counting

end Caap.Lib
