/-
  Caap.Lib.Run

  Runs of a deterministic step function over a list of actions, the states a run
  can reach, and the two invariant rules every safety theorem of the development
  goes through: an invariant of all runs, and an invariant of the runs whose steps
  all meet a guard at the state they start from.
-/

import Mathlib

namespace Caap.Lib

variable {σ : Type*} {α : Type*}

/-- The state after performing the actions `as` in order from `s`. -/
def run (step : σ → α → σ) (s : σ) (as : List α) : σ := as.foldl step s

variable {step : σ → α → σ}

@[simp] theorem run_nil (s : σ) : run step s [] = s := rfl

@[simp] theorem run_cons (s : σ) (a : α) (as : List α) :
    run step s (a :: as) = run step (step s a) as := rfl

theorem run_append (s : σ) (as bs : List α) :
    run step s (as ++ bs) = run step (run step s as) bs := by
  simp only [run, List.foldl_append]

/-- `s` is the state of some run that starts at `init`. -/
def Reachable (step : σ → α → σ) (init s : σ) : Prop :=
  ∃ as, run step init as = s

variable {P : σ → Prop} {s : σ}

/-- An invariant of every step is an invariant of every run. -/
theorem run_invariant (hstep : ∀ s a, P s → P (step s a))
    (h0 : P s) (as : List α) : P (run step s as) := by
  induction as generalizing s with
  | nil => exact h0
  | cons a as ih => exact ih (hstep s a h0)

/-- An invariant that holds initially holds in every reachable state. -/
theorem Reachable.invariant {init : σ} (h : Reachable step init s)
    (h0 : P init) (hstep : ∀ s a, P s → P (step s a)) : P s := by
  obtain ⟨as, rfl⟩ := h
  exact run_invariant hstep h0 as

/-- Every action of the run meets `guard` at the state it is performed in. -/
def Guarded (guard : σ → α → Prop) (step : σ → α → σ) : σ → List α → Prop
  | _, [] => True
  | s, a :: as => guard s a ∧ Guarded guard step (step s a) as

instance Guarded.decidable {guard : σ → α → Prop} [∀ s a, Decidable (guard s a)] :
    ∀ (s : σ) (as : List α), Decidable (Guarded guard step s as)
  | _, [] => .isTrue trivial
  | s, a :: as =>
    have rest : Decidable (Guarded guard step (step s a) as) := Guarded.decidable (step s a) as
    inferInstanceAs (Decidable (guard s a ∧ Guarded guard step (step s a) as))

variable {guard : σ → α → Prop} {as : List α}

/-- A step invariant under `guard` is an invariant of every guarded run. -/
theorem Guarded.invariant (hstep : ∀ s a, P s → guard s a → P (step s a))
    (hg : Guarded guard step s as) (h0 : P s) : P (run step s as) := by
  induction as generalizing s with
  | nil => exact h0
  | cons a as ih => exact ih hg.2 (hstep s a h0 hg.1)

/-- The guard of the action at position `k` holds where the run has got to. -/
theorem Guarded.getElem? (hg : Guarded guard step s as) {k : Nat} {a : α} (hk : as[k]? = some a) :
    guard (run step s (as.take k)) a := by
  induction as generalizing s k with
  | nil => simp at hk
  | cons b as ih =>
    cases k with
    | zero =>
      rw [List.getElem?_cons_zero, Option.some.injEq] at hk
      rw [← hk]
      exact hg.1
    | succ k =>
      exact ih hg.2 hk

/-- A prefix of a guarded run is guarded. -/
theorem Guarded.take
    (hg : Guarded guard step s as) (k : Nat) : Guarded guard step s (as.take k) := by
  induction as generalizing s k with
  | nil => simpa using hg
  | cons a as ih =>
    cases k with
    | zero => trivial
    | succ k => exact ⟨hg.1, ih hg.2 k⟩

end Caap.Lib
