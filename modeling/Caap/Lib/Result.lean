/-
  Caap.Lib.Result

  Reasoning about computations in `Except`: peeling a bind, folds that may fail,
  and checks that run over a list and stop at the first failure.
-/

import Caap.Lib.Run

namespace Caap.Lib

open List

universe u v

variable {ε : Type v} {α β σ : Type u}

theorem bind_eq_ok {x : Except ε α} {f : α → Except ε β} {b : β} :
    (x >>= f) = .ok b ↔ ∃ a, x = .ok a ∧ f a = .ok b := by
  cases x with
  | error e => exact ⟨fun h => (nomatch h), fun ⟨_, h, _⟩ => (nomatch h)⟩
  | ok a =>
    constructor
    · intro h
      exact ⟨a, rfl, h⟩
    · rintro ⟨a', h, hf⟩
      cases h
      exact hf

theorem mapError_eq_ok {ε ε' α : Type} {f : ε → ε'} {x : Except ε α} {a : α} :
    x.mapError f = .ok a ↔ x = .ok a := by
  cases x <;> simp [Except.mapError]

@[simp] theorem ok_bind (a : α) (f : α → Except ε β) :
    ((Except.ok a : Except ε α) >>= f) = f a := rfl

@[simp] theorem error_bind (e : ε) (f : α → Except ε β) :
    ((Except.error e : Except ε α) >>= f) = .error e := rfl

/-- A guard that fails with `e` when `c` holds, in front of `x`. -/
theorem ite_error_eq_ok {c : Prop} [Decidable c] {e : ε} {x : Except ε α} {a : α} :
    (if c then .error e else x) = .ok a ↔ ¬ c ∧ x = .ok a := by
  by_cases hc : c
  · rw [if_pos hc]
    exact ⟨fun h => (nomatch h), fun h => absurd hc h.1⟩
  · rw [if_neg hc]
    exact ⟨fun h => ⟨hc, h⟩, And.right⟩

/-- A guard that passes when `c` holds. -/
theorem ite_ok_eq_ok {c : Prop} [Decidable c] {e : ε} :
    (if c then .ok () else .error e : Except ε Unit) = .ok () ↔ c := by
  by_cases hc : c <;> simp [hc]

/-- A check in front of `y`. -/
theorem check_bind_eq_ok {x : Except ε PUnit.{u + 1}} {y : Except ε β} {b : β} :
    (x >>= fun _ => y) = .ok b ↔ x = .ok ⟨⟩ ∧ y = .ok b := by
  rw [bind_eq_ok]
  exact ⟨fun ⟨_, hx, hy⟩ => ⟨hx, hy⟩, fun ⟨hx, hy⟩ => ⟨⟨⟩, hx, hy⟩⟩

/-- The state after a call that returns its new state with the result: a failed call
    leaves the state as it was. -/
def settle {σ : Type*} {ρ : Type*} (s : σ) (r : Except ε (ρ × σ)) : σ :=
  match r with
  | .ok (_, s') => s'
  | .error _ => s

/-- A call either leaves the state as it was or succeeds with the new state. -/
theorem settle_cases {σ : Type*} {ρ : Type*} (s : σ) (r : Except ε (ρ × σ)) :
    settle s r = s ∨ ∃ x, r = .ok x ∧ settle s r = x.2 := by
  cases r with
  | ok x => exact .inr ⟨x, rfl, rfl⟩
  | error e => exact .inl rfl

/-- The state after a call that returns only its new state. -/
def advance {σ : Type*} (s : σ) (r : Except ε σ) : σ :=
  match r with
  | .ok s' => s'
  | .error _ => s

theorem advance_cases {σ : Type*} (s : σ) (r : Except ε σ) :
    advance s r = s ∨ ∃ s', r = .ok s' ∧ advance s r = s' := by
  cases r with
  | ok s' => exact .inr ⟨s', rfl, rfl⟩
  | error e => exact .inl rfl

/-! ## Checks over a list -/

/-- Run `check` on each element in order and stop at the first failure. -/
def checkAll (check : α → Except ε Unit) : List α → Except ε Unit
  | [] => .ok ()
  | x :: xs => do
    check x
    checkAll check xs

@[simp] theorem checkAll_nil (check : α → Except ε Unit) : checkAll check [] = .ok () := rfl

variable {l : List α}

theorem checkAll_eq_ok {check : α → Except ε Unit} :
    checkAll check l = .ok () ↔ ∀ x ∈ l, check x = .ok () := by
  induction l with
  | nil => simp only [checkAll_nil, not_mem_nil, false_imp_iff, implies_true]
  | cons x l ih =>
    simp only [checkAll, bind_eq_ok, ih, forall_mem_cons]
    exact ⟨fun ⟨_, hx, hl⟩ => ⟨hx, hl⟩, fun ⟨hx, hl⟩ => ⟨(), hx, hl⟩⟩

/-- Run `check` on each element in order and fail with `dup` when its key was seen. -/
def checkDistinct {κ : Type*} [DecidableEq κ] (key : α → κ) (check : α → Except ε Unit)
    (dup : α → ε) : List κ → List α → Except ε Unit
  | _, [] => .ok ()
  | seen, x :: xs => do
    check x
    if key x ∈ seen then .error (dup x) else checkDistinct key check dup (key x :: seen) xs

theorem checkDistinct_eq_ok {κ : Type*} [DecidableEq κ] {key : α → κ}
    {check : α → Except ε Unit} {dup : α → ε} {seen : List κ} :
    checkDistinct key check dup seen l = .ok () ↔
      (∀ x ∈ l, check x = .ok ()) ∧ (l.map key).Nodup ∧ ∀ x ∈ l, key x ∉ seen := by
  induction l generalizing seen with
  | nil => simp [checkDistinct]
  | cons x l ih =>
    simp only [checkDistinct, bind_eq_ok, ite_error_eq_ok, ih, forall_mem_cons,
      map_cons, nodup_cons]
    constructor
    · rintro ⟨_, hx, hseen, hl, hnd, hout⟩
      refine ⟨⟨hx, hl⟩, ⟨?_, hnd⟩, hseen, fun y hy hmem => hout y hy (mem_cons_of_mem _ hmem)⟩
      intro hmem
      obtain ⟨y, hy, hkey⟩ := mem_map.mp hmem
      exact hout y hy (hkey ▸ mem_cons_self ..)
    · rintro ⟨⟨hx, hl⟩, ⟨hnot, hnd⟩, hseen, hout⟩
      refine ⟨(), hx, hseen, hl, hnd, ?_⟩
      intro y hy hmem
      rcases mem_cons.mp hmem with hkey | hmem
      · exact hnot (mem_map.mpr ⟨y, hy, hkey⟩)
      · exact hout y hy hmem

/-! ## Folds that may fail -/

/-- Left fold that stops at the first failure. -/
def foldOk (f : σ → α → Except ε σ) : σ → List α → Except ε σ
  | s, [] => .ok s
  | s, x :: xs => do
    let s' ← f s x
    foldOk f s' xs

section Fold

variable {f : σ → α → Except ε σ}

@[simp] theorem foldOk_nil (s : σ) : foldOk f s [] = .ok s := rfl

theorem foldOk_cons (s : σ) (x : α) (xs : List α) :
    foldOk f s (x :: xs) = (f s x >>= fun s' => foldOk f s' xs) := rfl

/-- What every successful step keeps, with the elements consumed so far, holds at
    the end of a successful fold. -/
theorem foldOk_invariant {I : List α → σ → Prop}
    (hstep : ∀ pre x s s', I pre s → f s x = .ok s' → I (pre ++ [x]) s')
    {s₀ s : σ} (h : foldOk f s₀ l = .ok s) (h0 : I [] s₀) : I l s := by
  suffices H : ∀ (rest pre : List α) (s₀ : σ), I pre s₀ → foldOk f s₀ rest = .ok s →
      I (pre ++ rest) s from H l [] s₀ h0 h
  intro rest
  induction rest with
  | nil =>
    intro pre s₀ hI h
    cases h
    simpa using hI
  | cons x rest ih =>
    intro pre s₀ hI h
    rw [foldOk_cons, bind_eq_ok] at h
    obtain ⟨s', hx, hrest⟩ := h
    simpa using ih (pre ++ [x]) s' (hstep pre x s₀ s' hI hx) hrest

/-- If every step succeeds where the invariant holds, the fold succeeds. -/
theorem foldOk_total {I : List α → σ → Prop}
    (hstep : ∀ pre x post s, l = pre ++ x :: post → I pre s →
      ∃ s', f s x = .ok s' ∧ I (pre ++ [x]) s')
    {s₀ : σ} (h0 : I [] s₀) : ∃ s, foldOk f s₀ l = .ok s ∧ I l s := by
  suffices H : ∀ (rest pre : List α) (s₀ : σ), l = pre ++ rest → I pre s₀ →
      ∃ s, foldOk f s₀ rest = .ok s ∧ I (pre ++ rest) s from H l [] s₀ rfl h0
  intro rest
  induction rest with
  | nil =>
    intro pre s₀ _ hI
    exact ⟨s₀, rfl, by simpa using hI⟩
  | cons x rest ih =>
    intro pre s₀ hl hI
    obtain ⟨s', hx, hI'⟩ := hstep pre x rest s₀ hl hI
    obtain ⟨s, hs, hIs⟩ := ih (pre ++ [x]) s' (by simpa using hl) hI'
    exact ⟨s, by rw [foldOk_cons, hx, ok_bind, hs], by simpa using hIs⟩

/-- A fold whose steps all succeed with `g` is the plain fold of `g`. -/
theorem foldOk_eq_foldl {g : σ → α → σ} (h : ∀ x ∈ l, ∀ s, f s x = .ok (g s x))
    (s : σ) : foldOk f s l = .ok (l.foldl g s) := by
  induction l generalizing s with
  | nil => rfl
  | cons x l ih =>
    have hx : f s x = .ok (g s x) := h x (mem_cons_self ..) s
    rw [foldOk_cons, hx, ok_bind, foldl_cons]
    exact ih (fun y hy => h y (mem_cons_of_mem _ hy)) (g s x)

/-- Where a fold fails, one of its steps fails with that error. -/
theorem foldOk_error {s : σ} {e : ε} (h : foldOk f s l = .error e) :
    ∃ x ∈ l, ∃ s', f s' x = .error e := by
  induction l generalizing s with
  | nil => exact absurd h (by simp)
  | cons x l ih =>
    rw [foldOk_cons] at h
    cases hx : f s x with
    | error e' =>
      rw [hx, error_bind] at h
      exact ⟨x, mem_cons_self .., s, hx.trans h⟩
    | ok s' =>
      rw [hx, ok_bind] at h
      obtain ⟨y, hy, t, ht⟩ := ih h
      exact ⟨y, mem_cons_of_mem _ hy, t, ht⟩

/-- A fold without a failing step succeeds. -/
theorem exists_foldOk (h : ∀ x ∈ l, ∀ s, ∃ s', f s x = .ok s') (s : σ) :
    ∃ s', foldOk f s l = .ok s' := by
  cases hfold : foldOk f s l with
  | ok s' => exact ⟨s', rfl⟩
  | error e =>
    obtain ⟨x, hx, t, ht⟩ := foldOk_error hfold
    obtain ⟨t', ht'⟩ := h x hx t
    exact absurd (ht.symm.trans ht') (by simp)

/-- Every step of a fold that succeeds succeeds. -/
theorem step_of_foldOk {s t : σ} (h : foldOk f s l = .ok t) :
    ∀ x ∈ l, ∃ s₁ s₂, f s₁ x = .ok s₂ := by
  induction l generalizing s with
  | nil => simp
  | cons x l ih =>
    rw [foldOk_cons, bind_eq_ok] at h
    obtain ⟨s', hx, hrest⟩ := h
    intro y hy
    rcases mem_cons.mp hy with rfl | hy
    · exact ⟨s, s', hx⟩
    · exact ih hrest y hy

end Fold

end Caap.Lib
