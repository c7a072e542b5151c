/-
  Caap.Lib.Action

  Computations that change a state and may fail, where a failure keeps the changes made
  before it (a method that mutates its receiver and returns early).  `Keeps P x` says
  that `x` preserves `P` whether it succeeds or fails; the rules follow the way an
  action is put together.
-/

import Caap.Lib.Result

namespace Caap.Lib

open Except

/-- From a state to an outcome and the state left behind. -/
def Action (ε σ α : Type) : Type := σ → Except ε α × σ

namespace Action

variable {ε σ α β : Type}

/-- Run `x`, then `f` on its result; a failure of `x` is the failure of the whole. -/
def andThen (x : Action ε σ α) (f : α → Action ε σ β) : Action ε σ β := fun s =>
  match x s with
  | (.ok a, s') => f a s'
  | (.error e, s') => (.error e, s')

instance : Monad (Action ε σ) where
  pure a := fun s => (.ok a, s)
  bind := andThen

/-- Change the state. -/
def modify (f : σ → σ) : Action ε σ Unit := fun s => (.ok (), f s)

/-- An outcome computed from the state, which it leaves alone. -/
def check (f : σ → Except ε α) : Action ε σ α := fun s => (f s, s)

/-- A call that returns its new state with the result, and writes nothing when it fails. -/
def call (f : σ → Except ε (α × σ)) : Action ε σ α := fun s =>
  match f s with
  | .ok (a, s') => (.ok a, s')
  | .error e => (.error e, s)

/-- A call that returns its new state, and writes nothing when it fails. -/
def update (f : σ → Except ε σ) : Action ε σ Unit := call fun s => (f s).map fun s' => ((), s')

/-- The same computation without its result. -/
def ignore (x : Action ε σ α) : Action ε σ Unit := fun s =>
  ((x s).1.map fun _ => (), (x s).2)

/-- The outcome is a failure that left the state as it was, or a success. -/
def Atomic (x : Action ε σ α) (s : σ) : Prop := ∀ e s', x s = (.error e, s') → s' = s

variable {x : Action ε σ α} {s : σ} {a : α}

theorem Atomic.of_ok {s' : σ} (h : x s = (.ok a, s')) : Atomic x s := by
  intro e t herr
  rw [h] at herr
  exact absurd (congrArg Prod.fst herr) (by simp)

theorem Atomic.of_error {e : ε} (h : x s = (.error e, s)) : Atomic x s := by
  intro e' t herr
  rw [h] at herr
  exact (congrArg Prod.snd herr).symm

theorem Atomic.ignore (h : Atomic x s) : Atomic (ignore x) s := by
  intro e t herr
  rcases hx : x s with ⟨r, s'⟩
  rw [Action.ignore, hx, Prod.mk.injEq] at herr
  cases r with
  | ok a => exact absurd herr.1 (by simp [Except.map])
  | error e' => exact herr.2.symm.trans (h e' s' hx)

theorem Atomic.call (f : σ → Except ε (α × σ)) (s : σ) : Atomic (call f) s := by
  cases hf : f s with
  | ok r => exact .of_ok (show Action.call f s = (.ok r.1, r.2) by rw [Action.call, hf])
  | error e => exact .of_error (show Action.call f s = (.error e, s) by rw [Action.call, hf])

/-! ## What a successful run did -/

theorem bind_of_ok (f : α → Action ε σ β) {s' : σ}
    (h : x s = (.ok a, s')) : (x >>= f) s = f a s' := by
  show andThen x f s = _
  rw [andThen, h]

theorem bind_of_error (f : α → Action ε σ β) {s' : σ} {e : ε}
    (h : x s = (.error e, s')) : (x >>= f) s = (.error e, s') := by
  show andThen x f s = _
  rw [andThen, h]

variable {f : σ → Except ε α}

theorem bind_check_of_ok (k : α → Action ε σ β) (h : f s = .ok a) : (check f >>= k) s = k a s :=
  bind_of_ok k (show (f s, s) = _ by rw [h])

theorem bind_check_of_error (k : α → Action ε σ β) {e : ε}
    (h : f s = .error e) : (check f >>= k) s = (.error e, s) :=
  bind_of_error k (show (f s, s) = _ by rw [h])

/-- A check is atomic, so only what follows a successful one matters. -/
theorem Atomic.check_bind {k : α → Action ε σ β}
    (h : ∀ a, f s = .ok a → Atomic (k a) s) : Atomic (check f >>= k) s := by
  cases hf : f s with
  | ok a =>
    intro e t herr
    rw [bind_check_of_ok k hf] at herr
    exact h a hf e t herr
  | error e => exact .of_error (bind_check_of_error k hf)

theorem bind_modify (f : σ → σ) (k : Unit → Action ε σ β) (s : σ) :
    (modify f >>= k) s = k () (f s) := bind_of_ok k rfl

theorem bind_eq_ok {f : α → Action ε σ β} {t : σ} {b : β} :
    (x >>= f) s = (.ok b, t) ↔ ∃ a s', x s = (.ok a, s') ∧ f a s' = (.ok b, t) := by
  rcases hx : x s with ⟨r, s'⟩
  cases r with
  | ok a =>
    rw [bind_of_ok f hx]
    constructor
    · intro h
      exact ⟨a, s', rfl, h⟩
    · rintro ⟨a', s'', heq, h⟩
      obtain ⟨rfl, rfl⟩ := heq
      exact h
  | error e =>
    rw [bind_of_error f hx]
    simp

theorem pure_eq_ok {t : σ} {b : α} : (pure a : Action ε σ α) s = (.ok b, t) ↔ a = b ∧ s = t := by
  show ((ok a : Except ε α), s) = (.ok b, t) ↔ _
  simp

theorem modify_eq_ok {f : σ → σ} {t : σ} {u : Unit} :
    (modify f : Action ε σ Unit) s = (.ok u, t) ↔ f s = t := by
  show ((ok () : Except ε Unit), f s) = (.ok u, t) ↔ _
  simp

theorem check_eq_ok {t : σ} : check f s = (.ok a, t) ↔ f s = .ok a ∧ s = t := by
  show (f s, s) = (.ok a, t) ↔ _
  simp

theorem call_eq_ok {f : σ → Except ε (α × σ)} {t : σ} :
    call f s = (.ok a, t) ↔ f s = .ok (a, t) := by
  rw [call]
  cases f s with
  | ok x => simp [Prod.ext_iff]
  | error e => simp

theorem update_eq_ok {f : σ → Except ε σ} {t : σ} {u : Unit} :
    update f s = (.ok u, t) ↔ f s = .ok t := by
  rw [update, call_eq_ok]
  cases f s with
  | ok s' => simp [Except.map]
  | error e => simp [Except.map]

/-! ## Checks first, writes afterwards -/

theorem modify_eq_update (f : σ → σ) : (modify f : Action ε σ Unit) = update fun s => .ok (f s) :=
  rfl

/-- A write in front of a call that cannot fail. -/
theorem modify_bind_update (f g : σ → σ) :
    (update (fun s => .ok (f s)) >>= fun _ => update fun s => .ok (g s) : Action ε σ Unit) =
      update fun s => .ok (g (f s)) := rfl

/-- Checks in front of a call that writes nothing when it fails make another one. -/
theorem check_bind_update (f : σ → Except ε α) (g : α → σ → Except ε σ) :
    (check f >>= fun a => update (g a)) = update fun s => f s >>= fun a => g a s := by
  funext s
  cases hf : f s with
  | ok a =>
    rw [bind_check_of_ok _ hf, update, update, call, call, hf]
    rfl
  | error e =>
    rw [bind_check_of_error _ hf, update, call, hf]
    rfl

/-! ## What every run keeps -/

/-- `x` preserves `P`, also when it fails. -/
def Keeps (P : σ → Prop) (x : Action ε σ α) : Prop := ∀ s, P s → P (x s).2

variable {P : σ → Prop}

theorem Keeps.pure (a : α) : Keeps P (pure a : Action ε σ α) := fun _ h => h

theorem Keeps.check (f : σ → Except ε α) : Keeps P (check f) := fun _ h => h

theorem Keeps.modify {f : σ → σ} (h : ∀ s, P s → P (f s)) :
    Keeps P (modify f : Action ε σ Unit) := h

theorem Keeps.call {f : σ → Except ε (α × σ)}
    (h : ∀ s a s', P s → f s = .ok (a, s') → P s') : Keeps P (call f) := by
  intro s hs
  rw [Action.call]
  cases hf : f s with
  | ok x => exact h s x.1 x.2 hs hf
  | error e => exact hs

/-- An update leaves the state alone or puts the new one in its place. -/
theorem of_update {f : σ → Except ε σ} {s : σ} (hs : P s) (hf : ∀ s', f s = .ok s' → P s') :
    P (update f s).2 := by
  cases hfs : f s with
  | ok s' =>
    rw [update_eq_ok (u := ()).mpr hfs]
    exact hf s' hfs
  | error e =>
    rw [update, call, hfs]
    exact hs

theorem Keeps.update {f : σ → Except ε σ}
    (h : ∀ s s', P s → f s = .ok s' → P s') : Keeps P (update f) :=
  fun s hs => of_update hs fun s' => h s s' hs

theorem Keeps.bind {f : α → Action ε σ β} (hx : Keeps P x)
    (hf : ∀ a, Keeps P (f a)) : Keeps P (x >>= f) := by
  intro s hs
  have hs' : P (x s).2 := hx s hs
  rcases hxs : x s with ⟨r, s'⟩
  rw [hxs] at hs'
  cases r with
  | ok a =>
    rw [bind_of_ok f hxs]
    exact hf a s' hs'
  | error e =>
    rw [bind_of_error f hxs]
    exact hs'

theorem Keeps.ite {c : Prop} [Decidable c] {y : Action ε σ α} (hx : Keeps P x)
    (hy : Keeps P y) : Keeps P (if c then x else y) := by
  by_cases hc : c
  · rw [if_pos hc]
    exact hx
  · rw [if_neg hc]
    exact hy

/-! ## What every run keeps, with a property of its result -/

/-- `x` preserves `P`, also when it fails, and a result it returns satisfies `Q`. -/
def KeepsAnd (P : σ → Prop) (Q : α → Prop) (x : Action ε σ α) : Prop :=
  ∀ s, P s → P (x s).2 ∧ ∀ a, (x s).1 = .ok a → Q a

variable {Q : α → Prop}

theorem KeepsAnd.keeps (h : KeepsAnd P Q x) : Keeps P x := fun s hs => (h s hs).1

theorem Keeps.and_true (h : Keeps P x) :
    KeepsAnd P (fun _ => True) x := fun s hs => ⟨h s hs, fun _ _ => trivial⟩

theorem KeepsAnd.pure (ha : Q a) : KeepsAnd P Q (pure a : Action ε σ α) := by
  refine fun s hs => ⟨hs, fun b hb => ?_⟩
  rw [← ok.inj (show ok a = ok b from hb)]
  exact ha

theorem KeepsAnd.call {f : σ → Except ε (α × σ)}
    (h : ∀ s a s', P s → f s = .ok (a, s') → P s' ∧ Q a) : KeepsAnd P Q (call f) := by
  intro s hs
  rw [Action.call]
  cases hf : f s with
  | ok x =>
    refine ⟨(h s x.1 x.2 hs hf).1, fun a ha => ?_⟩
    rw [← ok.inj (show ok x.1 = ok a from ha)]
    exact (h s x.1 x.2 hs hf).2
  | error e => exact ⟨hs, fun a ha => absurd ha (by simp)⟩

theorem KeepsAnd.check
    (h : ∀ s a, f s = .ok a → Q a) : KeepsAnd P Q (check f) := fun s hs => ⟨hs, h s⟩

theorem KeepsAnd.bind {R : β → Prop}
    {f : α → Action ε σ β} (hx : KeepsAnd P Q x) (hf : ∀ a, Q a → KeepsAnd P R (f a)) :
    KeepsAnd P R (x >>= f) := by
  intro s hs
  obtain ⟨hs', ha⟩ := hx s hs
  rcases hxs : x s with ⟨r, s'⟩
  rw [hxs] at hs' ha
  cases r with
  | ok a =>
    rw [bind_of_ok f hxs]
    exact hf a (ha a rfl) s' hs'
  | error e =>
    rw [bind_of_error f hxs]
    exact ⟨hs', fun b hb => absurd hb (by simp)⟩

end Action

end Caap.Lib
