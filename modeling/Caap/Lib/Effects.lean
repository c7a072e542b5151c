/-
  Caap.Lib.Effects

  Programs with a state that survives their errors (`ExceptT ε (StateM σ)`), and what they
  keep.  `Keeps I E m φ` says: from a state with the invariant `I`, the run of `m` ends in a
  state with the invariant, either with a result in `φ` or with an error in `E`.

  `Related R E m m' Q` compares two programs: from related states they return results that
  stand in `Q`, or both end with an error; only an error in `E` may end one of them alone.

  `Returns P m Q` is total: from a state in `P` the program returns, with a result and a state
  in `Q`.

  There is one rule for each way to build a program.
-/

import Mathlib.Data.List.Basic
import Mathlib.Tactic

namespace Caap.Lib

section Keeps

variable {σ ε α β : Type} {I : σ → Prop} {E : ε → Prop}
  {m : ExceptT ε (StateM σ) α} {φ : α → Prop} {ψ : β → Prop}

/-- What holds of the end of a run. -/
def Finishes (Q : α → σ → Prop) (E : ε → σ → Prop) : Except ε α × σ → Prop
  | (.ok a, s) => Q a s
  | (.error e, s) => E e s

/-- The program keeps the invariant, its results are in `φ` and its errors in `E`. -/
def Keeps (I : σ → Prop) (E : ε → Prop) (m : ExceptT ε (StateM σ) α) (φ : α → Prop) : Prop :=
  ∀ s, I s → Finishes (fun a s' => φ a ∧ I s') (fun e s' => E e ∧ I s') (m s)

theorem Keeps.pure {a : α} (h : φ a) :
    Keeps I E (pure a : ExceptT ε (StateM σ) α) φ :=
  fun _ hs => ⟨h, hs⟩

theorem Keeps.throw {e : ε} (h : E e) :
    Keeps I E (throw e : ExceptT ε (StateM σ) α) φ :=
  fun _ hs => ⟨h, hs⟩

theorem bind_run (m : ExceptT ε (StateM σ) α) (f : α → ExceptT ε (StateM σ) β) (s : σ) :
    (m >>= f) s = match m s with
      | (.ok a, s') => f a s'
      | (.error e, s') => (.error e, s') := by
  simp only [bind, ExceptT.bind, ExceptT.mk, ExceptT.bindCont, StateT.bind]
  rcases m s with ⟨_ | _, _⟩ <;> rfl

theorem Keeps.bind {f : α → ExceptT ε (StateM σ) β}
    (hm : Keeps I E m φ) (hf : ∀ a, φ a → Keeps I E (f a) ψ) :
    Keeps I E (m >>= f) ψ := by
  intro s hs
  have hrun := hm s hs
  rw [bind_run]
  rcases hend : m s with ⟨_ | a, s'⟩
  · rw [hend] at hrun
    exact hrun
  · rw [hend] at hrun
    exact hf a hrun.1 s' hrun.2

/-- A program that starts with the state: the invariant holds of what is read. -/
theorem Keeps.get_bind {f : σ → ExceptT ε (StateM σ) β}
    (hf : ∀ s, I s → Keeps I E (f s) ψ) : Keeps I E (get >>= f) ψ := by
  intro s hs
  exact hf s hs s hs

theorem Keeps.set {s : σ} {φ : PUnit → Prop} (hs : I s) (h : φ ⟨⟩) :
    Keeps I E (set s : ExceptT ε (StateM σ) PUnit) φ :=
  fun _ _ => ⟨h, hs⟩

theorem Keeps.modify {f : σ → σ} {φ : PUnit → Prop} (hf : ∀ s, I s → I (f s)) (h : φ ⟨⟩) :
    Keeps I E (modify f : ExceptT ε (StateM σ) PUnit) φ :=
  fun s hs => ⟨h, hf s hs⟩

theorem Keeps.mono {ψ : α → Prop} (hm : Keeps I E m φ)
    (h : ∀ a, φ a → ψ a) : Keeps I E m ψ := by
  intro s hs
  have hrun := hm s hs
  rcases hend : m s with ⟨_ | a, s'⟩
  · rw [hend] at hrun
    exact hrun
  · rw [hend] at hrun
    exact ⟨h a hrun.1, hrun.2⟩

theorem Keeps.ite {c : Prop} [Decidable c] {n : ExceptT ε (StateM σ) α}
    (hm : c → Keeps I E m φ) (hn : ¬c → Keeps I E n φ) : Keeps I E (if c then m else n) φ := by
  split_ifs with hc
  · exact hm hc
  · exact hn hc

/-- The end of a run that returns. -/
theorem Keeps.of_ok {s s' : σ} {a : α}
    (hm : Keeps I E m φ) (hs : I s) (hrun : m s = (.ok a, s')) : φ a ∧ I s' := by
  have := hm s hs
  rw [hrun] at this
  exact this

/-- The end of a run that fails. -/
theorem Keeps.of_error {s s' : σ} {e : ε}
    (hm : Keeps I E m φ) (hs : I s) (hrun : m s = (.error e, s')) : E e ∧ I s' := by
  have := hm s hs
  rw [hrun] at this
  exact this

end Keeps

section Returns

variable {σ ε α β : Type} {P : σ → Prop} {Q : α → σ → Prop} {R : β → σ → Prop}

/-- From a state in `P` the program returns, with a result and a state in `Q`. -/
def Returns (P : σ → Prop) (m : ExceptT ε (StateM σ) α) (Q : α → σ → Prop) : Prop :=
  ∀ s, P s → ∃ a s', m s = (.ok a, s') ∧ Q a s'

theorem Returns.pure {a : α} (h : ∀ s, P s → Q a s) :
    Returns P (pure a : ExceptT ε (StateM σ) α) Q :=
  fun s hs => ⟨a, s, rfl, h s hs⟩

theorem Returns.bind {m : ExceptT ε (StateM σ) α} {f : α → ExceptT ε (StateM σ) β}
    (hm : Returns P m Q) (hf : ∀ a, Returns (Q a) (f a) R) : Returns P (m >>= f) R := by
  intro s hs
  obtain ⟨a, s', hrun, hq⟩ := hm s hs
  rw [bind_run, hrun]
  exact hf a s' hq

theorem Returns.get_bind {f : σ → ExceptT ε (StateM σ) β}
    (hf : ∀ s, P s → Returns (· = s) (f s) R) : Returns P (get >>= f) R :=
  fun s hs => hf s hs s rfl

theorem Returns.set {s : σ} {Q : PUnit → σ → Prop} (h : Q ⟨⟩ s) :
    Returns P (set s : ExceptT ε (StateM σ) PUnit) Q :=
  fun _ _ => ⟨⟨⟩, s, rfl, h⟩

theorem Returns.modify {f : σ → σ} {Q : PUnit → σ → Prop} (h : ∀ s, P s → Q ⟨⟩ (f s)) :
    Returns P (modify f : ExceptT ε (StateM σ) PUnit) Q :=
  fun s hs => ⟨⟨⟩, f s, rfl, h s hs⟩

end Returns

section Related

variable {σ ε α β γ δ : Type} {R : σ → σ → Prop} {E : ε → Prop}

/-- Two ends that are compared; an error in `E` may end one of them alone. -/
def EndsAlike (R : σ → σ → Prop) (E : ε → Prop) (Q : α → β → Prop) :
    Except ε α × σ → Except ε β × σ → Prop
  | (.ok a, s), (.ok b, t) => Q a b ∧ R s t
  | (.ok _, _), (.error e, _) => E e
  | (.error e, _), (.ok _, _) => E e
  | (.error _, _), (.error _, _) => True

/-- The programs end alike from related states. -/
def Related (R : σ → σ → Prop) (E : ε → Prop) (m : ExceptT ε (StateM σ) α)
    (m' : ExceptT ε (StateM σ) β) (Q : α → β → Prop) : Prop :=
  ∀ s t, R s t → EndsAlike R E Q (m s) (m' t)

theorem Related.pure {a : α} {b : β} {Q : α → β → Prop} (h : Q a b) :
    Related R E (pure a) (pure b) Q :=
  fun _ _ hR => ⟨h, hR⟩

theorem Related.throw {e e' : ε} {Q : α → β → Prop} : Related R E (throw e) (throw e') Q :=
  fun _ _ _ => trivial

theorem Related.bind {m : ExceptT ε (StateM σ) α} {m' : ExceptT ε (StateM σ) β}
    {f : α → ExceptT ε (StateM σ) γ} {f' : β → ExceptT ε (StateM σ) δ} {P : α → β → Prop}
    {Q : γ → δ → Prop} (hm : Related R E m m' P) (hf : ∀ a b, P a b → Related R E (f a) (f' b) Q) :
    Related R E (m >>= f) (m' >>= f') Q := by
  intro s t hR
  have hfirst := hm s t hR
  rw [bind_run, bind_run]
  revert hfirst
  rcases m s with ⟨e | a, s'⟩ <;> rcases m' t with ⟨e' | b, t'⟩ <;> intro hfirst
  · trivial
  · -- the first program has stopped: the rest of the second does not matter
    show EndsAlike R E Q (.error e, s') (f' b t')
    rcases f' b t' with ⟨e'' | d, t''⟩
    · trivial
    · exact hfirst
  · show EndsAlike R E Q (f a s') (.error e', t')
    rcases f a s' with ⟨e'' | c, s''⟩
    · trivial
    · exact hfirst
  · exact hf a b hfirst.1 s' t' hfirst.2

/-- Both programs start with their states. -/
theorem Related.get_bind {f f' : σ → ExceptT ε (StateM σ) γ} {Q : γ → γ → Prop}
    (hf : ∀ s t, R s t → Related R E (f s) (f' t) Q) : Related R E (get >>= f) (get >>= f') Q :=
  fun s t hR => hf s t hR s t hR

theorem Related.set {s t : σ} (h : R s t) : Related R E (set s) (set t) Eq :=
  fun _ _ _ => ⟨rfl, h⟩

theorem Related.modify {f g : σ → σ} (h : ∀ s t, R s t → R (f s) (g t)) :
    Related R E (modify f) (modify g) Eq :=
  fun s t hR => ⟨rfl, h s t hR⟩

theorem Related.ite {c : Prop} [Decidable c] {m n : ExceptT ε (StateM σ) α}
    {m' n' : ExceptT ε (StateM σ) β} {Q : α → β → Prop} (hm : c → Related R E m m' Q)
    (hn : ¬c → Related R E n n' Q) : Related R E (if c then m else n) (if c then m' else n') Q := by
  split
  · exact hm ‹c›
  · exact hn ‹¬c›

end Related

end Caap.Lib
