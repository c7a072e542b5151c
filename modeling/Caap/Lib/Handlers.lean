/-
  Caap.Lib.Handlers

  Programs that look at how another program ended (`attempt`) and programs that run with a
  part of the state replaced (`within`).
-/

import Caap.Lib.Effects

namespace Caap.Lib

variable {σ ε α ρ : Type}

/-- Run a program and return how it ended. -/
def attempt (m : ExceptT ε (StateM σ) α) : ExceptT ε (StateM σ) (Except ε α) :=
  fun s => (.ok (m s).1, (m s).2)

/-- Return a result or fail with an error. -/
def conclude (r : Except ε α) : ExceptT ε (StateM σ) α := fun s => (r, s)

/-- Run a program with a part of the state replaced, and put the part back however the
    program ends. -/
def within (read : σ → ρ) (put : ρ → σ → σ) (part : ρ) (m : ExceptT ε (StateM σ) α) :
    ExceptT ε (StateM σ) α :=
  fun s => ((m (put part s)).1, put (read s) (m (put part s)).2)

end Caap.Lib
