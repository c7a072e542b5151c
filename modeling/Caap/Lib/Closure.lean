/-
  Caap.Lib.Closure

  The transitive closure of an edge test, computed over a list of the elements a path may
  run through: with each further element, the paths that run through it once are added.
-/

import Mathlib.Logic.Relation
import Mathlib.Data.List.Basic

namespace Caap.Lib

open Relation

variable {α : Type*} {edge : α → α → Bool} {through : List α} {a b via : α}

/-- A path from `a` to `b` leads through elements of the list only. -/
def leads (edge : α → α → Bool) : List α → α → α → Bool
  | [], a, b => edge a b
  | via :: through, a, b =>
    leads edge through a b || (leads edge through a via && leads edge through via b)

theorem leads_cons : leads edge (via :: through) a b = true ↔ leads edge through a b = true ∨
      (leads edge through a via = true ∧ leads edge through via b = true) := by
  simp [leads]

theorem leads_of_edge (h : edge a b = true) : leads edge through a b = true := by
  induction through with
  | nil => exact h
  | cons via through ih => exact leads_cons.mpr (.inl ih)

theorem transGen_of_leads (h : leads edge through a b = true) :
    TransGen (fun x y => edge x y = true) a b := by
  induction through generalizing a b with
  | nil => exact .single h
  | cons via through ih =>
    rcases leads_cons.mp h with hab | ⟨hav, hvb⟩
    · exact ih hab
    · exact (ih hav).trans (ih hvb)

/-- Paths that meet in an element of the list are one path. -/
theorem leads_trans (hvia : via ∈ through) (hav : leads edge through a via = true)
    (hvb : leads edge through via b = true) : leads edge through a b = true := by
  induction through generalizing a b via with
  | nil => exact absurd hvia List.not_mem_nil
  | cons first through ih =>
    rw [leads_cons] at hav hvb ⊢
    rcases List.mem_cons.mp hvia with rfl | hmem
    · -- a path to or from the added element needs it only at its end
      refine .inr ⟨?_, ?_⟩
      · exact hav.elim id And.left
      · exact hvb.elim id And.right
    · rcases hav with hav | ⟨haf, hfv⟩ <;> rcases hvb with hvb | ⟨hvf, hfb⟩
      · exact .inl (ih hmem hav hvb)
      · exact .inr ⟨ih hmem hav hvf, hfb⟩
      · exact .inr ⟨haf, ih hmem hfv hvb⟩
      · exact .inr ⟨haf, hfb⟩

/-- Where every edge starts in the list, the test is the transitive closure. -/
theorem leads_iff (hedge : ∀ x y, edge x y = true → x ∈ through) :
    leads edge through a b = true ↔ TransGen (fun x y => edge x y = true) a b := by
  refine ⟨transGen_of_leads, fun h => ?_⟩
  induction h with
  | single hab => exact leads_of_edge hab
  | tail _ hbc ih => exact leads_trans (hedge _ _ hbc) ih (leads_of_edge hbc)

end Caap.Lib
