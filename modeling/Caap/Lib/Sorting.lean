/-
  Caap.Lib.Sorting

  Sorting by the order of the element type, removal of consecutive repetitions, and the
  check for equal neighbours.  Sorting and then removing repetitions gives the strictly
  increasing list of the elements (`pairwise_sortDedup`, `mem_sortDedup`); a strictly
  increasing list is a fixed point of all three.
-/

import Caap.Lib.OrdMap

namespace Caap.Lib

open Std List

set_option linter.unusedSectionVars false

variable {α : Type*} [Ord α]

/-- `a` is at most `b` in the type's order. -/
def ordLe (a b : α) : Prop := (compare a b).isLE = true

/-- `a` is strictly below `b` in the type's order. -/
def ordLt (a b : α) : Prop := compare a b = .lt

instance : DecidableRel (ordLe : α → α → Prop) := fun _ _ => inferInstanceAs (Decidable (_ = _))

instance : DecidableRel (ordLt : α → α → Prop) := fun _ _ => inferInstanceAs (Decidable (_ = _))

/-- Stable sort. -/
def sort (l : List α) : List α := l.insertionSort ordLe

/-- Remove consecutive repetitions. -/
def dedup [DecidableEq α] : List α → List α
  | [] => []
  | [a] => [a]
  | a :: b :: l => if a = b then dedup (b :: l) else a :: dedup (b :: l)

/-- Some element is followed by an equal one. -/
def hasRepeat [DecidableEq α] : List α → Bool
  | [] => false
  | [_] => false
  | a :: b :: l => decide (a = b) || hasRepeat (b :: l)

/-- Every element is strictly below the one after it. -/
def isStrictlySorted : List α → Bool
  | [] => true
  | [_] => true
  | a :: b :: l => decide (ordLt a b) && isStrictlySorted (b :: l)

variable {a : α} {l : List α}

section Order

variable [TransOrd α]

theorem ordLe_of_ordLt {b : α} (h : ordLt a b) : ordLe a b := by
  rw [ordLe, show compare a b = .lt from h]
  rfl

theorem ordLt_trans {b c : α} (hab : ordLt a b) (hbc : ordLt b c) : ordLt a c :=
  TransCmp.lt_trans hab hbc

theorem ordLe_trans {b c : α} (hab : ordLe a b) (hbc : ordLe b c) : ordLe a c :=
  TransCmp.isLE_trans hab hbc

theorem ordLe_total (a b : α) : ordLe a b ∨ ordLe b a := by
  have hswap : compare b a = (compare a b).swap := OrientedCmp.eq_swap
  unfold ordLe
  rw [hswap]
  cases compare a b <;> simp

theorem ordLt_of_ordLe_of_ne [LawfulEqOrd α] {b : α} (h : ordLe a b) (hne : a ≠ b) : ordLt a b := by
  unfold ordLe at h
  cases hc : compare a b with
  | lt => exact hc
  | eq => exact absurd (Std.compare_eq_iff_eq.mp hc) hne
  | gt => rw [hc] at h; exact absurd h (by simp)

theorem ne_of_ordLt {b : α} (h : ordLt a b) : a ≠ b := by
  intro heq
  subst heq
  have hself : compare a a = .eq := ReflCmp.compare_self
  exact absurd (hself.symm.trans h) (by simp)

theorem isStrictlySorted_iff : isStrictlySorted l = true ↔ l.Pairwise ordLt := by
  induction l with
  | nil => simp [isStrictlySorted]
  | cons a l ih =>
    cases l with
    | nil => simp [isStrictlySorted]
    | cons b l =>
      rw [isStrictlySorted, Bool.and_eq_true, decide_eq_true_iff, ih, pairwise_cons (a := a)]
      refine and_congr_left fun hrest => ⟨fun hab x hx => ?_, fun h => h b (mem_cons_self ..)⟩
      rcases mem_cons.mp hx with heq | hmem
      · rw [heq]
        exact hab
      · exact ordLt_trans hab ((pairwise_cons.mp hrest).1 x hmem)

theorem sort_of_pairwise_ordLt (h : l.Pairwise ordLt) : sort l = l :=
  List.Pairwise.insertionSort_eq (h.imp ordLe_of_ordLt)

theorem pairwise_sort (l : List α) : (sort l).Pairwise ordLe := by
  have : Std.Total (ordLe : α → α → Prop) := ⟨ordLe_total⟩
  have : IsTrans α ordLe := ⟨fun _ _ _ => ordLe_trans⟩
  exact pairwise_insertionSort ordLe l

/-- Sorting forgets the order of what it is given. -/
theorem sort_eq_of_perm [LawfulEqOrd α] {l' : List α} (h : l.Perm l') : sort l = sort l' := by
  have hperm : (sort l).Perm (sort l') :=
    ((perm_insertionSort _ l).trans h).trans (perm_insertionSort _ l').symm
  refine hperm.eq_of_pairwise (fun a b _ _ hab hba => ?_) (pairwise_sort l) (pairwise_sort l')
  by_contra hne
  have hlt := ordLt_of_ordLe_of_ne hab hne
  have hgt := ordLt_of_ordLe_of_ne hba (Ne.symm hne)
  exact ne_of_ordLt (ordLt_trans hlt hgt) rfl

theorem mem_sort : a ∈ sort l ↔ a ∈ l := mem_insertionSort ordLe

end Order

section Dedup

variable [DecidableEq α]

theorem mem_dedup : a ∈ dedup l ↔ a ∈ l := by
  induction l with
  | nil => rfl
  | cons b l ih =>
    cases l with
    | nil => rfl
    | cons c l =>
      rw [dedup]
      by_cases hbc : b = c
      · rw [if_pos hbc, ih, hbc]
        simp
      · rw [if_neg hbc, mem_cons, ih, ← mem_cons]

theorem dedup_of_nodup (h : l.Nodup) : dedup l = l := by
  induction l with
  | nil => rfl
  | cons b l ih =>
    cases l with
    | nil => rfl
    | cons c l =>
      obtain ⟨hnot, hrest⟩ := nodup_cons.mp h
      have hbc : b ≠ c := fun heq => hnot (heq ▸ mem_cons_self ..)
      rw [dedup, if_neg hbc, ih hrest]

theorem pairwise_dedup [TransOrd α] [LawfulEqOrd α] (h : l.Pairwise ordLe) :
    (dedup l).Pairwise ordLt := by
  induction l with
  | nil => exact List.Pairwise.nil
  | cons b l ih =>
    cases l with
    | nil => exact pairwise_singleton _ _
    | cons c l =>
      have hrest := (pairwise_cons.mp h).2
      rw [dedup]
      by_cases hbc : b = c
      · rw [if_pos hbc]
        exact ih hrest
      · rw [if_neg hbc]
        refine pairwise_cons.mpr ⟨?_, ih hrest⟩
        intro x hx
        have hbc' : ordLt b c :=
          ordLt_of_ordLe_of_ne ((pairwise_cons.mp h).1 c (mem_cons_self ..)) hbc
        rcases mem_cons.mp (mem_dedup.mp hx) with heq | hmem
        · rw [heq]
          exact hbc'
        · have hcx : ordLe c x := (pairwise_cons.mp hrest).1 x hmem
          by_cases heq : c = x
          · rw [← heq]
            exact hbc'
          · exact ordLt_trans hbc' (ordLt_of_ordLe_of_ne hcx heq)

theorem hasRepeat_eq_false [TransOrd α] (h : l.Pairwise ordLt) : hasRepeat l = false := by
  induction l with
  | nil => rfl
  | cons b l ih =>
    cases l with
    | nil => rfl
    | cons c l =>
      have hne : b ≠ c := ne_of_ordLt ((pairwise_cons.mp h).1 c (mem_cons_self ..))
      rw [hasRepeat, ih (pairwise_cons.mp h).2, decide_eq_false hne]
      rfl

/-- Sort and remove repetitions. -/
def sortDedup (l : List α) : List α := dedup (sort l)

theorem pairwise_sortDedup [TransOrd α] [LawfulEqOrd α] (l : List α) :
    (sortDedup l).Pairwise ordLt := pairwise_dedup (pairwise_sort l)

theorem sortDedup_of_pairwise [TransOrd α] (h : l.Pairwise ordLt) : sortDedup l = l := by
  rw [sortDedup, sort_of_pairwise_ordLt h]
  exact dedup_of_nodup (h.imp ne_of_ordLt)

theorem mem_sortDedup : a ∈ sortDedup l ↔ a ∈ l := by
  rw [sortDedup, mem_dedup]
  exact mem_insertionSort ordLe

end Dedup

end Caap.Lib
