/-
  Caap.Lib.GraphSearch

  What the two searches of a graph leave behind.  A depth-first search leaves an order in
  which everything stands after its successors (`Postorder`): such an order is closed
  under the successor relation and no cycle goes through it.  A breadth-first search
  leaves the order of discovery with the parent of each element (`SearchTree`): the
  branch of an element (`Branch`) goes through its predecessor, and through no other
  element of the branch that has it as a successor (`SearchTree.sole_predecessor`).
-/

import Mathlib

namespace Caap.Lib

open Relation List

variable {α : Type*}

/-! ## Depth first -/

/-- `b` is one of the successors of `a`. -/
def Succ (next : α → Option (List α)) (a b : α) : Prop := ∃ bs, next a = some bs ∧ b ∈ bs

/-- An order in which every element is listed once, after all of its successors. -/
structure Postorder (next : α → Option (List α)) (order : List α) : Prop where
  nodup : order.Nodup
  known : ∀ a ∈ order, (next a).isSome = true
  after : ∀ before a rest, order = before ++ a :: rest → ∀ b, Succ next a b → b ∈ before

variable {a : α}

namespace Postorder

variable {next : α → Option (List α)} {order : List α}

theorem nil : Postorder next [] := ⟨nodup_nil, by simp, by simp⟩

section

variable (h : Postorder next order)

include h

/-- An element may follow once all of its successors are there. -/
theorem snoc {bs : List α} (ha : a ∉ order)
    (hnext : next a = some bs) (hbs : ∀ b ∈ bs, b ∈ order) : Postorder next (order ++ [a]) := by
  refine ⟨?_, ?_, ?_⟩
  · exact nodup_append'.mpr ⟨h.nodup, nodup_singleton _, by simpa using ha⟩
  · intro x hx
    rcases mem_append.mp hx with hx | hx
    · exact h.known x hx
    · rw [mem_singleton.mp hx, hnext]
      rfl
  · intro before x rest heq b hb
    rcases eq_nil_or_concat rest with rfl | ⟨rest', z, rfl⟩
    · obtain ⟨rfl, hx⟩ := append_inj' heq rfl
      obtain rfl : a = x := by simpa using hx
      obtain ⟨bs', hbs', hmem⟩ := hb
      rw [hnext] at hbs'
      obtain rfl := Option.some.inj hbs'
      exact hbs b hmem
    · have hsplit : order ++ [a] = (before ++ x :: rest') ++ [z] := by simpa using heq
      obtain ⟨horder, -⟩ := append_inj' hsplit rfl
      exact h.after before x rest' horder b hb

theorem mem_of_succ {b : α} (ha : a ∈ order) (hb : Succ next a b) :
    b ∈ order := by
  obtain ⟨before, rest, rfl⟩ := append_of_mem ha
  exact mem_append_left _ (h.after before a rest rfl b hb)

theorem closed {b : α} (ha : a ∈ order)
    (hb : ReflTransGen (Succ next) a b) : b ∈ order := by
  induction hb with
  | refl => exact ha
  | tail _ hstep ih => exact h.mem_of_succ ih hstep

variable [DecidableEq α]

theorem idxOf_succ_lt {b : α} (ha : a ∈ order) (hb : Succ next a b) :
    order.idxOf b < order.idxOf a := by
  obtain ⟨before, rest, rfl⟩ := append_of_mem ha
  have hbefore := h.after before a rest rfl b hb
  have hnot : a ∉ before := by
    have hdisjoint := (nodup_append'.mp h.nodup).2.2
    exact fun hmem => hdisjoint hmem (mem_cons_self ..)
  rw [idxOf_append_of_mem hbefore, idxOf_append_of_notMem hnot, idxOf_cons_self]
  have hlt := idxOf_lt_length_of_mem hbefore
  omega

/-- No cycle goes through a postorder. -/
theorem acyclic (ha : a ∈ order) : ¬ TransGen (Succ next) a a := by
  have hlt : ∀ {b}, TransGen (Succ next) a b → order.idxOf b < order.idxOf a := by
    intro b hb
    induction hb with
    | single hstep => exact h.idxOf_succ_lt ha hstep
    | tail hpath hstep ih =>
      have hmem := h.closed ha hpath.to_reflTransGen
      have hnext := h.idxOf_succ_lt hmem hstep
      omega
  intro hcycle
  exact Nat.lt_irrefl _ (hlt hcycle)

end

end Postorder

/-! ## Breadth first -/

/-- The elements found so far in the order of their discovery, and the parent of each:
    the first of them that has it as a successor. -/
structure SearchTree [DecidableEq α] (next : α → List α) (root : α) (parent : α → Option α)
    (order : List α) : Prop where
  mem_root : root ∈ order
  nodup : order.Nodup
  found : ∀ b ∈ order, b ≠ root → ∃ a ∈ order, parent b = some a ∧ b ∈ next a ∧
    order.idxOf a < order.idxOf b ∧ ∀ c, order.idxOf c < order.idxOf a → b ∉ next c

/-- The elements between the root and `a`, the root left out and `a` the last. -/
inductive Branch (parent : α → Option α) (root : α) : α → List α → Prop
  | first {a : α} (h : parent a = some root) : Branch parent root a [a]
  | snoc {a b : α} {path : List α} (h : parent b = some a) (ha : a ≠ root)
      (hpath : Branch parent root a path) : Branch parent root b (path ++ [b])

variable {path : List α}

theorem Branch.mem {parent : α → Option α} {root : α}
    (h : Branch parent root a path) : a ∈ path := by
  cases h <;> simp

/-- The element before the branch is the root. -/
theorem Branch.getLast {parent : α → Option α} {root : α}
    (h : Branch parent root a path) : (root :: path).getLast (by simp) = a := by
  cases h <;> simp

namespace SearchTree

variable [DecidableEq α] {next : α → List α} {root : α} {parent : α → Option α} {order : List α}

theorem singleton : SearchTree next root parent [root] := by
  refine ⟨mem_singleton_self _, nodup_singleton _, fun b hb hne => ?_⟩
  exact absurd (mem_singleton.mp hb) hne

section

variable (h : SearchTree next root parent order)

include h

/-- A successor of `a` that is not there yet is added with `a` as its parent, once the
    successors of all elements before `a` are there. -/
theorem discover {parent' : α → Option α} {b : α}
    (ha : a ∈ order) (hb : b ∉ order) (hnext : b ∈ next a) (hparent : parent' b = some a)
    (hkeep : ∀ c ∈ order, parent' c = parent c)
    (hdone : ∀ c, order.idxOf c < order.idxOf a → ∀ x ∈ next c, x ∈ order) :
    SearchTree next root parent' (order ++ [b]) := by
  have hidx : ∀ {c}, c ∈ order → (order ++ [b]).idxOf c = order.idxOf c :=
    idxOf_append_of_mem
  have hbefore : ∀ {c}, c ∈ order → ∀ {x}, (order ++ [b]).idxOf x < order.idxOf c →
      order.idxOf x < order.idxOf c := by
    intro c hc x hx
    by_cases hmem : x ∈ order
    · rwa [hidx hmem] at hx
    · rw [idxOf_append_of_notMem hmem] at hx
      have hlt := idxOf_lt_length_of_mem hc
      omega
  refine ⟨mem_append_left _ h.mem_root, ?_, ?_⟩
  · exact nodup_append'.mpr ⟨h.nodup, nodup_singleton _, by simpa using hb⟩
  · intro x hx hne
    rcases mem_append.mp hx with hx | hx
    · obtain ⟨c, hc, hparent', hmem, hlt, hfirst⟩ := h.found x hx hne
      refine ⟨c, mem_append_left _ hc, (hkeep x hx).trans hparent', hmem, ?_, ?_⟩
      · rw [hidx hc, hidx hx]
        exact hlt
      · intro d hd
        rw [hidx hc] at hd
        exact hfirst d (hbefore hc hd)
    · obtain rfl := mem_singleton.mp hx
      refine ⟨a, mem_append_left _ ha, hparent, hnext, ?_, ?_⟩
      · rw [hidx ha, idxOf_append_of_notMem hb]
        have hlt := idxOf_lt_length_of_mem ha
        omega
      · intro c hc hmem
        rw [hidx ha] at hc
        exact hb (hdone c (hbefore ha hc) x hmem)

/-- Every element but the root has a branch, of elements that were found. -/
theorem exists_branch (ha : a ∈ order) (hne : a ≠ root) :
    ∃ path, Branch parent root a path ∧ path.length ≤ order.idxOf a ∧ ∀ b ∈ path, b ∈ order := by
  induction hn : order.idxOf a using Nat.strong_induction_on generalizing a with
  | _ n ih =>
    subst hn
    obtain ⟨b, hb, hparent, -, hlt, -⟩ := h.found a ha hne
    by_cases hroot : b = root
    · subst hroot
      refine ⟨[a], .first hparent, ?_, by simpa using ha⟩
      simp only [length_singleton]
      omega
    · obtain ⟨path, hpath, hlength, hmem⟩ := ih _ hlt hb hroot rfl
      refine ⟨path ++ [a], .snoc hparent hroot hpath, ?_, ?_⟩
      · rw [length_append, length_singleton]
        omega
      · intro x hx
        rcases mem_append.mp hx with hx | hx
        · exact hmem x hx
        · exact mem_singleton.mp hx ▸ ha

/-- The elements of a branch were found no later than its end. -/
theorem idxOf_le_of_branch
    (hpath : Branch parent root a path) (ha : a ∈ order) (hne : a ≠ root) :
    ∀ b ∈ root :: path, order.idxOf b ≤ order.idxOf a := by
  induction hpath with
  | @first a hparent =>
    obtain ⟨c, -, hc, -, hlt, -⟩ := h.found a ha hne
    obtain rfl := Option.some.inj (hparent.symm.trans hc)
    intro b hb
    rcases mem_cons.mp hb with rfl | hb
    · exact hlt.le
    · rw [mem_singleton.mp hb]
  | @snoc c a path hparent hroot hbranch ih =>
    obtain ⟨c', hc', hparent', -, hlt, -⟩ := h.found a ha hne
    obtain rfl := Option.some.inj (hparent.symm.trans hparent')
    intro b hb
    rw [← cons_append] at hb
    rcases mem_append.mp hb with hb | hb
    · have hle := ih hc' hroot b hb
      omega
    · rw [mem_singleton.mp hb]

/-- The end of a branch is a successor of the element before it and of no earlier one. -/
theorem sole_last {b : α} (ha : a ∈ order)
    (hne : a ≠ root) (hparent : parent a = some b) {earlier : List α}
    (hearlier : ∀ c ∈ earlier, order.idxOf c ≤ order.idxOf b) :
    a ∈ next b ∧ ∀ c ∈ earlier, a ∈ next c → c = b := by
  obtain ⟨b', hb, hparent', hnext, -, hfirst⟩ := h.found a ha hne
  obtain rfl := Option.some.inj (hparent.symm.trans hparent')
  refine ⟨hnext, fun c hc hmem => ?_⟩
  by_contra hcb
  refine hfirst c ?_ hmem
  have hle := hearlier c hc
  have hneq : order.idxOf c ≠ order.idxOf b := by
    intro heq
    exact hcb ((idxOf_inj (idxOf_lt_length_iff.mp
      (heq ▸ idxOf_lt_length_of_mem hb))).mp heq)
  omega

/-- Each element of a branch is a successor of the one before it, and of no earlier one. -/
theorem sole_predecessor
    (hpath : Branch parent root a path) (ha : a ∈ order) (hne : a ≠ root)
    {before rest : List α} {x : α} (hsplit : path = before ++ x :: rest) :
    x ∈ next ((root :: before).getLast (by simp)) ∧
      ∀ c ∈ root :: before, x ∈ next c → c = (root :: before).getLast (by simp) := by
  induction hpath generalizing rest with
  | @first a hparent =>
    obtain ⟨rfl, hx⟩ : before = [] ∧ a = x := by
      cases before with
      | nil => exact ⟨rfl, by simpa using (cons.inj hsplit).1⟩
      | cons _ before => simp at hsplit
    subst hx
    exact h.sole_last ha hne hparent fun c hc => by simp [mem_singleton.mp hc]
  | @snoc b a path hparent hroot hbranch ih =>
    obtain ⟨b', hb', hparent', -, -, -⟩ := h.found a ha hne
    obtain rfl := Option.some.inj (hparent.symm.trans hparent')
    rcases eq_nil_or_concat rest with rfl | ⟨rest', z, rfl⟩
    · obtain ⟨rfl, hx⟩ := append_inj' hsplit rfl
      obtain rfl : a = x := by simpa using hx
      rw [hbranch.getLast]
      exact h.sole_last ha hne hparent (h.idxOf_le_of_branch hbranch hb' hroot)
    · have heq : path ++ [a] = (before ++ x :: rest') ++ [z] := by simpa using hsplit
      exact ih hb' hroot (append_inj' heq rfl).1

end

end SearchTree

end Caap.Lib
