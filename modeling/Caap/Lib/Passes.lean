/-
  Caap.Lib.Passes

  A set of names computed by passes over a list of rules.  A pass looks at the rules in
  their order and adds the name of each rule whose body holds of the names so far; passes
  are repeated until one adds nothing, but at most a given number of times.

  The names that belong to the set are those with a derivation (`Derivable`).  The names
  that `n` passes find are those with a derivation in which every branch goes at most
  `n - 1` times from a rule to one that does not stand before it (`Within`,
  `mem_passes_iff`).  So the passes find the least closed set exactly if every derivable
  name is derivable within the limit (`isLeastClosed_passes_iff`).
-/

import Mathlib.Data.List.Basic
import Mathlib.Data.List.Infix
import Mathlib.Tactic

namespace Caap.Lib.Passes

open List

variable {κ α : Type*} [DecidableEq κ]

/-! ## The loop -/

/-- The names found so far and whether the pass added one, after a look at a rule. -/
def visit (holds : α → List κ → Bool) (s : List κ × Bool) (rule : κ × α) : List κ × Bool :=
  if rule.1 ∈ s.1 then s
  else if holds rule.2 s.1 then (rule.1 :: s.1, true)
  else s

/-- One pass over the rules. -/
def pass (holds : α → List κ → Bool) (rules : List (κ × α)) (known : List κ) : List κ × Bool :=
  rules.foldl (visit holds) (known, false)

/-- Passes until one changes nothing, at most `limit` of them. -/
def passes (holds : α → List κ → Bool) (rules : List (κ × α)) : Nat → List κ → List κ
  | 0, known => known
  | limit + 1, known =>
    if (pass holds rules known).2 then passes holds rules limit (pass holds rules known).1
    else (pass holds rules known).1

/-! ## Derivations -/

/-- Names with a derivation. -/
inductive Derivable (holds : α → List κ → Bool) (rules : List (κ × α)) : κ → Prop
  | mk (rule : κ × α) (support : List κ) (hrule : rule ∈ rules)
      (hsupport : ∀ name ∈ support, Derivable holds rules name)
      (hbody : holds rule.2 support = true) : Derivable holds rules rule.1

/-- The names of the rules with the given numbers. -/
def namesAt (rules : List (κ × α)) (indices : List Nat) : List κ :=
  indices.filterMap fun i => rules[i]?.map Prod.fst

/-- The rule with number `i` has a derivation in which, on every branch, less than `n`
    steps go from a rule to one that does not stand before it. -/
inductive Within (holds : α → List κ → Bool) (rules : List (κ × α)) : Nat → Nat → Prop
  | mk (n i : Nat) (rule : κ × α) (before anywhere : List Nat) (hrule : rules[i]? = some rule)
      (hlt : ∀ j ∈ before, j < i)
      (hbefore : ∀ j ∈ before, Within holds rules (n + 1) j)
      (hanywhere : ∀ j ∈ anywhere, Within holds rules n j)
      (hbody : holds rule.2 (namesAt rules (before ++ anywhere)) = true) :
      Within holds rules (n + 1) i

/-- The name belongs to a rule with a derivation within `n` passes. -/
def NameWithin (holds : α → List κ → Bool) (rules : List (κ × α)) (n : Nat) (name : κ) : Prop :=
  ∃ i rule, rules[i]? = some rule ∧ rule.1 = name ∧ Within holds rules n i

variable {holds : α → List κ → Bool} {rules : List (κ × α)}

variable {name : κ}

theorem mem_namesAt {indices : List Nat} :
    name ∈ namesAt rules indices ↔ ∃ i ∈ indices, ∃ rule, rules[i]? = some rule ∧ rule.1 = name := by
  simp only [namesAt, mem_filterMap, Option.map_eq_some_iff]

variable {n : Nat}

theorem Within.succ {i : Nat} (h : Within holds rules n i) : Within holds rules (n + 1) i := by
  induction h with
  | mk n i rule before anywhere hrule hlt _ _ hbody ihbefore ihanywhere =>
    exact .mk (n + 1) i rule before anywhere hrule hlt ihbefore ihanywhere hbody

theorem Within.mono {m i : Nat} (h : Within holds rules n i) (hnm : n ≤ m) :
    Within holds rules m i := by
  induction hnm with
  | refl => exact h
  | step _ ih => exact ih.succ

theorem NameWithin.mono {m : Nat} (h : NameWithin holds rules n name) (hnm : n ≤ m) :
    NameWithin holds rules m name := by
  obtain ⟨i, rule, hrule, hname, hwithin⟩ := h
  exact ⟨i, rule, hrule, hname, hwithin.mono hnm⟩

theorem not_within_zero {i : Nat} : ¬ Within holds rules 0 i := by
  intro h
  cases h

variable {rule : κ × α}

theorem Within.derivable {i : Nat} (h : Within holds rules n i)
    (hrule : rules[i]? = some rule) : Derivable holds rules rule.1 := by
  induction h generalizing rule with
  | mk n i rule' before anywhere hrule' _ _ _ hbody ihbefore ihanywhere =>
    obtain rfl : rule' = rule := Option.some.inj (hrule'.symm.trans hrule)
    refine .mk rule' _ (mem_of_getElem? hrule') ?_ hbody
    intro name hname
    obtain ⟨j, hj, rule, hjrule, rfl⟩ := mem_namesAt.mp hname
    rcases mem_append.mp hj with hj | hj
    · exact ihbefore j hj hjrule
    · exact ihanywhere j hj hjrule

variable {names : List κ}

/-- Finitely many derivations fit into one number of passes. -/
theorem exists_bound_of_forall (h : ∀ name ∈ names, ∃ n, NameWithin holds rules n name) :
    ∃ n, ∀ name ∈ names, NameWithin holds rules n name := by
  induction names with
  | nil => exact ⟨0, by simp⟩
  | cons name names ih =>
    obtain ⟨hname, hnames⟩ := forall_mem_cons.mp h
    obtain ⟨n, hn⟩ := hname
    obtain ⟨m, hm⟩ := ih hnames
    refine ⟨max n m, forall_mem_cons.mpr ⟨hn.mono (Nat.le_max_left n m), ?_⟩⟩
    intro name' hname'
    exact (hm name' hname').mono (Nat.le_max_right n m)

section Monotone

variable (hmono : ∀ (a : α) {s t : List κ}, s ⊆ t → holds a s = true → holds a t = true)

include hmono

variable {known : List κ}

/-- The rule has a derivation once its body holds of names that have one. -/
theorem within_of_holds {i : Nat} (hrule : rules[i]? = some rule)
    (hbody : holds rule.2 known = true) (hknown : ∀ name ∈ known, NameWithin holds rules n name ∨
      ∃ j < i, ∃ rule, rules[j]? = some rule ∧ rule.1 = name ∧ Within holds rules (n + 1) j) :
    Within holds rules (n + 1) i := by
  classical
  -- the support: all rules before `i` found in this pass, and all found earlier
  let before := (range i).filter fun j => decide (Within holds rules (n + 1) j)
  let anywhere := (range rules.length).filter fun j => decide (Within holds rules n j)
  have hsub : known ⊆ namesAt rules (before ++ anywhere) := by
    intro name hname
    rw [mem_namesAt]
    rcases hknown name hname with ⟨j, rule, hj, hrulename, hwithin⟩ | ⟨j, hji, rule, hj, hrulename, hwithin⟩
    · obtain ⟨hlen, -⟩ := List.getElem?_eq_some_iff.mp hj
      exact ⟨j, mem_append_right _ (by simp [anywhere, hlen, hwithin]), rule, hj, hrulename⟩
    · exact ⟨j, mem_append_left _ (by simp [before, hji, hwithin]), rule, hj, hrulename⟩
  refine .mk n i rule before anywhere hrule ?_ ?_ ?_ (hmono _ hsub hbody)
  · intro j hj
    exact mem_range.mp (mem_filter.mp hj).1
  · intro j hj
    exact of_decide_eq_true (mem_filter.mp hj).2
  · intro j hj
    exact of_decide_eq_true (mem_filter.mp hj).2

theorem derivable_iff : Derivable holds rules name ↔ ∃ n, NameWithin holds rules n name := by
  constructor
  · intro h
    induction h with
    | mk rule support hrule _ hbody ih =>
      obtain ⟨n, hn⟩ := exists_bound_of_forall ih
      obtain ⟨i, hi⟩ := getElem?_of_mem hrule
      exact ⟨n + 1, i, rule, hi, rfl,
        within_of_holds hmono hi hbody fun name hname => .inl (hn name hname)⟩
  · rintro ⟨n, i, rule, hrule, rfl, hwithin⟩
    exact hwithin.derivable hrule

/-! ## What passes find -/

variable {s : List κ × Bool}

omit hmono in
/-- A look that raises no flag changes nothing, and the flag stays up. -/
theorem visit_of_unchanged (h : (visit holds s rule).2 = false) : visit holds s rule = s := by
  unfold visit at h ⊢
  split_ifs at h ⊢
  · rfl
  · rfl

omit hmono in
theorem foldl_visit_of_unchanged {suffix : List (κ × α)}
    (h : (suffix.foldl (visit holds) s).2 = false) : suffix.foldl (visit holds) s = s := by
  induction suffix generalizing s with
  | nil => rfl
  | cons rule suffix ih =>
    rw [foldl_cons] at h ⊢
    have hrest := ih h
    rw [hrest] at h ⊢
    exact visit_of_unchanged h

omit hmono in
theorem pass_of_unchanged (h : (pass holds rules known).2 = false) :
    pass holds rules known = (known, false) :=
  foldl_visit_of_unchanged h

omit hmono in
/-- Stopping early gives what all the passes would give. -/
theorem passes_eq_iterate (limit : Nat) (known : List κ) :
    passes holds rules limit known = (fun s => (pass holds rules s).1)^[limit] known := by
  induction limit generalizing known with
  | zero => rfl
  | succ limit ih =>
    rw [passes, Function.iterate_succ_apply]
    split_ifs with hchanged
    · exact ih _
    · have hpass := pass_of_unchanged (eq_false_of_ne_true hchanged)
      rw [hpass]
      have hfixed : (fun s => (pass holds rules s).1) known = known := by
        show (pass holds rules known).1 = known
        rw [hpass]
      exact (Function.iterate_fixed hfixed limit).symm

/-- The names found in the middle of pass `n + 1`, before rule `i`. -/
def Found (holds : α → List κ → Bool) (rules : List (κ × α)) (n i : Nat) (name : κ) : Prop :=
  NameWithin holds rules n name ∨
    ∃ j < i, ∃ rule, rules[j]? = some rule ∧ rule.1 = name ∧ Within holds rules (n + 1) j

omit hmono in
theorem found_succ {i : Nat} (hrule : rules[i]? = some rule) : Found holds rules n (i + 1) name ↔
      Found holds rules n i name ∨ (rule.1 = name ∧ Within holds rules (n + 1) i) := by
  constructor
  · rintro (h | ⟨j, hj, rule', hrule', hname, hwithin⟩)
    · exact .inl (.inl h)
    · rcases Nat.lt_succ_iff_lt_or_eq.mp hj with hlt | rfl
      · exact .inl (.inr ⟨j, hlt, rule', hrule', hname, hwithin⟩)
      · obtain rfl : rule = rule' := Option.some.inj (hrule.symm.trans hrule')
        exact .inr ⟨hname, hwithin⟩
  · rintro ((h | ⟨j, hj, rest⟩) | ⟨hname, hwithin⟩)
    · exact .inl h
    · exact .inr ⟨j, Nat.lt_succ_of_lt hj, rest⟩
    · exact .inr ⟨i, Nat.lt_succ_self i, rule, hrule, hname, hwithin⟩

theorem mem_visit_iff {i : Nat} (hrule : rules[i]? = some rule)
    (hs : ∀ name, name ∈ s.1 ↔ Found holds rules n i name) (name : κ) :
    name ∈ (visit holds s rule).1 ↔ Found holds rules n (i + 1) name := by
  have hfinds : holds rule.2 s.1 = true → Within holds rules (n + 1) i := fun hbody =>
    within_of_holds hmono hrule hbody fun name hname => (hs name).mp hname
  have hcomplete : Within holds rules (n + 1) i → holds rule.2 s.1 = true := by
    intro hwithin
    cases hwithin with
    | mk _ _ rule' before anywhere hrule' hlt hbefore hanywhere hbody =>
      obtain rfl : rule = rule' := Option.some.inj (hrule.symm.trans hrule')
      refine hmono _ ?_ hbody
      intro k hk
      obtain ⟨j, hj, r, hr, hname⟩ := mem_namesAt.mp hk
      rcases mem_append.mp hj with hj | hj
      · exact (hs k).mpr (.inr ⟨j, hlt j hj, r, hr, hname, hbefore j hj⟩)
      · exact (hs k).mpr (.inl ⟨j, r, hr, hname, hanywhere j hj⟩)
  rw [found_succ hrule]
  unfold visit
  split_ifs with hknown hbody
  · -- the name is there already
    rw [hs]
    refine ⟨.inl, ?_⟩
    rintro (h | ⟨rfl, -⟩)
    · exact h
    · exact (hs _).mp hknown
  · have hwithin := hfinds hbody
    rw [mem_cons, hs, or_comm]
    refine or_congr_right ⟨fun h => ⟨h.symm, hwithin⟩, fun h => h.1.symm⟩
  · rw [hs]
    refine ⟨.inl, ?_⟩
    rintro (h | ⟨-, hwithin⟩)
    · exact h
    · exact absurd (hcomplete hwithin) hbody

theorem mem_foldl_visit_iff {done todo : List (κ × α)} (hsplit : rules = done ++ todo)
    (hs : ∀ name, name ∈ s.1 ↔ Found holds rules n done.length name) (name : κ) :
    name ∈ (todo.foldl (visit holds) s).1 ↔ Found holds rules n rules.length name := by
  induction todo generalizing done s with
  | nil =>
    have hdone : rules = done := by rw [hsplit, append_nil]
    rw [foldl_nil, hs, ← hdone]
  | cons rule todo ih =>
    have hrule : rules[done.length]? = some rule := by
      rw [hsplit, getElem?_append_right (Nat.le_refl _), Nat.sub_self]
      rfl
    have hsplit' : rules = (done ++ [rule]) ++ todo := by
      rw [hsplit, append_assoc]
      rfl
    refine ih hsplit' fun name => ?_
    rw [length_append, length_singleton]
    exact mem_visit_iff hmono hrule hs name

/-- One more pass finds what one more pass can derive. -/
theorem mem_pass_iff (hknown : ∀ name, name ∈ known ↔ NameWithin holds rules n name) (name : κ) :
    name ∈ (pass holds rules known).1 ↔ NameWithin holds rules (n + 1) name := by
  have hstart : ∀ name, name ∈ (known, false).1 ↔ Found holds rules n ([] : List (κ × α)).length name := by
    intro name
    rw [hknown]
    refine ⟨.inl, ?_⟩
    rintro (h | ⟨j, hj, -⟩)
    · exact h
    · exact absurd hj (Nat.not_lt_zero j)
  rw [pass, mem_foldl_visit_iff hmono (nil_append _).symm hstart]
  constructor
  · rintro (h | ⟨j, -, rule, hrule, hname, hwithin⟩)
    · exact h.mono (Nat.le_succ n)
    · exact ⟨j, rule, hrule, hname, hwithin⟩
  · rintro ⟨j, rule, hrule, hname, hwithin⟩
    obtain ⟨hlen, -⟩ := List.getElem?_eq_some_iff.mp hrule
    exact .inr ⟨j, hlen, rule, hrule, hname, hwithin⟩

/-- The names that the passes find, from none. -/
theorem mem_passes_iff (limit : Nat) (name : κ) :
    name ∈ passes holds rules limit [] ↔ NameWithin holds rules limit name := by
  rw [passes_eq_iterate]
  induction limit generalizing name with
  | zero =>
    constructor
    · intro h
      exact absurd h not_mem_nil
    · rintro ⟨i, rule, -, -, hwithin⟩
      exact absurd hwithin not_within_zero
  | succ limit ih =>
    rw [Function.iterate_succ_apply']
    exact mem_pass_iff hmono ih name

/-! ## The least closed set -/

omit hmono in
/-- The set has the name of every rule whose body holds of it. -/
def Closed (holds : α → List κ → Bool) (rules : List (κ × α)) (names : List κ) : Prop :=
  ∀ rule ∈ rules, holds rule.2 names = true → rule.1 ∈ names

/-- The set is closed, and part of every closed set. -/
structure IsLeastClosed (holds : α → List κ → Bool) (rules : List (κ × α)) (names : List κ) :
    Prop where
  closed : Closed holds rules names
  least : ∀ other, Closed holds rules other → names ⊆ other

theorem mem_of_derivable (hclosed : Closed holds rules names)
    (h : Derivable holds rules name) : name ∈ names := by
  induction h with
  | mk rule support hrule _ hbody ih =>
    exact hclosed rule hrule (hmono _ ih hbody)

theorem isLeastClosed_iff :
    IsLeastClosed holds rules names ↔ ∀ name, name ∈ names ↔ Derivable holds rules name := by
  classical
  constructor
  · intro h name
    refine ⟨fun hname => ?_, mem_of_derivable hmono h.closed⟩
    -- the derivable names form a closed set themselves
    let derivable := (rules.map Prod.fst).filter fun k => decide (Derivable holds rules k)
    have hmem (k : κ) : k ∈ derivable → Derivable holds rules k := by
      intro hk
      exact of_decide_eq_true (mem_filter.mp hk).2
    have hclosed : Closed holds rules derivable := by
      intro rule hrule hbody
      have hrulename : Derivable holds rules rule.1 := .mk rule derivable hrule hmem hbody
      exact mem_filter.mpr ⟨mem_map_of_mem hrule, decide_eq_true hrulename⟩
    exact hmem name (h.least derivable hclosed hname)
  · intro h
    refine ⟨fun rule hrule hbody => ?_, fun other hother name hname => ?_⟩
    · exact (h _).mpr (.mk rule names hrule (fun k hk => (h k).mp hk) hbody)
    · exact mem_of_derivable hmono hother ((h name).mp hname)

/-- The passes find the least closed set exactly if the limit is enough for every name
    that has a derivation. -/
theorem isLeastClosed_passes_iff (limit : Nat) :
    IsLeastClosed holds rules (passes holds rules limit []) ↔
      ∀ name, Derivable holds rules name → NameWithin holds rules limit name := by
  rw [isLeastClosed_iff hmono]
  constructor
  · intro h name hname
    exact (mem_passes_iff hmono limit name).mp ((h name).mpr hname)
  · intro h name
    rw [mem_passes_iff hmono]
    exact ⟨fun hname => (derivable_iff hmono).mpr ⟨limit, hname⟩, h name⟩

end Monotone

end Caap.Lib.Passes
