/-
  Caap.Lib.OrdMap

  Ordered maps (`Std.ExtTreeMap` with the key's own order) and two-level maps built
  from them, with lookups as the only observation: a lookup after an insertion or a
  removal, membership in the key-ordered entry list, and the map rebuilt from a list
  of entries.
-/

import Caap.Lib.Result

namespace Caap.Lib

open Std List

set_option linter.unusedSectionVars false

/-- Ordered map with the key type's own order. -/
abbrev OrdMap (κ : Type*) (ν : Type*) [Ord κ] := ExtTreeMap κ ν compare

namespace OrdMap

variable {κ ν : Type*} [Ord κ] [TransOrd κ] [LawfulEqOrd κ]
  {m : OrdMap κ ν} {k : κ} {v : ν}

theorem lookup_insert [DecidableEq κ] (m : OrdMap κ ν) (k a : κ) (v : ν) :
    (m.insert k v)[a]? = if k = a then some v else m[a]? := by
  rw [ExtTreeMap.getElem?_insert]
  simp only [Std.compare_eq_iff_eq]

theorem lookup_erase [DecidableEq κ] (m : OrdMap κ ν) (k a : κ) :
    (m.erase k)[a]? = if k = a then none else m[a]? := by
  rw [ExtTreeMap.getElem?_erase]
  simp only [Std.compare_eq_iff_eq]

/-- The entry list has one entry for each key. -/
theorem nodup_keys (m : OrdMap κ ν) : (m.toList.map Prod.fst).Nodup := by
  rw [List.Nodup, pairwise_map]
  refine ExtTreeMap.distinct_keys_toList.imp ?_
  intro a b hab heq
  exact hab (Std.compare_eq_iff_eq.mpr heq)

theorem nodup_keysList (m : OrdMap κ ν) : m.keys.Nodup := by
  refine ExtTreeMap.distinct_keys.imp ?_
  intro a b hab heq
  exact hab (Std.compare_eq_iff_eq.mpr heq)

theorem mem_toList : (k, v) ∈ m.toList ↔ m[k]? = some v :=
  ExtTreeMap.mem_toList_iff_getElem?_eq_some

/-- In a split of the entry list, the key in the middle is not a key before it. -/
theorem key_notMem_of_toList_eq {pre post : List (κ × ν)} {e : κ × ν}
    (h : m.toList = pre ++ e :: post) : e.1 ∉ pre.map Prod.fst := by
  have hnd := m.nodup_keys
  rw [h, map_append, map_cons, nodup_append] at hnd
  intro hmem
  exact hnd.2.2 _ hmem _ (mem_cons_self ..) rfl

theorem mem_iff_exists : k ∈ m ↔ ∃ v, m[k]? = some v := by
  rw [ExtTreeMap.mem_iff_isSome_getElem?, Option.isSome_iff_exists]

theorem mem_of_lookup (h : m[k]? = some v) : k ∈ m :=
  mem_iff_exists.mpr ⟨v, h⟩

theorem mem_insert {a : κ} : a ∈ m.insert k v ↔ a = k ∨ a ∈ m := by
  rw [ExtTreeMap.mem_insert, Std.compare_eq_iff_eq, eq_comm]

theorem mem_erase {a : κ} : a ∈ m.erase k ↔ a ∈ m ∧ a ≠ k := by
  rw [ExtTreeMap.mem_erase, Ne, Std.compare_eq_iff_eq, and_comm, eq_comm]

/-- Membership only depends on the lookup. -/
theorem mem_congr {μ : Type*} {n : OrdMap κ μ}
    (h : m[k]?.isSome = n[k]?.isSome) : k ∈ m ↔ k ∈ n := by
  rw [ExtTreeMap.mem_iff_isSome_getElem?, ExtTreeMap.mem_iff_isSome_getElem?, h]

/-- Two maps with the same lookups are equal. -/
theorem ext_lookup {m' : OrdMap κ ν} (h : ∀ k : κ, m[k]? = m'[k]?) : m = m' :=
  ExtTreeMap.ext_getElem? (fun {k} => h k)

/-- The map obtained by inserting entries in order. -/
def ofEntries (l : List (κ × ν)) : OrdMap κ ν := l.foldl (fun m e => m.insert e.1 e.2) ∅

theorem ofEntries_concat (l : List (κ × ν)) (e : κ × ν) :
    ofEntries (l ++ [e]) = (ofEntries l).insert e.1 e.2 := by
  simp only [ofEntries, foldl_append, foldl_cons, foldl_nil]

theorem lookup_ofEntries_none [DecidableEq κ] {l : List (κ × ν)} :
    (ofEntries l)[k]? = none ↔ k ∉ l.map Prod.fst := by
  induction l using reverseRecOn with
  | nil => simp [ofEntries]
  | append_singleton l e ih =>
    rw [ofEntries_concat, lookup_insert, map_append, mem_append, not_or, ← ih]
    by_cases h : e.1 = k
    · simp [h]
    · simp [h, Ne.symm h]

theorem lookup_ofEntries [DecidableEq κ] {l : List (κ × ν)} (hnd : (l.map Prod.fst).Nodup)
    : (ofEntries l)[k]? = some v ↔ (k, v) ∈ l := by
  induction l using reverseRecOn with
  | nil => simp [ofEntries]
  | append_singleton l e ih =>
    rw [map_append, nodup_append] at hnd
    have hlast : e.1 ∉ l.map Prod.fst := fun hm =>
      hnd.2.2 _ hm _ (mem_singleton_self _) rfl
    rw [ofEntries_concat, lookup_insert, mem_append, mem_singleton, ← ih hnd.1]
    by_cases h : e.1 = k
    · subst h
      rw [if_pos rfl, lookup_ofEntries_none.mpr hlast]
      simp [Prod.ext_iff, eq_comm]
    · have hne : ¬ ((k, v) = e) := fun he => h (by rw [← he])
      simp only [if_neg h, hne, or_false]

/-- A value for every key of a list that depends on the key only. -/
theorem lookup_ofEntries_map [DecidableEq κ] (l : List κ) (f : κ → ν) (k : κ) :
    (ofEntries (l.map fun a => (a, f a)))[k]? = if k ∈ l then some (f k) else none := by
  induction l using reverseRecOn with
  | nil => simp [ofEntries]
  | append_singleton l a ih =>
    rw [map_append, map_singleton, ofEntries_concat, lookup_insert, ih]
    by_cases hk : a = k
    · simp [hk]
    · simp [hk, Ne.symm hk]

theorem ofEntries_toList [DecidableEq κ] (m : OrdMap κ ν) : ofEntries m.toList = m := by
  refine ext_lookup fun k => ?_
  cases hm : m[k]? with
  | some v => exact (lookup_ofEntries m.nodup_keys).mpr (mem_toList.mpr hm)
  | none =>
    rw [lookup_ofEntries_none]
    intro hk
    obtain ⟨⟨k', v⟩, hmem, rfl⟩ := mem_map.mp hk
    rw [mem_toList] at hmem
    exact absurd (hmem.symm.trans hm) (by simp)

/-- Inserting the entries of a map one by one, with checks that all of them pass,
    rebuilds the map. -/
theorem foldOk_toList [DecidableEq κ] {ε : Type*}
    {f : OrdMap κ ν → κ × ν → Except ε (OrdMap κ ν)}
    (hf : ∀ s k v, m[k]? = some v → s[k]? = none → f s (k, v) = .ok (s.insert k v)) :
    foldOk f ∅ m.toList = .ok m := by
  have hstep : ∀ pre e post s, m.toList = pre ++ e :: post → s = ofEntries pre →
      ∃ s', f s e = .ok s' ∧ s' = ofEntries (pre ++ [e]) := by
    intro pre e post s hsplit hs
    have hmem : (e.1, e.2) ∈ m.toList := by rw [hsplit]; simp
    have hnone : s[e.1]? = none := by
      rw [hs, lookup_ofEntries_none]
      exact key_notMem_of_toList_eq hsplit
    exact ⟨_, hf s e.1 e.2 (mem_toList.mp hmem) hnone, by rw [ofEntries_concat, hs]⟩
  obtain ⟨s, hrun, hs⟩ := foldOk_total (I := fun pre s => s = ofEntries pre) hstep rfl
  refine Eq.trans hrun ?_
  rw [hs, ofEntries_toList]

end OrdMap

/-! ## The total weight of the values -/

namespace OrdMap

variable {κ ν : Type*} [Ord κ] [TransOrd κ] [LawfulEqOrd κ] [DecidableEq κ]

/-- The sum of `f` over the values. -/
def weight (f : ν → Nat) (m : OrdMap κ ν) : Nat := (m.toList.map fun e => f e.2).sum

/-- Removing a key takes its value's weight away. -/
theorem weight_erase {f : ν → Nat} {m : OrdMap κ ν} {k : κ} {v : ν} (h : m[k]? = some v) :
    f v + weight f (m.erase k) = weight f m := by
  have hnd : ∀ m : OrdMap κ ν, m.toList.Nodup := fun m => m.nodup_keys.of_map _
  have hnot : (k, v) ∉ (m.erase k).toList := by
    simp
  have hperm : m.toList.Perm ((k, v) :: (m.erase k).toList) := by
    refine (perm_ext_iff_of_nodup (hnd m) (nodup_cons.mpr ⟨hnot, hnd _⟩)).mpr ?_
    rintro ⟨a, w⟩
    rw [mem_cons, mem_toList, mem_toList, lookup_erase, Prod.mk.injEq]
    by_cases ha : k = a
    · rw [if_pos ha, ← ha, h]
      simp [eq_comm]
    · rw [if_neg ha]
      simp [Ne.symm ha]
  have hsum := (hperm.map fun e => f e.2).sum_eq
  exact hsum.symm

/-- Removing an absent key changes nothing. -/
theorem erase_eq_self {m : OrdMap κ ν} {k : κ} (h : m[k]? = none) : m.erase k = m := by
  refine ext_lookup fun a => ?_
  rw [lookup_erase]
  by_cases ha : k = a
  · rw [if_pos ha, ← ha, h]
  · rw [if_neg ha]

end OrdMap

/-- Ordered set. -/
abbrev OrdSet (κ : Type*) [Ord κ] := OrdMap κ Unit

namespace OrdSet

variable {κ : Type*} [Ord κ] [TransOrd κ] [LawfulEqOrd κ] [DecidableEq κ]

/-- The set of the elements of a list. -/
def ofList (l : List κ) : OrdSet κ := l.foldl (fun s k => s.insert k ()) ∅

theorem isSome_ofList {l : List κ} {k : κ} : (ofList l)[k]?.isSome = true ↔ k ∈ l := by
  induction l using reverseRecOn with
  | nil => simp [ofList]
  | append_singleton l x ih =>
    have hlast : ofList (l ++ [x]) = (ofList l).insert x () := by
      simp only [ofList, foldl_append, foldl_cons, foldl_nil]
    rw [hlast, OrdMap.lookup_insert, mem_append, mem_singleton]
    by_cases h : x = k
    · simp [h]
    · rw [if_neg h, ih]
      simp [Ne.symm h]

/-- A set of elements of a list without repetitions has as many as the list has exactly
    when it has them all. -/
theorem size_eq_length_iff {s : OrdSet κ} {l : List κ} (hnd : l.Nodup) (hsub : ∀ k ∈ s, k ∈ l) :
    s.size = l.length ↔ ∀ k ∈ l, k ∈ s := by
  have hkeys : s.keys.Nodup := OrdMap.nodup_keysList s
  have hsub' : s.keys.Subperm l :=
    hkeys.subperm fun k hk => hsub k (ExtTreeMap.mem_keys.mp hk)
  rw [← ExtTreeMap.length_keys]
  constructor
  · intro hlen k hk
    have hperm : s.keys.Perm l := hsub'.perm_of_length_le hlen.ge
    exact ExtTreeMap.mem_keys.mp (hperm.mem_iff.mpr hk)
  · intro hall
    have hperm : s.keys.Perm l :=
      hsub'.antisymm (hnd.subperm fun k hk => ExtTreeMap.mem_keys.mpr (hall k hk))
    exact hperm.length_eq

/-- Two sets with the same elements are equal. -/
theorem ext_isSome {s t : OrdSet κ} (h : ∀ k : κ, s[k]?.isSome = true ↔ t[k]?.isSome = true) :
    s = t := by
  refine OrdMap.ext_lookup fun k => ?_
  cases hs : s[k]? <;> cases ht : t[k]? <;> simp_all

end OrdSet

/-! ## Two-level maps -/

/-- Map from a pair of keys, stored as a map of maps. -/
abbrev NestedMap (α β : Type*) (γ : Type*) [Ord α] [Ord β] := OrdMap α (OrdMap β γ)

namespace NestedMap

variable {α β γ δ : Type*} [Ord α] [TransOrd α] [LawfulEqOrd α]
  [Ord β] [TransOrd β] [LawfulEqOrd β]

/-- Value stored under the pair `a`, `b`. -/
def get2 (m : NestedMap α β γ) (a : α) (b : β) : Option γ := m[a]?.bind fun inner => inner[b]?

/-- Store a value under the pair `a`, `b`, creating the inner map when it is missing. -/
def insert2 (m : NestedMap α β γ) (a : α) (b : β) (c : γ) : NestedMap α β γ :=
  m.insert a ((m[a]?.getD ∅).insert b c)

/-- Entries in key order. -/
def entries (m : NestedMap α β γ) : List ((α × β) × γ) :=
  m.toList.flatMap fun e => e.2.toList.map fun e' => ((e.1, e'.1), e'.2)

@[simp] theorem get2_empty (a : α) (b : β) : get2 (∅ : NestedMap α β γ) a b = none := by
  simp [get2]

theorem get2_insert2 [DecidableEq α] [DecidableEq β] (m : NestedMap α β γ) (a a' : α) (b b' : β)
    (c : γ) : get2 (insert2 m a b c) a' b' = if a = a' ∧ b = b' then some c else get2 m a' b' := by
  simp only [get2, insert2, OrdMap.lookup_insert]
  by_cases ha : a = a'
  · subst ha
    simp only [if_true, Option.bind_some, OrdMap.lookup_insert, true_and]
    by_cases hb : b = b'
    · simp only [if_pos hb]
    · cases m[a]? with
      | none => simp
      | some inner => simp
  · simp only [ha, false_and, if_false]

theorem get2_erase [DecidableEq α] (m : NestedMap α β γ) (a a' : α) (b : β) :
    get2 (m.erase a) a' b = if a = a' then none else get2 m a' b := by
  simp only [get2, OrdMap.lookup_erase]
  by_cases ha : a = a'
  · simp only [if_pos ha, Option.bind_none]
  · simp only [if_neg ha]

/-- Remove the pair `a`, `b`, and the inner map with it when it becomes empty. -/
def erase2 (m : NestedMap α β γ) (a : α) (b : β) : NestedMap α β γ :=
  match m[a]? with
  | none => m
  | some inner => if (inner.erase b).isEmpty then m.erase a else m.insert a (inner.erase b)

theorem get2_erase2 [DecidableEq α] [DecidableEq β] (m : NestedMap α β γ) (a a' : α) (b b' : β) :
    get2 (erase2 m a b) a' b' = if a = a' ∧ b = b' then none else get2 m a' b' := by
  have hinner : ∀ inner : OrdMap β γ, m[a]? = some inner →
      get2 (erase2 m a b) a' b' = if a = a' then (inner.erase b)[b']? else get2 m a' b' := by
    intro inner hm
    simp only [erase2, hm]
    by_cases hemp : (inner.erase b).isEmpty = true
    · rw [if_pos hemp, get2_erase, ExtTreeMap.isEmpty_iff.mp hemp]
      by_cases ha : a = a'
      · simp only [if_pos ha, ExtTreeMap.getElem?_empty]
      · simp only [if_neg ha]
    · rw [if_neg hemp, get2, OrdMap.lookup_insert]
      by_cases ha : a = a'
      · simp only [if_pos ha, Option.bind_some]
      · simp only [if_neg ha]
        rfl
  by_cases ha : a = a'
  · subst ha
    cases hm : m[a]? with
    | none => simp [erase2, hm, get2]
    | some inner =>
      rw [hinner inner hm, if_pos rfl, OrdMap.lookup_erase, get2, hm, Option.bind_some]
      simp only [true_and]
  · simp only [ha, false_and, if_false]
    cases hm : m[a]? with
    | none => simp only [erase2, hm]
    | some inner => rw [hinner inner hm, if_neg ha]

/-- No inner map is empty. -/
def NoEmptyInner (m : NestedMap α β γ) : Prop :=
  ∀ (a : α) (i : OrdMap β γ), m[a]? = some i → ∃ b : β, i[b]? ≠ none

theorem noEmptyInner_empty : NoEmptyInner (∅ : NestedMap α β γ) := by
  intro a i h
  simp at h

theorem NoEmptyInner.insert2 [DecidableEq α] [DecidableEq β] {m : NestedMap α β γ}
    (h : NoEmptyInner m) (a : α) (b : β) (c : γ) : NoEmptyInner (insert2 m a b c) := by
  intro a' i hi
  rw [NestedMap.insert2, OrdMap.lookup_insert] at hi
  by_cases ha : a = a'
  · rw [if_pos ha] at hi
    rw [← Option.some.inj hi]
    exact ⟨b, by simp⟩
  · rw [if_neg ha] at hi
    exact h a' i hi

theorem NoEmptyInner.erase2 [DecidableEq α] [DecidableEq β] {m : NestedMap α β γ}
    (h : NoEmptyInner m) (a : α) (b : β) : NoEmptyInner (erase2 m a b) := by
  intro a' i hi
  cases hm : m[a]? with
  | none =>
    simp only [NestedMap.erase2, hm] at hi
    exact h a' i hi
  | some inner =>
    simp only [NestedMap.erase2, hm] at hi
    by_cases hemp : (inner.erase b).isEmpty = true
    · rw [if_pos hemp, OrdMap.lookup_erase] at hi
      by_cases ha : a = a'
      · rw [if_pos ha] at hi
        exact absurd hi (by simp)
      · rw [if_neg ha] at hi
        exact h a' i hi
    · rw [if_neg hemp, OrdMap.lookup_insert] at hi
      by_cases ha : a = a'
      · rw [if_pos ha] at hi
        rw [← Option.some.inj hi]
        -- a map that is not empty has a key
        by_contra hno
        refine hemp (ExtTreeMap.isEmpty_iff.mpr (OrdMap.ext_lookup fun k => ?_))
        rw [ExtTreeMap.getElem?_empty]
        by_contra hk
        exact hno ⟨k, hk⟩
      · rw [if_neg ha] at hi
        exact h a' i hi

theorem get2_map (m : NestedMap α β γ) (f : γ → δ) (a : α) (b : β) :
    get2 (m.map fun _ inner => inner.map fun _ c => f c) a b = (get2 m a b).map f := by
  simp only [get2, ExtTreeMap.getElem?_map]
  cases m[a]? with
  | none => rfl
  | some inner => simp

theorem mem_entries {m : NestedMap α β γ} {a : α} {b : β} {c : γ} :
    ((a, b), c) ∈ m.entries ↔ get2 m a b = some c := by
  simp only [entries, get2, mem_flatMap, mem_map, Option.bind_eq_some_iff]
  constructor
  · rintro ⟨⟨a', inner⟩, hm, ⟨b', c'⟩, hi, heq⟩
    obtain ⟨⟨rfl, rfl⟩, rfl⟩ := heq
    exact ⟨inner, OrdMap.mem_toList.mp hm, OrdMap.mem_toList.mp hi⟩
  · rintro ⟨inner, hm, hi⟩
    exact ⟨(a, inner), OrdMap.mem_toList.mpr hm, (b, c), OrdMap.mem_toList.mpr hi, rfl⟩

/-- The entry list has one entry for each pair of keys. -/
theorem nodup_entries_keys (m : NestedMap α β γ) : (m.entries.map Prod.fst).Nodup := by
  simp only [entries, map_flatMap, map_map]
  rw [nodup_flatMap]
  constructor
  · rintro ⟨a, inner⟩ -
    have hnd := inner.nodup_keys
    have hmap : inner.toList.map (Prod.fst ∘ fun e' : β × γ => ((a, e'.1), e'.2))
        = (inner.toList.map Prod.fst).map fun b => (a, b) := by
      rw [map_map]; rfl
    rw [hmap]
    exact hnd.map fun b b' h => (Prod.mk.inj h).2
  · refine (pairwise_map.mp m.nodup_keys).imp ?_
    rintro ⟨a, inner⟩ ⟨a', inner'⟩ hne
    simp only [Function.onFun, disjoint_left, mem_map, Function.comp]
    rintro _ ⟨⟨b, c⟩, _, rfl⟩ ⟨⟨b', c'⟩, _, h⟩
    exact hne (Prod.mk.inj h).1.symm

/-- Two-level maps without empty inner maps are equal when they agree on all pairs. -/
theorem NoEmptyInner.ext {m m' : NestedMap α β γ} (hm : NoEmptyInner m) (hm' : NoEmptyInner m')
    (h : ∀ a b, get2 m a b = get2 m' a b) : m = m' := by
  refine OrdMap.ext_lookup fun a => ?_
  have hab := h a
  simp only [get2] at hab
  cases h1 : m[a]? with
  | none =>
    cases h2 : m'[a]? with
    | none => rfl
    | some i =>
      obtain ⟨b, hb⟩ := hm' a i h2
      rw [h1, h2] at hab
      exact absurd (hab b).symm hb
  | some i =>
    cases h2 : m'[a]? with
    | none =>
      obtain ⟨b, hb⟩ := hm a i h1
      rw [h1, h2] at hab
      exact absurd (hab b) hb
    | some i' =>
      rw [h1, h2] at hab
      exact congrArg some (OrdMap.ext_lookup hab)

/-! ### Relations: nested maps to the unit type, linked and unlinked one element at a time -/

theorem get2_foldl_insert2 [DecidableEq α] [DecidableEq β] (l : List α) (m : NestedMap α β Unit)
    (a' : α) (b b' : β) : get2 (l.foldl (fun m a => insert2 m a b ()) m) a' b' = some () ↔
      (a' ∈ l ∧ b = b') ∨ get2 m a' b' = some () := by
  induction l generalizing m with
  | nil => simp
  | cons a l ih =>
    rw [foldl_cons, ih, get2_insert2]
    by_cases h : a = a' ∧ b = b'
    · simp [h.1, h.2]
    · rw [if_neg h, mem_cons]
      tauto

theorem get2_foldl_erase2 [DecidableEq α] [DecidableEq β] (l : List α) (m : NestedMap α β Unit)
    (a' : α) (b b' : β) : get2 (l.foldl (fun m a => erase2 m a b) m) a' b' = some () ↔
      ¬ (a' ∈ l ∧ b = b') ∧ get2 m a' b' = some () := by
  induction l generalizing m with
  | nil => simp
  | cons a l ih =>
    rw [foldl_cons, ih, get2_erase2]
    by_cases h : a = a' ∧ b = b'
    · simp [h.1, h.2]
    · rw [if_neg h, mem_cons]
      tauto

/-- A relation extended by the key pairs of a list of entries. -/
theorem get2_foldl_insert2_keys [DecidableEq α] [DecidableEq β] (l : List ((α × β) × γ))
    (m : NestedMap α β Unit) (a : α) (b : β) :
    get2 (l.foldl (fun m e => insert2 m e.1.1 e.1.2 ()) m) a b = some () ↔
      (a, b) ∈ l.map Prod.fst ∨ get2 m a b = some () := by
  induction l generalizing m with
  | nil => simp
  | cons e l ih =>
    rw [foldl_cons, ih, get2_insert2, map_cons, mem_cons]
    by_cases h : e.1.1 = a ∧ e.1.2 = b
    · have hkey : (a, b) = e.1 := Prod.ext h.1.symm h.2.symm
      simp [h.1, h.2, hkey]
    · have hkey : (a, b) ≠ e.1 := fun heq => h ⟨by rw [← heq], by rw [← heq]⟩
      rw [if_neg h]
      tauto

theorem NoEmptyInner.foldl_insert2 [DecidableEq α] [DecidableEq β] {m : NestedMap α β Unit}
    (h : NoEmptyInner m) (l : List α) (b : β) :
    NoEmptyInner (l.foldl (fun m a => NestedMap.insert2 m a b ()) m) :=
  run_invariant (fun _ a hm => hm.insert2 a b ()) h l

theorem NoEmptyInner.foldl_erase2 [DecidableEq α] [DecidableEq β] {m : NestedMap α β Unit}
    (h : NoEmptyInner m) (l : List α) (b : β) :
    NoEmptyInner (l.foldl (fun m a => NestedMap.erase2 m a b) m) :=
  run_invariant (fun _ a hm => hm.erase2 a b) h l

/-! ### Histories: nested maps of lists, flattened and grouped again -/

/-- The list stored under a pair of keys; empty when there is none. -/
def listAt (m : NestedMap α β (List γ)) (a : α) (b : β) : List γ := (get2 m a b).getD []

section

variable (m : NestedMap α β (List γ))

include m

theorem listAt_insert2 [DecidableEq α] [DecidableEq β] (a a' : α)
    (b b' : β) (l : List γ) :
    listAt (insert2 m a b l) a' b' = if a = a' ∧ b = b' then l else listAt m a' b' := by
  rw [listAt, get2_insert2]
  split <;> rfl

theorem listAt_insert2_self [DecidableEq α] [DecidableEq β] (a : α)
    (b : β) (l : List γ) : listAt (insert2 m a b l) a b = l := by
  rw [listAt_insert2, if_pos ⟨rfl, rfl⟩]

theorem listAt_insert2_of_ne [DecidableEq α] [DecidableEq β]
    {a a' : α} {b b' : β} (h : ¬ (a = a' ∧ b = b')) (l : List γ) :
    listAt (insert2 m a b l) a' b' = listAt m a' b' := by
  rw [listAt_insert2, if_neg h]

theorem listAt_map (f : List γ → List γ) (hf : f [] = []) (a : α)
    (b : β) : listAt (m.map fun _ inner => inner.map fun _ l => f l) a b = f (listAt m a b) := by
  rw [listAt, get2_map, listAt]
  cases get2 m a b with
  | none => exact hf.symm
  | some l => rfl

end

/-- Append one element to the list under its pair of keys. -/
def push2 (m : NestedMap α β (List γ)) (e : (α × β) × γ) : NestedMap α β (List γ) :=
  insert2 m e.1.1 e.1.2 (listAt m e.1.1 e.1.2 ++ [e.2])

/-- All elements of all lists, each with its pair of keys, in key order. -/
def flatten2 (m : NestedMap α β (List γ)) : List ((α × β) × γ) :=
  m.entries.flatMap fun e => e.2.map fun c => (e.1, c)

theorem mem_flatten2 {m : NestedMap α β (List γ)} {a : α} {b : β} {c : γ} :
    ((a, b), c) ∈ m.flatten2 ↔ c ∈ m.listAt a b := by
  simp only [flatten2, listAt, mem_flatMap, mem_map]
  constructor
  · rintro ⟨⟨⟨a', b'⟩, cs⟩, he, c', hc, heq⟩
    obtain ⟨⟨rfl, rfl⟩, rfl⟩ := heq
    rw [mem_entries.mp he]
    exact hc
  · intro hc
    cases hg : get2 m a b with
    | none => rw [hg] at hc; exact absurd hc (by simp)
    | some cs =>
      rw [hg] at hc
      exact ⟨((a, b), cs), mem_entries.mpr hg, c, hc, rfl⟩

/-- The elements of a flattened entry list that carry the key `k`. -/
theorem filterMap_flatMap_of_nodup {κ : Type*} [DecidableEq κ] (l : List (κ × List γ)) (k : κ)
    (hnd : (l.map Prod.fst).Nodup) : (l.flatMap fun e => e.2.map fun c => (e.1, c)).filterMap
        (fun e => if e.1 = k then some e.2 else none)
      = ((l.find? fun e => e.1 = k).map Prod.snd).getD [] := by
  induction l with
  | nil => rfl
  | cons e l ih =>
    rw [map_cons, nodup_cons] at hnd
    obtain ⟨hnot, hnd'⟩ := hnd
    have hhead : (e.2.map fun c => (e.1, c)).filterMap
        (fun e' : κ × γ => if e'.1 = k then some e'.2 else none)
          = if e.1 = k then e.2 else [] := by
      by_cases hk : e.1 = k
      · simp [hk, filterMap_map]
      · simp [hk, filterMap_map]
    rw [flatMap_cons, filterMap_append, hhead, ih hnd', find?_cons]
    by_cases hk : e.1 = k
    · have hrest : l.find? (fun e' => decide (e'.1 = k)) = none := by
        rw [find?_eq_none]
        intro e' he' hek
        exact hnot (mem_map.mpr ⟨e', he', (of_decide_eq_true hek).trans hk.symm⟩)
      simp [hk, hrest]
    · simp [hk]

/-- Grouping appends, under each pair of keys, the elements that carry it. -/
theorem listAt_foldl_push2 [DecidableEq α] [DecidableEq β] (l : List ((α × β) × γ))
    (m : NestedMap α β (List γ)) (a : α) (b : β) : (l.foldl push2 m).listAt a b
      = m.listAt a b ++ l.filterMap fun e => if e.1 = (a, b) then some e.2 else none := by
  induction l generalizing m with
  | nil => simp
  | cons e l ih =>
    rw [foldl_cons, ih, filterMap_cons]
    obtain ⟨⟨a', b'⟩, c⟩ := e
    simp only [push2, listAt_insert2, Prod.mk.injEq]
    by_cases h : a' = a ∧ b' = b
    · obtain ⟨rfl, rfl⟩ := h
      simp
    · simp [h]

/-- Flattening and grouping again gives back every list. -/
theorem listAt_group_flatten2 [DecidableEq α] [DecidableEq β] (m : NestedMap α β (List γ))
    (a : α) (b : β) : (m.flatten2.foldl push2 ∅).listAt a b = m.listAt a b := by
  rw [listAt_foldl_push2, flatten2, filterMap_flatMap_of_nodup _ _ m.nodup_entries_keys]
  have h0 : (∅ : NestedMap α β (List γ)).listAt a b = [] := by simp [listAt]
  rw [h0, nil_append, listAt]
  cases hf : m.entries.find? (fun e => decide (e.1 = (a, b))) with
  | some e =>
    have hk : e.1 = (a, b) := by simpa using find?_some hf
    have hmem : ((a, b), e.2) ∈ m.entries := by
      rw [← hk]
      exact mem_of_find?_eq_some hf
    rw [mem_entries.mp hmem]
    rfl
  | none =>
    rw [find?_eq_none] at hf
    cases hg : get2 m a b with
    | none => rfl
    | some cs => exact absurd (hf _ (mem_entries.mpr hg)) (by simp)

end NestedMap

end Caap.Lib
