/-
  Caap.Lib.Coloring

  Cycle detection with three colours over a partial function `next`.  From each start
  the loop follows `next`, colours what it visits active, and turns the path to
  confirmed when it reaches an end or something already confirmed; meeting an active
  element means a cycle.  Over a finite domain the search succeeds exactly when every
  chain from a start is finite (`colorAll_isSome_iff`).
-/

import Caap.Lib.Chain
import Caap.Lib.OrdMap

namespace Caap.Lib

open Std Option

set_option linter.unusedSectionVars false

/-- The colour of a visited element. -/
inductive Color where
  | active | confirmed
  deriving DecidableEq, Repr

section Search

variable {α : Type*} [Ord α] [TransOrd α] [LawfulEqOrd α] [DecidableEq α]

/-- Turn every element of the path to confirmed. -/
def confirm (color : OrdMap α Color) (path : List α) : OrdMap α Color :=
  path.foldl (fun color id => color.insert id .confirmed) color

/-- Follow `next` from `current`, with the path walked so far.  `fuel` bounds the
    iterations. -/
def colorPath (next : α → Option α) : Nat → OrdMap α Color → List α → Option α →
    Option (OrdMap α Color)
  | 0, _, _, _ => none
  | _ + 1, color, path, none => some (confirm color path)
  | fuel + 1, color, path, some id =>
    match color[id]? with
    | some .confirmed => some (confirm color path)
    | some .active => none
    | none => colorPath next fuel (color.insert id .active) (path ++ [id]) (next id)

/-- Search from each start that is not confirmed yet. -/
def colorAll (next : α → Option α) (fuel : Nat) : OrdMap α Color → List α → Option (OrdMap α Color)
  | color, [] => some color
  | color, start :: rest =>
    if color[start]? = some .confirmed then colorAll next fuel color rest
    else (colorPath next fuel color [] (some start)).bind fun color' =>
      colorAll next fuel color' rest

variable {next : α → Option α}

variable {color : OrdMap α Color} {path : List α}

theorem lookup_confirm {a : α} :
    (confirm color path)[a]? = if a ∈ path then some .confirmed else color[a]? := by
  induction path generalizing color with
  | nil => simp [confirm]
  | cons x path ih =>
    have hstep : confirm color (x :: path) = confirm (color.insert x .confirmed) path := rfl
    rw [hstep, ih, OrdMap.lookup_insert]
    by_cases hp : a ∈ path
    · simp [hp]
    · by_cases hx : x = a
      · simp [hx]
      · simp [hp, hx, Ne.symm hx]

/-- Between two starts every colour is confirmed, and a confirmed chain stops. -/
def AllConfirmed (next : α → Option α) (color : OrdMap α Color) : Prop :=
  ∀ a c, color[a]? = some c → c = .confirmed ∧ Ends next a

/-- On a path: exactly its elements are active, a confirmed chain stops, and if the chain
    of `current` stops then so does every chain of the path. -/
structure OnPath (next : α → Option α) (color : OrdMap α Color) (path : List α)
    (current : Option α) : Prop where
  active : ∀ a, color[a]? = some .active ↔ a ∈ path
  confirmed : ∀ a, color[a]? = some .confirmed → Ends next a
  ends : (∀ id, current = some id → Ends next id) → ∀ a ∈ path, Ends next a

theorem AllConfirmed.onPath (h : AllConfirmed next color) (start : α) :
    OnPath next color [] (some start) where
  active a := by
    constructor
    · intro ha
      exact absurd (h a _ ha).1 (by simp)
    · intro ha
      exact absurd ha (List.not_mem_nil)
  confirmed a ha := (h a _ ha).2
  ends _ a ha := absurd ha (List.not_mem_nil)

/-- Confirming a path whose chains stop. -/
theorem OnPath.confirm {current : Option α}
    (h : OnPath next color path current) (hends : ∀ a ∈ path, Ends next a) :
    AllConfirmed next (confirm color path) := by
  intro a c hc
  rw [lookup_confirm] at hc
  by_cases hp : a ∈ path
  · rw [if_pos hp, some.injEq] at hc
    exact ⟨hc.symm, hends a hp⟩
  · rw [if_neg hp] at hc
    cases c with
    | confirmed => exact ⟨rfl, h.confirmed a hc⟩
    | active => exact absurd ((h.active a).mp hc) hp

theorem OnPath.push {id : α} (h : OnPath next color path (some id)) :
    OnPath next (color.insert id .active) (path ++ [id]) (next id) where
  active a := by
    rw [OrdMap.lookup_insert, List.mem_append, List.mem_singleton]
    by_cases ha : id = a
    · simp [ha]
    · rw [if_neg ha, h.active]
      simp [Ne.symm ha]
  confirmed a ha := by
    rw [OrdMap.lookup_insert] at ha
    by_cases hne : id = a
    · rw [if_pos hne] at ha
      exact absurd ha (by simp)
    · rw [if_neg hne] at ha
      exact h.confirmed a ha
  ends hnext := by
    have hid : Ends next id := by
      cases hn : next id with
      | none => exact .stop hn
      | some b => exact .step hn (hnext b hn)
    intro a ha
    rcases List.mem_append.mp ha with hp | hs
    · exact h.ends (fun x hx => some.inj hx ▸ hid) a hp
    · rw [List.mem_singleton.mp hs]
      exact hid

/-- A search that succeeds confirms its path and its start. -/
theorem colorPath_sound {fuel : Nat} {color' : OrdMap α Color}
    {current : Option α} (h : colorPath next fuel color path current = some color')
    (hp : OnPath next color path current) :
    AllConfirmed next color' ∧ (∀ id, current = some id → Ends next id) := by
  induction fuel generalizing color path current with
  | zero => exact absurd h (by simp [colorPath])
  | succ fuel ih =>
    cases current with
    | none =>
      rw [colorPath, some.injEq] at h
      rw [← h]
      exact ⟨hp.confirm (hp.ends (fun id hid => absurd hid (by simp))),
        fun id hid => absurd hid (by simp)⟩
    | some id =>
      rw [colorPath] at h
      cases hc : color[id]? with
      | none =>
        simp only [hc] at h
        obtain ⟨hall, hnext⟩ := ih h (hp.push)
        refine ⟨hall, ?_⟩
        intro x hx
        rw [← some.inj hx]
        cases hn : next id with
        | none => exact .stop hn
        | some b => exact .step hn (hnext b hn)
      | some c =>
        cases c with
        | active =>
          simp only [hc] at h
          exact absurd h (by simp)
        | confirmed =>
          simp only [hc, some.injEq] at h
          have hid : ∀ x, some id = some x → Ends next x := by
            intro x hx
            rw [← some.inj hx]
            exact hp.confirmed id hc
          rw [← h]
          exact ⟨hp.confirm (hp.ends hid), hid⟩

/-- The search from a chain that stops succeeds, with fuel for the chain. -/
theorem colorPath_complete {fuel : Nat} {l : List α} {id : α}
    (hl : Chain next id l) (hfuel : l.length + 1 < fuel) (hp : OnPath next color path (some id))
    (hto : ∀ a ∈ path, ∃ b, next a = some b ∧ Leads next b id) (hends : Ends next id) :
    (colorPath next fuel color path (some id)).isSome = true := by
  induction hl generalizing fuel color path with
  | @stop id hn =>
    obtain ⟨n, rfl⟩ : ∃ n, fuel = n + 2 := ⟨fuel - 2, by simp at hfuel; omega⟩
    rw [colorPath]
    cases hc : color[id]? with
    | none => simp only [hn, colorPath, isSome_some]
    | some c =>
      cases c with
      | confirmed => simp
      | active =>
        obtain ⟨b, hb, _⟩ := hto id ((hp.active id).mp hc)
        exact absurd (hn.symm.trans hb) (by simp)
  | @step id b l hs hb ih =>
    obtain ⟨n, rfl⟩ : ∃ n, fuel = n + 1 := ⟨fuel - 1, by omega⟩
    rw [List.length_cons] at hfuel
    rw [colorPath]
    cases hc : color[id]? with
    | none =>
      have hpush := hp.push
      rw [hs] at hpush
      simp only [hs]
      refine ih (by omega) hpush ?_ ?_
      · intro a ha
        rcases List.mem_append.mp ha with hm | hm
        · obtain ⟨x, hx, hxl⟩ := hto a hm
          exact ⟨x, hx, hxl.concat hs⟩
        · rw [List.mem_singleton.mp hm]
          exact ⟨b, hs, .here b⟩
      · cases hends with
        | stop hn => exact absurd (hn.symm.trans hs) (by simp)
        | step hs' hb' => exact some.inj (hs'.symm.trans hs) ▸ hb'
    | some c =>
      cases c with
      | confirmed => simp
      | active =>
        obtain ⟨x, hx, hxl⟩ := hto id ((hp.active id).mp hc)
        exact absurd hxl (hends.not_leads_back hx)

/-- With two units of fuel more than the domain has elements, the search succeeds exactly
    when every chain from a start stops. -/
theorem colorAll_isSome_iff {domain : List α} (hdom : ∀ a, (next a).isSome → a ∈ domain)
    (hcolor : AllConfirmed next color) {starts : List α} :
    (colorAll next (domain.length + 2) color starts).isSome = true ↔ ∀ a ∈ starts, Ends next a := by
  induction starts generalizing color with
  | nil => simp [colorAll]
  | cons start rest ih =>
    rw [colorAll, List.forall_mem_cons]
    by_cases hc : color[start]? = some .confirmed
    · rw [if_pos hc, ih hcolor]
      exact ⟨fun h => ⟨(hcolor start _ hc).2, h⟩, And.right⟩
    · rw [if_neg hc]
      cases hpath : colorPath next (domain.length + 2) color [] (some start) with
      | none =>
        simp only [bind_none, isSome_none, Bool.false_eq_true, false_iff]
        rintro ⟨hstart, -⟩
        obtain ⟨l, hl⟩ := Chain.of_ends hstart
        have hsub : l ⊆ domain := fun x hx => hdom x (hl.isSome_of_mem hx)
        have hlen : l.length ≤ domain.length := (hl.nodup.subperm hsub).length_le
        have hfuel : l.length + 1 < domain.length + 2 := by omega
        have hsome := colorPath_complete hl hfuel (hcolor.onPath start)
          (fun a ha => absurd ha (List.not_mem_nil)) hstart
        rw [hpath] at hsome
        exact absurd hsome (by simp)
      | some color' =>
        obtain ⟨hall, hstart⟩ := colorPath_sound hpath (hcolor.onPath start)
        rw [bind_some, ih hall]
        exact ⟨fun h => ⟨hstart start rfl, h⟩, And.right⟩

end Search

end Caap.Lib
