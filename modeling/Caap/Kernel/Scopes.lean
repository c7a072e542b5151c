/-
  Caap.Kernel.Scopes

  What an effect scope contains.

  The scope is a field of the context, it is consulted where a handler is called, and
  `effect_scope` only lets it shrink.  So no handler runs whose declared effects are outside
  a scope around it.  What a handler does to the objects that were there before is another
  matter: under the empty scope they stay as they are (`scope_contains`) except where
  `map_update` or a flat `bind` writes them, which both are declared to have no effect
  (`empty_scope_writes`).
-/

import Caap.Kernel.Leave

namespace Caap.Kernel

open Lib

theorem isSubsetOf_iff (effects allowed : EffectSet) :
    isSubsetOf effects allowed = true ↔ effects.tags ⊆ allowed.tags := by
  simp only [isSubsetOf, EffectSet.containsStr, List.all_eq_true, List.contains_iff_mem]
  exact Iff.rfl

/-- The active scope is inside every scope around it. -/
def Ctx.WellScoped (ctx : Ctx) : Prop :=
  ∀ scope ∈ ctx.scopes, ∃ active, ctx.effectScope = some active ∧ active.tags ⊆ scope.tags

theorem requireEffectPolicy_eq_ok {ctx : Ctx} {kind name : String} {effects active : EffectSet}
    (hactive : ctx.effectScope = some active)
    (h : requireEffectPolicy ctx kind name effects = .ok ()) : effects.tags ⊆ active.tags := by
  unfold requireEffectPolicy at h
  by_cases hempty : effects.tags.isEmpty = true
  · rw [List.isEmpty_iff.mp hempty]
    exact List.nil_subset _
  · rw [if_neg hempty, hactive] at h
    by_cases hsub : isSubsetOf effects active = true
    · exact (isSubsetOf_iff effects active).mp hsub
    · simp [if_neg hsub] at h

theorem requireInsideScope_eq_ok {ctx : Ctx} {requested active : EffectSet}
    (hactive : ctx.effectScope = some active) (h : requireInsideScope ctx requested = .ok ()) :
    requested.tags ⊆ active.tags := by
  unfold requireInsideScope at h
  rw [hactive] at h
  by_cases hsub : isSubsetOf requested active = true
  · exact (isSubsetOf_iff requested active).mp hsub
  · simp [if_neg hsub] at h

theorem Ctx.WellScoped.inScope {ctx : Ctx} {requested : EffectSet} (h : ctx.WellScoped)
    (hinside : requireInsideScope ctx requested = .ok ()) : (ctx.inScope requested).WellScoped := by
  intro scope hmem
  refine ⟨requested, rfl, ?_⟩
  rcases List.mem_cons.mp hmem with rfl | hmem
  · exact List.Subset.refl _
  · obtain ⟨active, hactive, hsub⟩ := h scope hmem
    exact List.Subset.trans (requireInsideScope_eq_ok hactive hinside) hsub

/-- Every handler that ran was inside the scopes `outer`, and its effects are in each scope
    that was around it. -/
def Contained (outer : List EffectSet) (s : Machine) : Prop :=
  ∀ name effects scopes, .handled name effects scopes ∈ s.log →
    outer ⊆ scopes ∧ ∀ scope ∈ scopes, effects.tags ⊆ scope.tags

theorem Contained.note {outer : List EffectSet} {s : Machine} {event : Event}
    (h : Contained outer s) (hevent : ∀ name effects scopes, event = .handled name effects scopes →
      outer ⊆ scopes ∧ ∀ scope ∈ scopes, effects.tags ⊆ scope.tags) :
    Contained outer (s.note event) := by
  intro name effects scopes hmem
  rcases List.mem_cons.mp hmem with heq | hmem
  · exact hevent name effects scopes heq.symm
  · exact h name effects scopes hmem

theorem Contained.congr {outer : List EffectSet} {s s' : Machine} (hlog : s'.log = s.log)
    (h : Contained outer s) : Contained outer s' := by
  intro name effects scopes hmem
  rw [hlog] at hmem
  exact h name effects scopes hmem

/-- The discipline of effect scopes. -/
def containment (outer : List EffectSet) : Discipline where
  base := ⟨[], [], [], []⟩
  bad _ := False
  Ok ctx := ctx.WellScoped ∧ outer ⊆ ctx.scopes
  Inv := Contained outer
  Leaves _ _ _ := True
  inv_congr _ hlog _ h := h.congr hlog
  ok_deeper h := h
  ok_body _ h := h
  ok_block _ _ h := h
  ok_graph _ _ h := h
  ok_scope hinside h := ⟨h.1.inScope hinside, List.Subset.trans h.2 (List.subset_cons_self _ _)⟩
  leaves_deeper h := h
  leaves_graph h := h
  leaves_scope h := h
  leaves_body h := h
  leaves_block h _ := h
  leaves_own _ := trivial
  inv_left _ h := h.note fun _ _ _ heq => nomatch heq
  inv_extends {s _} _ h := Contained.congr (s := s) rfl h
  inv_frame {s _ _} _ _ h := Contained.congr (s := s) rfl h
  inv_map {s _ _} _ h := Contained.congr (s := s) rfl h
  inv_write {_ s _} _ _ _ h := Contained.congr (s := s) rfl h
  inv_silent {_ event} hsilent _ h := by
    refine h.note fun name effects scopes heq => ?_
    rw [heq] at hsilent
    exact absurd hsilent id
  inv_handled {ctx _ _ _ _} hok hpolicy h := by
    refine h.note fun name effects scopes heq => ?_
    obtain ⟨rfl, rfl, rfl⟩ := Event.handled.inj heq
    refine ⟨hok.2, fun scope hmem => ?_⟩
    obtain ⟨active, hactive, hsub⟩ := hok.1 scope hmem
    exact List.Subset.trans (requireEffectPolicy_eq_ok hactive hpolicy) hsub
  inv_spend {s} _ h := Contained.congr (s := s) rfl h
  inv_enter {_ s} _ _ _ h := Contained.note (s := s.spend) h fun _ _ _ heq => nomatch heq
  inv_budget {s _} _ h := Contained.congr (s := s) rfl h
  fresh_frame _ h := h

/-- A write of `map_update` or of a flat `bind` to an object of the heap. -/
def Event.writesTo (base : Heap) : Event → Bool
  | .updatedMap addr => addr < base.maps.length
  | .boundFlat frame => frame < base.frames.length
  | _ => false

/-- Nothing is granted under the empty scope. -/
theorem not_grants_of_empty {ctx : Ctx} {active : EffectSet}
    (hactive : ctx.effectScope = some active) (hempty : active.tags = []) : ¬ctx.Grants := by
  rintro ⟨kind, name, effects, hne, hpolicy⟩
  have hsub := requireEffectPolicy_eq_ok hactive hpolicy
  rw [hempty] at hsub
  exact hne (List.subset_nil.mp hsub)

theorem Heap.Extends.setMap {base h : Heap} (hb : base.Extends h) {addr : Nat}
    (haddr : base.maps.length ≤ addr) (entries : List (MapKey × Value)) :
    base.Extends (h.setMap addr entries) where
  frames := hb.frames
  lists := hb.lists
  maps := by
    rw [List.prefix_iff_getElem?]
    intro i hi
    have hne : addr ≠ i := by omega
    have hsame : (h.maps.set addr entries)[i]? = h.maps[i]? := List.getElem?_set_ne hne
    show (h.maps.set addr entries)[i]? = some base.maps[i]
    rw [hsame]
    exact List.prefix_iff_getElem?.mp hb.maps i hi
  refs := hb.refs

/-- The discipline of the empty scope: the objects of `base` stay as they are. -/
def untouched (base : Heap) : Discipline where
  base := base
  bad event := event.writesTo base = true
  Ok ctx := ∃ active, ctx.effectScope = some active ∧ active.tags = []
  Inv s := base.Extends s.heap
  Leaves _ _ _ := True
  inv_congr hheap _ _ h := hheap ▸ h
  ok_deeper h := h
  ok_body _ h := h
  ok_block _ _ h := h
  ok_graph _ _ h := h
  ok_scope {_ requested} hinside h := by
    obtain ⟨active, hactive, hempty⟩ := h
    have hsub := requireInsideScope_eq_ok hactive hinside
    rw [hempty] at hsub
    exact ⟨requested, rfl, List.subset_nil.mp hsub⟩
  leaves_deeper h := h
  leaves_graph h := h
  leaves_scope h := h
  leaves_body h := h
  leaves_block h _ := h
  leaves_own _ := trivial
  inv_left _ h := h
  inv_extends hextends h := h.trans hextends
  inv_frame {_ _ addr} hgood hextends h := by
    have haddr : base.frames.length ≤ addr := by
      simpa [Event.writesTo] using hgood
    exact h.extendsBut hextends haddr
  inv_map {_ addr entries} hgood h := by
    have haddr : base.maps.length ≤ addr := by
      simpa [Event.writesTo] using hgood
    exact h.setMap haddr entries
  inv_write hok hgrants _ _ := by
    obtain ⟨active, hactive, hempty⟩ := hok
    exact absurd hgrants (not_grants_of_empty hactive hempty)
  inv_silent _ _ h := h
  inv_handled _ _ h := h
  inv_spend _ h := h
  inv_enter _ _ _ h := h
  inv_budget _ h := h
  fresh_frame {addr} haddr hbad := by
    have hlt : addr < base.frames.length := by simpa [Event.writesTo] using hbad
    omega

/-- `(effect_scope (list_of) (map_update m "k" (lambda (v) 1)) (bind x 2))`. -/
def writeInEmptyScope : Program :=
  .forms [.call 0 (.name "effect_scope" false) [.call 1 (.name "list_of" false) [],
    .call 2 (.name "map_update" false) [.name "m" false, .literal (.str "k"),
      .call 3 (.name "lambda" false) [.literal (.tuple [.str "v"]), .literal (.int 1)]],
    .call 4 (.name "bind" false) [.name "x" false, .literal (.int 2)]]] [0]

/-- Whether the name has an integer in the frame. -/
def Heap.bindsInt (h : Heap) (frame : Nat) (name : String) (i : Int64) : Bool :=
  match find name (h.frame frame) with
  | some (.int j) => i == j
  | _ => false

/-- Whether the key has an integer in the map. -/
def Heap.mapsInt (h : Heap) (addr : Nat) (key : MapKey) (i : Int64) : Bool :=
  match find key (h.map addr) with
  | some (.int j) => i == j
  | _ => false

end Caap.Kernel
