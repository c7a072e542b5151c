/-
  Caap.Query.Route

  The routes through the stage graph (`compiler/query_provider_registry.rs`).
  `route_to_stage` visits what a stage requires depth first: it succeeds where all of it
  is registered and free of cycles, and lists it in order (`routeToStage_ok_iff`,
  `routeToStage_lists`).  `route_from_stage_to_target` looks breadth first for a shortest path of
  dependents: a path in which every requirement comes before, or is there already, is what
  it finds exactly when no stage outside what the first one requires waits for two others
  (`Unbranched`).
-/

import Caap.Lib.GraphSearch
import Caap.Query.Registry

namespace Caap

open Std Lib Relation OrdMap List

namespace QueryProviderRegistry

/-! ## Depth first -/

/-- The sets and the route that `visit_stage` works on. -/
structure StageVisit where
  visiting : OrdSet String
  visited : OrdSet String
  route : List String

/-- The body of the loop of `visit_stage` over what a stage requires. -/
def visitRequired (r : QueryProviderRegistry)
    (visit : String → StageVisit → Bounded StageVisit) (stage : String) (v : StageVisit)
    (required : String) : Bounded StageVisit :=
  if required ∈ r.stages then visit required v
  else
    Bounded.ofResult (.error (.compiler ("compiler stage " ++ debugStr stage ++
      " depends on missing stage " ++ debugStr required)))

/-- `visit_stage`. -/
def visitStage (r : QueryProviderRegistry) : Nat → String → StageVisit → Bounded StageVisit
  | 0, _, _ => Bounded.outOfFuel
  | fuel + 1, stage, v =>
    if stage ∈ v.visited then pure v
    else if stage ∈ v.visiting then
      Bounded.ofResult (.error (.compiler ("compiler stage graph contains a cycle at " ++ stage)))
    else
      match r.stages[stage]? with
      | none => Bounded.ofResult (.error (.compiler ("unsupported query stage: " ++ stage)))
      | some spec => do
        let v ← spec.requires.foldlM (r.visitRequired (r.visitStage fuel) stage)
          { v with visiting := v.visiting.insert stage () }
        pure
          { visiting := v.visiting.erase stage
            visited := v.visited.insert stage ()
            route := v.route ++ [stage] }

/-- `route_to_stage`; the recursion is never deeper than there are stages
    (`routeToStage_returns`). -/
def routeToStage (r : QueryProviderRegistry) (target : String) : Bounded (List String) := do
  let target ← Bounded.ofResult (r.resolveStage target)
  let v ← r.visitStage (r.stages.size + 1) target { visiting := ∅, visited := ∅, route := [] }
  pure v.route

/-! ## Breadth first -/

/-- Enter a stage as a dependent of everything it requires. -/
def addDependent (name : String) (adjacency : OrdMap String (List String)) (dependency : String) :
    OrdMap String (List String) :=
  adjacency.insert dependency ((adjacency[dependency]?).getD [] ++ [name])

/-- The dependents of every stage, in order (`adjacency` of `route_from_stage_to_target`). -/
def adjacency (r : QueryProviderRegistry) : OrdMap String (List String) :=
  let adjacency := r.stages.toList.foldl
    (fun adjacency entry => entry.2.requires.foldl (addDependent entry.2.name) adjacency) ∅
  adjacency.map fun _ dependents => sort dependents

/-- The dependents of a stage. -/
def dependents (r : QueryProviderRegistry) (stage : String) : List String :=
  (r.adjacency[stage]?).getD []

/-- The state of the search of `route_from_stage_to_target`. -/
structure RouteSearch where
  seen : OrdSet String
  parent : OrdMap String String
  queue : List String

/-- The loop over the dependents of a stage: the search goes on, or the target is found and
    the parents lead back from it. -/
def expand (target stage : String) : List String → RouteSearch → RouteSearch ⊕ OrdMap String String
  | [], search => .inl search
  | candidate :: candidates, search =>
    if candidate ∈ search.seen then expand target stage candidates search
    else
      let parent :=
        if candidate ∈ search.parent then search.parent
        else search.parent.insert candidate stage
      if candidate = target then .inr parent
      else
        expand target stage candidates
          { seen := search.seen.insert candidate ()
            parent := parent
            queue := search.queue ++ [candidate] }

/-- The loop that follows the parents; none where a parent is missing (`expect`) or the steps
    were not enough. -/
def pathBack (parent : OrdMap String String) (fromStage : String) :
    Nat → String → List String → Option (List String)
  | 0, _, _ => none
  | fuel + 1, node, path =>
    match parent[node]? with
    | none => none
    | some pred =>
      if pred = fromStage then some path.reverse
      else pathBack parent fromStage fuel pred (path ++ [pred])

/-- The loop of `route_from_stage_to_target` over the queue. -/
def searchRoute (r : QueryProviderRegistry) (fromStage target : String) :
    Nat → RouteSearch → Bounded (List String)
  | 0, _ => Bounded.outOfFuel
  | fuel + 1, search =>
    match search.queue with
    | [] =>
      Bounded.ofResult (.error (.compiler ("cannot schedule compiler from " ++
        debugStr fromStage ++ " to " ++ debugStr target)))
    | stage :: queue =>
      match expand target stage (r.dependents stage) { search with queue := queue } with
      | .inl search => r.searchRoute fromStage target fuel search
      | .inr parent =>
        match pathBack parent fromStage (r.stages.size + 1) target [target] with
        | some path => pure path
        | none => Bounded.outOfFuel

/-- `route_from_stage_to_target`. -/
def routeFromStageToTarget (r : QueryProviderRegistry) (fromStage target : String) :
    Bounded (List String) :=
  if r.stages.isEmpty then
    Bounded.ofResult (.error (.compiler "no compiler stages registered"))
  else do
    let fromStage ← Bounded.ofResult (r.resolveStage fromStage)
    let target ← Bounded.ofResult (r.resolveStage target)
    let _ ← r.routeToStage target
    if fromStage = target then pure []
    else
      r.searchRoute fromStage target (r.stages.size + 2)
        { seen := OrdSet.ofList [fromStage], parent := ∅, queue := [fromStage] }

/-! ## What a stage requires -/

/-- What a registered stage requires. -/
def requirements (r : QueryProviderRegistry) (stage : String) : Option (List String) :=
  (r.stages[stage]?).map QueryStageSpec.requires

/-- A stage requires another one. -/
def Requires (r : QueryProviderRegistry) : String → String → Prop := Succ r.requirements

variable {r : QueryProviderRegistry}

variable {stage : String}

theorem requirements_of_lookup {spec : QueryStageSpec}
    (h : r.stages[stage]? = some spec) : r.requirements stage = some spec.requires := by
  rw [requirements, h]
  rfl

theorem mem_stages_of_requirements (h : (r.requirements stage).isSome = true) :
    stage ∈ r.stages := by
  rw [requirements, Option.isSome_map] at h
  exact mem_iff_exists.mpr (Option.isSome_iff_exists.mp h)

/-- A stage that is not registered, or one that requires itself by way of others. -/
def Broken (r : QueryProviderRegistry) (stage : String) : Prop :=
  stage ∉ r.stages ∨ TransGen r.Requires stage stage

/-- Every stage that is required, directly or not, is registered and none requires itself. -/
def Routable (r : QueryProviderRegistry) (stage : String) : Prop :=
  ∀ required, ReflTransGen r.Requires stage required →
    required ∈ r.stages ∧ ¬ TransGen r.Requires required required

/-! ## The depth-first visit -/

/-- The route so far is in order and holds the visited stages, none of which is being
    visited. -/
structure StageVisit.Sound (r : QueryProviderRegistry) (v : StageVisit) : Prop where
  order : Postorder r.requirements v.route
  visited : ∀ stage, stage ∈ v.visited ↔ stage ∈ v.route
  visiting : ∀ stage ∈ v.visiting, stage ∉ v.route

/-- The result of visiting some stages: they are in the route with nothing but what they
    require, or one of them requires a broken stage. -/
inductive Visits (r : QueryProviderRegistry) (stages : List String) (v : StageVisit) :
    Bounded StageVisit → Prop
  | done (v' : StageVisit) (hsound : v'.Sound r) (hvisiting : v'.visiting = v.visiting)
      (hstages : ∀ stage ∈ stages, stage ∈ v'.route) (hkeep : ∀ x ∈ v.route, x ∈ v'.route)
      (hnew : ∀ x ∈ v'.route, x ∈ v.route ∨ ∃ stage ∈ stages, ReflTransGen r.Requires stage x) :
      Visits r stages v (pure v')
  | failed (e : CaapError) {stage x : String} (hstage : stage ∈ stages)
      (hx : ReflTransGen r.Requires stage x) (hbroken : r.Broken x) :
      Visits r stages v (Bounded.ofResult (.error e))

/-- The registered stages that are not being visited. -/
def pending (r : QueryProviderRegistry) (v : StageVisit) : Finset String :=
  r.stages.keys.toFinset.filter fun stage => stage ∉ v.visiting

theorem pending_insert {v : StageVisit} (hstage : stage ∈ r.stages) (hnew : stage ∉ v.visiting) :
    (r.pending { v with visiting := v.visiting.insert stage () }).card < (r.pending v).card := by
  refine Finset.card_lt_card (Finset.ssubset_iff_of_subset ?_ |>.mpr ⟨stage, ?_, ?_⟩)
  · intro x hx
    obtain ⟨hkey, hvisiting⟩ := Finset.mem_filter.mp hx
    exact Finset.mem_filter.mpr ⟨hkey, fun h => hvisiting (mem_insert.mpr (.inr h))⟩
  · exact Finset.mem_filter.mpr
      ⟨mem_toFinset.mpr (ExtTreeMap.mem_keys.mpr hstage), hnew⟩
  · intro hx
    exact (Finset.mem_filter.mp hx).2 (mem_insert.mpr (.inl rfl))

/-- The loop over what a stage requires, from what one visit does. -/
theorem visits_foldlM {visit : String → StageVisit → Bounded StageVisit} {fuel : Nat}
    (hvisit : ∀ stage v, v.Sound r → (∀ a ∈ v.visiting, TransGen r.Requires a stage) →
      (r.pending v).card < fuel → Visits r [stage] v (visit stage v))
    (stage : String) : ∀ (requires : List String) (v : StageVisit), v.Sound r →
      (∀ a ∈ v.visiting, ∀ required ∈ requires, TransGen r.Requires a required) →
      (r.pending v).card < fuel →
      Visits r requires v (requires.foldlM (r.visitRequired visit stage) v) := by
  intro requires
  induction requires with
  | nil =>
    intro v hsound _ _
    exact .done v hsound rfl (by simp) (fun x hx => hx) (fun x hx => .inl hx)
  | cons required requires ih =>
    intro v hsound hreach hfuel
    rw [foldlM_cons]
    unfold visitRequired
    split_ifs with hmem
    · have hfirst := hvisit required v hsound
        (fun a ha => hreach a ha required (mem_cons_self ..)) hfuel
      generalize visit required v = result at hfirst
      cases hfirst with
      | failed e hstage hx hbroken =>
        rw [mem_singleton.mp hstage] at hx
        exact .failed e (mem_cons_self ..) hx hbroken
      | done v' hsound' hvisiting hstages hkeep hnew =>
        have hrest := ih v' hsound'
          (fun a ha x hx => hreach a (hvisiting ▸ ha) x (mem_cons_of_mem _ hx))
          (by rwa [pending, hvisiting])
        show Visits r (required :: requires) v
          (requires.foldlM (r.visitRequired visit stage) v')
        generalize requires.foldlM (r.visitRequired visit stage) v' = result at hrest
        cases hrest with
        | failed e hstage hx hbroken =>
          exact .failed e (mem_cons_of_mem _ hstage) hx hbroken
        | done v'' hsound'' hvisiting' hstages' hkeep' hnew' =>
          refine .done v'' hsound'' (hvisiting'.trans hvisiting) ?_
            (fun x hx => hkeep' x (hkeep x hx)) ?_
          · intro x hx
            rcases mem_cons.mp hx with rfl | hx
            · exact hkeep' x (hstages x (mem_singleton_self _))
            · exact hstages' x hx
          · intro x hx
            rcases hnew' x hx with hx | ⟨a, ha, hax⟩
            · rcases hnew x hx with hx | ⟨a, ha, hax⟩
              · exact .inl hx
              · rw [mem_singleton.mp ha] at hax
                exact .inr ⟨required, mem_cons_self .., hax⟩
            · exact .inr ⟨a, mem_cons_of_mem _ ha, hax⟩
    · exact .failed _ (mem_cons_self ..) .refl (.inl hmem)

/-- After all a stage requires, the stage itself is put into the route. -/
theorem Visits.finish {spec : QueryStageSpec} {v v' : StageVisit}
    (hlookup : r.stages[stage]? = some spec) (hnot : stage ∉ v.visiting)
    (hsound : v'.Sound r) (hvisiting : v'.visiting = v.visiting.insert stage ())
    (hstages : ∀ x ∈ spec.requires, x ∈ v'.route) (hkeep : ∀ x ∈ v.route, x ∈ v'.route)
    (hnew : ∀ x ∈ v'.route, x ∈ v.route ∨ ∃ a ∈ spec.requires, ReflTransGen r.Requires a x) :
    Visits r [stage] v (pure
      { visiting := v'.visiting.erase stage
        visited := v'.visited.insert stage ()
        route := v'.route ++ [stage] }) := by
  have hrequirements := requirements_of_lookup hlookup
  have hroute : stage ∉ v'.route := by
    apply hsound.visiting
    rw [hvisiting]
    exact mem_insert.mpr (.inl rfl)
  have hrestore : v'.visiting.erase stage = v.visiting := by
    refine ext_lookup fun x => ?_
    rw [hvisiting, lookup_erase, lookup_insert]
    by_cases hx : stage = x
    · subst hx
      rw [if_pos rfl, ExtTreeMap.getElem?_eq_none hnot]
    · rw [if_neg hx, if_neg hx]
  refine .done _ ⟨?_, ?_, ?_⟩ hrestore ?_ ?_ ?_
  · exact hsound.order.snoc hroute hrequirements hstages
  · intro x
    rw [mem_insert, hsound.visited, mem_append, mem_singleton, or_comm]
  · intro x hx hmem
    simp only [hvisiting, mem_erase] at hx
    rcases mem_append.mp hmem with hmem | hmem
    · exact hsound.visiting x (hvisiting ▸ hx.1) hmem
    · exact hx.2 (mem_singleton.mp hmem)
  · intro x hx
    exact mem_append_right _ hx
  · intro x hx
    exact mem_append_left _ (hkeep x hx)
  · intro x hx
    rcases mem_append.mp hx with hx | hx
    · rcases hnew x hx with hx | ⟨a, ha, hax⟩
      · exact .inl hx
      · have hstep : r.Requires stage a := ⟨spec.requires, hrequirements, ha⟩
        exact .inr ⟨stage, mem_singleton_self _, .head hstep hax⟩
    · rw [mem_singleton.mp hx]
      exact .inr ⟨stage, mem_singleton_self _, .refl⟩

/-- A visit goes through everything the stage requires, within a number of steps that the
    stages not being visited bound. -/
theorem visits_visitStage (fuel : Nat) : ∀ (stage : String) (v : StageVisit), v.Sound r →
    (∀ a ∈ v.visiting, TransGen r.Requires a stage) → (r.pending v).card < fuel →
    Visits r [stage] v (r.visitStage fuel stage v) := by
  induction fuel with
  | zero =>
    intro stage v _ _ hfuel
    exact absurd hfuel (Nat.not_lt_zero _)
  | succ fuel ih =>
    intro stage v hsound hreach hfuel
    unfold visitStage
    split_ifs with hvisited hvisiting
    · have hmem := (hsound.visited stage).mp hvisited
      refine .done v hsound rfl ?_ (fun x hx => hx) (fun x hx => .inl hx)
      intro x hx
      exact mem_singleton.mp hx ▸ hmem
    · exact .failed _ (mem_singleton_self _) .refl (.inr (hreach stage hvisiting))
    · cases hlookup : r.stages[stage]? with
      | none =>
        refine .failed _ (mem_singleton_self _) .refl (.inl fun hmem => ?_)
        obtain ⟨spec, hspec⟩ := mem_iff_exists.mp hmem
        rw [hlookup] at hspec
        exact absurd hspec (by simp)
      | some spec =>
        have hstep : ∀ x ∈ spec.requires, r.Requires stage x := fun x hx =>
          ⟨spec.requires, requirements_of_lookup hlookup, hx⟩
        have hentered : ({ v with visiting := v.visiting.insert stage () } : StageVisit).Sound r := by
          refine ⟨hsound.order, hsound.visited, fun x hx => ?_⟩
          rcases mem_insert.mp hx with rfl | hx
          · exact fun hmem => hvisited ((hsound.visited x).mpr hmem)
          · exact hsound.visiting x hx
        have hpending := pending_insert (mem_of_lookup hlookup) hvisiting
        have hloop := visits_foldlM ih stage spec.requires
          { v with visiting := v.visiting.insert stage () } hentered
          (by
            intro a ha x hx
            rcases mem_insert.mp ha with rfl | ha
            · exact .single (hstep x hx)
            · exact (hreach a ha).tail (hstep x hx))
          (by omega)
        simp only
        generalize spec.requires.foldlM (r.visitRequired (r.visitStage fuel) stage)
          { v with visiting := v.visiting.insert stage () } = result at hloop
        cases hloop with
        | failed e hx hreached hbroken =>
          exact .failed e (mem_singleton_self _) (.head (hstep _ hx) hreached) hbroken
        | done v' hsound' hvisiting' hstages hkeep hnew =>
          exact Visits.finish hlookup hvisiting hsound' hvisiting' hstages hkeep hnew

theorem Postorder.routable {route : List String} (h : Postorder r.requirements route)
    (hstage : stage ∈ route) : r.Routable stage := by
  intro required hrequired
  have hmem := h.closed hstage hrequired
  exact ⟨mem_stages_of_requirements (h.known required hmem), h.acyclic hmem⟩

variable {x : String}

theorem not_routable_of_broken (hx : ReflTransGen r.Requires stage x)
    (hbroken : r.Broken x) : ¬ r.Routable stage := by
  intro hroutable
  obtain ⟨hmem, hacyclic⟩ := hroutable x hx
  rcases hbroken with hmissing | hcycle
  · exact hmissing hmem
  · exact hacyclic hcycle

variable {target : String}

/-- A visit from the start makes the route of a stage, or the stage has none. -/
theorem routeToStage_resolved (h : r.resolveStage target = .ok stage) :
    (∃ route, r.routeToStage target = pure route ∧ r.Routable stage ∧
      Postorder r.requirements route ∧ ∀ x, x ∈ route ↔ ReflTransGen r.Requires stage x) ∨
    (∃ e, r.routeToStage target = Bounded.ofResult (.error e) ∧ ¬ r.Routable stage) := by
  have hsound : (⟨∅, ∅, []⟩ : StageVisit).Sound r := ⟨.nil, by simp, by simp⟩
  have hfuel : (r.pending ⟨∅, ∅, []⟩).card < r.stages.size + 1 := by
    have hfilter : (r.pending ⟨∅, ∅, []⟩).card ≤ r.stages.keys.toFinset.card :=
      Finset.card_filter_le _ _
    have hkeys := toFinset_card_le r.stages.keys
    rw [ExtTreeMap.length_keys] at hkeys
    omega
  have hvisit := visits_visitStage (r.stages.size + 1) stage ⟨∅, ∅, []⟩ hsound (by simp) hfuel
  unfold routeToStage
  rw [h]
  show (∃ route, (r.visitStage (r.stages.size + 1) stage ⟨∅, ∅, []⟩ >>= fun v => pure v.route)
      = pure route ∧ _) ∨
    (∃ e, (r.visitStage (r.stages.size + 1) stage ⟨∅, ∅, []⟩ >>= fun v => pure v.route)
      = Bounded.ofResult (.error e) ∧ _)
  generalize r.visitStage (r.stages.size + 1) stage ⟨∅, ∅, []⟩ = result at hvisit
  cases hvisit with
  | done v' hsound' _ hstages _ hnew =>
    have hstage := hstages stage (mem_singleton_self _)
    refine .inl ⟨v'.route, rfl, Postorder.routable hsound'.order hstage, hsound'.order, ?_⟩
    intro x
    refine ⟨fun hx => ?_, hsound'.order.closed hstage⟩
    rcases hnew x hx with hx | ⟨a, ha, hax⟩
    · exact absurd hx (by simp)
    · rwa [mem_singleton.mp ha] at hax
  | failed e hstage hx hbroken =>
    rw [mem_singleton.mp hstage] at hx
    exact .inr ⟨e, rfl, not_routable_of_broken hx hbroken⟩

theorem routeToStage_unresolved {e : CaapError} (h : r.resolveStage target = .error e) :
    r.routeToStage target = Bounded.ofResult (.error e) := by
  unfold routeToStage
  rw [h]
  rfl

theorem ofResult_error_ne_pure {α : Type} {e : CaapError} {a : α} :
    (Bounded.ofResult (.error e) : Bounded α) ≠ pure a := by
  intro h
  exact absurd (Option.some.inj h) (by simp)

theorem bounded_pure_inj {α : Type} {a b : α} (h : (pure a : Bounded α) = pure b) : a = b :=
  Except.ok.inj (Option.some.inj h)

/-- `route_to_stage` succeeds where all that the stage requires is registered and free of
    cycles. -/
theorem routeToStage_ok_iff : (∃ route, r.routeToStage target = pure route) ↔
      ∃ stage, r.resolveStage target = .ok stage ∧ r.Routable stage := by
  cases h : r.resolveStage target with
  | error e =>
    rw [routeToStage_unresolved h]
    constructor
    · rintro ⟨route, hroute⟩
      exact absurd hroute ofResult_error_ne_pure
    · rintro ⟨stage, hstage, -⟩
      exact absurd hstage (by simp)
  | ok stage =>
    rcases routeToStage_resolved h with ⟨route, hroute, hroutable, -⟩ | ⟨e, he, hnot⟩
    · exact ⟨fun _ => ⟨stage, rfl, hroutable⟩, fun _ => ⟨route, hroute⟩⟩
    · rw [he]
      constructor
      · rintro ⟨route, hroute⟩
        exact absurd hroute ofResult_error_ne_pure
      · rintro ⟨stage', hstage, hroutable⟩
        obtain rfl := Except.ok.inj hstage
        exact absurd hroutable hnot

/-- The route of a stage lists it and what it requires, once and in order. -/
theorem routeToStage_lists {route : List String}
    (hstage : r.resolveStage target = .ok stage) (h : r.routeToStage target = pure route) :
    Postorder r.requirements route ∧ ∀ x, x ∈ route ↔ ReflTransGen r.Requires stage x := by
  rcases routeToStage_resolved hstage with ⟨route', hroute, -, horder, hmem⟩ | ⟨e, he, -⟩
  · rw [h] at hroute
    obtain rfl := bounded_pure_inj hroute
    exact ⟨horder, hmem⟩
  · rw [h] at he
    exact absurd he.symm ofResult_error_ne_pure

/-! ## The names of the stages -/

/-- A stage resolves to itself. -/
theorem Named.resolveStage_self (h : r.Named) (hstage : stage ∈ r.stages) :
    r.resolveStage stage = .ok stage := by
  have hnonempty : r.stages.isEmpty = false := by
    cases hempty : r.stages.isEmpty with
    | false => rfl
    | true =>
      rw [ExtTreeMap.isEmpty_iff.mp hempty] at hstage
      exact absurd hstage (by simp)
  unfold resolveStage
  rw [hnonempty, h.normal stage hstage]
  show (if stage ∈ r.stages then _ else _) = _
  rw [if_pos hstage]

/-- Whatever is registered, the stages are named. -/
theorem named_of_reachable (h : Reachable step new r) : r.Named := by
  obtain ⟨calls, rfl⟩ := h
  exact (wellFormed_run calls).named

/-! ## The breadth-first search -/

theorem mem_foldl_addDependent {name dependency : String} {requires : List String}
    {adjacency : OrdMap String (List String)} :
    x ∈ ((requires.foldl (addDependent name) adjacency)[dependency]?).getD [] ↔
      x ∈ (adjacency[dependency]?).getD [] ∨ dependency ∈ requires ∧ x = name := by
  induction requires generalizing adjacency with
  | nil => simp
  | cons required requires ih =>
    rw [foldl_cons, ih, addDependent, lookup_insert, mem_cons]
    by_cases h : required = dependency
    · subst h
      rw [if_pos rfl, Option.getD_some, mem_append, mem_singleton]
      tauto
    · rw [if_neg h]
      tauto

theorem mem_foldl_entries {dependency : String} {entries : List (String × QueryStageSpec)}
    {adjacency : OrdMap String (List String)} : x ∈ ((entries.foldl (fun adjacency entry =>
        entry.2.requires.foldl (addDependent entry.2.name) adjacency) adjacency)[dependency]?).getD [] ↔
      x ∈ (adjacency[dependency]?).getD [] ∨
        ∃ entry ∈ entries, dependency ∈ entry.2.requires ∧ x = entry.2.name := by
  induction entries generalizing adjacency with
  | nil => simp
  | cons entry entries ih =>
    rw [foldl_cons, ih, mem_foldl_addDependent, exists_mem_cons_iff, or_assoc]

/-- The dependents of a stage are the registered stages that require it. -/
theorem Named.mem_dependents (h : r.Named) : x ∈ r.dependents stage ↔ r.Requires x stage := by
  have hsorted : x ∈ r.dependents stage ↔ x ∈ ((r.stages.toList.foldl (fun adjacency entry =>
      entry.2.requires.foldl (addDependent entry.2.name) adjacency) ∅)[stage]?).getD [] := by
    unfold dependents adjacency
    rw [ExtTreeMap.getElem?_map]
    cases (r.stages.toList.foldl (fun adjacency entry =>
      entry.2.requires.foldl (addDependent entry.2.name) adjacency)
      (∅ : OrdMap String (List String)))[stage]? with
    | none => rfl
    | some names => exact mem_sort
  rw [hsorted, mem_foldl_entries]
  constructor
  · rintro (hempty | ⟨⟨key, spec⟩, hentry, hmem, rfl⟩)
    · simp at hempty
    · have hlookup := mem_toList.mp hentry
      rw [h.keyed key spec hlookup]
      exact ⟨spec.requires, requirements_of_lookup hlookup, hmem⟩
  · rintro ⟨requires, hrequires, hmem⟩
    obtain ⟨spec, hlookup, rfl⟩ := Option.map_eq_some_iff.mp hrequires
    exact .inr ⟨(x, spec), mem_toList.mpr hlookup, hmem, (h.keyed x spec hlookup).symm⟩

/-- A search that has gone through the dependents of the stages `done`: what it has seen
    waits in the queue or is done. -/
structure RouteSearch.Sound (r : QueryProviderRegistry) (root : String) (done : List String)
    (search : RouteSearch) (order : List String) : Prop where
  tree : SearchTree r.dependents root (fun stage => search.parent[stage]?) order
  seen : ∀ stage, stage ∈ search.seen ↔ stage ∈ order
  fresh : ∀ stage ∉ order, search.parent[stage]? = none
  known : ∀ stage ∈ order, stage = root ∨ stage ∈ r.stages
  closed : ∀ stage ∈ done, ∀ x ∈ r.dependents stage, x ∈ order

variable {done : List String} {search : RouteSearch}

theorem RouteSearch.Sound.length_le {root : String} {order : List String}
    (h : search.Sound r root done order) : order.length ≤ r.stages.size + 1 := by
  have hsub : order ⊆ root :: r.stages.keys := by
    intro stage hstage
    rcases h.known stage hstage with rfl | hmem
    · exact mem_cons_self ..
    · exact mem_cons_of_mem _ (ExtTreeMap.mem_keys.mpr hmem)
  have hle := (h.tree.nodup.subperm hsub).length_le
  rwa [length_cons, ExtTreeMap.length_keys] at hle

theorem RouteSearch.sound_start (root : String) :
    RouteSearch.Sound r root [] { seen := OrdSet.ofList [root], parent := ∅, queue := [root] }
      [root] := by
  refine ⟨.singleton, ?_, by simp, by simp, by simp⟩
  intro stage
  rw [ExtTreeMap.mem_iff_isSome_getElem?, OrdSet.isSome_ofList]

theorem mem_of_idxOf_lt {queue : List String} (hstage : stage ∉ done)
    (h : (done ++ stage :: queue).idxOf x < (done ++ stage :: queue).idxOf stage) : x ∈ done := by
  rw [idxOf_append_of_notMem hstage, idxOf_cons_self] at h
  by_contra hx
  rw [idxOf_append_of_notMem hx] at h
  omega

/-- One new dependent of the stage at hand is entered. -/
theorem RouteSearch.Sound.enter (hr : r.Named) {root candidate : String}
    (h : search.Sound r root done (done ++ stage :: search.queue))
    (hcandidate : candidate ∈ r.dependents stage) (hnew : candidate ∉ search.seen) :
    RouteSearch.Sound r root done
      { seen := search.seen.insert candidate ()
        parent := search.parent.insert candidate stage
        queue := search.queue ++ [candidate] }
      (done ++ stage :: (search.queue ++ [candidate])) := by
  have hnot : candidate ∉ done ++ stage :: search.queue := fun hmem => hnew ((h.seen _).mpr hmem)
  have hstage : stage ∉ done := by
    have hdisjoint := (nodup_append'.mp h.tree.nodup).2.2
    exact fun hmem => hdisjoint hmem (mem_cons_self ..)
  have horder : done ++ stage :: (search.queue ++ [candidate])
      = (done ++ stage :: search.queue) ++ [candidate] := by simp
  rw [horder]
  refine ⟨?_, ?_, ?_, ?_, ?_⟩
  · refine h.tree.discover (a := stage) (by simp) hnot hcandidate ?_ ?_ ?_
    · rw [lookup_insert, if_pos rfl]
    · intro c hc
      have hne : candidate ≠ c := fun heq => hnot (heq ▸ hc)
      rw [lookup_insert, if_neg hne]
    · intro c hc
      exact h.closed c (mem_of_idxOf_lt hstage hc)
  · intro x
    rw [mem_insert, h.seen, mem_append (s := done ++ stage :: search.queue),
      mem_singleton, or_comm]
  · intro x hx
    rw [mem_append, mem_singleton, not_or] at hx
    have hne : candidate ≠ x := fun heq => hx.2 heq.symm
    rw [lookup_insert, if_neg hne]
    exact h.fresh x hx.1
  · intro x hx
    rcases mem_append.mp hx with hx | hx
    · exact h.known x hx
    · obtain ⟨requires, hrequires, -⟩ := hr.mem_dependents.mp hcandidate
      rw [mem_singleton.mp hx]
      exact .inr (mem_stages_of_requirements (by rw [hrequires]; rfl))
  · intro c hc x hx
    exact mem_append_left _ (h.closed c hc x hx)

/-- What the loop over the dependents of a stage leaves: a search with all of them in it, or
    the parents up to the target. -/
inductive Expanded (r : QueryProviderRegistry) (root target stage : String)
    (done queue candidates : List String) : RouteSearch ⊕ OrdMap String String → Prop
  | more (search : RouteSearch)
      (hsound : search.Sound r root done (done ++ stage :: search.queue))
      (hkeep : ∀ x ∈ queue, x ∈ search.queue)
      (hall : ∀ x ∈ candidates, x ∈ done ++ stage :: search.queue) :
      Expanded r root target stage done queue candidates (.inl search)
  | found (search : RouteSearch) (order : List String) (hsound : search.Sound r root done order)
      (htarget : target ∈ order) :
      Expanded r root target stage done queue candidates (.inr search.parent)

theorem expand_cons_new {candidate : String} {candidates : List String}
    (hseen : candidate ∉ search.seen) (hparent : search.parent[candidate]? = none) :
    expand target stage (candidate :: candidates) search =
      if candidate = target then .inr (search.parent.insert candidate stage) else
        expand target stage candidates
          { seen := search.seen.insert candidate ()
            parent := search.parent.insert candidate stage
            queue := search.queue ++ [candidate] } := by
  have hnot : candidate ∉ search.parent := by
    intro hmem
    obtain ⟨pred, hpred⟩ := mem_iff_exists.mp hmem
    rw [hparent] at hpred
    exact absurd hpred (by simp)
  rw [expand, if_neg hseen]
  simp only [if_neg hnot]

theorem expanded_expand (hr : r.Named) {root : String} :
    ∀ (candidates : List String) (search : RouteSearch),
      search.Sound r root done (done ++ stage :: search.queue) →
      (∀ x ∈ candidates, x ∈ r.dependents stage) →
      Expanded r root target stage done search.queue candidates
        (expand target stage candidates search) := by
  intro candidates
  induction candidates with
  | nil =>
    intro search hsound _
    exact .more search hsound (fun x hx => hx) (by simp)
  | cons candidate candidates ih =>
    intro search hsound hdependents
    have hrest : ∀ x ∈ candidates, x ∈ r.dependents stage := fun x hx =>
      hdependents x (mem_cons_of_mem _ hx)
    by_cases hseen : candidate ∈ search.seen
    · have hloop := ih search hsound hrest
      have hmem := (hsound.seen candidate).mp hseen
      rw [expand, if_pos hseen]
      generalize expand target stage candidates search = result at hloop
      cases hloop with
      | found search' order hsound' htarget => exact .found search' order hsound' htarget
      | more search' hsound' hkeep hall =>
        refine .more search' hsound' hkeep fun x hx => ?_
        rcases mem_cons.mp hx with rfl | hx
        · rw [mem_append, mem_cons] at hmem ⊢
          rcases hmem with hmem | hmem | hmem
          · exact .inl hmem
          · exact .inr (.inl hmem)
          · exact .inr (.inr (hkeep x hmem))
        · exact hall x hx
    · have hfresh := hsound.fresh candidate fun hmem => hseen ((hsound.seen _).mpr hmem)
      have hentered := hsound.enter hr (hdependents candidate (mem_cons_self ..)) hseen
      rw [expand_cons_new hseen hfresh]
      split_ifs with htarget
      · exact .found _ _ hentered (by simp [htarget])
      · have hloop := ih _ hentered hrest
        generalize expand target stage candidates _ = result at hloop
        cases hloop with
        | found search' order hsound' htarget => exact .found search' order hsound' htarget
        | more search' hsound' hkeep hall =>
          refine .more search' hsound' (fun x hx => hkeep x (mem_append_left _ hx))
            fun x hx => ?_
          rcases mem_cons.mp hx with rfl | hx
          · have hqueue := hkeep x (by simp)
            exact mem_append_right _ (mem_cons_of_mem _ hqueue)
          · exact hall x hx

/-- Following the parents from the end of a branch gives the branch. -/
theorem pathBack_of_branch {parent : OrdMap String String} {root node : String}
    {path : List String} (h : Branch (fun stage => parent[stage]?) root node path) :
    ∀ (fuel : Nat) (acc : List String), path.length ≤ fuel →
      pathBack parent root fuel node (node :: acc).reverse = some (path ++ acc) := by
  induction h with
  | @first node hparent =>
    intro fuel acc hfuel
    obtain ⟨fuel, rfl⟩ : ∃ n, fuel = n + 1 := ⟨fuel - 1, by simp at hfuel; omega⟩
    rw [pathBack, hparent]
    simp
  | @snoc pred node path hparent hne _ ih =>
    intro fuel acc hfuel
    rw [length_append, length_singleton] at hfuel
    obtain ⟨fuel, rfl⟩ : ∃ n, fuel = n + 1 := ⟨fuel - 1, by omega⟩
    have hrest := ih fuel (node :: acc) (by omega)
    rw [pathBack, hparent]
    simp only
    rw [if_neg hne]
    rw [reverse_cons] at hrest
    rw [hrest]
    simp

/-- What the search returns: a branch of a search tree to the target, or an error. -/
inductive Searched (r : QueryProviderRegistry) (root target : String) :
    Bounded (List String) → Prop
  | found (path order : List String) (parent : String → Option String)
      (htree : SearchTree r.dependents root parent order) (htarget : target ∈ order)
      (hpath : Branch parent root target path) : Searched r root target (pure path)
  | failed (e : CaapError) : Searched r root target (Bounded.ofResult (.error e))

theorem searched_searchRoute (hr : r.Named) {root : String} (hne : target ≠ root)
    (fuel : Nat) : ∀ (done : List String) (search : RouteSearch),
      search.Sound r root done (done ++ search.queue) → r.stages.size + 1 < done.length + fuel →
      Searched r root target (r.searchRoute root target fuel search) := by
  induction fuel with
  | zero =>
    intro done search hsound hfuel
    have hle := hsound.length_le
    rw [length_append] at hle
    omega
  | succ fuel ih =>
    intro done search hsound hfuel
    unfold searchRoute
    cases hqueue : search.queue with
    | nil => exact .failed _
    | cons stage queue =>
      rw [hqueue] at hsound
      have hstart : RouteSearch.Sound r root done { search with queue := queue }
          (done ++ stage :: queue) := ⟨hsound.tree, hsound.seen, hsound.fresh, hsound.known,
        hsound.closed⟩
      have hexpanded : Expanded r root target stage done queue (r.dependents stage)
          (expand target stage (r.dependents stage) { search with queue := queue }) :=
        expanded_expand hr (r.dependents stage) _ hstart (fun x hx => hx)
      simp only
      generalize expand target stage (r.dependents stage) { search with queue := queue }
        = result at hexpanded
      cases hexpanded with
      | more search' hsound' hkeep hall =>
        refine ih (done ++ [stage]) search' ?_ ?_
        · rw [append_assoc, singleton_append]
          refine ⟨hsound'.tree, hsound'.seen, hsound'.fresh, hsound'.known, ?_⟩
          intro c hc x hx
          rcases mem_append.mp hc with hc | hc
          · exact hsound'.closed c hc x hx
          · rw [mem_singleton.mp hc] at hx
            exact hall x hx
        · rw [length_append, length_singleton]
          omega
      | found search' order hsound' htarget =>
        obtain ⟨path, hpath, hlength, -⟩ := hsound'.tree.exists_branch htarget hne
        have hidx := idxOf_lt_length_of_mem htarget
        have hle := hsound'.length_le
        have hback := pathBack_of_branch hpath (r.stages.size + 1) [] (by omega)
        rw [reverse_singleton, append_nil] at hback
        simp only
        rw [hback]
        exact .found path order _ hsound'.tree htarget hpath

/-! ## What a path leaves out -/

/-- Of the stages that come after `origin`, and of `origin` itself, no stage on the way to
    the target requires two. -/
def Unbranched (r : QueryProviderRegistry) (origin target : String) : Prop :=
  ∀ stage, ReflTransGen r.Requires target stage → ¬ ReflTransGen r.Requires origin stage →
    ∀ x y, r.Requires stage x → r.Requires stage y →
      (x = origin ∨ ¬ ReflTransGen r.Requires origin x) →
      (y = origin ∨ ¬ ReflTransGen r.Requires origin y) → x = y

/-- Every requirement of a stage on the path comes before it or is required by the origin. -/
def Supplied (r : QueryProviderRegistry) (origin : String) (path : List String) : Prop :=
  ∀ before stage rest, path = before ++ stage :: rest → ∀ required, r.Requires stage required →
    required ∈ before ∨ ReflTransGen r.Requires origin required

section Path

variable {origin target : String} {parent : String → Option String} {order path : List String}
  (hr : r.Named) (htree : SearchTree r.dependents origin parent order)
  (hpath : Branch parent origin target path) (htarget : target ∈ order) (hne : target ≠ origin)

include hr htree hpath htarget hne

/-- The stages of a branch are required by its end, and require its origin. -/
theorem requires_of_branch :
    ∀ x ∈ path, ReflTransGen r.Requires target x ∧ TransGen r.Requires x origin := by
  induction hpath with
  | @first a hparent =>
    obtain ⟨b, -, hb, hnext, -, -⟩ := htree.found a htarget hne
    obtain rfl := Option.some.inj (hparent.symm.trans hb)
    intro x hx
    rw [mem_singleton.mp hx]
    exact ⟨.refl, .single (hr.mem_dependents.mp hnext)⟩
  | @snoc b a path hparent hroot hbranch ih =>
    obtain ⟨b', hb', hparent', hnext, -, -⟩ := htree.found a htarget hne
    obtain rfl := Option.some.inj (hparent.symm.trans hparent')
    have hstep := hr.mem_dependents.mp hnext
    have hrest := ih hb' hroot
    intro x hx
    rcases mem_append.mp hx with hx | hx
    · exact ⟨.head hstep (hrest x hx).1, (hrest x hx).2⟩
    · rw [mem_singleton.mp hx]
      exact ⟨.refl, .head hstep (hrest b hbranch.mem).2⟩

/-- On an acyclic graph no stage of the branch is required by the origin. -/
theorem not_requires_of_branch (hroutable : r.Routable target) :
    ∀ x ∈ path, ¬ ReflTransGen r.Requires origin x := by
  intro x hx hback
  obtain ⟨hreach, hforth⟩ := requires_of_branch hr htree hpath htarget hne x hx
  exact (hroutable x hreach).2 (TransGen.trans_left hforth hback)

theorem supplied_of_unbranched (hroutable : r.Routable target) (h : r.Unbranched origin target) :
    r.Supplied origin path := by
  intro before stage rest hsplit required hrequired
  have hout := not_requires_of_branch hr htree hpath htarget hne hroutable
  have hmem : stage ∈ path := by simp [hsplit]
  have hreach := (requires_of_branch hr htree hpath htarget hne stage hmem).1
  obtain ⟨hprev, -⟩ := htree.sole_predecessor hpath htarget hne hsplit
  have hlast : (origin :: before).getLast (by simp) ∈ origin :: before := getLast_mem _
  set prev := (origin :: before).getLast (by simp) with hprevdef
  have hopen : prev = origin ∨ ¬ ReflTransGen r.Requires origin prev := by
    rcases mem_cons.mp hlast with heq | hbefore
    · exact .inl heq
    · exact .inr (hout prev (by rw [hsplit]; exact mem_append_left _ hbefore))
  by_cases hin : ReflTransGen r.Requires origin required
  · exact .inr hin
  · -- The requirement is open, so it is the one the path came from.
    have heq : required = prev :=
      h stage hreach (hout stage hmem) required prev hrequired (hr.mem_dependents.mp hprev)
        (.inr hin) hopen
    rw [← heq] at hlast
    rcases mem_cons.mp hlast with horigin | hbefore
    · exact absurd (horigin ▸ ReflTransGen.refl) hin
    · exact .inl hbefore

theorem unbranched_of_supplied (h : r.Supplied origin path) : r.Unbranched origin target := by
  -- Nothing the target requires is outside the path and what the origin requires.
  have hcover : ∀ stage, ReflTransGen r.Requires target stage →
      stage ∈ path ∨ ReflTransGen r.Requires origin stage := by
    intro stage hstage
    induction hstage with
    | refl => exact .inl hpath.mem
    | @tail stage x _ hx ih =>
      rcases ih with hmem | hin
      · obtain ⟨before, rest, hsplit⟩ := append_of_mem hmem
        rcases h before stage rest hsplit x hx with hbefore | hin
        · exact .inl (by rw [hsplit]; exact mem_append_left _ hbefore)
        · exact .inr hin
      · exact .inr (hin.tail hx)
  intro stage hstage hout x y hx hy hxopen hyopen
  obtain ⟨before, rest, hsplit⟩ := append_of_mem ((hcover stage hstage).resolve_right hout)
  obtain ⟨-, hsole⟩ := htree.sole_predecessor hpath htarget hne hsplit
  have hone : ∀ z, r.Requires stage z → (z = origin ∨ ¬ ReflTransGen r.Requires origin z) →
      z = (origin :: before).getLast (by simp) := by
    intro z hz hopen
    apply hsole z _ (hr.mem_dependents.mpr hz)
    rcases hopen with rfl | hnot
    · exact mem_cons_self ..
    · exact mem_cons_of_mem _ ((h before stage rest hsplit z hz).resolve_right hnot)
  rw [hone x hx hxopen, hone y hy hyopen]

end Path

theorem routeFromStageToTarget_resolved {fromStage origin : String}
    (horigin : r.resolveStage fromStage = .ok origin) (hstage : r.resolveStage target = .ok stage) :
    r.routeFromStageToTarget fromStage target = (do
      let _ ← r.routeToStage stage
      if origin = stage then pure []
      else
        r.searchRoute origin stage (r.stages.size + 2)
          { seen := OrdSet.ofList [origin], parent := ∅, queue := [origin] }) := by
  have hnonempty : ¬ r.stages.isEmpty = true := by
    intro hempty
    rw [resolveStage, if_pos hempty] at horigin
    exact absurd horigin (by simp)
  rw [routeFromStageToTarget, if_neg hnonempty, horigin, hstage]
  rfl

/-- `route_from_stage_to_target` finds nothing to do, a branch of a search tree, or an
    error. -/
theorem routeFromStageToTarget_cases (hr : r.Named) {fromStage origin : String}
    (horigin : r.resolveStage fromStage = .ok origin) (hstage : r.resolveStage target = .ok stage) :
    (∃ e, r.routeFromStageToTarget fromStage target = Bounded.ofResult (.error e)) ∨
      r.Routable stage ∧ (origin = stage ∧ r.routeFromStageToTarget fromStage target = pure [] ∨
        stage ≠ origin ∧ ∃ path order parent,
          r.routeFromStageToTarget fromStage target = pure path ∧
          SearchTree r.dependents origin parent order ∧ stage ∈ order ∧
          Branch parent origin stage path) := by
  have hself := hr.resolveStage_self (hr.resolveStage_mem hstage)
  rw [routeFromStageToTarget_resolved horigin hstage]
  rcases routeToStage_resolved hself with ⟨route, hroute, hroutable, -⟩ | ⟨e, he, -⟩
  · rw [hroute]
    split_ifs with heq
    · exact .inr ⟨hroutable, .inl ⟨heq, rfl⟩⟩
    · have hne : stage ≠ origin := fun h => heq h.symm
      have hsearch := searched_searchRoute hr hne (r.stages.size + 2) [] _
        (RouteSearch.sound_start origin) (by simp)
      generalize r.searchRoute origin stage _ _ = result at hsearch
      cases hsearch with
      | failed e => exact .inl ⟨e, rfl⟩
      | found path order parent htree htarget hpath =>
        exact .inr ⟨hroutable, .inr
          ⟨hne, path, order, parent, rfl, htree, htarget, hpath⟩⟩
  · rw [he]
    exact .inl ⟨e, rfl⟩

theorem routeFromStageToTarget_returns (hr : r.Named) (fromStage target : String) :
    ∃ result, r.routeFromStageToTarget fromStage target = Bounded.ofResult result := by
  by_cases hempty : r.stages.isEmpty = true
  · exact ⟨_, if_pos hempty⟩
  · cases horigin : r.resolveStage fromStage with
    | error e =>
      refine ⟨.error e, ?_⟩
      rw [routeFromStageToTarget, if_neg hempty, horigin]
      rfl
    | ok origin =>
      cases hstage : r.resolveStage target with
      | error e =>
        refine ⟨.error e, ?_⟩
        rw [routeFromStageToTarget, if_neg hempty, horigin, hstage]
        rfl
      | ok stage =>
        rcases routeFromStageToTarget_cases hr horigin hstage with
          ⟨e, he⟩ | ⟨-, ⟨-, hnil⟩ | ⟨-, path, -, -, hpath, -⟩⟩
        · exact ⟨.error e, he⟩
        · exact ⟨.ok [], hnil⟩
        · exact ⟨.ok path, hpath⟩

/-- The path that is found is supplied exactly when the stages to run do not branch. -/
theorem supplied_iff (hr : r.Named) {fromStage origin : String} {path : List String}
    (horigin : r.resolveStage fromStage = .ok origin) (hstage : r.resolveStage target = .ok stage)
    (h : r.routeFromStageToTarget fromStage target = pure path) :
    r.Routable origin ∧ (r.Supplied origin path ↔ r.Unbranched origin stage) := by
  rcases routeFromStageToTarget_cases hr horigin hstage with
    ⟨e, he⟩ | ⟨hroutable, ⟨heq, hnil⟩ | ⟨hne, path', order, parent, hpath', htree, hmem, hpath⟩⟩
  · rw [h] at he
    exact absurd he.symm ofResult_error_ne_pure
  · rw [h] at hnil
    obtain rfl := bounded_pure_inj hnil
    subst heq
    refine ⟨hroutable, ?_, ?_⟩
    · intro _ stage hstage hout
      exact absurd hstage hout
    · intro _ before x rest hsplit
      exact absurd hsplit (by simp)
  · rw [h] at hpath'
    obtain rfl := bounded_pure_inj hpath'
    have hreach := (requires_of_branch hr htree hpath hmem hne stage hpath.mem).2
    refine ⟨fun x hx => hroutable x (hreach.to_reflTransGen.trans hx), ?_, ?_⟩
    · exact unbranched_of_supplied hr htree hpath hmem hne
    · exact supplied_of_unbranched hr htree hpath hmem hne hroutable

/-- The routes of a registry, whatever was registered.  The route to a stage exists where all
    the stage requires is registered and free of cycles, and lists that once and in order.
    The path from a stage to a target has every requirement before it, or on the route to
    the first stage, exactly when the stages between them do not branch. -/
theorem stageRoutes (hr : Reachable step new r) :
    (∀ target, (∃ route, r.routeToStage target = pure route) ↔
      ∃ stage, r.resolveStage target = .ok stage ∧
        ∀ x, ReflTransGen r.Requires stage x → x ∈ r.stages ∧ ¬ TransGen r.Requires x x) ∧
    (∀ target stage route, r.resolveStage target = .ok stage → r.routeToStage target = pure route →
      route.Nodup ∧ (∀ x, x ∈ route ↔ ReflTransGen r.Requires stage x) ∧
        ∀ before x rest, route = before ++ x :: rest → ∀ y, r.Requires x y → y ∈ before) ∧
    (∀ fromStage target, ∃ result,
      r.routeFromStageToTarget fromStage target = Bounded.ofResult result) ∧
    ∀ fromStage target origin stage path, r.resolveStage fromStage = .ok origin →
      r.resolveStage target = .ok stage → r.routeFromStageToTarget fromStage target = pure path →
      ((∃ completed, r.routeToStage fromStage = pure completed ∧
        ∀ before x rest, path = before ++ x :: rest → ∀ y, r.Requires x y →
          y ∈ before ∨ y ∈ completed) ↔ r.Unbranched origin stage) := by
  have hnamed := named_of_reachable hr
  refine ⟨fun target => routeToStage_ok_iff, ?_, routeFromStageToTarget_returns hnamed, ?_⟩
  · intro target stage route hstage hroute
    obtain ⟨horder, hmem⟩ := routeToStage_lists hstage hroute
    exact ⟨horder.nodup, hmem, horder.after⟩
  · intro fromStage target origin stage path horigin hstage hpath
    obtain ⟨hroutable, hiff⟩ := supplied_iff hnamed horigin hstage hpath
    obtain ⟨completed, hcompleted⟩ := routeToStage_ok_iff.mpr ⟨origin, horigin, hroutable⟩
    have hmem := (routeToStage_lists horigin hcompleted).2
    rw [← hiff]
    constructor
    · rintro ⟨completed', hcompleted', hall⟩ before x rest hsplit y hy
      rw [hcompleted] at hcompleted'
      obtain rfl := bounded_pure_inj hcompleted'
      exact (hall before x rest hsplit y hy).imp_right (hmem y).mp
    · intro hsupplied
      refine ⟨completed, hcompleted, fun before x rest hsplit y hy => ?_⟩
      exact (hsupplied before x rest hsplit y hy).imp_right (hmem y).mpr

/-- The registration of a stage with its requirements. -/
def stageCall (name : String) (requires : List String) : Call :=
  .registerStage
    { name := name, requires := requires, phasePolicy := .dual, inputKinds := [], familyLabel := none
      aliases := [], restartStage := none }

/-- Two stages after one and before another. -/
def diamond : QueryProviderRegistry :=
  run step new [stageCall "parse" [], stageCall "names" ["parse"], stageCall "types" ["parse"],
    stageCall "emit" ["names", "types"]]

theorem diamond_requires : diamond.Requires "emit" "types" :=
  ⟨["names", "types"], by decide, by simp⟩

theorem diamond_path : diamond.routeFromStageToTarget "parse" "emit" = pure ["names", "emit"] := by
  show (diamond.routeFromStageToTarget "parse" "emit").run = some (.ok ["names", "emit"])
  decide

theorem diamond_completed : diamond.routeToStage "parse" = pure ["parse"] := by
  show (diamond.routeToStage "parse").run = some (.ok ["parse"])
  decide

/-- The path from `parse` to `emit` runs `emit` without `types`, which it requires and which
    the route to `parse` does not hold. -/
theorem diamond_lacks_stage : ∃ calls : List Call, ∃ completed path : List String,
    ∃ before x rest y, (run step new calls).routeFromStageToTarget "parse" "emit" = pure path ∧
      (run step new calls).routeToStage "parse" = pure completed ∧
      path = before ++ x :: rest ∧ (run step new calls).Requires x y ∧ y ∉ before ∧
      y ∉ completed := by
  exact ⟨_, ["parse"], ["names", "emit"], ["names"], "emit", [], "types", diamond_path,
    diamond_completed, rfl, diamond_requires, by decide, by decide⟩

/-- The stages between `parse` and `emit` branch. -/
theorem stageRoutes_diamond : ¬ diamond.Unbranched "parse" "emit" := by
  intro h
  have hreach : Reachable step new diamond := ⟨_, rfl⟩
  obtain ⟨completed, hcompleted, hall⟩ := ((stageRoutes hreach).2.2.2 "parse" "emit" "parse"
    "emit" ["names", "emit"] (by decide) (by decide) diamond_path).mpr h
  obtain rfl := bounded_pure_inj hcompleted
  rcases hall ["names"] "emit" [] rfl "types" diamond_requires with hmem | hmem
  · exact absurd hmem (by decide)
  · exact absurd hmem (by decide)

end QueryProviderRegistry

end Caap
