/-
  Caap.Query.Schedule

  The order in which the providers of one stage run (`compiler/query_provider_registry.rs`).
  Requirements and data give edges between providers; two providers whose reads and writes
  conflict get one more edge, unless a path already runs the other way; the layers of the
  graph are the groups.
-/

import Caap.Lib.Layering
import Caap.Query.Provider

namespace Caap

open Std Lib Relation QueryProvider DepGraph Except

/-- `QueryProviderSchedule`. -/
structure QueryProviderSchedule where
  groups : List (List QueryProvider)
  barriers : List (Option (List String))
  deriving DecidableEq

/-! ## Data keys and effects -/

/-- `str::strip_suffix`. -/
def stripSuffix (s suffix : String) : Option String :=
  if suffix.toList.isSuffixOf s.toList then
    some (String.ofList (s.toList.take (s.toList.length - suffix.toList.length)))
  else none

/-- `data_key_matches`. -/
def dataKeyMatches (requirement provided : String) : Bool :=
  requirement == provided ||
    (stripSuffix requirement ".*").any fun lead => startsWith provided (lead ++ ".")

/-- `strings_intersect`. -/
def stringsIntersect (left right : List String) : Bool := left.any fun item => right.contains item

/-- `string_intersection`. -/
def stringIntersection (left right : List String) : List String :=
  sortDedup (left.filter fun item => right.contains item)

/-- `provider_effects_conflict`. -/
def providerEffectsConflict (current later : QueryProvider) : Bool :=
  stringsIntersect current.reads later.writes || stringsIntersect current.writes later.reads ||
    stringsIntersect current.writes later.writes

/-- `push_provider_barrier_reason`. -/
def pushProviderBarrierReason (label : String) (left right reasons : List String) : List String :=
  let intersection := stringIntersection left right
  if intersection.isEmpty then reasons
  else reasons ++ [label ++ " " ++ ", ".intercalate intersection]

/-- The reasons for the barrier between two groups. -/
def barrierReasons (group nextGroup : List QueryProvider) : List String :=
  sortDedup (group.foldl (fun reasons current =>
    nextGroup.foldl (fun reasons later =>
      pushProviderBarrierReason "competing writes on" current.writes later.writes
        (pushProviderBarrierReason "reads after writes on" current.writes later.reads
          (pushProviderBarrierReason "writes after reads on" current.reads later.writes reasons)))
      reasons) [])

/-- `provider_schedule_barriers`. -/
def providerScheduleBarriers : List (List QueryProvider) → List (Option (List String))
  | [] => []
  | [_] => [none]
  | group :: nextGroup :: rest =>
    (if (barrierReasons group nextGroup).isEmpty then none
      else some (barrierReasons group nextGroup)) ::
      providerScheduleBarriers (nextGroup :: rest)

/-! ## Edges -/

/-- The keys `outgoing` and the counts `incoming_count` that the scheduler builds. -/
abbrev ScheduleGraph := DepGraph String

/-- `add_provider_schedule_edge`. -/
def addProviderScheduleEdge (g : ScheduleGraph) (before after : String) : ScheduleGraph :=
  g.addEdge before after

/-- The loop over the static requirements of a provider. -/
def addStaticRequirements (positions : OrdMap String Nat) (provider : QueryProvider)
    (g : ScheduleGraph) : CaapResult ScheduleGraph :=
  foldOk (fun g requirement =>
    if requirement ∉ positions then
      .error (.compiler ("provider " ++ debugStr provider.name ++ " requires missing provider "
        ++ debugStr requirement))
    else .ok (addProviderScheduleEdge g requirement provider.name)) g provider.requires

/-- The loop over the observed requirements of a provider. -/
def addDynamicRequirements (positions : OrdMap String Nat)
    (dynamicRequires : OrdMap String (List String)) (provider : QueryProvider)
    (g : ScheduleGraph) : ScheduleGraph :=
  (((dynamicRequires[provider.name]?).getD []).filter fun requirement =>
    decide (requirement ∈ positions)).foldl (fun g requirement =>
      addProviderScheduleEdge g requirement provider.name) g

/-- The first loop of `provider_schedule_batches`. -/
def addProviderRequirementEdges (positions : OrdMap String Nat)
    (dynamicRequires : OrdMap String (List String)) (providers : List QueryProvider)
    (g : ScheduleGraph) : CaapResult ScheduleGraph :=
  foldOk (fun g provider => do
    let g ← addStaticRequirements positions provider g
    .ok (addDynamicRequirements positions dynamicRequires provider g)) g providers

/-- `sort_by_key(|name| positions[name])`. -/
def sortByPosition (positions : OrdMap String Nat) (names : List String) : List String :=
  names.insertionSort fun a b => (positions[a]?).getD 0 ≤ (positions[b]?).getD 0

/-- The providers that supply a data key to `provider`. -/
def dataSuppliers (providers : List QueryProvider) (provider : QueryProvider)
    (requirement : String) : List QueryProvider :=
  providers.filter fun candidate => candidate.name != provider.name &&
    candidate.providesData.any fun provided => dataKeyMatches requirement provided

/-- One iteration of the inner loop of `add_provider_data_edges`. -/
def addDataRequirement (providers : List QueryProvider) (positions : OrdMap String Nat)
    (availableData : List String) (provider : QueryProvider) (g : ScheduleGraph)
    (requirement : String) : CaapResult ScheduleGraph :=
  if availableData.any fun key => dataKeyMatches requirement key then .ok g
  else
    let suppliers := sortByPosition positions
      ((dataSuppliers providers provider requirement).map QueryProvider.name)
    if suppliers.isEmpty then
      .error (.compiler ("provider " ++ debugStr provider.name ++ " requires data "
        ++ debugStr requirement ++ " from a later or missing stage"))
    else
      .ok (suppliers.foldl (fun g supplier => addProviderScheduleEdge g supplier provider.name) g)

/-- `add_provider_data_edges`. -/
def addProviderDataEdges (providers : List QueryProvider) (positions : OrdMap String Nat)
    (availableData : List String) (g : ScheduleGraph) : CaapResult ScheduleGraph :=
  foldOk (fun g provider =>
    foldOk (addDataRequirement providers positions availableData provider) g
      provider.requiresData) g providers

/-- `provider_schedule_reachability`. -/
def providerScheduleReachability (providers : List QueryProvider) (g : ScheduleGraph) :
    OrdMap String (OrdSet String) :=
  OrdMap.ofEntries ((providers.map QueryProvider.name).map fun name => (name, g.reachFrom name))

/-- The body of the inner loop of `add_provider_effect_conflict_edges`. -/
def addConflictEdge (providers : List QueryProvider) (current : QueryProvider) (g : ScheduleGraph)
    (later : QueryProvider) : ScheduleGraph :=
  if !providerEffectsConflict current later then g
  else if ((providerScheduleReachability providers g)[later.name]?).any
      fun targets => decide (current.name ∈ targets) then g
  else addProviderScheduleEdge g current.name later.name

/-- `add_provider_effect_conflict_edges`, over the providers that are left. -/
def addProviderEffectConflictEdges (providers : List QueryProvider) :
    List QueryProvider → ScheduleGraph → ScheduleGraph
  | [], g => g
  | current :: later, g =>
    addProviderEffectConflictEdges providers later
      (if current.reads.isEmpty && current.writes.isEmpty then g
        else later.foldl (addConflictEdge providers current) g)

/-! ## Batches -/

/-- `positions` of `provider_schedule_batches`. -/
def providerPositions (providers : List QueryProvider) : OrdMap String Nat :=
  OrdMap.ofEntries (providers.zipIdx.map fun entry => (entry.1.name, entry.2))

/-- The error for a stage whose providers wait for each other. -/
def scheduleCycleError : CaapError :=
  .compiler "provider scheduler detected a cycle inside one stage"

/-- The edges of `provider_schedule_batches`. -/
def providerScheduleGraph (providers : List QueryProvider) (availableData : List String)
    (dynamicRequires : OrdMap String (List String)) : CaapResult ScheduleGraph := do
  let positions := providerPositions providers
  let g ← addProviderRequirementEdges positions dynamicRequires providers
    (DepGraph.ofNodes (providers.map QueryProvider.name))
  let g ← addProviderDataEdges providers positions availableData g
  .ok (addProviderEffectConflictEdges providers providers g)

/-- The layers of `provider_schedule_batches`. -/
def providerScheduleLayers (providers : List QueryProvider) (g : ScheduleGraph) :
    CaapResult (OrdSet String × List (List QueryProvider)) :=
  let positions := providerPositions providers
  let byName := OrdMap.ofEntries (providers.map fun provider => (provider.name, provider))
  let ready := sortByPosition positions
    ((providers.filter fun provider => (g.incoming[provider.name]?).getD 0 = 0).map
      QueryProvider.name)
  -- every round but the last visits a provider
  g.layers byName
    (fun name => CaapError.compiler ("provider scheduler lost provider " ++ debugStr name))
    (fun next => dedup (sortByPosition positions next)) (providers.length + 1) ∅ g.incoming ready []

/-- `provider_schedule_batches`. -/
def providerScheduleBatches (providers : List QueryProvider) (availableData : List String)
    (dynamicRequires : OrdMap String (List String)) : CaapResult QueryProviderSchedule :=
  if providers.isEmpty then .ok { groups := [], barriers := [] }
  else do
    let g ← providerScheduleGraph providers availableData dynamicRequires
    let (visited, batches) ← providerScheduleLayers providers g
    if visited.size ≠ providers.length then .error scheduleCycleError
    else .ok { groups := batches, barriers := providerScheduleBarriers batches }

/-! ## What a schedule has to respect -/

/-- `p` requires `q`, statically or as observed; a requirement of itself does not count. -/
def QueryProvider.Requires (dynamicRequires : OrdMap String (List String)) (p q : QueryProvider) :
    Prop :=
  q.name ≠ p.name ∧ (q.name ∈ p.requires ∨ q.name ∈ (dynamicRequires[p.name]?).getD [])

/-- The data key is available before the stage runs. -/
def DataAvailable (availableData : List String) (requirement : String) : Prop :=
  ∃ key ∈ availableData, dataKeyMatches requirement key = true

/-- `q` supplies the data key to `p`. -/
def QueryProvider.Supplies (q p : QueryProvider) (requirement : String) : Prop :=
  q.name ≠ p.name ∧ ∃ provided ∈ q.providesData, dataKeyMatches requirement provided = true

/-- `p` needs data of `q` that is not available yet. -/
def QueryProvider.NeedsData (availableData : List String) (p q : QueryProvider) : Prop :=
  ∃ requirement ∈ p.requiresData, ¬ DataAvailable availableData requirement ∧
    q.Supplies p requirement

/-- One of the two writes what the other reads or writes. -/
def QueryProvider.Conflicts (p q : QueryProvider) : Prop :=
  ∃ domain, (domain ∈ p.reads ∧ domain ∈ q.writes) ∨ (domain ∈ p.writes ∧ domain ∈ q.reads) ∨
    (domain ∈ p.writes ∧ domain ∈ q.writes)

/-- The explicit edges between the names of the providers: requirements and data. -/
def ExplicitEdge (providers : List QueryProvider) (availableData : List String)
    (dynamicRequires : OrdMap String (List String)) (before after : String) : Prop :=
  ∃ p ∈ providers, ∃ q ∈ providers, q.name = before ∧ p.name = after ∧
    (p.Requires dynamicRequires q ∨ p.NeedsData availableData q)

/-- Every static requirement names one of the providers, and every data key that is not
    available has a supplier. -/
structure NothingMissing (providers : List QueryProvider) (availableData : List String) : Prop where
  requirement : ∀ p ∈ providers, ∀ name ∈ p.requires, ∃ q ∈ providers, q.name = name
  data : ∀ p ∈ providers, ∀ key ∈ p.requiresData, ¬ DataAvailable availableData key →
    ∃ q ∈ providers, q.Supplies p key

/-- The groups of a schedule hold every provider once, each after what it requires, and
    conflicting providers in different groups. -/
structure Respects (providers : List QueryProvider) (availableData : List String)
    (dynamicRequires : OrdMap String (List String)) (groups : List (List QueryProvider)) :
    Prop where
  once : groups.flatten.Perm providers
  later : ∀ (i j : Nat) (before after : List QueryProvider), groups[i]? = some before →
    groups[j]? = some after → ∀ q ∈ before, ∀ p ∈ after,
      (p.Requires dynamicRequires q ∨ p.NeedsData availableData q) → i < j
  apart : ∀ group ∈ groups, ∀ p ∈ group, ∀ q ∈ group, p ≠ q → ¬ p.Conflicts q

/-! ## The explicit edges -/

variable {name : String}

theorem mem_providerPositions {providers : List QueryProvider} :
    name ∈ providerPositions providers ↔ ∃ q ∈ providers, q.name = name := by
  rw [← not_iff_not, ExtTreeMap.mem_iff_isSome_getElem?, Option.not_isSome_iff_eq_none,
    providerPositions, OrdMap.lookup_ofEntries_none, not_iff_not, List.map_map]
  rw [show (Prod.fst ∘ fun entry : QueryProvider × Nat => (entry.1.name, entry.2))
    = QueryProvider.name ∘ Prod.fst from rfl, ← List.map_map, List.zipIdx_map_fst, List.mem_map]

/-- Edges to one name, from the names of a list. -/
theorem extends_foldl_addEdge {g : ScheduleGraph} {names : List String} {target : String}
    (hnames : ∀ name ∈ names, name ∈ g.outgoing) (htarget : target ∈ g.outgoing) :
    g.Extends (names.foldl (fun g name => addProviderScheduleEdge g name target) g)
      fun x y => x ∈ names ∧ y = target ∧ x ≠ y := by
  have hfold := foldOk_eq_foldl (l := names)
    (f := fun g name => (.ok (addProviderScheduleEdge g name target) : CaapResult ScheduleGraph))
    (fun _ _ _ => rfl) g
  refine (DepGraph.Extends.foldOk (E := fun name x y => x = name ∧ y = target ∧ x ≠ y) ?_
    hfold).congr ?_
  · intro g₁ g₂ hmem name hname hstep
    rw [← ok.inj hstep]
    exact .addEdge ((hmem name).mpr (hnames name hname)) ((hmem target).mpr htarget)
  · intro x y
    constructor
    · rintro ⟨name, hname, rfl, hy, hne⟩
      exact ⟨hname, hy, hne⟩
    · rintro ⟨hx, hy, hne⟩
      exact ⟨x, hx, rfl, hy, hne⟩

section Edges

variable {providers : List QueryProvider} {availableData : List String}
  {dynamicRequires : OrdMap String (List String)} {g g' : ScheduleGraph}

/-- The nodes of the graph are the names of the providers. -/
def NamesOf (providers : List QueryProvider) (g : ScheduleGraph) : Prop :=
  ∀ k, k ∈ g.outgoing ↔ ∃ q ∈ providers, q.name = k

theorem NamesOf.congr (h : NamesOf providers g) (hmem : ∀ k, k ∈ g'.outgoing ↔ k ∈ g.outgoing) :
    NamesOf providers g' := fun k => (hmem k).trans (h k)

variable {p : QueryProvider}

theorem addStaticRequirements_eq_ok (hg : NamesOf providers g) (hp : p ∈ providers)
    (h : addStaticRequirements (providerPositions providers) p g = .ok g') :
    (∀ name ∈ p.requires, ∃ q ∈ providers, q.name = name) ∧
      g.Extends g' fun x y => x ∈ p.requires ∧ y = p.name ∧ x ≠ y := by
  have hpresent : ∀ name ∈ p.requires, ∃ q ∈ providers, q.name = name := by
    intro name hname
    obtain ⟨g₁, g₂, hstep⟩ := step_of_foldOk h name hname
    exact mem_providerPositions.mp (not_not.mp (ite_error_eq_ok.mp hstep).1)
  refine ⟨hpresent, ?_⟩
  have hplain := foldOk_eq_foldl (l := p.requires)
    (f := fun g requirement =>
      if requirement ∉ providerPositions providers then
        .error (CaapError.compiler ("provider " ++ debugStr p.name ++ " requires missing provider "
          ++ debugStr requirement))
      else .ok (addProviderScheduleEdge g requirement p.name))
    (g := fun g requirement => addProviderScheduleEdge g requirement p.name)
    (fun name hname g₁ => if_neg (not_not.mpr (mem_providerPositions.mpr (hpresent name hname)))) g
  rw [← ok.inj (hplain.symm.trans h)]
  exact extends_foldl_addEdge (fun name hname => (hg name).mpr (hpresent name hname))
    ((hg p.name).mpr ⟨p, hp, rfl⟩)

theorem extends_addDynamicRequirements (hg : NamesOf providers g) (hp : p ∈ providers) :
    g.Extends (addDynamicRequirements (providerPositions providers) dynamicRequires p g)
      fun x y => ((∃ q ∈ providers, q.name = x) ∧ x ∈ (dynamicRequires[p.name]?).getD []) ∧
        y = p.name ∧ x ≠ y := by
  refine (extends_foldl_addEdge ?_ ((hg p.name).mpr ⟨p, hp, rfl⟩)).congr fun x y => ?_
  · intro name hname
    exact (hg name).mpr (mem_providerPositions.mp (of_decide_eq_true (List.mem_filter.mp hname).2))
  · rw [List.mem_filter, decide_eq_true_iff, mem_providerPositions, and_comm (a := x ∈ _)]

/-- The edges of the requirements. -/
theorem addProviderRequirementEdges_eq_ok (hg : NamesOf providers g)
    (h : addProviderRequirementEdges (providerPositions providers) dynamicRequires providers g
      = .ok g') : (∀ p ∈ providers, ∀ name ∈ p.requires, ∃ q ∈ providers, q.name = name) ∧
      g.Extends g' fun x y => ∃ p ∈ providers, ∃ q ∈ providers, q.name = x ∧ p.name = y ∧
        p.Requires dynamicRequires q := by
  have hpresent : ∀ p ∈ providers, ∀ name ∈ p.requires, ∃ q ∈ providers, q.name = name := by
    intro p hp name hname
    obtain ⟨g₁, g₂, hstep⟩ := step_of_foldOk h p hp
    obtain ⟨g₃, hstatic, -⟩ := bind_eq_ok.mp hstep
    obtain ⟨g₄, g₅, hone⟩ := step_of_foldOk hstatic name hname
    exact mem_providerPositions.mp (not_not.mp (ite_error_eq_ok.mp hone).1)
  refine ⟨hpresent, ?_⟩
  refine (DepGraph.Extends.foldOk (E := fun (p : QueryProvider) x y =>
    (x ∈ p.requires ∧ y = p.name ∧ x ≠ y) ∨
      (((∃ q ∈ providers, q.name = x) ∧ x ∈ (dynamicRequires[p.name]?).getD []) ∧
        y = p.name ∧ x ≠ y)) ?_ h).congr fun x y => ?_
  · intro g₁ g₂ hmem p hp hstep
    obtain ⟨g₃, hstatic, hdynamic⟩ := bind_eq_ok.mp hstep
    have hg₁ : NamesOf providers g₁ := hg.congr hmem
    obtain ⟨-, hfirst⟩ := addStaticRequirements_eq_ok hg₁ hp hstatic
    rw [← ok.inj hdynamic]
    exact hfirst.trans (extends_addDynamicRequirements (hg₁.congr hfirst.mem) hp)
  · constructor
    · rintro ⟨p, hp, ⟨hx, rfl, hne⟩ | ⟨⟨⟨q, hq, rfl⟩, hx⟩, rfl, hne⟩⟩
      · obtain ⟨q, hq, rfl⟩ := hpresent p hp x hx
        exact ⟨p, hp, q, hq, rfl, rfl, hne, .inl hx⟩
      · exact ⟨p, hp, q, hq, rfl, rfl, hne, .inr hx⟩
    · rintro ⟨p, hp, q, hq, rfl, rfl, hne, hx | hx⟩
      · exact ⟨p, hp, .inl ⟨hx, rfl, hne⟩⟩
      · exact ⟨p, hp, .inr ⟨⟨⟨q, hq, rfl⟩, hx⟩, rfl, hne⟩⟩

theorem perm_sortByPosition (positions : OrdMap String Nat) (names : List String) :
    (sortByPosition positions names).Perm names := List.perm_insertionSort _ names

variable {requirement : String}

variable {q : QueryProvider}

theorem mem_dataSuppliers :
    q ∈ dataSuppliers providers p requirement ↔ q ∈ providers ∧ q.Supplies p requirement := by
  rw [dataSuppliers, List.mem_filter, Bool.and_eq_true, bne_iff_ne, List.any_eq_true]
  rfl

theorem any_dataAvailable : (availableData.any fun key => dataKeyMatches requirement key) = true ↔
      DataAvailable availableData requirement := List.any_eq_true

theorem mem_supplierNames : name ∈ sortByPosition (providerPositions providers)
    ((dataSuppliers providers p requirement).map QueryProvider.name) ↔
      ∃ q ∈ providers, q.name = name ∧ q.Supplies p requirement := by
  rw [(perm_sortByPosition _ _).mem_iff, List.mem_map]
  constructor
  · rintro ⟨q, hq, rfl⟩
    exact ⟨q, (mem_dataSuppliers.mp hq).1, rfl, (mem_dataSuppliers.mp hq).2⟩
  · rintro ⟨q, hq, rfl, hs⟩
    exact ⟨q, mem_dataSuppliers.mpr ⟨hq, hs⟩, rfl⟩

/-- A data requirement that is not available succeeds when there is a supplier. -/
theorem addDataRequirement_eq_ok :
    addDataRequirement providers (providerPositions providers) availableData p g requirement
        = .ok g' ↔ (DataAvailable availableData requirement ∧ g = g') ∨
        (¬ DataAvailable availableData requirement ∧ (∃ q ∈ providers, q.Supplies p requirement) ∧
          (sortByPosition (providerPositions providers)
            ((dataSuppliers providers p requirement).map QueryProvider.name)).foldl
            (fun g supplier => addProviderScheduleEdge g supplier p.name) g = g') := by
  rw [addDataRequirement]
  by_cases havail : DataAvailable availableData requirement
  · rw [if_pos (any_dataAvailable.mpr havail)]
    simp [havail]
  · rw [if_neg (fun hany => havail (any_dataAvailable.mp hany)), ite_error_eq_ok, ok.injEq]
    have hsome : ¬ (sortByPosition (providerPositions providers)
        ((dataSuppliers providers p requirement).map name)).isEmpty = true ↔
          ∃ q ∈ providers, q.Supplies p requirement := by
      rw [List.isEmpty_iff]
      constructor
      · intro hne
        obtain ⟨name, hname⟩ := List.exists_mem_of_ne_nil _ hne
        obtain ⟨q, hq, -, hs⟩ := mem_supplierNames.mp hname
        exact ⟨q, hq, hs⟩
      · rintro ⟨q, hq, hs⟩
        exact List.ne_nil_of_mem (mem_supplierNames.mpr ⟨q, hq, rfl, hs⟩)
    rw [hsome]
    simp [havail]

theorem extends_addDataRequirement (hg : NamesOf providers g) (hp : p ∈ providers)
    (h : addDataRequirement providers (providerPositions providers) availableData p g requirement
      = .ok g') : g.Extends g' fun x y => ¬ DataAvailable availableData requirement ∧
      ∃ q ∈ providers, q.name = x ∧ p.name = y ∧ q.Supplies p requirement := by
  rcases addDataRequirement_eq_ok.mp h with ⟨havail, rfl⟩ | ⟨havail, -, rfl⟩
  · exact .refl g fun x y hxy => hxy.1 havail
  · refine (extends_foldl_addEdge (fun name hname => ?_)
      ((hg p.name).mpr ⟨p, hp, rfl⟩)).congr fun x y => ?_
    · obtain ⟨q, hq, rfl, -⟩ := mem_supplierNames.mp hname
      exact (hg q.name).mpr ⟨q, hq, rfl⟩
    · rw [mem_supplierNames]
      constructor
      · rintro ⟨⟨q, hq, rfl, hs⟩, rfl, -⟩
        exact ⟨havail, q, hq, rfl, rfl, hs⟩
      · rintro ⟨-, q, hq, rfl, rfl, hs⟩
        exact ⟨⟨q, hq, rfl, hs⟩, rfl, hs.1⟩

/-- The edges of the data keys. -/
theorem addProviderDataEdges_eq_ok (hg : NamesOf providers g)
    (h : addProviderDataEdges providers (providerPositions providers) availableData g = .ok g') :
    (∀ p ∈ providers, ∀ key ∈ p.requiresData, ¬ DataAvailable availableData key →
        ∃ q ∈ providers, q.Supplies p key) ∧
      g.Extends g' fun x y => ∃ p ∈ providers, ∃ q ∈ providers, q.name = x ∧ p.name = y ∧
        p.NeedsData availableData q := by
  constructor
  · intro p hp key hkey havail
    obtain ⟨g₁, g₂, hstep⟩ := step_of_foldOk h p hp
    obtain ⟨g₃, g₄, hone⟩ := step_of_foldOk hstep key hkey
    rcases addDataRequirement_eq_ok.mp hone with ⟨hyes, -⟩ | ⟨-, hsupplied, -⟩
    · exact absurd hyes havail
    · exact hsupplied
  · refine (DepGraph.Extends.foldOk (E := fun (p : QueryProvider) x y =>
      ∃ key ∈ p.requiresData, ¬ DataAvailable availableData key ∧
        ∃ q ∈ providers, q.name = x ∧ p.name = y ∧ q.Supplies p key) ?_ h).congr fun x y => ?_
    · intro g₁ g₂ hmem p hp hstep
      refine DepGraph.Extends.foldOk (fun g₃ g₄ hmem' key _ hone => ?_) hstep
      exact extends_addDataRequirement (hg.congr fun k => (hmem' k).trans (hmem k)) hp hone
    · constructor
      · rintro ⟨p, hp, key, hkey, havail, q, hq, hx, hy, hs⟩
        exact ⟨p, hp, q, hq, hx, hy, key, hkey, havail, hs⟩
      · rintro ⟨p, hp, q, hq, hx, hy, key, hkey, havail, hs⟩
        exact ⟨p, hp, key, hkey, havail, q, hq, hx, hy, hs⟩

/-! ## Failures -/

/-- The error does not report a cycle. -/
def NotCycle (e : CaapError) : Prop := e ≠ scheduleCycleError

/-- A message about a provider goes on with its quoted name. -/
theorem notCycle_of_name (name rest : String) :
    NotCycle (.compiler ("provider " ++ debugStr name ++ rest)) := by
  intro h
  have hmessage := CaapError.compiler.inj h
  have hchars := congrArg (fun s : String => s.toList[9]?) hmessage
  simp [debugStr] at hchars

variable {e : CaapError}

theorem addProviderRequirementEdges_error
    (h : addProviderRequirementEdges (providerPositions providers) dynamicRequires providers g
      = .error e) : NotCycle e := by
  obtain ⟨p, -, g₁, hp⟩ := foldOk_error h
  cases hstatic : addStaticRequirements (providerPositions providers) p g₁ with
  | ok g₂ => exact absurd hp (by rw [hstatic, ok_bind]; simp)
  | error e' =>
    rw [hstatic, error_bind, error.injEq] at hp
    subst hp
    obtain ⟨name, -, g₂, hname⟩ := foldOk_error hstatic
    by_cases hpos : name ∉ providerPositions providers
    · rw [if_pos hpos, error.injEq] at hname
      rw [← hname, String.append_assoc]
      exact notCycle_of_name _ _
    · rw [if_neg hpos] at hname
      exact absurd hname (by simp)

theorem addProviderDataEdges_error
    (h : addProviderDataEdges providers (providerPositions providers) availableData g
      = .error e) : NotCycle e := by
  obtain ⟨p, -, g₁, hp⟩ := foldOk_error h
  obtain ⟨key, -, g₂, hkey⟩ := foldOk_error hp
  rw [addDataRequirement] at hkey
  by_cases havail : (availableData.any fun k => dataKeyMatches key k) = true
  · rw [if_pos havail] at hkey
    exact absurd hkey (by simp)
  · rw [if_neg havail] at hkey
    simp only at hkey
    split at hkey
    · rw [error.injEq] at hkey
      rw [← hkey, String.append_assoc, String.append_assoc]
      exact notCycle_of_name _ _
    · exact absurd hkey (by simp)

/-! ## Conflict edges -/

theorem stringsIntersect_iff {left right : List String} :
    stringsIntersect left right = true ↔ ∃ item, item ∈ left ∧ item ∈ right := by
  rw [stringsIntersect, List.any_eq_true]
  simp only [List.contains_iff_mem]

theorem providerEffectsConflict_iff : providerEffectsConflict p q = true ↔ p.Conflicts q := by
  rw [providerEffectsConflict, Bool.or_eq_true, Bool.or_eq_true, stringsIntersect_iff,
    stringsIntersect_iff, stringsIntersect_iff, QueryProvider.Conflicts, exists_or, exists_or,
    or_assoc]

theorem QueryProvider.Conflicts.symm (h : p.Conflicts q) : q.Conflicts p := by
  obtain ⟨domain, ⟨hp, hq⟩ | ⟨hp, hq⟩ | ⟨hp, hq⟩⟩ := h
  · exact ⟨domain, .inr (.inl ⟨hq, hp⟩)⟩
  · exact ⟨domain, .inl ⟨hq, hp⟩⟩
  · exact ⟨domain, .inr (.inr ⟨hq, hp⟩)⟩

/-- A path runs from one of the two to the other, where they conflict. -/
def Linked (g : ScheduleGraph) (p q : QueryProvider) : Prop :=
  p.Conflicts q → TransGen g.Edge p.name q.name ∨ TransGen g.Edge q.name p.name

theorem Linked.mono (h : Linked g p q) (hg : g.Widens g') : Linked g' p q :=
  fun hpq => (h hpq).imp hg.transGen hg.transGen

theorem Linked.symm (h : Linked g p q) : Linked g q p :=
  fun hqp => (h hqp.symm).symm

theorem reachable_iff {current later : QueryProvider} (hlater : later ∈ providers) :
    (((providerScheduleReachability providers g)[later.name]?).any
        fun targets => decide (current.name ∈ targets)) = true ↔
      TransGen g.Edge later.name current.name := by
  rw [providerScheduleReachability, OrdMap.lookup_ofEntries_map,
    if_pos (List.mem_map.mpr ⟨later, hlater, rfl⟩), Option.any_some, decide_eq_true_iff,
    mem_reachFrom]

theorem addConflictEdge_spec (hg : NamesOf providers g) {current later : QueryProvider}
    (hcurrent : current ∈ providers) (hlater : later ∈ providers)
    (hne : current.name ≠ later.name) : g.Widens (addConflictEdge providers current g later) ∧
      Linked (addConflictEdge providers current g later) current later := by
  rw [addConflictEdge]
  by_cases hconflict : providerEffectsConflict current later = true
  · rw [hconflict, if_neg (by decide)]
    by_cases hback : TransGen g.Edge later.name current.name
    · rw [if_pos ((reachable_iff hlater).mpr hback)]
      exact ⟨.refl g, fun _ => .inr hback⟩
    · rw [if_neg fun hany => hback ((reachable_iff hlater).mp hany)]
      refine ⟨.addEdge ((hg _).mpr ⟨later, hlater, rfl⟩) hback, fun _ => .inl (.single ?_)⟩
      have hout : current.name ∈ g.outgoing := (hg _).mpr ⟨current, hcurrent, rfl⟩
      exact edge_addEdge.mpr (.inr ⟨rfl, rfl, hne, hout⟩)
  · rw [Bool.not_eq_true] at hconflict
    rw [hconflict, if_pos (by decide)]
    refine ⟨.refl g, fun hpq => ?_⟩
    rw [providerEffectsConflict_iff.mpr hpq] at hconflict
    exact absurd hconflict (by simp)

/-- One provider against all later ones. -/
theorem foldl_addConflictEdge_spec (hg : NamesOf providers g) {current : QueryProvider}
    (hcurrent : current ∈ providers) {later : List QueryProvider}
    (hlater : ∀ q ∈ later, q ∈ providers ∧ current.name ≠ q.name) :
    g.Widens (later.foldl (addConflictEdge providers current) g) ∧
      ∀ q ∈ later, Linked (later.foldl (addConflictEdge providers current) g) current q := by
  induction later generalizing g with
  | nil => exact ⟨.refl g, by simp⟩
  | cons q later ih =>
    obtain ⟨hq, hne⟩ := hlater q (List.mem_cons_self ..)
    obtain ⟨hfirst, hlinked⟩ := addConflictEdge_spec hg hcurrent hq hne
    obtain ⟨hrest, hall⟩ := ih (hg.congr hfirst.mem) fun r hr =>
      hlater r (List.mem_cons_of_mem _ hr)
    refine ⟨hfirst.trans hrest, fun r hr => ?_⟩
    rcases List.mem_cons.mp hr with rfl | hr
    · exact hlinked.mono hrest
    · exact hall r hr

/-- All pairs. -/
theorem addProviderEffectConflictEdges_spec (hg : NamesOf providers g)
    {rest : List QueryProvider} (hrest : ∀ p ∈ rest, p ∈ providers)
    (hnd : (rest.map QueryProvider.name).Nodup) :
    g.Widens (addProviderEffectConflictEdges providers rest g) ∧
      rest.Pairwise (Linked (addProviderEffectConflictEdges providers rest g)) := by
  induction rest generalizing g with
  | nil => exact ⟨.refl g, .nil⟩
  | cons current later ih =>
    rw [List.map_cons, List.nodup_cons] at hnd
    have hcurrent : current ∈ providers := hrest current (List.mem_cons_self ..)
    have hlater : ∀ q ∈ later, q ∈ providers ∧ current.name ≠ q.name := fun q hq =>
      ⟨hrest q (List.mem_cons_of_mem _ hq),
        fun heq => hnd.1 (List.mem_map.mpr ⟨q, hq, heq.symm⟩)⟩
    -- a provider without effects conflicts with none
    have hfirst : ∀ g₁, (if current.reads.isEmpty && current.writes.isEmpty then g
        else later.foldl (addConflictEdge providers current) g) = g₁ →
          g.Widens g₁ ∧ ∀ q ∈ later, Linked g₁ current q := by
      rintro g₁ rfl
      by_cases hpure : (current.reads.isEmpty && current.writes.isEmpty) = true
      · rw [if_pos hpure]
        refine ⟨.refl g, fun q _ hpq => ?_⟩
        rw [Bool.and_eq_true, List.isEmpty_iff, List.isEmpty_iff] at hpure
        obtain ⟨domain, hpq⟩ := hpq
        rw [hpure.1, hpure.2] at hpq
        exact absurd hpq (by simp)
      · rw [if_neg hpure]
        exact foldl_addConflictEdge_spec hg hcurrent hlater
    obtain ⟨hwide, hlinked⟩ := hfirst _ rfl
    obtain ⟨hwide', hpairs⟩ := ih (hg.congr hwide.mem)
      (fun p hp => hrest p (List.mem_cons_of_mem _ hp)) hnd.2
    refine ⟨hwide.trans hwide', List.pairwise_cons.mpr ⟨fun q hq => ?_, hpairs⟩⟩
    exact (hlinked q hq).mono hwide'

/-! ## The whole graph -/

/-- What the scheduler knows about the graph it layers. -/
structure ScheduleGraph.Sound (providers : List QueryProvider) (availableData : List String)
    (dynamicRequires : OrdMap String (List String)) (g : ScheduleGraph) : Prop where
  names : NamesOf providers g
  counted : g.Counted
  explicit : ∀ x y, ExplicitEdge providers availableData dynamicRequires x y → g.Edge x y
  acyclic : Acyclic (ExplicitEdge providers availableData dynamicRequires) → Acyclic g.Edge
  linked : providers.Pairwise (Linked g)

theorem namesOf_ofNodes (providers : List QueryProvider) :
    NamesOf providers (ofNodes (providers.map QueryProvider.name)) :=
  fun _ => outgoing_ofNodes.trans List.mem_map

theorem providerScheduleGraph_eq_ok (hnd : (providers.map QueryProvider.name).Nodup)
    (h : providerScheduleGraph providers availableData dynamicRequires = .ok g) :
    NothingMissing providers availableData ∧ g.Sound providers availableData dynamicRequires := by
  obtain ⟨g₁, hreq, h⟩ := bind_eq_ok.mp h
  obtain ⟨g₂, hdata, h⟩ := bind_eq_ok.mp h
  obtain ⟨hpresent, hext₁⟩ := addProviderRequirementEdges_eq_ok (namesOf_ofNodes providers) hreq
  have hg₁ : NamesOf providers g₁ := (namesOf_ofNodes providers).congr hext₁.mem
  obtain ⟨hsupplied, hext₂⟩ := addProviderDataEdges_eq_ok hg₁ hdata
  have hg₂ : NamesOf providers g₂ := hg₁.congr hext₂.mem
  obtain ⟨hwide, hlinked⟩ := addProviderEffectConflictEdges_spec hg₂ (fun _ hp => hp) hnd
  rw [ok.inj h] at hwide hlinked
  have hedge : ∀ x y, g₂.Edge x y ↔ ExplicitEdge providers availableData dynamicRequires x y := by
    intro x y
    rw [hext₂.edge, hext₁.edge, or_iff_right not_edge_ofNodes, ExplicitEdge]
    constructor
    · rintro (⟨p, hp, q, hq, hx, hy, hr⟩ | ⟨p, hp, q, hq, hx, hy, hd⟩)
      · exact ⟨p, hp, q, hq, hx, hy, .inl hr⟩
      · exact ⟨p, hp, q, hq, hx, hy, .inr hd⟩
    · rintro ⟨p, hp, q, hq, hx, hy, hr | hd⟩
      · exact .inl ⟨p, hp, q, hq, hx, hy, hr⟩
      · exact .inr ⟨p, hp, q, hq, hx, hy, hd⟩
  refine ⟨⟨hpresent, hsupplied⟩, ?_⟩
  exact
    { names := hg₂.congr hwide.mem
      counted := hwide.counted (hext₂.counted (hext₁.counted (counted_ofNodes _)))
      explicit := fun x y hxy => hwide.mono x y ((hedge x y).mpr hxy)
      acyclic := fun hacyclic =>
        hwide.acyclic (hacyclic.mono fun x y hxy => (hedge x y).mp hxy)
      linked := hlinked }

theorem providerScheduleGraph_error
    (h : providerScheduleGraph providers availableData dynamicRequires = .error e) :
    NotCycle e := by
  rw [providerScheduleGraph] at h
  cases hreq : addProviderRequirementEdges (providerPositions providers) dynamicRequires providers
      (ofNodes (providers.map name)) with
  | error e₁ =>
    rw [hreq, error_bind] at h
    rw [← error.inj h]
    exact addProviderRequirementEdges_error hreq
  | ok g₁ =>
    rw [hreq, ok_bind] at h
    cases hdata : addProviderDataEdges providers (providerPositions providers) availableData
        g₁ with
    | error e₂ =>
      rw [hdata, error_bind] at h
      rw [← error.inj h]
      exact addProviderDataEdges_error hdata
    | ok g₂ =>
      rw [hdata, ok_bind] at h
      exact absurd h (by simp)

/-- Without a missing requirement or supplier the graph is built. -/
theorem exists_providerScheduleGraph (h : NothingMissing providers availableData)
    (dynamicRequires : OrdMap String (List String)) :
    ∃ g, providerScheduleGraph providers availableData dynamicRequires = .ok g := by
  have hreq : ∃ g₁, addProviderRequirementEdges (providerPositions providers) dynamicRequires
      providers (ofNodes (providers.map name)) = .ok g₁ := by
    refine exists_foldOk (fun p hp g₁ => ?_) _
    have hstatic : ∃ g₂, addStaticRequirements (providerPositions providers) p g₁ = .ok g₂ :=
      exists_foldOk (fun name hname g₂ => ⟨_, if_neg (not_not.mpr
        (mem_providerPositions.mpr (h.requirement p hp name hname)))⟩) g₁
    obtain ⟨g₂, hg₂⟩ := hstatic
    exact ⟨_, by rw [hg₂, ok_bind]⟩
  obtain ⟨g₁, hg₁⟩ := hreq
  have hdata : ∃ g₂, addProviderDataEdges providers (providerPositions providers) availableData g₁
      = .ok g₂ := by
    refine exists_foldOk (fun p hp g₂ => exists_foldOk (fun key hkey g₃ => ?_) g₂) g₁
    by_cases havail : DataAvailable availableData key
    · exact ⟨g₃, addDataRequirement_eq_ok.mpr (.inl ⟨havail, rfl⟩)⟩
    · exact ⟨_, addDataRequirement_eq_ok.mpr (.inr ⟨havail, h.data p hp key hkey havail, rfl⟩)⟩
  obtain ⟨g₂, hg₂⟩ := hdata
  exact ⟨_, by rw [providerScheduleGraph, hg₁, ok_bind, hg₂, ok_bind]⟩

/-! ## The layers -/

section

variable (hnd : (providers.map QueryProvider.name).Nodup)

include hnd

/-- `by_name` of `provider_schedule_batches`. -/
theorem lookup_byName :
    (OrdMap.ofEntries (providers.map fun provider => (provider.name, provider)))[name]? = some p ↔
      p ∈ providers ∧ p.name = name := by
  have hkeys : ((providers.map fun provider => (provider.name, provider)).map Prod.fst).Nodup := by
    rw [List.map_map]
    exact hnd
  rw [OrdMap.lookup_ofEntries hkeys, List.mem_map]
  constructor
  · rintro ⟨q, hq, heq⟩
    obtain ⟨rfl, rfl⟩ := Prod.mk.inj heq
    exact ⟨hq, rfl⟩
  · rintro ⟨hp, rfl⟩
    exact ⟨p, hp, rfl⟩

theorem ready_first (hg : NamesOf providers g)
    (hcounted : g.Counted) (positions : OrdMap String Nat) :
    g.Ready ∅ g.incoming (sortByPosition positions
      ((providers.filter fun provider => (g.incoming[provider.name]?).getD 0 = 0).map
        QueryProvider.name)) := by
  refine DepGraph.Ready.perm ?_ (perm_sortByPosition positions _)
  refine ⟨hcounted.counts, fun b hb => absurd hb (by simp), ?_, fun k => ?_⟩
  · exact hnd.sublist (List.filter_sublist.map _)
  · have hzero : ∀ k ∈ g.outgoing, ((g.incoming[k]?).getD 0 = 0 ↔ g.waitsFor ∅ k = ∅) := by
      intro k hk
      rw [hcounted.counts k hk, Option.getD_some, Finset.card_eq_zero]
    rw [List.mem_map]
    constructor
    · rintro ⟨p, hp, rfl⟩
      obtain ⟨hp, hcount⟩ := List.mem_filter.mp hp
      have hout : p.name ∈ g.outgoing := (hg p.name).mpr ⟨p, hp, rfl⟩
      exact ⟨hout, by simp, (hzero p.name hout).mp (of_decide_eq_true hcount)⟩
    · rintro ⟨hout, -, hwaits⟩
      obtain ⟨p, hp, rfl⟩ := (hg k).mp hout
      exact ⟨p, List.mem_filter.mpr ⟨hp, decide_eq_true ((hzero p.name hout).mpr hwaits)⟩, rfl⟩

theorem providerScheduleLayers_spec
    (hg : NamesOf providers g) (hcounted : g.Counted) :
    ∃ visited batches, providerScheduleLayers providers g = .ok (visited, batches) ∧
      g.Exhausted (OrdMap.ofEntries (providers.map fun provider => (provider.name, provider)))
        QueryProvider.name visited batches := by
  refine layers_spec hcounted ?_ ?_ ?_ (ready_first hnd hg hcounted _)
    layered_nil (fun k hk => absurd hk (by simp)) (fun v hv => absurd hv (by simp))
  · intro k hk
    obtain ⟨p, hp, rfl⟩ := (hg k).mp hk
    exact ⟨p, (lookup_byName hnd).mpr ⟨hp, rfl⟩, rfl⟩
  · intro names hnames
    have hsorted := perm_sortByPosition (providerPositions providers) names
    rw [dedup_of_nodup (hsorted.nodup_iff.mpr hnames)]
    exact hsorted
  · have hnodes : g.nodes = (providers.map name).toFinset := by
      ext k
      rw [mem_nodes, hg k, List.mem_toFinset, List.mem_map]
    have hcard : g.nodes.card ≤ providers.length := by
      rw [hnodes]
      have hle := List.toFinset_card_le (providers.map name)
      rw [List.length_map] at hle
      exact hle
    have hsub : (g.unvisited ∅).card ≤ g.nodes.card := Finset.card_le_card (Finset.filter_subset _ _)
    omega

/-- All providers are visited exactly when the graph is acyclic. -/
theorem size_visited_iff
    (hg : NamesOf providers g) (hcounted : g.Counted) {values : OrdMap String QueryProvider}
    {visited : OrdSet String} {batches : List (List QueryProvider)}
    (h : g.Exhausted values QueryProvider.name visited batches) :
    visited.size = providers.length ↔ Acyclic g.Edge := by
  have hsub : ∀ k ∈ visited, k ∈ providers.map name := by
    intro k hk
    exact List.mem_map.mpr ((hg k).mp (h.known k hk))
  have hlen : providers.length = (providers.map name).length := by
    rw [List.length_map]
  rw [hlen, OrdSet.size_eq_length_iff hnd hsub]
  constructor
  · intro hall
    refine h.toLayered.acyclic hcounted fun k hk => hall k ?_
    exact List.mem_map.mpr ((hg k).mp hk)
  · intro hacyclic k hk
    exact h.mem_of_acyclic hacyclic ((hg k).mpr (List.mem_map.mp hk))

/-- Layers that hold all providers respect every constraint. -/
theorem respects_of_exhausted
    (hg : g.Sound providers availableData dynamicRequires) {visited : OrdSet String}
    {batches : List (List QueryProvider)}
    (h : g.Exhausted (OrdMap.ofEntries (providers.map fun provider => (provider.name, provider)))
      QueryProvider.name visited batches) (hsize : visited.size = providers.length) :
    Respects providers availableData dynamicRequires batches := by
  have hmem : ∀ p ∈ batches.flatten, p ∈ providers := fun p hp =>
    ((lookup_byName hnd).mp (h.stored p hp)).1
  have hall : ∀ p ∈ providers, p ∈ batches.flatten := by
    intro p hp
    have hacyclic := (size_visited_iff hnd hg.names hg.counted h).mp hsize
    have hvisited := h.mem_of_acyclic hacyclic ((hg.names p.name).mpr ⟨p, hp, rfl⟩)
    obtain ⟨q, hq, hname⟩ := List.mem_map.mp ((h.mem p.name).mp hvisited)
    rwa [List.inj_on_of_nodup_map hnd (hmem q hq) hp hname] at hq
  have hnames : ∀ {p : QueryProvider} {group : List QueryProvider}, p ∈ group →
      p.name ∈ group.map name := fun hp => List.mem_map.mpr ⟨_, hp, rfl⟩
  refine ⟨?_, ?_, ?_⟩
  · rw [List.perm_ext_iff_of_nodup h.nodup.of_map hnd.of_map]
    exact fun p => ⟨hmem p, hall p⟩
  · intro i j before after hi hj q hq p hp hrel
    have hin : ∀ {k : Nat} {group : List QueryProvider}, batches[k]? = some group →
        ∀ r ∈ group, r ∈ providers := fun hk r hr =>
      hmem r (List.mem_flatten.mpr ⟨_, List.mem_of_getElem? hk, hr⟩)
    refine h.toLayered.lt_of_transGen hi hj (hnames hq) (hnames hp) (.single ?_)
    exact hg.explicit _ _ ⟨p, hin hj p hp, q, hin hi q hq, rfl, rfl, hrel⟩
  · intro group hgroup p hp q hq hne hconflict
    obtain ⟨i, hi⟩ := List.mem_iff_getElem?.mp hgroup
    have hp' : p ∈ providers := hmem p (List.mem_flatten.mpr ⟨group, hgroup, hp⟩)
    have hq' : q ∈ providers := hmem q (List.mem_flatten.mpr ⟨group, hgroup, hq⟩)
    -- a path between the two puts them in different groups
    have : Std.Symm (Linked g) := ⟨fun _ _ => Linked.symm⟩
    have hpath : TransGen g.Edge p.name q.name ∨ TransGen g.Edge q.name p.name :=
      hg.linked.forall hp' hq' hne hconflict
    rcases hpath with hpath | hpath
    · exact Nat.lt_irrefl i (h.toLayered.lt_of_transGen hi hi (hnames hp) (hnames hq) hpath)
    · exact Nat.lt_irrefl i (h.toLayered.lt_of_transGen hi hi (hnames hq) (hnames hp) hpath)

end

end Edges

/-! ## The scheduler -/

theorem providerScheduleBatches_respects {providers : List QueryProvider}
    (hnd : (providers.map QueryProvider.name).Nodup) {availableData : List String}
    {dynamicRequires : OrdMap String (List String)} {schedule : QueryProviderSchedule}
    (h : providerScheduleBatches providers availableData dynamicRequires = .ok schedule) :
    Respects providers availableData dynamicRequires schedule.groups := by
  unfold providerScheduleBatches at h
  split_ifs at h with hempty
  · obtain rfl := List.isEmpty_iff.mp hempty
    obtain rfl := ok.inj h
    exact ⟨.nil, by simp, by simp⟩
  · obtain ⟨g, hgraph, h⟩ := bind_eq_ok.mp h
    obtain ⟨-, hg⟩ := providerScheduleGraph_eq_ok hnd hgraph
    obtain ⟨visited, batches, hlayers, hdone⟩ :=
      providerScheduleLayers_spec hnd hg.names hg.counted
    rw [hlayers, ok_bind] at h
    simp only at h
    split_ifs at h with hall
    obtain rfl := ok.inj h
    exact respects_of_exhausted hnd hg hdone (not_not.mp hall)

/-- A schedule respects every constraint, and the scheduler reports a cycle exactly when
    nothing is missing and the explicit edges alone contain one. -/
theorem providerScheduleBatches_correct {providers : List QueryProvider}
    (hnd : (providers.map QueryProvider.name).Nodup) (availableData : List String)
    (dynamicRequires : OrdMap String (List String)) :
    (∀ schedule, providerScheduleBatches providers availableData dynamicRequires = .ok schedule →
      Respects providers availableData dynamicRequires schedule.groups) ∧
    (providerScheduleBatches providers availableData dynamicRequires = .error scheduleCycleError ↔
      NothingMissing providers availableData ∧
        ∃ name, TransGen (ExplicitEdge providers availableData dynamicRequires) name name) := by
  refine ⟨fun schedule => providerScheduleBatches_respects hnd, ?_⟩
  rw [providerScheduleBatches]
  by_cases hempty : providers.isEmpty = true
  · rw [List.isEmpty_iff] at hempty
    subst hempty
    constructor
    · intro h
      exact absurd h (by simp)
    · rintro ⟨-, name, hcycle⟩
      obtain ⟨b, -, p, hp, -⟩ := TransGen.tail'_iff.mp hcycle
      exact absurd hp (List.not_mem_nil)
  · rw [if_neg hempty]
    cases hgraph : providerScheduleGraph providers availableData dynamicRequires with
    | error e =>
      have hnot : NotCycle e := providerScheduleGraph_error hgraph
      refine ⟨fun h => ?_, fun h => ?_⟩
      · exact absurd (Except.error.inj h) hnot
      · obtain ⟨g, hg⟩ := exists_providerScheduleGraph h.1 dynamicRequires
        exact absurd (hgraph.symm.trans hg) (by simp)
    | ok g =>
      obtain ⟨hmissing, hg⟩ := providerScheduleGraph_eq_ok hnd hgraph
      obtain ⟨visited, batches, hlayers, hdone⟩ :=
        providerScheduleLayers_spec hnd hg.names hg.counted
      rw [ok_bind, hlayers, ok_bind]
      have hsize := size_visited_iff hnd hg.names hg.counted hdone
      -- conflict edges close no cycle, and the explicit edges are edges
      have hcycle : ¬ Acyclic g.Edge ↔
          ∃ name, TransGen (ExplicitEdge providers availableData dynamicRequires) name name := by
        constructor
        · intro hno
          by_contra hnone
          exact hno (hg.acyclic fun name hname => hnone ⟨name, hname⟩)
        · rintro ⟨name, hname⟩ hacyclic
          exact hacyclic name (TransGen.mono hg.explicit name name hname)
      by_cases hall : visited.size = providers.length
      · simp only [if_neg (not_not.mpr hall)]
        refine ⟨fun h => absurd h (by simp), fun h => ?_⟩
        exact absurd (hsize.mp hall) (hcycle.mpr h.2)
      · simp only [if_pos hall]
        refine ⟨fun _ => ⟨hmissing, ?_⟩, fun _ => trivial⟩
        exact hcycle.mp fun hacyclic => hall (hsize.mpr hacyclic)

/-- A stage whose last provider is registered first: it needs data of the second one,
    which writes what the third one reads. -/
def lowerStage : List QueryProvider :=
  [{ QueryProvider.registered "emit" "lower" .compileTime .empty 0 0 with
      requiresData := ["facts.*"], reads := ["facts"] },
    { QueryProvider.registered "infer" "lower" .compileTime .empty 1 1 with
      providesData := ["facts.types"], writes := ["facts"] },
    { QueryProvider.registered "trace" "lower" .compileTime .empty 2 2 with
      requires := ["infer"], reads := ["facts"] }]

theorem providerScheduleBatches_correct_lowerStage :
    ∃ schedule, providerScheduleBatches lowerStage [] ∅ = .ok schedule ∧
      schedule.groups.map (List.map QueryProvider.name) = [["infer"], ["emit", "trace"]] ∧
      Respects lowerStage [] ∅ schedule.groups := by
  have hok : ∃ schedule, providerScheduleBatches lowerStage [] ∅ = .ok schedule ∧
      schedule.groups.map (List.map QueryProvider.name) = [["infer"], ["emit", "trace"]] :=
    ⟨_, rfl, by decide⟩
  obtain ⟨schedule, hschedule, hgroups⟩ := hok
  exact ⟨schedule, hschedule, hgroups,
    (providerScheduleBatches_correct (by decide) [] ∅).1 schedule hschedule⟩

/-- Two providers that require each other, one of which also requires a missing one. -/
def tangledStage : List QueryProvider :=
  [{ QueryProvider.registered "a" "check" .compileTime .empty 0 0 with
      requires := ["b", "missing"] },
    { QueryProvider.registered "b" "check" .compileTime .empty 1 1 with requires := ["a"] }]

/-- The missing requirement is reported in place of the cycle. -/
theorem providerScheduleBatches_missing_first : (tangledStage.map QueryProvider.name).Nodup ∧
      TransGen (ExplicitEdge tangledStage [] ∅) "a" "a" ∧ providerScheduleBatches tangledStage [] ∅
        = .error (.compiler "provider \"a\" requires missing provider \"missing\"") ∧
      providerScheduleBatches tangledStage [] ∅ ≠ .error scheduleCycleError := by
  have hresult : providerScheduleBatches tangledStage [] ∅
      = .error (.compiler "provider \"a\" requires missing provider \"missing\"") := rfl
  refine ⟨by decide, ?_, hresult, ?_⟩
  · refine TransGen.tail (b := "b") (.single ?_) ?_
    · exact ⟨tangledStage[1], by simp [tangledStage], tangledStage[0], by simp [tangledStage], rfl, rfl,
        .inl ⟨by decide, .inl (by decide)⟩⟩
    · exact ⟨tangledStage[0], by simp [tangledStage], tangledStage[1], by simp [tangledStage], rfl, rfl,
        .inl ⟨by decide, .inl (by decide)⟩⟩
  · decide

end Caap
