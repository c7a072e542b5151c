/-
  Caap.Ir.Template

  `IRGraphTemplate` of `graph.rs`: a graph as sorted lists, its validation and the graph
  it stands for.  A template is accepted exactly when its lists have no repeated keys and
  its graph passes `validate_integrity` (`validate_eq_ok`), and the template of a graph
  that passes stands for that graph (`fromTemplate_toTemplate`).
-/

import Caap.Ir.Integrity

namespace Caap

open Std Lib OrdMap OrdSet List

/-- `IRGraphTemplate`. -/
structure IRGraphTemplate where
  rootId : Nat
  nodes : List Node
  parents : List (Nat × Option Nat)
  sourceSpans : List (Nat × SourceSpan)
  internalNodes : List Nat
  topLevelForms : List Nat
  nextId : Nat

/-- `node_map`: the nodes of a list by their ids. -/
def nodeMap (nodes : List Node) : OrdMap Nat Node :=
  OrdMap.ofEntries (nodes.map fun node => (node.id, node))

/-- `to_template`. -/
def IRGraph.toTemplate (g : IRGraph) : IRGraphTemplate :=
  { rootId := g.rootId
    nodes := (g.nodes.toList.map Prod.snd).insertionSort fun a b => a.id ≤ b.id
    parents := g.parents.toList
    sourceSpans := g.sourceSpans.toList
    internalNodes := g.internalNodes.keys
    topLevelForms := g.topLevelForms
    nextId := g.nextId }

/-- The loop over the parent entries, with the ids seen so far. -/
def checkParentEntries (nodes : OrdMap Nat Node) :
    List Nat → List (Nat × Option Nat) → CaapResult Unit
  | _, [] => .ok ()
  | seen, entry :: rest => do
    checkParentOwner nodes entry
    if entry.1 ∈ seen then
      .error (.graph ("duplicate parent entry for node: " ++ toString entry.1))
    else do
      checkParentTarget nodes entry
      checkParentEntries nodes (entry.1 :: seen) rest

namespace IRGraphTemplate

/-- The empty-graph branch of `validate`. -/
def validateEmpty (t : IRGraphTemplate) : CaapResult Unit :=
  if ¬ t.parents.isEmpty then .error (.graph "empty IRGraphTemplate cannot have parent entries")
  else if ¬ t.topLevelForms.isEmpty then
    .error (.graph "empty IRGraphTemplate cannot have top-level forms")
  else if ¬ t.sourceSpans.isEmpty then
    .error (.graph "empty IRGraphTemplate cannot have source spans")
  else if ¬ t.internalNodes.isEmpty then
    .error (.graph "empty IRGraphTemplate cannot have internal nodes")
  else .ok ()

/-- `IRGraphTemplate::validate`. -/
def validate (t : IRGraphTemplate) : CaapResult Unit := do
  checkDistinct Node.id (fun _ => .ok ())
    (fun node => .graph ("IRGraphTemplate has duplicate node id: " ++ toString node.id)) [] t.nodes
  let nodes := nodeMap t.nodes
  if t.nodes.isEmpty then t.validateEmpty
  else if t.rootId ∉ nodes then
    .error (.graph ("IRGraphTemplate root node is missing: " ++ toString t.rootId))
  else do
    checkAll (checkCallChildren nodes) t.nodes
    checkParentEntries nodes [] t.parents
    let parents := OrdMap.ofEntries t.parents
    checkAll (checkHasParentEntry parents) (t.nodes.map Node.id)
    checkTopLevelForms nodes t.topLevelForms
    checkRoots "IRGraphTemplate" (expectedRoots t.topLevelForms t.rootId) (parentless t.parents)
    checkAll (checkParentReference "IRGraphTemplate" nodes) t.parents
    checkAcyclic "IRGraphTemplate" parents (t.nodes.map Node.id)
    checkAll (fun node => checkChildParents "IRGraphTemplate" parents node.id node) t.nodes
    checkDistinct Prod.fst (fun entry => checkSpanOwner nodes entry.1)
      (fun entry => .graph ("duplicate source span for node: " ++ toString entry.1)) [] t.sourceSpans
    checkDistinct id (checkInternalMarker nodes)
      (fun id => .graph ("duplicate internal marker for node: " ++ toString id)) [] t.internalNodes
    checkNextId "IRGraphTemplate" t.nextId (t.nodes.map Node.id)

/-- The graph `from_template` builds. -/
def graph (t : IRGraphTemplate) : IRGraph :=
  { rootId := t.rootId
    nodes := nodeMap t.nodes
    parents := OrdMap.ofEntries t.parents
    sourceSpans := OrdMap.ofEntries t.sourceSpans
    internalNodes := OrdSet.ofList t.internalNodes
    topLevelForms := t.topLevelForms
    topLevelSet := OrdSet.ofList t.topLevelForms
    nextId := t.nextId }

end IRGraphTemplate

/-- `from_template`. -/
def IRGraph.fromTemplate (t : IRGraphTemplate) : CaapResult IRGraph := do
  t.validate
  .ok t.graph

/-! ## What a template passes -/

variable {id : Nat}

theorem lookup_nodeMap {nodes : List Node} (hnd : (nodes.map Node.id).Nodup)
    {node : Node} : (nodeMap nodes)[id]? = some node ↔ node ∈ nodes ∧ node.id = id := by
  have hkeys : ((nodes.map fun node => (node.id, node)).map Prod.fst).Nodup := by
    rw [map_map]
    exact hnd
  rw [nodeMap, lookup_ofEntries hkeys, mem_map]
  constructor
  · rintro ⟨other, hmem, heq⟩
    rw [Prod.mk.injEq] at heq
    obtain ⟨hid, rfl⟩ := heq
    exact ⟨hmem, hid⟩
  · rintro ⟨hmem, hid⟩
    exact ⟨node, hmem, by rw [hid]⟩

theorem mem_nodeMap {nodes : List Node} (hnd : (nodes.map Node.id).Nodup) :
    id ∈ nodeMap nodes ↔ id ∈ nodes.map Node.id := by
  rw [mem_iff_exists, mem_map]
  exact exists_congr fun node => lookup_nodeMap hnd

theorem checkParentEntries_eq_ok {nodes : OrdMap Nat Node} {seen : List Nat}
    {entries : List (Nat × Option Nat)} : checkParentEntries nodes seen entries = .ok () ↔
      (∀ e ∈ entries, checkParentOwner nodes e = .ok () ∧ checkParentTarget nodes e = .ok ()) ∧
        (entries.map Prod.fst).Nodup ∧ ∀ e ∈ entries, e.1 ∉ seen := by
  induction entries generalizing seen with
  | nil => simp [checkParentEntries]
  | cons e rest ih =>
    simp only [checkParentEntries, check_bind_eq_ok, ite_error_eq_ok, ih, forall_mem_cons,
      map_cons, nodup_cons]
    constructor
    · rintro ⟨howner, hseen, htarget, hrest, hnd, hout⟩
      refine ⟨⟨⟨howner, htarget⟩, hrest⟩, ⟨?_, hnd⟩, hseen,
        fun x hx hmem => hout x hx (mem_cons_of_mem _ hmem)⟩
      intro hmem
      obtain ⟨x, hx, hkey⟩ := mem_map.mp hmem
      exact hout x hx (hkey ▸ mem_cons_self ..)
    · rintro ⟨⟨⟨howner, htarget⟩, hrest⟩, ⟨hnot, hnd⟩, hseen, hout⟩
      refine ⟨howner, hseen, htarget, hrest, hnd, fun x hx hmem => ?_⟩
      rcases mem_cons.mp hmem with heq | hmem
      · exact hnot (mem_map.mpr ⟨x, hx, heq⟩)
      · exact hout x hx hmem

namespace IRGraphTemplate

/-- No list of the template has a repeated key. -/
structure Distinct (t : IRGraphTemplate) : Prop where
  nodes : (t.nodes.map Node.id).Nodup
  parents : (t.parents.map Prod.fst).Nodup
  sourceSpans : (t.sourceSpans.map Prod.fst).Nodup
  internalNodes : t.internalNodes.Nodup

variable {t : IRGraphTemplate}

theorem mem_parentless (hnd : (t.parents.map Prod.fst).Nodup) :
    id ∈ parentless t.parents ↔ t.graph.parents[id]? = some none := by
  rw [graph, lookup_ofEntries hnd, parentless, ExtTreeMap.mem_iff_isSome_getElem?,
    isSome_ofList, mem_map]
  constructor
  · rintro ⟨⟨a, o⟩, hmem, rfl⟩
    rw [mem_filter] at hmem
    have ho : o = none := Option.isNone_iff_eq_none.mp hmem.2
    rw [← ho]
    exact hmem.1
  · intro h
    exact ⟨(id, none), mem_filter.mpr ⟨h, rfl⟩, rfl⟩

theorem mem_sourceSpans : id ∈ t.graph.sourceSpans ↔ id ∈ t.sourceSpans.map Prod.fst := by
  rw [graph, ExtTreeMap.mem_iff_isSome_getElem?, ← not_iff_not, Option.not_isSome_iff_eq_none]
  exact lookup_ofEntries_none

theorem mem_internalNodes : id ∈ t.graph.internalNodes ↔ id ∈ t.internalNodes := by
  rw [graph, ExtTreeMap.mem_iff_isSome_getElem?]
  exact isSome_ofList

theorem mem_topLevelSet : id ∈ t.graph.topLevelSet ↔ id ∈ t.topLevelForms := by
  rw [graph, ExtTreeMap.mem_iff_isSome_getElem?]
  exact isSome_ofList

/-- A template with nodes: its checks are those of its graph, on lists. -/
theorem validate_nonempty (hne : t.nodes ≠ []) :
    t.validate = .ok () ↔ t.Distinct ∧ t.graph.Checked := by
  have hempty : ¬ t.nodes.isEmpty = true := fun h => hne (isEmpty_iff.mp h)
  simp only [validate, check_bind_eq_ok, if_neg hempty, ite_error_eq_ok, Decidable.not_not,
    checkDistinct_eq_ok, checkParentEntries_eq_ok, checkAll_eq_ok, checkCallChildren_eq_ok,
    checkHasParentEntry, ite_ok_eq_ok, checkTopLevelForms_eq_ok, checkRoots_eq_ok,
    checkAcyclic_eq_ok, checkChildParents_eq_ok, checkSpanOwner, checkInternalMarker_eq_ok,
    checkNextId_eq_ok, not_mem_nil, not_false_eq_true, implies_true, and_true, true_and,
    Prod.forall, checkParentReference_eq_ok, IRGraph.checkParentEntry_eq_ok, map_id]
  constructor
  · rintro ⟨hids, hroot, hnode, ⟨hparents, hparentKeys⟩, hentry, hforms, hroots, hreference, hacyclic,
      hchild, ⟨hspans, hspanKeys⟩, ⟨hinternal, hinternalKeys⟩, hnext⟩
    refine ⟨⟨hids, hparentKeys, hspanKeys, hinternalKeys⟩, ?_⟩
    have hlookup : ∀ {id : Nat} {node : Node},
        (nodeMap t.nodes)[id]? = some node ↔ node ∈ t.nodes ∧ node.id = id := lookup_nodeMap hids
    have hparentAt : ∀ {id : Nat} {parent : Option Nat}, t.graph.parents[id]? = some parent →
        (id, parent) ∈ t.parents := fun h => (lookup_ofEntries hparentKeys).mp h
    exact
      { root := hroot
        node := fun id node hn => by
          obtain ⟨hmem, hid⟩ := hlookup.mp hn
          exact ⟨hid, hnode node hmem⟩
        parentEntry := fun id parent hp => hparents id parent (hparentAt hp)
        hasParentEntry := fun id hid => hentry id ((mem_nodeMap hids).mp hid)
        forms := hforms
        formsSet := fun id => mem_topLevelSet
        roots := fun id => by rw [← mem_parentless hparentKeys]; exact hroots id
        parentReference := fun id parent hp => hreference id parent (hparentAt hp)
        acyclic := fun id hid => hacyclic id ((mem_nodeMap hids).mp hid)
        childParents := fun id node hn c hc => by
          obtain ⟨hmem, hid⟩ := hlookup.mp hn
          rw [← hid]
          exact hchild node hmem c hc
        spans := fun id hid => by
          obtain ⟨⟨a, span⟩, hmem, rfl⟩ := mem_map.mp (mem_sourceSpans.mp hid)
          exact hspans a span hmem
        internal := fun id hid => hinternal id (mem_internalNodes.mp hid)
        nextId := fun id hid => hnext id ((mem_nodeMap hids).mp hid) }
  · rintro ⟨⟨hids, hparentKeys, hspanKeys, hinternalKeys⟩, h⟩
    have hlookup : ∀ {node : Node}, node ∈ t.nodes → t.graph.nodes[node.id]? = some node :=
      fun hmem => (lookup_nodeMap hids).mpr ⟨hmem, rfl⟩
    have hparentAt : ∀ {id : Nat} {parent : Option Nat}, (id, parent) ∈ t.parents →
        t.graph.parents[id]? = some parent := fun h => (lookup_ofEntries hparentKeys).mpr h
    refine ⟨hids, h.root, fun node hmem => (h.node _ node (hlookup hmem)).2,
      ⟨fun id parent hp => h.parentEntry id parent (hparentAt hp), hparentKeys⟩,
      fun id hid => h.hasParentEntry id ((mem_nodeMap hids).mpr hid), h.forms, ?_,
      fun id parent hp => h.parentReference id parent (hparentAt hp),
      fun id hid => h.acyclic id ((mem_nodeMap hids).mpr hid),
      fun node hmem => h.childParents _ node (hlookup hmem),
      ⟨fun id span hmem => h.spans id (mem_sourceSpans.mpr (mem_map.mpr ⟨_, hmem, rfl⟩)),
        hspanKeys⟩,
      ⟨fun id hid => h.internal id (mem_internalNodes.mpr hid), hinternalKeys⟩,
      fun id hid => h.nextId id ((mem_nodeMap hids).mpr hid)⟩
    intro id
    rw [mem_parentless hparentKeys]
    exact h.roots id

theorem ofEntries_eq_empty {ν : Type} {l : List (Nat × ν)} : ofEntries l = ∅ ↔ l = [] := by
  constructor
  · intro h
    rw [eq_nil_iff_forall_not_mem]
    rintro ⟨k, v⟩ hmem
    have hnone : (ofEntries l)[k]? = none := by rw [h]; simp
    exact lookup_ofEntries_none.mp hnone (mem_map.mpr ⟨_, hmem, rfl⟩)
  · rintro rfl
    rfl

theorem ofList_eq_empty {l : List Nat} : ofList l = ∅ ↔ l = [] := by
  constructor
  · intro h
    rw [eq_nil_iff_forall_not_mem]
    intro k hmem
    have hsome := isSome_ofList.mpr hmem
    rw [h] at hsome
    exact absurd hsome (by simp)
  · rintro rfl
    rfl

/-- A template is accepted when no key is repeated and its graph has integrity. -/
theorem validate_eq_ok : t.validate = .ok () ↔ t.Distinct ∧ t.graph.validateIntegrity = .ok () := by
  by_cases hne : t.nodes = []
  · have hnodes : t.graph.nodes = ∅ := by rw [graph, hne]; rfl
    have hempty : t.graph.nodes.isEmpty = true := ExtTreeMap.isEmpty_iff.mpr hnodes
    have hlist : t.nodes.isEmpty = true := isEmpty_iff.mpr hne
    simp only [validate, check_bind_eq_ok, checkDistinct_eq_ok, if_pos hlist, validateEmpty,
      ite_error_eq_ok, IRGraph.validateIntegrity, if_pos hempty, IRGraph.validateEmpty,
      Decidable.not_not, not_or]
    simp only [List.isEmpty_iff, ExtTreeMap.isEmpty_iff, graph, ofEntries_eq_empty, ofList_eq_empty]
    constructor
    · rintro ⟨⟨-, hids, -⟩, hparents, hforms, hspans, hinternal, -⟩
      refine ⟨⟨hids, ?_, ?_, ?_⟩, hparents, ⟨hforms, hforms⟩, hspans, hinternal, trivial⟩
      · rw [hparents]
        exact nodup_nil
      · rw [hspans]
        exact nodup_nil
      · rw [hinternal]
        exact nodup_nil
    · rintro ⟨hdistinct, hparents, ⟨hforms, -⟩, hspans, hinternal, -⟩
      exact ⟨⟨fun _ _ => trivial, hdistinct.nodes, fun _ _ => List.not_mem_nil⟩, hparents, hforms, hspans,
        hinternal, trivial⟩
  · have hnodes : t.graph.nodes ≠ ∅ := by
      intro h
      have hnil := ofEntries_eq_empty.mp (show ofEntries
        (t.nodes.map fun node => (node.id, node)) = ∅ from h)
      exact hne (map_eq_nil_iff.mp hnil)
    rw [validate_nonempty hne, IRGraph.validateIntegrity_nonempty hnodes]

end IRGraphTemplate

namespace IRGraph

variable {g : IRGraph}

theorem fromTemplate_eq_ok {t : IRGraphTemplate} :
    fromTemplate t = .ok g ↔ t.validate = .ok () ∧ t.graph = g := by
  rw [fromTemplate, check_bind_eq_ok, Except.ok.injEq]

/-- What `from_template` accepts has integrity. -/
theorem validateIntegrity_of_fromTemplate {t : IRGraphTemplate}
    (h : fromTemplate t = .ok g) : g.validateIntegrity = .ok () := by
  obtain ⟨hvalid, rfl⟩ := fromTemplate_eq_ok.mp h
  exact (IRGraphTemplate.validate_eq_ok.mp hvalid).2

section

variable (hkeyed : ∀ {id : Nat} {node : Node}, g.nodes[id]? = some node → node.id = id)

include hkeyed

/-- The nodes of a template are in key order where they are stored under their ids. -/
theorem nodes_toTemplate :
    g.toTemplate.nodes = g.nodes.toList.map Prod.snd := by
  refine List.Pairwise.insertionSort_eq ?_
  rw [pairwise_map]
  refine (ExtTreeMap.ordered_keys_toList (t := g.nodes)).imp_of_mem ?_
  rintro ⟨a, x⟩ ⟨b, y⟩ ha hb hlt
  have hx : x.id = a := hkeyed (mem_toList.mp ha)
  have hy : y.id = b := hkeyed (mem_toList.mp hb)
  have hab : a < b := Std.compare_eq_lt.mp hlt
  show x.id ≤ y.id
  omega

theorem nodeMap_toTemplate :
    nodeMap g.toTemplate.nodes = g.nodes := by
  have hentries : (g.nodes.toList.map Prod.snd).map (fun node => (node.id, node))
      = g.nodes.toList := by
    rw [map_map]
    refine (map_congr_left ?_).trans (map_id _)
    rintro ⟨a, x⟩ hmem
    show (x.id, x) = (a, x)
    rw [hkeyed (mem_toList.mp hmem)]
  rw [nodeMap, nodes_toTemplate hkeyed, hentries, ofEntries_toList]

theorem graph_toTemplate
    (hset : ofList g.topLevelForms = g.topLevelSet) : g.toTemplate.graph = g := by
  have hinternal : ofList g.internalNodes.keys = g.internalNodes := by
    refine ext_isSome fun id => ?_
    rw [isSome_ofList, ExtTreeMap.mem_keys, ExtTreeMap.mem_iff_isSome_getElem?]
  rw [IRGraphTemplate.graph, nodeMap_toTemplate hkeyed]
  show IRGraph.mk g.rootId g.nodes (ofEntries g.parents.toList)
    (ofEntries g.sourceSpans.toList) (ofList g.internalNodes.keys) g.topLevelForms
    (ofList g.topLevelForms) g.nextId = g
  rw [ofEntries_toList, ofEntries_toList, hset, hinternal]

theorem distinct_toTemplate :
    g.toTemplate.Distinct where
  nodes := by
    rw [nodes_toTemplate hkeyed, map_map]
    have hkeys : g.nodes.toList.map (Node.id ∘ Prod.snd) = g.nodes.toList.map Prod.fst := by
      refine map_congr_left ?_
      rintro ⟨a, x⟩ hmem
      exact hkeyed (mem_toList.mp hmem)
    rw [hkeys]
    exact nodup_keys g.nodes
  parents := nodup_keys g.parents
  sourceSpans := nodup_keys g.sourceSpans
  internalNodes := by
    have hkeys := nodup_keys g.internalNodes
    rw [ExtTreeMap.map_fst_toList_eq_keys] at hkeys
    exact hkeys

end

theorem Stored.ofList_forms (h : g.Stored) : ofList g.topLevelForms = g.topLevelSet := by
  refine ext_isSome fun id => ?_
  rw [isSome_ofList, ← h.formsSet, ExtTreeMap.mem_iff_isSome_getElem?]

/-- The two validators agree on a graph and its template. -/
theorem validate_toTemplate
    (hkeyed : ∀ {id : Nat} {node : Node}, g.nodes[id]? = some node → node.id = id)
    (hset : ofList g.topLevelForms = g.topLevelSet) :
    g.toTemplate.validate = .ok () ↔ g.validateIntegrity = .ok () := by
  rw [IRGraphTemplate.validate_eq_ok, graph_toTemplate hkeyed hset]
  exact and_iff_right (distinct_toTemplate hkeyed)

/-- The template of a graph with integrity stands for that graph. -/
theorem fromTemplate_toTemplate (h : g.validateIntegrity = .ok ()) :
    fromTemplate g.toTemplate = .ok g := by
  have hstored : g.Stored := (validateIntegrity_eq_ok.mp h).toStored
  have hset := hstored.ofList_forms
  exact fromTemplate_eq_ok.mpr
    ⟨(validate_toTemplate hstored.keyed hset).mpr h, graph_toTemplate hstored.keyed hset⟩

/-- From every node of a graph with integrity the parent links lead to a root. -/
theorem Integrity.leads_to_root (h : g.Integrity) (hid : id ∈ g.nodes) :
    ∃ r, Leads g.parentOf id r ∧ g.parentOf r = none ∧ g.IsRoot r := by
  induction h.forest.ends id with
  | @stop a hn =>
    refine ⟨a, .here a, hn, (h.forest.roots a).mp ?_⟩
    obtain ⟨parent, hup⟩ := Option.isSome_iff_exists.mp
      ((h.forest.dom a).mpr (isSome_kids.mpr hid))
    rw [hup] at hn ⊢
    rw [show parent = none from hn]
  | @step a p hs _ ih =>
    obtain ⟨cs, hk, -⟩ := h.forest.parent (Option.join_eq_some_iff.mp hs)
    obtain ⟨r, hl, hr⟩ := ih (isSome_kids.mp (by rw [hk]; rfl))
    exact ⟨r, .step hs hl, hr⟩

/-- The validators of graphs and of templates agree, a graph that passes is the graph of its
    template, and it is a forest: from every node the parent links end at a top-level form,
    or at the root where there are none. -/
theorem validators_agree : (∀ t : IRGraphTemplate, t.validate = .ok () →
      ∃ g, fromTemplate t = .ok g ∧ g.validateIntegrity = .ok ()) ∧
    (∀ g : IRGraph, (∀ (id : Nat) (node : Node), g.nodes[id]? = some node → node.id = id) →
      OrdSet.ofList g.topLevelForms = g.topLevelSet →
      (g.validateIntegrity = .ok () ↔ g.toTemplate.validate = .ok ()) ∧
      (g.toTemplate.validate = .ok () → fromTemplate g.toTemplate = .ok g)) ∧
    (∀ g : IRGraph, g.validateIntegrity = .ok () → ∀ id ∈ g.nodes,
      ∃ r, Leads g.parentOf id r ∧ g.parentOf r = none ∧
        (r ∈ g.topLevelForms ∨ (g.topLevelForms = [] ∧ r = g.rootId))) := by
  refine ⟨?_, ?_, ?_⟩
  · intro t ht
    have hg : fromTemplate t = .ok t.graph := fromTemplate_eq_ok.mpr ⟨ht, rfl⟩
    exact ⟨t.graph, hg, validateIntegrity_of_fromTemplate hg⟩
  · intro g hkeyed hset
    have hagree := validate_toTemplate (fun hn => hkeyed _ _ hn) hset
    exact ⟨hagree.symm, fun hvalid => fromTemplate_toTemplate (hagree.mp hvalid)⟩
  · intro g hg id hid
    obtain ⟨r, hl, hr, hroot⟩ := (validateIntegrity_eq_ok.mp hg).leads_to_root hid
    refine ⟨r, hl, hr, hroot.imp_right ?_⟩
    rintro ⟨hforms, hrid, -⟩
    exact ⟨hforms, hrid⟩

/-- A call with a marked callee and one argument. -/
def callTemplate : IRGraphTemplate :=
  { rootId := 0
    nodes := [.call 0 1 [2], .name 1 "f", .literal 2 .null]
    parents := [(0, none), (1, some 0), (2, some 0)]
    sourceSpans := []
    internalNodes := [1]
    topLevelForms := [0]
    nextId := 3 }

theorem validators_agree_call :
    ∃ g, fromTemplate callTemplate = .ok g ∧ g.validateIntegrity = .ok () :=
  validators_agree.1 callTemplate (by decide)

end IRGraph

end Caap
