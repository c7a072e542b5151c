/-
  Caap.Ir.Integrity

  `validate_integrity` of `graph.rs`, and what a graph that passes it is: a forest of
  nodes whose roots are the top-level forms, with spans and markers on its nodes
  (`Integrity`, `validateIntegrity_eq_ok`).
-/

import Caap.Ir.Graph
import Caap.Lib.Forest

namespace Caap

open Std Lib Option List

/-! ## The checks -/

/-- The children of a call are distinct nodes. -/
def checkCallChildren (nodes : OrdMap Nat Node) : Node → CaapResult Unit
  | .call id callee args => do
    validateUniqueCallChildren callee args
    if callee ∉ nodes then
      .error (.graph ("call " ++ toString id ++ " has missing callee " ++ toString callee))
    else
      checkAll (fun arg =>
        if arg ∈ nodes then .ok ()
        else .error (.graph ("call " ++ toString id ++ " has missing argument "
          ++ toString arg))) args
  | .name _ _ | .literal _ _ => .ok ()

/-- A parent link leads to a node. -/
def checkParentTarget (nodes : OrdMap Nat Node) (entry : Nat × Option Nat) : CaapResult Unit :=
  match entry.2 with
  | none => .ok ()
  | some parentId =>
    if parentId ∈ nodes then .ok ()
    else .error (.graph ("parent entry for " ++ toString entry.1 ++ " references missing node: "
      ++ toString parentId))

/-- A parent entry is about a node. -/
def checkParentOwner (nodes : OrdMap Nat Node) (entry : Nat × Option Nat) : CaapResult Unit :=
  if entry.1 ∈ nodes then .ok ()
  else .error (.graph ("parent entry references missing node: " ++ toString entry.1))

/-- Every node has a parent entry. -/
def checkHasParentEntry (parents : OrdMap Nat (Option Nat)) (id : Nat) : CaapResult Unit :=
  if id ∈ parents then .ok ()
  else .error (.graph ("missing parent entry for node: " ++ toString id))

/-- The top-level forms are distinct nodes. -/
def checkTopLevelForms (nodes : OrdMap Nat Node) (forms : List Nat) : CaapResult Unit :=
  checkDistinct id
    (fun id =>
      if id ∈ nodes then .ok ()
      else .error (.graph ("top-level form references missing node: " ++ toString id)))
    (fun id => .graph ("duplicate top-level form id: " ++ toString id)) [] forms

/-- The ids without a parent. -/
def parentless (parents : List (Nat × Option Nat)) : OrdSet Nat :=
  OrdSet.ofList ((parents.filter fun entry => entry.2.isNone).map Prod.fst)

/-- The ids that should have no parent. -/
def expectedRoots (forms : List Nat) (rootId : Nat) : OrdSet Nat :=
  OrdSet.ofList (if forms.isEmpty then [rootId] else forms)

/-- The nodes without a parent are the expected ones. -/
def checkRoots (label : String) (expected actual : OrdSet Nat) : CaapResult Unit :=
  if actual = expected then .ok ()
  else .error (.graph (label ++ " parentless nodes mismatch: expected=" ++ debugIds expected.keys
    ++ ", got=" ++ debugIds actual.keys))

/-- The parent of a node lists it as a child. -/
def checkParentReference (label : String) (nodes : OrdMap Nat Node)
    (entry : Nat × Option Nat) : CaapResult Unit :=
  match entry.2 with
  | none => .ok ()
  | some parentId =>
    match nodes[parentId]? with
    | none => .error (.graph ("parent entry for " ++ toString entry.1
        ++ " references missing node: " ++ toString parentId))
    | some parentNode =>
      if parentNode.containsChild entry.1 then .ok ()
      else .error (.graph (label ++ " parent " ++ toString parentId
        ++ " does not reference child " ++ toString entry.1))

/-- No node is its own ancestor. -/
def checkAcyclic (label : String) (parents : OrdMap Nat (Option Nat))
    (starts : List Nat) : CaapResult Unit :=
  if (colorAll (fun id => parents[id]?.join) (parents.keys.length + 2) ∅ starts).isSome then .ok ()
  else .error (.graph (label ++ " parent links must be acyclic"))

/-- The parent entry of each child of a node is that node. -/
def checkChildParents (label : String) (parents : OrdMap Nat (Option Nat)) (id : Nat)
    (node : Node) : CaapResult Unit :=
  checkAll (fun childId =>
    if parents[childId]?.join = some id then .ok ()
    else .error (.graph (label ++ " child " ++ toString childId ++ " parent mismatch: expected "
      ++ toString id ++ ", got " ++ debugOptionId parents[childId]?.join))) node.children

/-- A span is attached to a node. -/
def checkSpanOwner (nodes : OrdMap Nat Node) (id : Nat) : CaapResult Unit :=
  if id ∈ nodes then .ok ()
  else .error (.graph ("source span references missing node: " ++ toString id))

/-- An internal marker is on a name node. -/
def checkInternalMarker (nodes : OrdMap Nat Node) (id : Nat) : CaapResult Unit :=
  match nodes[id]? with
  | none => .error (.graph ("internal marker references missing node: " ++ toString id))
  | some node =>
    if node.isName then .ok ()
    else .error (.graph ("internal marker can only annotate name nodes: " ++ toString id))

/-- The next id exceeds every node id. -/
def checkNextId (label : String) (nextId : Nat) (ids : List Nat) : CaapResult Unit :=
  match ids.max? with
  | none => .ok ()
  | some maxId =>
    if nextId ≤ maxId then
      .error (.graph (label ++ " next_id " ++ toString nextId ++ " must exceed max node id "
        ++ toString maxId))
    else .ok ()

namespace IRGraph

/-- The empty-graph branch of `validate_integrity`. -/
def validateEmpty (g : IRGraph) : CaapResult Unit :=
  if ¬ g.parents.isEmpty then .error (.graph "empty IRGraph cannot have parent entries")
  else if ¬ g.topLevelForms.isEmpty ∨ ¬ g.topLevelSet.isEmpty then
    .error (.graph "empty IRGraph cannot have top-level forms")
  else if ¬ g.sourceSpans.isEmpty then .error (.graph "empty IRGraph cannot have source spans")
  else if ¬ g.internalNodes.isEmpty then .error (.graph "empty IRGraph cannot have internal nodes")
  else .ok ()

/-- A node is stored under its id and its children are distinct nodes. -/
def checkNode (g : IRGraph) (entry : Nat × Node) : CaapResult Unit :=
  if entry.2.id ≠ entry.1 then
    .error (.graph ("IRGraph node key " ++ toString entry.1 ++ " does not match node id "
      ++ toString entry.2.id))
  else checkCallChildren g.nodes entry.2

/-- `validate_integrity`. -/
def validateIntegrity (g : IRGraph) : CaapResult Unit :=
  if g.nodes.isEmpty then g.validateEmpty
  else if g.rootId ∉ g.nodes then
    .error (.graph ("IRGraph root node is missing: " ++ toString g.rootId))
  else do
    checkAll g.checkNode g.nodes.toList
    checkAll (fun entry => do
      checkParentOwner g.nodes entry
      checkParentTarget g.nodes entry) g.parents.toList
    checkAll (checkHasParentEntry g.parents) g.nodes.keys
    checkTopLevelForms g.nodes g.topLevelForms
    if OrdSet.ofList g.topLevelForms ≠ g.topLevelSet then
      .error (.graph "IRGraph top-level form set does not match ordered top-level forms")
    else do
      checkRoots "IRGraph" (expectedRoots g.topLevelForms g.rootId) (parentless g.parents.toList)
      checkAll (checkParentReference "IRGraph" g.nodes) g.parents.toList
      checkAcyclic "IRGraph" g.parents g.nodes.keys
      checkAll (fun entry => checkChildParents "IRGraph" g.parents entry.1 entry.2) g.nodes.toList
      checkAll (checkSpanOwner g.nodes) g.sourceSpans.keys
      checkAll (checkInternalMarker g.nodes) g.internalNodes.keys
      checkNextId "IRGraph" g.nextId g.nodes.keys

end IRGraph

/-! ## What each check decides -/

theorem validateUniqueCallChildren_eq_ok {callee : Nat} {args : List Nat} :
    validateUniqueCallChildren callee args = .ok () ↔ (callee :: args).Nodup := by
  rw [validateUniqueCallChildren, checkDistinct_eq_ok, List.map_id, List.nodup_cons]
  constructor
  · rintro ⟨-, hnd, hout⟩
    exact ⟨fun hmem => hout callee hmem (mem_singleton_self _), hnd⟩
  · rintro ⟨hnot, hnd⟩
    refine ⟨fun _ _ => rfl, hnd, ?_⟩
    intro x hx hmem
    exact hnot (mem_singleton.mp hmem ▸ hx)

variable {nodes : OrdMap Nat Node}

theorem checkCallChildren_eq_ok {node : Node} : checkCallChildren nodes node = .ok () ↔
      node.children.Nodup ∧ ∀ c ∈ node.children, c ∈ nodes := by
  cases node with
  | name | literal => simp [checkCallChildren, Node.children]
  | call id callee args =>
    simp only [checkCallChildren, check_bind_eq_ok, validateUniqueCallChildren_eq_ok,
      ite_error_eq_ok, checkAll_eq_ok, ite_ok_eq_ok, Node.children, forall_mem_cons,
      Decidable.not_not]

theorem checkTopLevelForms_eq_ok {forms : List Nat} :
    checkTopLevelForms nodes forms = .ok () ↔ forms.Nodup ∧ ∀ id ∈ forms, id ∈ nodes := by
  rw [checkTopLevelForms, checkDistinct_eq_ok, List.map_id]
  simp only [not_mem_nil, not_false_eq_true, implies_true, and_true]
  rw [and_comm]
  exact and_congr_right fun _ => forall₂_congr fun id _ => ite_ok_eq_ok

variable {parents : OrdMap Nat (Option Nat)} {id : Nat}

theorem mem_parentless : id ∈ parentless parents.toList ↔ parents[id]? = some none := by
  rw [parentless, ExtTreeMap.mem_iff_isSome_getElem?, OrdSet.isSome_ofList, List.mem_map]
  constructor
  · rintro ⟨⟨a, o⟩, hmem, rfl⟩
    rw [mem_filter, OrdMap.mem_toList] at hmem
    have ho : o = none := isNone_iff_eq_none.mp hmem.2
    rw [hmem.1, ho]
  · intro h
    exact ⟨(id, none), mem_filter.mpr ⟨OrdMap.mem_toList.mpr h, rfl⟩, rfl⟩

variable {label : String}

theorem checkRoots_eq_ok {expected actual : OrdSet Nat} :
    checkRoots label expected actual = .ok () ↔ ∀ id, id ∈ actual ↔ id ∈ expected := by
  rw [checkRoots]
  by_cases h : actual = expected
  · simp [h]
  · rw [if_neg h]
    simp only [reduceCtorEq, false_iff]
    intro hall
    refine h (OrdSet.ext_isSome fun id => ?_)
    rw [← ExtTreeMap.mem_iff_isSome_getElem?, ← ExtTreeMap.mem_iff_isSome_getElem?]
    exact hall id

theorem checkParentReference_eq_ok {parent : Option Nat} :
    checkParentReference label nodes (id, parent) = .ok () ↔
      ∀ p, parent = some p → ∃ node, nodes[p]? = some node ∧ id ∈ node.children := by
  cases parent with
  | none => simp [checkParentReference]
  | some p =>
    simp only [checkParentReference, some.injEq, forall_eq']
    cases hp : nodes[p]? with
    | none => simp
    | some node =>
      simp only [some.injEq, exists_eq_left', ← Node.containsChild_iff, ite_ok_eq_ok]

theorem checkAcyclic_eq_ok {starts : List Nat} : checkAcyclic label parents starts = .ok () ↔
      ∀ a ∈ starts, Ends (fun id => parents[id]?.join) a := by
  have hdom : ∀ a, (parents[a]?.join).isSome → a ∈ parents.keys := by
    intro a ha
    rw [ExtTreeMap.mem_keys, ExtTreeMap.mem_iff_isSome_getElem?]
    cases h : parents[a]? with
    | none =>
      rw [h] at ha
      exact absurd ha (by simp)
    | some o => rfl
  have hempty : AllConfirmed (fun id => parents[id]?.join) (∅ : OrdMap Nat Color) := by
    intro a c hc
    exact absurd hc (by simp)
  rw [← colorAll_isSome_iff hdom hempty, checkAcyclic, ite_ok_eq_ok]

theorem checkChildParents_eq_ok {node : Node} : checkChildParents label parents id node = .ok () ↔
      ∀ c ∈ node.children, parents[c]? = some (some id) := by
  rw [checkChildParents, checkAll_eq_ok]
  refine forall₂_congr fun c _ => ?_
  rw [← join_eq_some_iff, ite_ok_eq_ok]

theorem checkInternalMarker_eq_ok :
    checkInternalMarker nodes id = .ok () ↔ ∃ node, nodes[id]? = some node ∧ node.isName = true := by
  rw [checkInternalMarker]
  cases h : nodes[id]? with
  | none => simp
  | some node => simp only [ite_ok_eq_ok, some.injEq, exists_eq_left']

theorem checkNextId_eq_ok {nextId : Nat} {ids : List Nat} :
    checkNextId label nextId ids = .ok () ↔ ∀ id ∈ ids, id < nextId := by
  rw [checkNextId]
  cases hm : ids.max? with
  | none =>
    rw [max?_eq_none_iff] at hm
    simp [hm]
  | some maxId =>
    obtain ⟨hmem, hmax⟩ := max?_eq_some_iff.mp hm
    simp only [ite_error_eq_ok, and_true, Nat.not_le]
    constructor
    · intro h id hid
      exact Nat.lt_of_le_of_lt (hmax id hid) h
    · intro h
      exact h maxId hmem

/-! ## Graphs that pass -/

namespace IRGraph

/-- The children of a node, for ids that are nodes. -/
def kids (g : IRGraph) (id : Nat) : Option (List Nat) := (g.nodes[id]?).map Node.children

/-- The parent entry of an id. -/
def up (g : IRGraph) (id : Nat) : Option (Option Nat) := g.parents[id]?

/-- The nodes that should have no parent: the top-level forms, or the root node of a graph
    without any. -/
def IsRoot (g : IRGraph) (id : Nat) : Prop :=
  id ∈ g.topLevelForms ∨ (g.topLevelForms = [] ∧ id = g.rootId ∧ id ∈ g.nodes)

/-- What holds of every graph: nodes are stored under their ids, the top-level forms are
    distinct nodes, their set is that of the ordered list, and no id from the next one on
    is in use. -/
structure Stored (g : IRGraph) : Prop where
  keyed : ∀ {id : Nat} {node : Node}, g.nodes[id]? = some node → node.id = id
  formsNodup : g.topLevelForms.Nodup
  formsMem : ∀ id ∈ g.topLevelForms, id ∈ g.nodes
  formsSet : ∀ id, id ∈ g.topLevelSet ↔ id ∈ g.topLevelForms
  below : ∀ id, id ∈ g.nodes → id < g.nextId

/-- The tables agree: the nodes form a forest with the given roots, and spans and markers
    are on nodes. -/
structure Sound (g : IRGraph) (root : Nat → Prop) : Prop extends Stored g where
  forest : Forest g.kids g.up root
  spans : ∀ id, id ∈ g.sourceSpans → id ∈ g.nodes
  internal : ∀ id, id ∈ g.internalNodes →
    ∃ node : Node, g.nodes[id]? = some node ∧ node.isName = true

/-- What `validate_integrity` accepts. -/
structure Integrity (g : IRGraph) : Prop extends Sound g g.IsRoot where
  rootMem : g.nodes ≠ ∅ → g.rootId ∈ g.nodes

/-- Integrity of a graph whose parentless nodes are all top-level forms. -/
structure Rooted (g : IRGraph) : Prop extends Sound g (· ∈ g.topLevelForms) where
  rootMem : g.nodes ≠ ∅ → g.rootId ∈ g.nodes

variable {g : IRGraph}

theorem kids_eq_some {cs : List Nat} :
    g.kids id = some cs ↔ ∃ node, g.nodes[id]? = some node ∧ node.children = cs :=
  map_eq_some_iff

theorem isSome_kids : (g.kids id).isSome = true ↔ id ∈ g.nodes := by
  rw [kids, isSome_map, ExtTreeMap.mem_iff_isSome_getElem?]

theorem isSome_up : (g.up id).isSome = true ↔ id ∈ g.parents := by
  rw [up, ExtTreeMap.mem_iff_isSome_getElem?]

/-- The checks on a graph with nodes, in their order. -/
@[mk_iff] structure Checked (g : IRGraph) : Prop where
  root : g.rootId ∈ g.nodes
  node : ∀ (id : Nat) (node : Node), g.nodes[id]? = some node →
    node.id = id ∧ node.children.Nodup ∧ ∀ c ∈ node.children, c ∈ g.nodes
  parentEntry : ∀ (id : Nat) (parent : Option Nat), g.parents[id]? = some parent →
    id ∈ g.nodes ∧ ∀ p, parent = some p → p ∈ g.nodes
  hasParentEntry : ∀ id, id ∈ g.nodes → id ∈ g.parents
  forms : g.topLevelForms.Nodup ∧ ∀ id ∈ g.topLevelForms, id ∈ g.nodes
  formsSet : ∀ id, id ∈ g.topLevelSet ↔ id ∈ g.topLevelForms
  roots : ∀ id : Nat, g.parents[id]? = some none ↔
    id ∈ expectedRoots g.topLevelForms g.rootId
  parentReference : ∀ (id : Nat) (parent : Option Nat), g.parents[id]? = some parent →
    ∀ p, parent = some p → ∃ node, g.nodes[p]? = some node ∧ id ∈ node.children
  acyclic : ∀ id, id ∈ g.nodes → Ends (fun id => g.parents[id]?.join) id
  childParents : ∀ (id : Nat) (node : Node), g.nodes[id]? = some node →
    ∀ c ∈ node.children, g.parents[c]? = some (some id)
  spans : ∀ id, id ∈ g.sourceSpans → id ∈ g.nodes
  internal : ∀ id, id ∈ g.internalNodes →
    ∃ node : Node, g.nodes[id]? = some node ∧ node.isName = true
  nextId : ∀ id, id ∈ g.nodes → id < g.nextId

theorem checkParentEntry_eq_ok {nodes : OrdMap Nat Node} {parent : Option Nat} :
    (checkParentOwner nodes (id, parent) = .ok () ∧ checkParentTarget nodes (id, parent) = .ok ()) ↔
      id ∈ nodes ∧ ∀ p, parent = some p → p ∈ nodes := by
  rw [checkParentOwner, ite_ok_eq_ok]
  cases parent with
  | none => simp [checkParentTarget]
  | some p => simp only [checkParentTarget, ite_ok_eq_ok, some.injEq, forall_eq']

theorem validateIntegrity_nonempty (hne : g.nodes ≠ ∅) :
    g.validateIntegrity = .ok () ↔ g.Checked := by
  have hempty : ¬ g.nodes.isEmpty = true := fun h => hne (ExtTreeMap.isEmpty_iff.mp h)
  have hset : ¬ OrdSet.ofList g.topLevelForms ≠ g.topLevelSet ↔
      ∀ id, id ∈ g.topLevelSet ↔ id ∈ g.topLevelForms := by
    rw [Decidable.not_not]
    constructor
    · intro h id
      rw [← h, ExtTreeMap.mem_iff_isSome_getElem?, OrdSet.isSome_ofList]
    · intro h
      refine OrdSet.ext_isSome fun id => ?_
      rw [OrdSet.isSome_ofList, ← h, ExtTreeMap.mem_iff_isSome_getElem?]
  rw [validateIntegrity, if_neg hempty, checked_iff]
  simp only [ite_error_eq_ok, check_bind_eq_ok, checkAll_eq_ok, Prod.forall, OrdMap.mem_toList,
    ExtTreeMap.mem_keys, checkNode, checkCallChildren_eq_ok, checkHasParentEntry, ite_ok_eq_ok,
    checkTopLevelForms_eq_ok, checkRoots_eq_ok, mem_parentless, checkParentReference_eq_ok,
    checkAcyclic_eq_ok, checkChildParents_eq_ok, checkSpanOwner, checkInternalMarker_eq_ok,
    checkNextId_eq_ok, Decidable.not_not, checkParentEntry_eq_ok, hset, ne_eq]

theorem mem_expectedRoots {forms : List Nat} {rootId : Nat} :
    id ∈ expectedRoots forms rootId ↔ id ∈ forms ∨ (forms = [] ∧ id = rootId) := by
  rw [expectedRoots, ExtTreeMap.mem_iff_isSome_getElem?, OrdSet.isSome_ofList]
  cases forms with
  | nil => simp
  | cons f fs => simp

/-- Where the root is a node, the expected roots are the roots of the forest. -/
theorem mem_expectedRoots_iff_isRoot (hroot : g.rootId ∈ g.nodes) :
    id ∈ expectedRoots g.topLevelForms g.rootId ↔ g.IsRoot id := by
  rw [mem_expectedRoots, IsRoot]
  refine or_congr_right (and_congr_right fun _ => ?_)
  exact ⟨fun h => ⟨h, h ▸ hroot⟩, And.left⟩

theorem Checked.integrity (h : g.Checked) : g.Integrity where
  keyed hn := (h.node _ _ hn).1
  forest :=
    { dom := by
        intro a
        rw [isSome_up, isSome_kids]
        refine ⟨?_, h.hasParentEntry a⟩
        intro ha
        obtain ⟨parent, hp⟩ := isSome_iff_exists.mp (ExtTreeMap.mem_iff_isSome_getElem?.mp ha)
        exact (h.parentEntry a parent hp).1
      nodup := by
        intro a cs hk
        obtain ⟨node, hn, rfl⟩ := kids_eq_some.mp hk
        exact (h.node a node hn).2.1
      down := by
        intro a cs c hk hc
        obtain ⟨node, hn, rfl⟩ := kids_eq_some.mp hk
        exact h.childParents a node hn c hc
      parent := by
        intro a p hu
        obtain ⟨node, hn, hmem⟩ := h.parentReference a (some p) hu p rfl
        exact ⟨node.children, kids_eq_some.mpr ⟨node, hn, rfl⟩, hmem⟩
      roots := by
        intro a
        rw [up, h.roots, mem_expectedRoots_iff_isRoot h.root]
      ends := by
        intro a
        by_cases ha : a ∈ g.nodes
        · exact h.acyclic a ha
        · -- an id that is not a node has no parent entry
          cases hp : g.parents[a]? with
          | none => exact .stop (by simp [up, hp])
          | some parent => exact absurd (h.parentEntry a parent hp).1 ha }
  formsNodup := h.forms.1
  formsMem := h.forms.2
  formsSet := h.formsSet
  rootMem _ := h.root
  spans := h.spans
  internal := h.internal
  below := h.nextId

theorem Integrity.checked (h : g.Integrity) (hne : g.nodes ≠ ∅) : g.Checked where
  root := h.rootMem hne
  node id node hn := by
    have hk : g.kids id = some node.children := kids_eq_some.mpr ⟨node, hn, rfl⟩
    exact ⟨h.keyed hn, h.forest.nodup hk, fun c hc => isSome_kids.mp (h.forest.isSome_of_child hk hc)⟩
  parentEntry id parent hp := by
    refine ⟨isSome_kids.mp ((h.forest.dom id).mp ?_), ?_⟩
    · rw [up, hp]
      rfl
    · rintro p rfl
      obtain ⟨cs, hk, _⟩ := h.forest.parent hp
      exact isSome_kids.mp (by rw [hk]; rfl)
  hasParentEntry id hid := isSome_up.mp ((h.forest.dom id).mpr (isSome_kids.mpr hid))
  forms := ⟨h.formsNodup, h.formsMem⟩
  formsSet := h.formsSet
  roots id := by
    rw [mem_expectedRoots_iff_isRoot (h.rootMem hne)]
    exact h.forest.roots id
  parentReference id parent hp p hpar := by
    rw [hpar] at hp
    obtain ⟨cs, hk, hmem⟩ := h.forest.parent hp
    obtain ⟨node, hn, rfl⟩ := kids_eq_some.mp hk
    exact ⟨node, hn, hmem⟩
  acyclic id _ := h.forest.ends id
  childParents id node hn c hc := h.forest.down (kids_eq_some.mpr ⟨node, hn, rfl⟩) hc
  spans := h.spans
  internal := h.internal
  nextId := h.below

/-- A graph without nodes passes exactly when it has nothing else either. -/
theorem validateEmpty_eq_ok :
    g.validateEmpty = .ok () ↔ g.parents = ∅ ∧ (g.topLevelForms = [] ∧ g.topLevelSet = ∅) ∧
      g.sourceSpans = ∅ ∧ g.internalNodes = ∅ := by
  simp only [validateEmpty, ite_error_eq_ok, not_or, Decidable.not_not, ExtTreeMap.isEmpty_iff,
    List.isEmpty_iff, and_true]

theorem integrity_of_empty (hnodes : g.nodes = ∅) (hparents : g.parents = ∅)
    (hforms : g.topLevelForms = []) (hset : g.topLevelSet = ∅) (hspans : g.sourceSpans = ∅)
    (hinternal : g.internalNodes = ∅) : g.Integrity where
  keyed hn := by simp [hnodes] at hn
  forest :=
    { dom := by simp [up, kids, hnodes, hparents]
      nodup := by simp [kids, hnodes]
      down := by simp [kids, hnodes]
      parent := by simp [up, hparents]
      roots := by simp [up, hparents, IsRoot, hforms, hnodes]
      ends := fun a => .stop (by simp [up, hparents]) }
  formsNodup := by simp [hforms]
  formsMem := by simp [hforms]
  formsSet := by simp [hforms, hset]
  rootMem hne := absurd hnodes hne
  spans := by simp [hspans]
  internal := by simp [hinternal]
  below := by simp [hnodes]

theorem Integrity.empty (h : g.Integrity) (hnodes : g.nodes = ∅) : g.validateEmpty = .ok () := by
  have hnone : ∀ id, id ∉ g.nodes := by simp [hnodes]
  have hparents : ∀ id, id ∉ g.parents := fun id hid =>
    hnone id (isSome_kids.mp ((h.forest.dom id).mp (isSome_up.mpr hid)))
  have hforms : ∀ id, id ∉ g.topLevelForms := fun id hid => hnone id (h.formsMem id hid)
  refine validateEmpty_eq_ok.mpr ⟨?_, ⟨eq_nil_iff_forall_not_mem.mpr hforms, ?_⟩, ?_, ?_⟩
  · exact ExtTreeMap.eq_empty_iff_forall_not_mem.mpr hparents
  · refine ExtTreeMap.eq_empty_iff_forall_not_mem.mpr fun id hid => ?_
    exact hforms id ((h.formsSet id).mp hid)
  · exact ExtTreeMap.eq_empty_iff_forall_not_mem.mpr fun id hid => hnone id (h.spans id hid)
  · refine ExtTreeMap.eq_empty_iff_forall_not_mem.mpr fun id hid => ?_
    obtain ⟨node, hn, _⟩ := h.internal id hid
    rw [hnodes] at hn
    exact absurd hn (by simp)

/-- The validator accepts exactly the graphs with integrity. -/
theorem validateIntegrity_eq_ok : g.validateIntegrity = .ok () ↔ g.Integrity := by
  by_cases hne : g.nodes = ∅
  · rw [validateIntegrity, if_pos (ExtTreeMap.isEmpty_iff.mpr hne)]
    refine ⟨fun h => ?_, fun h => h.empty hne⟩
    obtain ⟨hparents, ⟨hforms, hset⟩, hspans, hinternal⟩ := validateEmpty_eq_ok.mp h
    exact integrity_of_empty hne hparents hforms hset hspans hinternal
  · rw [validateIntegrity_nonempty hne]
    exact ⟨Checked.integrity, fun h => h.checked hne⟩

theorem Sound.congr_root {root root' : Nat → Prop} (h : g.Sound root)
    (hr : ∀ a, root a ↔ root' a) : g.Sound root' :=
  { h with forest := h.forest.congr_root hr }

/-- A forest without roots has no nodes. -/
theorem Sound.nodes_eq_empty {root : Nat → Prop} (h : g.Sound root)
    (hroot : ∀ a, ¬ root a) : g.nodes = ∅ := by
  have hnone : ∀ a, (g.kids a).isSome ≠ true := by
    intro a
    induction h.forest.ends a with
    | @stop a hn =>
      intro ha
      obtain ⟨o, ho⟩ := isSome_iff_exists.mp ((h.forest.dom a).mpr ha)
      cases o with
      | none => exact hroot a ((h.forest.roots a).mp ho)
      | some p =>
        rw [ho] at hn
        exact absurd hn (by simp)
    | @step a p hs _ ih =>
      obtain ⟨cs, hk, _⟩ := h.forest.parent (join_eq_some_iff.mp hs)
      exact absurd (by rw [hk]; rfl) ih
  exact ExtTreeMap.eq_empty_iff_forall_not_mem.mpr fun a ha => hnone a (isSome_kids.mpr ha)

theorem Rooted.isRoot_iff (h : g.Rooted) (a : Nat) : g.IsRoot a ↔ a ∈ g.topLevelForms := by
  refine ⟨?_, .inl⟩
  rintro (ha | ⟨hforms, -, ha⟩)
  · exact ha
  · have hempty : g.nodes = ∅ := h.nodes_eq_empty (by simp [hforms])
    rw [hempty] at ha
    exact absurd ha ExtTreeMap.not_mem_empty

theorem Rooted.integrity (h : g.Rooted) : g.Integrity :=
  { h.toSound.congr_root fun a => (h.isRoot_iff a).symm with rootMem := h.rootMem }

theorem Integrity.rooted (h : g.Integrity)
    (hforms : g.nodes = ∅ ∨ g.topLevelForms ≠ []) : g.Rooted := by
  have hroot : ∀ a, g.IsRoot a ↔ a ∈ g.topLevelForms := by
    refine fun a => ⟨?_, .inl⟩
    rintro (ha | ⟨hnil, -, ha⟩)
    · exact ha
    · rcases hforms with hempty | hne
      · rw [hempty] at ha
        exact absurd ha ExtTreeMap.not_mem_empty
      · exact absurd hnil hne
  exact { h.toSound.congr_root hroot with rootMem := h.rootMem }

end IRGraph

end Caap
