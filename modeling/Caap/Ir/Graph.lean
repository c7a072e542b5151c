/-
  Caap.Ir.Graph

  `IRGraph` of `graph.rs`: the node table of a unit with its parent links, source spans,
  internal markers and ordered top-level forms, and the operations on it.

  An operation that checks everything before it writes returns the new graph inside the
  result.  `insert_expr_spec` and `replace_subtree` can fail after they have written: they
  are actions, which leave the graph they have reached behind.  The maps and sets are
  hash tables in the source; where a loop over one reports an error, which of several
  errors comes first is not determined there, and the model takes key order.
-/

import Caap.Ir.Node
import Caap.Lib.Action
import Caap.Lib.Coloring
import Caap.Lib.Worklist

namespace Caap

open Std Lib

/-- `IRGraph`. -/
structure IRGraph where
  rootId : Nat
  nodes : OrdMap Nat Node
  parents : OrdMap Nat (Option Nat)
  sourceSpans : OrdMap Nat SourceSpan
  internalNodes : OrdSet Nat
  topLevelForms : List Nat
  topLevelSet : OrdSet Nat
  nextId : Nat

/-- The `{:?}` rendering of an optional node id. -/
def debugOptionId : Option Nat → String
  | none => "None"
  | some id => "Some(" ++ toString id ++ ")"

/-- The `{:?}` rendering of a vector of node ids. -/
def debugIds (ids : List Nat) : String := "[" ++ ", ".intercalate (ids.map toString) ++ "]"

/-- `validate_unique_call_children`. -/
def validateUniqueCallChildren (callee : Nat) (args : List Nat) : CaapResult Unit :=
  checkDistinct id (fun _ => .ok ())
    (fun arg => .graph ("call child node appears more than once: " ++ toString arg)) [callee] args

namespace IRGraph

/-- `IRGraph::new`. -/
def new : IRGraph :=
  { rootId := 0, nodes := ∅, parents := ∅, sourceSpans := ∅, internalNodes := ∅
    topLevelForms := [], topLevelSet := ∅, nextId := 0 }

/-- `allocate_id`. -/
def allocateId (g : IRGraph) : CaapResult (Nat × IRGraph) :=
  if g.nextId + 1 < u32Size then .ok (g.nextId, { g with nextId := g.nextId + 1 })
  else .error (.graph "IRGraph node id overflow")

/-- `set_node`. -/
def setNode (g : IRGraph) (node : Node) (parentId : Option Nat) : CaapResult IRGraph :=
  if g.nextId ≤ node.id ∧ u32Size ≤ node.id + 1 then .error (.graph "IRGraph node id overflow")
  else
    .ok { g with
      nodes := g.nodes.insert node.id node
      parents := g.parents.insert node.id parentId
      nextId := if g.nextId ≤ node.id then node.id + 1 else g.nextId }

/-- `self.parents.get(&id).copied().flatten()`. -/
def parentOf (g : IRGraph) (id : Nat) : Option Nat := g.parents[id]?.join

/-- `set_source_span`. -/
def setSourceSpan (g : IRGraph) (id : Nat) (span : SourceSpan) : CaapResult IRGraph :=
  if id ∈ g.nodes then .ok { g with sourceSpans := g.sourceSpans.insert id span }
  else .error (.graph ("cannot attach source span to missing node: " ++ toString id))

/-- `mark_internal_node`. -/
def markInternalNode (g : IRGraph) (id : Nat) : CaapResult IRGraph :=
  match g.nodes[id]? with
  | none => .error (.graph ("cannot mark missing node internal: " ++ toString id))
  | some node =>
    if node.isName then .ok { g with internalNodes := g.internalNodes.insert id () }
    else .error (.graph ("internal marker can only annotate name nodes: " ++ toString id))

/-! ## Requirements -/

/-- `require_node`. -/
def requireNode (g : IRGraph) (id : Nat) (label : String) : CaapResult Unit :=
  if id ∈ g.nodes then .ok ()
  else .error (.graph (label ++ " does not exist: " ++ toString id))

/-- `require_detached_top_level_form`. -/
def requireDetachedTopLevelForm (g : IRGraph) (id : Nat) : CaapResult Unit := do
  g.requireNode id "top-level form"
  if (g.parentOf id).isSome then
    .error (.graph ("IR graph top-level form " ++ toString id ++ " has a parent"))
  else .ok ()

/-- `has_top_level_form`. -/
def hasTopLevelForm (g : IRGraph) (id : Nat) : Bool := decide (id ∈ g.topLevelSet)

/-- `require_new_subtree_root`. -/
def requireNewSubtreeRoot (g : IRGraph) (id : Nat) : CaapResult Unit := do
  g.requireNode id "replacement subtree root"
  if (g.parentOf id).isSome then
    .error (.graph ("replacement subtree root " ++ toString id ++ " has a parent"))
  else if g.hasTopLevelForm id then
    .error (.graph "replacement subtree root must not already be top-level")
  else .ok ()

/-- `require_new_top_level_form`. -/
def requireNewTopLevelForm (g : IRGraph) (id : Nat) : CaapResult Unit := do
  g.requireDetachedTopLevelForm id
  if g.hasTopLevelForm id then .error (.graph "IR graph top-level forms must be unique")
  else .ok ()

/-- `top_level_index`. -/
def topLevelIndex (g : IRGraph) (id : Nat) : CaapResult Nat :=
  match g.topLevelForms.idxOf? id with
  | some index => .ok index
  | none => .error (.graph ("top-level form does not exist: " ++ toString id))

/-! ## Top-level forms -/

/-- `add_top_level_form`. -/
def addTopLevelForm (g : IRGraph) (id : Nat) : CaapResult IRGraph := do
  g.requireDetachedTopLevelForm id
  if id ∈ g.topLevelSet then .ok g
  else
    .ok { g with
      topLevelSet := g.topLevelSet.insert id ()
      rootId := if g.topLevelForms.isEmpty then id else g.rootId
      topLevelForms := g.topLevelForms ++ [id] }

/-- `set_top_level_form_ids`. -/
def setTopLevelFormIds (g : IRGraph) (formIds : List Nat) : CaapResult IRGraph := do
  checkDistinct id g.requireDetachedTopLevelForm
    (fun id => .graph ("duplicate top-level form id: " ++ toString id)) [] formIds
  .ok { g with topLevelSet := OrdSet.ofList formIds, topLevelForms := formIds }

/-- `insert_top_level_before`. -/
def insertTopLevelBefore (g : IRGraph) (anchor newId : Nat) : CaapResult IRGraph := do
  g.requireNewTopLevelForm newId
  let index ← g.topLevelIndex anchor
  .ok { g with
    topLevelForms := g.topLevelForms.insertIdx index newId
    topLevelSet := g.topLevelSet.insert newId () }

/-- `insert_top_level_after`. -/
def insertTopLevelAfter (g : IRGraph) (anchor newId : Nat) : CaapResult IRGraph := do
  g.requireNewTopLevelForm newId
  let index ← g.topLevelIndex anchor
  .ok { g with
    topLevelForms := g.topLevelForms.insertIdx (index + 1) newId
    topLevelSet := g.topLevelSet.insert newId () }

/-- `replace_top_level_form`. -/
def replaceTopLevelForm (g : IRGraph) (oldId newId : Nat) : CaapResult IRGraph := do
  let index ← g.topLevelIndex oldId
  if oldId = newId then .ok g
  else do
    g.requireNewTopLevelForm newId
    .ok { g with
      topLevelForms := g.topLevelForms.set index newId
      topLevelSet := (g.topLevelSet.erase oldId).insert newId () }

/-- `remove_top_level_form`. -/
def removeTopLevelForm (g : IRGraph) (id : Nat) : Bool × IRGraph :=
  match g.topLevelForms.idxOf? id with
  | some index =>
    (true,
      { g with
        topLevelForms := g.topLevelForms.eraseIdx index
        topLevelSet := g.topLevelSet.erase id })
  | none => (false, g)

/-! ## Nodes -/

/-- `validate_call_children`. -/
def validateCallChildren (g : IRGraph) (callee : Nat) (args : List Nat) : CaapResult Unit := do
  validateUniqueCallChildren callee args
  if callee ∉ g.nodes then
    .error (.graph ("call callee node does not exist: " ++ toString callee))
  else
    checkAll (fun arg =>
      if arg ∈ g.nodes then .ok ()
      else .error (.graph ("call argument node does not exist: " ++ toString arg))) args

/-- The uniqueness check that calls alone undergo. -/
def validateUniqueNodeChildren : Node → CaapResult Unit
  | .call _ callee args => validateUniqueCallChildren callee args
  | .name _ _ | .literal _ _ => .ok ()

/-- `validate_node_children`. -/
def validateNodeChildren (g : IRGraph) (node : Node) : CaapResult Unit := do
  validateUniqueNodeChildren node
  checkAll (fun childId => do
    g.requireNode childId "child node"
    if g.parentOf childId = some node.id then .ok ()
    else
      .error (.graph ("IR graph child " ++ toString childId ++ " parent mismatch: expected "
        ++ toString node.id ++ ", got " ++ debugOptionId (g.parentOf childId)))) node.children

/-- `replace_node`. -/
def replaceNode (g : IRGraph) (nodeId : Nat) (node : Node) : CaapResult IRGraph := do
  g.requireNode nodeId "replacement target"
  if node.id ≠ nodeId then
    .error (.graph "replacement node id must match replaced graph node id")
  else do
    g.validateNodeChildren node
    .ok { g with nodes := g.nodes.insert nodeId node }

/-- `remove_node_storage`. -/
def removeNodeStorage (g : IRGraph) (nodeId : Nat) : Bool × IRGraph :=
  let cleared : IRGraph :=
    { g with
      nodes := g.nodes.erase nodeId
      parents := g.parents.erase nodeId
      sourceSpans := g.sourceSpans.erase nodeId
      internalNodes := g.internalNodes.erase nodeId }
  let g' := (cleared.removeTopLevelForm nodeId).2
  (decide (nodeId ∈ g.nodes),
    if g'.rootId = nodeId then
      { g' with rootId := (g'.topLevelForms.head?.or g'.nodes.minKey?).getD 0 }
    else g')

/-- `delete_node`. -/
def deleteNode (g : IRGraph) (nodeId : Nat) : CaapResult (Bool × IRGraph) :=
  match g.nodes[nodeId]? with
  | none => .ok (false, g)
  | some node =>
    if (g.parentOf nodeId).isSome then
      .error (.graph "cannot delete attached IR graph node directly")
    else if node.hasChildren then
      .error (.graph "cannot delete IR graph node with children directly")
    else .ok (true, (g.removeNodeStorage nodeId).2)

/-- The children of `id`, when it is a node. -/
def childrenOf (g : IRGraph) (id : Nat) : List Nat :=
  ((g.nodes[id]?).map Node.children).getD []

/-- One iteration of `remove_subtree_storage`, with the ids dropped so far. -/
def dropNode (state : IRGraph × List Nat) (current : Nat) : IRGraph × List Nat :=
  let (existed, g) := state.1.removeNodeStorage current
  (g, if existed then state.2 ++ [current] else state.2)

/-- `remove_subtree_storage`.  Every iteration pops one id and pushes the children of a
    node that is then gone, so that the number of children bounds the iterations. -/
def removeSubtreeStorage (g : IRGraph) (rootId : Nat) : List Nat × IRGraph :=
  let (g', dropped) := drain (fun state current => state.1.childrenOf current) dropNode
    (OrdMap.weight (fun node => node.children.length) g.nodes + 1) (g, []) [rootId]
  (dropped, g')

/-- `erase_detached_subtree`. -/
def eraseDetachedSubtree (g : IRGraph) (rootId : Nat) : CaapResult (List Nat × IRGraph) := do
  g.requireNode rootId "subtree root"
  if (g.parentOf rootId).isSome then
    .error (.graph "cannot erase attached subtree root directly")
  else .ok (g.removeSubtreeStorage rootId)

/-! ## Replacing a subtree -/

/-- `rewrite_parent_child`. -/
def rewriteParentChild (parent : Node) (oldId newId : Nat) : CaapResult Node :=
  match parent with
  | .call id callee args =>
    if callee = oldId ∨ oldId ∈ args then
      .ok (.call id (if callee = oldId then newId else callee)
        (args.map fun arg => if arg = oldId then newId else arg))
    else
      .error (.graph ("subtree parent " ++ toString id ++ " does not reference child "
        ++ toString oldId))
  | .name _ _ | .literal _ _ => .error (.graph "only call nodes can own child subtrees")

/-- The parent of a subtree to be replaced, and its node with the new child. -/
def rewrittenParent (g : IRGraph) (oldId newId : Nat) : CaapResult (Nat × Node) :=
  match g.parentOf oldId with
  | none => .error (.graph "cannot replace detached non-top-level subtree root")
  | some parentId =>
    match g.nodes[parentId]? with
    | none => .error (.graph ("subtree parent does not exist: " ++ toString parentId))
    | some parent => do
      let rewritten ← rewriteParentChild parent oldId newId
      .ok (parentId, rewritten)

/-- Computations on a graph that may fail midway. -/
abbrev GraphAction (α : Type) := Action CaapError IRGraph α

/-- The branch of `replace_subtree` for a top-level form. -/
def replaceTopLevelSubtree (oldId newId : Nat) : GraphAction (List Nat) := do
  .update fun g => g.replaceTopLevelForm oldId newId
  .modify fun g => if g.rootId = oldId then { g with rootId := newId } else g
  .call fun g => .ok (g.removeSubtreeStorage oldId)

/-- The branch of `replace_subtree` for a subtree below a call. -/
def replaceChildSubtree (oldId newId : Nat) : GraphAction (List Nat) := do
  let (parentId, rewritten) ← .check fun g => g.rewrittenParent oldId newId
  .modify fun g => { g with parents := g.parents.insert newId (some parentId) }
  .update fun g => g.replaceNode parentId rewritten
  .call fun g => .ok (g.removeSubtreeStorage oldId)

/-- `replace_subtree`. -/
def replaceSubtree (oldId newId : Nat) : GraphAction (List Nat) := do
  .check fun g => g.requireNode oldId "subtree replacement target"
  if oldId = newId then return []
  .check fun g => g.requireNewSubtreeRoot newId
  let topLevel ← .check fun g => .ok (g.hasTopLevelForm oldId)
  if topLevel then replaceTopLevelSubtree oldId newId else replaceChildSubtree oldId newId

/-! ## Expression trees -/

/-- The span of an inserted expression, if it has one. -/
def attachSpan (id : Nat) : Option SourceSpan → GraphAction Nat
  | none => return id
  | some span => do
    .update fun g => g.setSourceSpan id span
    return id

mutual

/-- `insert_expr_spec_into`: an id is taken before those of the children. -/
def insertExprSpecInto : ExprSpec → Option Nat → GraphAction Nat
  | .name identifier span, parentId => do
    let id ← .call allocateId
    let node ← .check fun _ => Node.newName id identifier
    .update fun g => g.setNode node parentId
    attachSpan id span
  | .literal value span, parentId => do
    let id ← .call allocateId
    .update fun g => g.setNode (.literal id value) parentId
    attachSpan id span
  | .call callee args span, parentId => do
    let id ← .call allocateId
    let calleeId ← insertExprSpecInto callee (some id)
    let argIds ← insertArgs args (some id)
    .check fun g => g.validateCallChildren calleeId argIds
    .update fun g => g.setNode (.call id calleeId argIds) parentId
    attachSpan id span

/-- The loop over the arguments of a call. -/
def insertArgs : List ExprSpec → Option Nat → GraphAction (List Nat)
  | [], _ => return []
  | spec :: rest, parentId => do
    let id ← insertExprSpecInto spec parentId
    let ids ← insertArgs rest parentId
    return id :: ids

end

/-- `insert_expr_spec`. -/
def insertExprSpec (spec : ExprSpec) : GraphAction Nat := insertExprSpecInto spec none

/-- `expr_spec_for_subtree`, which recurses along the node table without a bound. -/
def exprSpecForSubtree (g : IRGraph) : Nat → Nat → Bounded ExprSpec
  | 0, _ => Bounded.outOfFuel
  | fuel + 1, rootId =>
    match g.nodes[rootId]? with
    | none => throw (.graph ("subtree root does not exist: " ++ toString rootId))
    | some (.name _ identifier) =>
      Bounded.ofResult (ExprSpec.nameWithSpan identifier g.sourceSpans[rootId]?)
    | some (.literal _ value) => return .literal value g.sourceSpans[rootId]?
    | some (.call _ callee args) => do
      let calleeSpec ← exprSpecForSubtree g fuel callee
      let argSpecs ← args.mapM (exprSpecForSubtree g fuel)
      return .call calleeSpec argSpecs g.sourceSpans[rootId]?

end IRGraph

end Caap
