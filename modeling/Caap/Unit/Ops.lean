/-
  Caap.Unit.Ops

  The mutators of `unit/core.rs`.  Each is an action on the unit: the outcome of the call
  and the unit it leaves behind.
-/

import Caap.Unit.State

namespace Caap

open Std Lib

namespace CaapUnit

/-! ## IR mutators -/

/-- Advance the version and record the event of a change that has been made; a version
    that overflows takes the unit back to the snapshot. -/
def finishEdit {α : Type} (snapshot : UnitSnapshot) (detail : String) (result : α) :
    UnitAction α := fun u =>
  match u.nextVersion with
  | .error error => restoreAfterError snapshot error u
  | .ok version =>
    (do
      recordLifecycle "ir" detail
      return result : UnitAction α) { u with version := version }

/-- The shape of the IR mutators: edit the graph, and take the whole unit back when the
    edit or the version fails. -/
def editIr {α : Type} (edit : IRGraph.GraphAction α) (detail : String) : UnitAction α := fun u =>
  match edit u.ir with
  | (.ok result, ir) => finishEdit u.snapshot detail result { u with ir := ir }
  | (.error error, ir) => restoreAfterError u.snapshot error { u with ir := ir }

/-- `replace_ir_subtree_with_spec`. -/
def replaceIrSubtreeWithSpec (targetId : Nat) (spec : ExprSpec) : UnitAction Nat :=
  editIr (do
    let newId ← IRGraph.insertExprSpec spec
    let _ ← IRGraph.replaceSubtree targetId newId
    return newId) "replace_subtree"

/-- `append_ir_top_level_with_spec`. -/
def appendIrTopLevelWithSpec (spec : ExprSpec) : UnitAction Nat :=
  editIr (do
    let newId ← IRGraph.insertExprSpec spec
    .update fun g => g.addTopLevelForm newId
    return newId) "append_top_level"

/-- `set_ir_top_level_form_ids`. -/
def setIrTopLevelFormIds (formIds : List Nat) : UnitAction Unit :=
  editIr (.update fun g => g.setTopLevelFormIds formIds) "set_top_level_forms"

/-- `set_ir_root_id`. -/
def setIrRootId (rootId : Nat) : UnitAction Unit := fun u =>
  if rootId ∉ u.ir.nodes then
    (.error (.unit ("root node does not exist: " ++ toString rootId)), u)
  else if u.ir.rootId = rootId then (.ok (), u)
  else
    match u.nextVersion with
    | .error error => (.error error, u)
    | .ok version =>
      recordLifecycle "ir" "set_root"
        { u with ir := { u.ir with rootId := rootId }, version := version }

/-- `erase_ir_subtree`: the graph refuses before it writes, so that only a version that
    overflows has to be taken back. -/
def eraseIrSubtree (targetId : Nat) : UnitAction (List Nat) := fun u =>
  match u.ir.eraseDetachedSubtree targetId with
  | .error error => (.error error, u)
  | .ok (dropped, ir) =>
    if dropped.isEmpty then (.ok dropped, { u with ir := ir })
    else finishEdit u.snapshot "erase_subtree" dropped { u with ir := ir }

/-! ## Node identity -/

section StableIds

variable (debugF64 : UInt64 → String)

mutual

/-- The `{:?}` rendering of a literal, given that of a float. -/
def debugLiteral : IrLiteralData → String
  | .null => "Null"
  | .bool b => "Bool(" ++ (if b then "true" else "false") ++ ")"
  | .int i => "Int(" ++ toString i.toInt ++ ")"
  | .float bits => "Float(" ++ debugF64 bits ++ ")"
  | .str s => "Str(" ++ debugStr s ++ ")"
  | .tuple items => "Tuple([" ++ ", ".intercalate (debugItems items) ++ "])"
  | .dict entries => "Dict([" ++ ", ".intercalate (debugEntries entries) ++ "])"

/-- The renderings of the items of a tuple. -/
def debugItems : List IrLiteralData → List String
  | [] => []
  | item :: items => debugLiteral item :: debugItems items

/-- The renderings of the entries of a dictionary. -/
def debugEntries : List (String × IrLiteralData) → List String
  | [] => []
  | (key, item) :: entries =>
    ("(" ++ debugStr key ++ ", " ++ debugLiteral item ++ ")") :: debugEntries entries

end

/-- `node_structural_fingerprint`, which recurses along the node table without a bound. -/
def nodeStructuralFingerprint (u : CaapUnit) : Nat → Nat → Bounded String
  | 0, _ => Bounded.outOfFuel
  | fuel + 1, nodeId =>
    match u.ir.nodes[nodeId]? with
    | none => throw (.unit ("node does not exist: " ++ toString nodeId))
    | some (.name _ identifier) => return "name:" ++ identifier
    | some (.literal _ value) => return "literal:" ++ debugLiteral debugF64 value
    | some (.call _ callee args) => do
      let calleeText ← nodeStructuralFingerprint u fuel callee
      let argTexts ← args.mapM (nodeStructuralFingerprint u fuel)
      return "call:" ++ calleeText ++ "(" ++ ",".intercalate argTexts ++ ")"

/-- The loop of `node_fingerprint_occurrence`. -/
def countOccurrences (u : CaapUnit) (fuel nodeId : Nat) (fingerprint : String) :
    Nat → List Nat → Bounded Nat
  | _, [] => throw (.unit ("node does not exist: " ++ toString nodeId))
  | occurrence, candidate :: rest =>
    if candidate = nodeId then return occurrence
    else do
      let text ← nodeStructuralFingerprint debugF64 u fuel candidate
      countOccurrences u fuel nodeId fingerprint
        (if text = fingerprint then occurrence + 1 else occurrence) rest

/-- `node_fingerprint_occurrence`. -/
def nodeFingerprintOccurrence (u : CaapUnit) (fuel nodeId : Nat) (fingerprint : String) :
    Bounded Nat := countOccurrences debugF64 u fuel nodeId fingerprint 0 u.ir.nodes.keys

/-- `node_stable_id`. -/
def nodeStableId (u : CaapUnit) (fuel nodeId : Nat) : Bounded StableId :=
  if nodeId ∉ u.ir.nodes then throw (.unit ("node does not exist: " ++ toString nodeId))
  else
    match u.semantics.stableIds["node:" ++ toString nodeId]? with
    | some stableId => return stableId
    | none => do
      let fingerprint ← nodeStructuralFingerprint debugF64 u fuel nodeId
      let occurrence ← nodeFingerprintOccurrence debugF64 u fuel nodeId fingerprint
      Bounded.ofResult (StableId.new ("unit:" ++ u.unitId ++ ":node:" ++ fingerprint
        ++ ":occurrence:" ++ toString occurrence))

end StableIds

/-! ## Rewrite provenance -/

/-- `REWRITE_PROVENANCE_FACT`. -/
def rewriteProvenanceFact : String := "caap.kernel.rewrite_provenance"

/-- `DEFAULT_REWRITE_TOMBSTONE_LIMIT`. -/
def defaultRewriteTombstoneLimit : Nat := 4096

/-- `prepare_rewrite_generation`. -/
def prepareRewriteGeneration (u : CaapUnit) : CaapResult Nat :=
  if ¬ u.rewriteGeneration + 1 < u64Size then .error (.unit "rewrite generation overflow")
  else if ¬ u.rewriteGeneration + 1 < i64Size then
    .error (.unit "rewrite generation exceeds semantic integer range")
  else .ok (u.rewriteGeneration + 1)

/-- The checks on the texts of a rewrite. -/
def checkRewriteTexts (providerName stage : String) (familyLabel : Option String) :
    CaapResult Unit :=
  if providerName = "" then .error (.unit "rewrite provider name must be non-empty")
  else if stage = "" then .error (.unit "rewrite stage must be non-empty")
  else if familyLabel = some "" then
    .error (.unit "rewrite family label must be non-empty when present")
  else .ok ()

/-- The provenance fact of every target. -/
def setProvenanceFacts (fact : SemanticValue) (semantics : UnifiedSemanticGraph) :
    List Nat → CaapResult Unit × UnifiedSemanticGraph
  | [] => (.ok (), semantics)
  | nodeId :: rest =>
    match semantics.setFact (nodeSubjectId nodeId) rewriteProvenanceFact fact with
    | .error error => (.error error, semantics)
    | .ok (_, semantics) => setProvenanceFacts fact semantics rest

/-- `record_rewrite_provenance` from the writes on: the semantic graph alone is taken back
    when one of them fails. -/
def writeRewriteProvenance (version : Nat) (record : RewriteRecord) (fact : SemanticValue)
    (nodeIds : List Nat) : UnitAction (Option RewriteRecord) := fun u =>
  match setProvenanceFacts fact u.semantics nodeIds with
  | (.ok _, semantics) =>
    (do
      recordLifecycle "rewrite" record.operation
      return some record : UnitAction (Option RewriteRecord))
      { u with
        semantics := semantics
        rewriteGeneration := record.generation
        version := version }
  | (.error error, semantics) =>
    match UnifiedSemanticGraph.restoreSnapshot u.semantics.snapshot with
    | .ok restored => (.error error, { u with semantics := restored })
    | .error rollbackError =>
      (.error (.unit (error.display ++ "; semantic rewrite provenance rollback failed: "
        ++ rollbackError.display)), { u with semantics := semantics })

/-- `record_rewrite_provenance`. -/
def recordRewriteProvenance (providerName stage : String) (familyLabel : Option String)
    (operation : String) (nodeIds sources : List Nat) : UnitAction (Option RewriteRecord) := do
  .check fun _ => checkRewriteTexts providerName stage familyLabel
  .check fun _ =>
    if operation = "" then .error (.unit "rewrite operation must be non-empty") else .ok ()
  if nodeIds.isEmpty then return none
  .check fun u =>
    checkAll (fun nodeId =>
      if nodeId ∈ u.ir.nodes then .ok ()
      else .error (.unit ("rewrite target node does not exist: " ++ toString nodeId))) nodeIds
  let version ← .check nextVersion
  let generation ← .check prepareRewriteGeneration
  let record : RewriteRecord :=
    { providerName := providerName, stage := stage, familyLabel := familyLabel
      operation := operation, sources := sources, generation := generation }
  let fact ← .check fun _ => rewriteRecordToSemanticValue record
  writeRewriteProvenance version record fact nodeIds

/-- `prune_erased_rewrite_tombstones`. -/
def pruneErasedRewriteTombstones (maxEntries : Nat) : UnitAction Nat :=
  .call fun u =>
    let currentLen := u.erasedRewriteTombstones.size
    if currentLen ≤ maxEntries then .ok (0, u)
    else do
      let version ← u.nextVersion
      if maxEntries = 0 then
        .ok (currentLen, { u with erasedRewriteTombstones := ∅, version := version })
      else
        let removeCount := currentLen - maxEntries
        let byAge := u.erasedRewriteTombstones.toList.map fun entry =>
          (entry.2.latest.generation, entry.1)
        let oldest := (byAge.insertionSort fun a b =>
          a.1 < b.1 ∨ (a.1 = b.1 ∧ a.2 ≤ b.2)).take removeCount
        .ok (removeCount,
          { u with
            erasedRewriteTombstones :=
              oldest.foldl (fun m entry => m.erase entry.2) u.erasedRewriteTombstones
            version := version })

/-- The loop of `live_rewrite_chain`, with the source ids seen so far. -/
def followRewriteChain (u : CaapUnit) : Nat → List Nat → Option Nat → Bounded (List RewriteRecord)
  | 0, _, _ => Bounded.outOfFuel
  | _ + 1, _, none => return []
  | fuel + 1, seen, some id => do
    let value ← Bounded.ofResult
      (u.semantics.getFact (nodeSubjectId id) rewriteProvenanceFact)
    match value with
    | none => return []
    | some value => do
      let record ← Bounded.ofResult (rewriteRecordFromSemanticValue value)
      let following := record.sources.find? fun sourceId => decide (sourceId ∉ seen)
      let rest ← followRewriteChain u fuel (following.toList ++ seen) following
      return record :: rest

/-- `live_rewrite_chain`. -/
def liveRewriteChain (u : CaapUnit) (fuel nodeId : Nat) : Bounded (List RewriteRecord) :=
  followRewriteChain u fuel [] (some nodeId)

/-- The loop of `subtree_ids`; the top of the stack is the head of the list. -/
def collectSubtreeIds (u : CaapUnit) : Nat → List Nat → Bounded (List Nat)
  | 0, _ => Bounded.outOfFuel
  | _ + 1, [] => return []
  | fuel + 1, nodeId :: stack =>
    match u.ir.nodes[nodeId]? with
    | none => throw (.unit ("subtree node does not exist: " ++ toString nodeId))
    | some node => do
      let rest ← collectSubtreeIds u fuel (node.children.reverse ++ stack)
      return nodeId :: rest

/-- `subtree_ids`. -/
def subtreeIds (u : CaapUnit) (fuel rootId : Nat) : Bounded (List Nat) :=
  if rootId ∉ u.ir.nodes then throw (.unit ("subtree root does not exist: " ++ toString rootId))
  else collectSubtreeIds u fuel [rootId]

section Tombstones

variable (debugF64 : UInt64 → String)

/-- The tombstone of one erased node. -/
def eraseTombstone (u : CaapUnit) (fuel : Nat) (providerName stage : String)
    (familyLabel : Option String) (generation nodeId : Nat) : Bounded RewriteTombstone := do
  let stableId ← nodeStableId debugF64 u fuel nodeId
  let eraseRecord : RewriteRecord :=
    { providerName := providerName, stage := stage, familyLabel := familyLabel
      operation := "erase", sources := [nodeId], generation := generation }
  let live ← liveRewriteChain u fuel nodeId
  return { stableId := stableId.value, latest := eraseRecord, chain := eraseRecord :: live }

/-- The loop of `record_erase_rewrite_tombstones`: a tombstone is stored before the next
    one is computed.  None means that the bound was not enough. -/
def storeTombstones (mk : CaapUnit → Nat → Bounded RewriteTombstone) (u : CaapUnit) :
    List Nat → Option (CaapResult (List RewriteTombstone) × CaapUnit)
  | [] => some (.ok [], u)
  | nodeId :: rest =>
    match (mk u nodeId).run with
    | none => none
    | some (.error error) => some (.error error, u)
    | some (.ok tombstone) =>
      let u' := { u with
        erasedRewriteTombstones :=
          u.erasedRewriteTombstones.insert tombstone.stableId tombstone }
      (storeTombstones mk u' rest).map fun r => (r.1.map fun ts => tombstone :: ts, r.2)

/-- `record_erase_rewrite_tombstones` after the loop. -/
def finishTombstones (version generation : Nat) (tombstones : List RewriteTombstone) :
    UnitAction (List RewriteTombstone) := do
  let _ ← pruneErasedRewriteTombstones defaultRewriteTombstoneLimit
  .modify fun u => { u with rewriteGeneration := generation, version := version }
  recordLifecycle "rewrite" "erase"
  return tombstones

/-- The checks of `record_erase_rewrite_tombstones` and what they prepare: the subtree and,
    unless it is empty, the version and the generation. -/
def prepareTombstones (u : CaapUnit) (fuel : Nat) (providerName stage : String)
    (familyLabel : Option String) (rootId : Nat) : Bounded (List Nat × Nat × Nat) := do
  Bounded.ofResult (checkRewriteTexts providerName stage familyLabel)
  let subtree ← subtreeIds u fuel rootId
  if subtree.isEmpty then return ([], 0, 0)
  let version ← Bounded.ofResult u.nextVersion
  let generation ← Bounded.ofResult u.prepareRewriteGeneration
  return (subtree, version, generation)

/-- `record_erase_rewrite_tombstones`. -/
def recordEraseRewriteTombstones (fuel : Nat) (providerName stage : String)
    (familyLabel : Option String) (rootId : Nat) (u : CaapUnit) :
    Option (CaapResult (List RewriteTombstone) × CaapUnit) :=
  match (prepareTombstones u fuel providerName stage familyLabel rootId).run with
  | none => none
  | some (.error error) => some (.error error, u)
  | some (.ok ([], _, _)) => some (.ok [], u)
  | some (.ok (subtree, version, generation)) =>
    let mk := fun (u : CaapUnit) nodeId =>
      eraseTombstone debugF64 u fuel providerName stage familyLabel generation nodeId
    (storeTombstones mk u subtree).map fun r =>
      match r with
      | (.error error, u) => (.error error, u)
      | (.ok tombstones, u) => finishTombstones version generation tombstones u

end Tombstones

/-! ## The other mutators -/

/-- `add_link_binding`. -/
def addLinkBinding (binding : LinkBinding) : UnitAction Unit := do
  .check fun u =>
    if u.linkBindings.any fun existing => existing.localName == binding.localName then
      .error (.unit ("unit link binding local name is duplicated: " ++ binding.localName))
    else .ok ()
  let version ← .check nextVersion
  .modify fun u => { u with linkBindings := u.linkBindings ++ [binding], version := version }
  recordLifecycle "link_binding" "added"

/-- `set_attribute`. -/
def setAttribute (key : String) (value : SemanticValue) : UnitAction Unit := do
  .check fun _ => if key = "" then .error (.unit "unit attribute key must be non-empty") else .ok ()
  .check fun _ => value.validate
  let version ← .check nextVersion
  .modify fun u => { u with attributes := u.attributes.insert key value, version := version }
  recordLifecycle "attribute" "set"

/-- `set_syntax_state`. -/
def setSyntaxState (syntaxState : UnitSyntaxState) : UnitAction Unit := do
  let version ← .check nextVersion
  .modify fun u => { u with syntaxState := syntaxState, version := version }
  recordLifecycle "syntax_state" "updated"

/-- `semantics_mut`, used to install a semantic graph. -/
def replaceSemantics (semantics : UnifiedSemanticGraph) : UnitAction Unit := do
  let version ← .check nextVersion
  .modify fun u => { u with version := version, semantics := semantics }

end CaapUnit

end Caap
