/-
  Caap.Unit.Rewrite

  Rewrite records and tombstones of `unit/rewrite.rs`, their validation, and the encoding
  of a record as a semantic value.
-/

import Caap.Semantic.Value

namespace Caap

open Std Lib

/-- `RewriteRecord`. -/
structure RewriteRecord where
  providerName : String
  stage : String
  familyLabel : Option String
  operation : String
  sources : List NodeId
  generation : Nat
  deriving DecidableEq, Repr

/-- `RewriteTombstone`. -/
structure RewriteTombstone where
  stableId : String
  latest : RewriteRecord
  chain : List RewriteRecord
  deriving DecidableEq, Repr

/-- `RewriteRecord::validate`. -/
def RewriteRecord.validate (record : RewriteRecord) : CaapResult Unit :=
  if record.providerName = "" then
    .error (.unit "rewrite record provider name must be non-empty")
  else if record.stage = "" then .error (.unit "rewrite record stage must be non-empty")
  else if record.familyLabel = some "" then
    .error (.unit "rewrite record family label must be non-empty when present")
  else if record.operation = "" then .error (.unit "rewrite record operation must be non-empty")
  else .ok ()

/-- `RewriteTombstone::validate`. -/
def RewriteTombstone.validate (tombstone : RewriteTombstone) : CaapResult Unit :=
  if tombstone.stableId = "" then .error (.unit "rewrite tombstone stable id must be non-empty")
  else do
    tombstone.latest.validate
    if tombstone.chain.isEmpty then .error (.unit "rewrite tombstone chain must be non-empty")
    else checkAll RewriteRecord.validate tombstone.chain

/-- Number of values of a non-negative signed 64-bit integer. -/
def i64Size : Nat := 9223372036854775808

/-- `SemanticValue::map`: the entries sorted by key, with their check. -/
def SemanticValue.newMap (entries : List (String × SemanticValue)) : CaapResult SemanticValue := do
  validateSemanticMapEntries (SemanticValue.validateEntries entries)
  .ok (.map (entries.insertionSort fun a b => a.1 ≤ b.1))

/-- `rewrite_record_to_semantic_value`. -/
def rewriteRecordToSemanticValue (record : RewriteRecord) : CaapResult SemanticValue :=
  if i64Size ≤ record.generation then
    .error (.unit "rewrite provenance generation exceeds semantic integer range")
  else
    let entries : List (String × SemanticValue) :=
      [("provider_name", .str record.providerName), ("stage", .str record.stage),
        ("operation", .str record.operation),
        ("sources", .list (record.sources.map fun source => .int (Int64.ofNat source))),
        ("generation", .int (Int64.ofNat record.generation))]
    match record.familyLabel with
    | none => SemanticValue.newMap entries
    | some familyLabel =>
      SemanticValue.newMap (entries ++ [("family_label", .str familyLabel),
        ("family", .str familyLabel)])

/-! ## Reading a record back -/

/-- `semantic_map_get`. -/
def semanticMapGet (entries : List (String × SemanticValue)) (key : String) :
    Option SemanticValue := entries.lookup key

/-- `required_semantic_str`. -/
def requiredSemanticStr (entries : List (String × SemanticValue)) (key : String) :
    CaapResult String :=
  match semanticMapGet entries key with
  | some (.str value) =>
    if value = "" then
      .error (.unit ("rewrite provenance fact requires non-empty " ++ key))
    else .ok value
  | _ => .error (.unit ("rewrite provenance fact requires non-empty " ++ key))

/-- `optional_semantic_str`. -/
def optionalSemanticStr (entries : List (String × SemanticValue)) (key : String) : Option String :=
  match semanticMapGet entries key with
  | some (.str value) => if value = "" then none else some value
  | _ => none

/-- A node id of a source list. -/
def semanticNodeId (key : String) : SemanticValue → CaapResult NodeId
  | .int value =>
    if 0 ≤ value.toInt ∧ value.toInt < u32Size then .ok value.toInt.toNat
    else .error (.unit ("rewrite provenance fact " ++ key ++ " must contain node ids"))
  | _ => .error (.unit ("rewrite provenance fact " ++ key ++ " must contain node ids"))

/-- `required_semantic_node_list`. -/
def requiredSemanticNodeList (entries : List (String × SemanticValue)) (key : String) :
    CaapResult (List NodeId) :=
  match semanticMapGet entries key with
  | some (.list items) => items.mapM (semanticNodeId key)
  | _ => .error (.unit ("rewrite provenance fact requires " ++ key ++ " list"))

/-- The generation of a record. -/
def requiredSemanticGeneration (entries : List (String × SemanticValue)) : CaapResult Nat :=
  match semanticMapGet entries "generation" with
  | some (.int value) =>
    if 0 ≤ value.toInt then .ok value.toInt.toNat
    else .error (.unit "rewrite provenance fact requires non-negative generation")
  | _ => .error (.unit "rewrite provenance fact requires non-negative generation")

/-- `rewrite_record_from_semantic_value`. -/
def rewriteRecordFromSemanticValue : SemanticValue → CaapResult RewriteRecord
  | .map entries => do
    let providerName ← requiredSemanticStr entries "provider_name"
    let stage ← requiredSemanticStr entries "stage"
    let familyLabel := (optionalSemanticStr entries "family_label").or
      (optionalSemanticStr entries "family")
    let operation ← requiredSemanticStr entries "operation"
    let sources ← requiredSemanticNodeList entries "sources"
    let generation ← requiredSemanticGeneration entries
    .ok
      { providerName := providerName
        stage := stage
        familyLabel := familyLabel
        operation := operation
        sources := sources
        generation := generation }
  | _ => .error (.unit "rewrite provenance fact must be a map")

end Caap
