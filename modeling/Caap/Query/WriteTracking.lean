/-
  Caap.Query.WriteTracking

  How a query detects the semantic writes of a provider (`query_service/cache.rs`): the
  snapshots before and after the callback are compared, facts by the histories rebuilt
  from the recorded triples.  Retractions are not part of those histories, so a fact
  that is only removed leaves no trace; whenever retractions follow the histories, every
  change of a visible fact is detected.
-/

import Caap.Query.Provider
import Caap.Semantic.Generations

namespace Caap

open Std Lib

/-! ## Histories and changed cells -/

/-- The map of `fact_history_map`. -/
abbrev FactHistoryMap := NestedMap SemanticSubjectId String FactHistory

/-- `fact_history_map`. -/
def factHistoryMap (snapshot : UnifiedSemanticGraphSnapshot) : FactHistoryMap :=
  match snapshot.facts with
  | none => ∅
  | some facts =>
    facts.triples.foldl
      (fun map (version, subject, predicate, value) =>
        map.push2 ((subject, predicate), (version, value))) ∅

/-- Insert the cells of a history map into an ordered set of cells. -/
def collectCells (map : FactHistoryMap) (cells : NestedMap SemanticSubjectId String Unit) :
    NestedMap SemanticSubjectId String Unit :=
  map.entries.foldl (fun cells entry => cells.insert2 entry.1.1 entry.1.2 ()) cells

/-- The cells whose histories compare different, in order. -/
def changedFactCells (before after : UnifiedSemanticGraphSnapshot) :
    List (SemanticSubjectId × String) :=
  let beforeFacts := factHistoryMap before
  let afterFacts := factHistoryMap after
  let cells := collectCells afterFacts (collectCells beforeFacts ∅)
  (cells.entries.map Prod.fst).filter fun cell =>
    !(beforeFacts.get2 cell.1 cell.2 == afterFacts.get2 cell.1 cell.2)

/-- The names of two key-value lists whose values compare different, in order. -/
def changedNames {α : Type} [BEq α] (before after : List (String × α)) : List String :=
  let beforeMap := OrdMap.ofEntries before
  let afterMap := OrdMap.ofEntries after
  let names : OrdSet String :=
    OrdMap.ofEntries ((before.map fun entry => (entry.1, ())) ++ after.map fun entry => (entry.1, ()))
  (names.toList.map Prod.fst).filter fun name => !(beforeMap[name]? == afterMap[name]?)

/-! ## The summary -/

/-- `collect_symbol_write_summary`. -/
def collectSymbolWriteSummary (before after : UnifiedSemanticGraphSnapshot)
    (summary : SemanticWriteSummary) : SemanticWriteSummary :=
  if before.symbols ≠ after.symbols then { summary with symbols := true } else summary

/-- `collect_fact_write_summary`. -/
def collectFactWriteSummary (before after : UnifiedSemanticGraphSnapshot)
    (summary : SemanticWriteSummary) : SemanticWriteSummary :=
  (changedFactCells before after).foldl
    (fun summary cell =>
      if isAnnotation cell.2 then { summary with attributes := true }
      else { summary with facts := true }) summary

/-- `collect_semantic_registry_write_summary`. -/
def collectSemanticRegistryWriteSummary (before after : UnifiedSemanticGraphSnapshot)
    (summary : SemanticWriteSummary) : SemanticWriteSummary :=
  if before.semantics.entries == after.semantics.entries then summary
  else { summary with symbols := true }

/-- `collect_stable_id_write_summary`. -/
def collectStableIdWriteSummary (before after : UnifiedSemanticGraphSnapshot)
    (summary : SemanticWriteSummary) : SemanticWriteSummary :=
  if before.stableIds ≠ after.stableIds then { summary with symbols := true } else summary

/-- `semantic_write_summary`. -/
def semanticWriteSummary (before after : UnifiedSemanticGraphSnapshot) : SemanticWriteSummary :=
  collectStableIdWriteSummary before after
    (collectSemanticRegistryWriteSummary before after
      (collectFactWriteSummary before after
        (collectSymbolWriteSummary before after .empty)))

/-! ## The tracked cells -/

/-- The two vectors `merge_semantic_write_tracking` collects. -/
structure WriteTracking where
  writesSubjects : List String
  writeCells : List String
  deriving DecidableEq

namespace WriteTracking

/-- `push_tracking_write`. -/
def pushTrackingWrite (t : WriteTracking) (subject predicate : String) : WriteTracking :=
  { writesSubjects := t.writesSubjects ++ [subject]
    writeCells := t.writeCells ++ [semanticCellTrackingKey subject predicate] }

/-- `push_semantic_write`. -/
def pushSemanticWrite (t : WriteTracking) (subject : SemanticSubjectId) (predicate : String) :
    WriteTracking := t.pushTrackingWrite (semanticSubjectTrackingKey subject) predicate

/-- `push_unit_write`. -/
def pushUnitWrite (t : WriteTracking) (unitId predicate : String) : WriteTracking :=
  match subjectId "unit" unitId with
  | .ok subject => t.pushSemanticWrite subject predicate
  | .error _ => t

/-- `collect_symbol_write_tracking`. -/
def collectSymbols (before after : UnifiedSemanticGraphSnapshot) (t : WriteTracking) :
    WriteTracking :=
  (changedNames before.symbols after.symbols).foldl
    (fun t name =>
      match symbolSubjectId name with
      | .ok subject => t.pushSemanticWrite subject "symbol.entry"
      | .error _ => t) t

/-- `collect_fact_write_tracking`. -/
def collectFacts (before after : UnifiedSemanticGraphSnapshot) (t : WriteTracking) :
    WriteTracking :=
  (changedFactCells before after).foldl (fun t cell => t.pushSemanticWrite cell.1 cell.2) t

/-- `collect_semantic_registry_write_tracking`. -/
def collectSemanticRegistry (before after : UnifiedSemanticGraphSnapshot) (t : WriteTracking) :
    WriteTracking :=
  (changedNames before.semantics.entries after.semantics.entries).foldl
    (fun t name => t.pushTrackingWrite ("semantic:" ++ name) "semantic.entry") t

/-- `collect_stable_id_write_tracking`. -/
def collectStableIds (before after : UnifiedSemanticGraphSnapshot) (t : WriteTracking) :
    WriteTracking :=
  (changedNames before.stableIds after.stableIds).foldl
    (fun t key => t.pushTrackingWrite ("stable-id:" ++ key) "stable_id") t

/-- A unit write follows when a collector added cells. -/
def pushUnitWriteIfGrown (unitId predicate : String) (start t : WriteTracking) : WriteTracking :=
  if t.writeCells.length ≠ start.writeCells.length then t.pushUnitWrite unitId predicate else t

end WriteTracking

/-- The writes `merge_semantic_write_tracking` adds to a context of unit `unitId`. -/
def collectWriteTracking (unitId : String) (before after : UnifiedSemanticGraphSnapshot) :
    WriteTracking :=
  let start : WriteTracking := { writesSubjects := [], writeCells := [] }
  let symbols := WriteTracking.pushUnitWriteIfGrown unitId "symbols" start
    (WriteTracking.collectSymbols before after start)
  let facts := WriteTracking.pushUnitWriteIfGrown unitId "facts" symbols
    (WriteTracking.collectFacts before after symbols)
  WriteTracking.collectStableIds before after
    (WriteTracking.collectSemanticRegistry before after facts)

/-- `merge_semantic_write_tracking`. -/
def mergeSemanticWriteTracking (context : Option QueryProviderContext)
    (before after : UnifiedSemanticGraphSnapshot) : Option QueryProviderContext :=
  context.map fun context =>
    let writes := collectWriteTracking context.unitId before after
    { context with
      writesSubjects := extendUnique context.writesSubjects writes.writesSubjects
      writeCells := extendUnique context.writeCells writes.writeCells }

end Caap
