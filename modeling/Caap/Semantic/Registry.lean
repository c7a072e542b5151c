/-
  Caap.Semantic.Registry

  `SemanticRegistry` of `semantic/graph.rs`: named semantic entries in a chain of
  scopes, with a unique stable id for each entry.
-/

import Caap.Semantic.Entry

namespace Caap

open Std Lib

/-- `SemanticRegistry`: the innermost scope and its parents, innermost first. -/
structure SemanticRegistry where
  entries : OrdMap String SemanticEntry
  parents : List (OrdMap String SemanticEntry)

/-- `SemanticRegistrySnapshot`. -/
structure SemanticRegistrySnapshot where
  entries : List (String × SemanticEntry)

namespace SemanticRegistry

/-- `SemanticRegistry::new`. -/
def new : SemanticRegistry := { entries := ∅, parents := [] }

/-- `fork`. -/
def fork (r : SemanticRegistry) : SemanticRegistry :=
  { entries := ∅, parents := r.entries :: r.parents }

/-- `lookup`: the innermost scope that has the name. -/
def lookup (r : SemanticRegistry) (name : String) : CaapResult (Option SemanticEntry) :=
  if name = "" then .error (.semantic "semantic registry lookup name must be non-empty")
  else .ok ((r.entries :: r.parents).findSome? fun scope => scope[name]?)

/-- The entry of one scope that owns a stable id. -/
def scopeOwner (scope : OrdMap String SemanticEntry) (stableId : StableId) : Option String :=
  (scope.toList.find? fun e => e.2.stableId == some stableId).map fun e => e.2.name

/-- `stable_id_owner`. -/
def stableIdOwner (r : SemanticRegistry) (stableId : StableId) : Option String :=
  (r.entries :: r.parents).findSome? fun scope => scopeOwner scope stableId

/-- The stable id an entry is defined with: its own, or one derived from its source,
    name and unit. -/
def definedStableId (entry : SemanticEntry) : CaapResult StableId :=
  match entry.stableId with
  | some stableId => .ok stableId
  | none => semanticEntityId entry.source.asStr entry.name entry.unitId

/-- `define`. -/
def define (r : SemanticRegistry) (entry : SemanticEntry) : CaapResult SemanticRegistry :=
  if entry.name = "" then .error (.semantic "semantic entry name must be non-empty")
  else do
    entry.value.validate
    let stableId ← definedStableId entry
    match r.stableIdOwner stableId with
    | some owner =>
      if owner ≠ entry.name then
        .error (.semantic ("stable id " ++ debugStr stableId.value
          ++ " is already owned by semantic entry " ++ debugStr owner))
      else
        .ok { r with
          entries := r.entries.insert entry.name { entry with stableId := some stableId } }
    | none =>
      .ok { r with
        entries := r.entries.insert entry.name { entry with stableId := some stableId } }

/-- `snapshot`: the innermost scope, sorted by name. -/
def snapshot (r : SemanticRegistry) : SemanticRegistrySnapshot := { entries := r.entries.toList }

/-- One iteration of the loop of `restore_snapshot`, with the entries and the owners
    of stable ids collected so far. -/
def restoreEntry (state : OrdMap String SemanticEntry × OrdMap StableId String)
    (item : String × SemanticEntry) :
    CaapResult (OrdMap String SemanticEntry × OrdMap StableId String) :=
  let (name, entry) := item
  if name = "" then
    .error (.semantic "semantic registry snapshot entry name must be non-empty")
  else if entry.name ≠ name then
    .error (.semantic "semantic registry snapshot key must match entry name")
  else do
    entry.value.validate
    match entry.stableId with
    | none =>
      .error (.semantic "semantic registry snapshot entry stable id must be present")
    | some stableId =>
      match state.2[stableId]? with
      | some previous =>
        .error (.semantic ("semantic registry snapshot stable id " ++ debugStr stableId.value
          ++ " is duplicated by entries " ++ debugStr previous ++ " and " ++ debugStr name))
      | none => .ok (state.1.insert name entry, state.2.insert stableId name)

/-- `restore_snapshot`. -/
def restoreSnapshot (r : SemanticRegistry) (snapshot : SemanticRegistrySnapshot) :
    CaapResult SemanticRegistry :=
  if r.parents ≠ [] then
    .error (.semantic "cannot restore semantic registry snapshot into a forked registry")
  else do
    let (entries, _) ← foldOk restoreEntry (∅, ∅) snapshot.entries
    .ok { r with entries := entries }

end SemanticRegistry

end Caap
