/-
  Caap.Unit.State

  The unit of `unit/core.rs` with the types of `unit/lifecycle.rs` it holds, its snapshots
  and their validation (`unit/serial.rs`), and the restore that every rollback goes
  through.
-/

import Caap.Ir.Integrity
import Caap.Semantic.Unified
import Caap.Unit.Rewrite

namespace Caap

open Std Lib

/-- `LinkBinding`.  The fields are public in the source, so that a binding need not have
    come through `LinkBinding::new`. -/
structure LinkBinding where
  sourceUnit : String
  sourceName : String
  localName : String
  isSyntax : Bool
  deriving DecidableEq, Repr

/-- `UnitSyntaxState`, whose fields are public as well. -/
structure UnitSyntaxState where
  language : String
  sourcePath : Option String
  sourceFingerprint : Option String
  revision : Nat
  grammarRules : OrdMap String SemanticValue
  grammarMetadata : OrdMap String SemanticValue
  grammarRuleParams : OrdMap String (List String)

namespace UnitSyntaxState

/-- `UnitSyntaxState::new`. -/
def new (language : String) : CaapResult UnitSyntaxState :=
  if language = "" then .error (.unit "unit syntax language must be non-empty")
  else
    .ok
      { language := language, sourcePath := none, sourceFingerprint := none, revision := 0
        grammarRules := ∅, grammarMetadata := ∅, grammarRuleParams := ∅ }

/-- `UnitSyntaxState::validate`. -/
def validate (state : UnitSyntaxState) : CaapResult Unit :=
  if state.language = "" then .error (.unit "unit syntax language must be non-empty")
  else if state.sourcePath = some "" then
    .error (.unit "unit syntax source path must be non-empty")
  else if state.sourceFingerprint = some "" then
    .error (.unit "unit syntax source fingerprint must be non-empty")
  else if state.sourcePath.isSome ≠ state.sourceFingerprint.isSome then
    .error (.unit "unit syntax source path and fingerprint must be recorded together")
  else if "" ∈ state.grammarRules then .error (.unit "syntax rule name must be non-empty")
  else do
    checkAll (fun entry => entry.2.validate) state.grammarRules.toList
    if "" ∈ state.grammarMetadata then .error (.unit "syntax metadata key must be non-empty")
    else checkAll (fun entry => entry.2.validate) state.grammarMetadata.toList

end UnitSyntaxState

/-- `UnitLifecycleEvent`. -/
structure UnitLifecycleEvent where
  kind : String
  detail : String
  unitVersion : Nat
  deriving DecidableEq, Repr

/-- `UnitLifecycleEvent::new`. -/
def UnitLifecycleEvent.new (kind detail : String) (unitVersion : Nat) :
    CaapResult UnitLifecycleEvent :=
  if kind = "" then .error (.unit "unit lifecycle event kind must be non-empty")
  else if detail = "" then .error (.unit "unit lifecycle event detail must be non-empty")
  else .ok ⟨kind, detail, unitVersion⟩

/-- `Unit` of `unit/core.rs`. -/
structure CaapUnit where
  unitId : String
  ir : IRGraph
  semantics : UnifiedSemanticGraph
  linkBindings : List LinkBinding
  attributes : OrdMap String SemanticValue
  syntaxState : UnitSyntaxState
  lifecycleEvents : List UnitLifecycleEvent
  erasedRewriteTombstones : OrdMap String RewriteTombstone
  stableId : StableId
  rewriteGeneration : Nat
  version : Nat

/-- `UnitSnapshot` has exactly the fields of the unit. -/
abbrev UnitSnapshot := CaapUnit

/-- Computations on a unit that may fail midway. -/
abbrev UnitAction (α : Type) := Action CaapError CaapUnit α

/-! ## Validation of a snapshot -/

/-- The checks on one link binding of a snapshot. -/
def checkLinkBinding (label : String) (binding : LinkBinding) : CaapResult Unit :=
  if binding.sourceUnit = "" then
    .error (.unit (label ++ " link source unit must be non-empty"))
  else if binding.sourceName = "" then
    .error (.unit (label ++ " link source name must be non-empty"))
  else if binding.localName = "" then
    .error (.unit (label ++ " link local name must be non-empty"))
  else .ok ()

/-- The link bindings of a snapshot have distinct local names. -/
def checkLinkBindings (label : String) (bindings : List LinkBinding) : CaapResult Unit :=
  checkDistinct LinkBinding.localName (checkLinkBinding label)
    (fun binding => .unit (label ++ " link local name is duplicated: " ++ binding.localName)) []
    bindings

/-- The check on one attribute of a snapshot. -/
def checkAttribute (label : String) (entry : String × SemanticValue) : CaapResult Unit :=
  if entry.1 = "" then .error (.unit (label ++ " attribute key must be non-empty"))
  else entry.2.validate

/-- The lifecycle events of a snapshot have a kind and a detail. -/
def checkLifecycleEvents (label : String) (events : List UnitLifecycleEvent) : CaapResult Unit :=
  if events.any fun event => event.kind == "" || event.detail == "" then
    .error (.unit (label ++ " lifecycle events must be non-empty"))
  else .ok ()

/-- The key of a tombstone is its stable id. -/
def checkTombstoneKey (label : String) (entry : String × RewriteTombstone) : CaapResult Unit :=
  if entry.1 = "" ∨ entry.2.stableId = "" then
    .error (.unit (label ++ " erased rewrite tombstone stable ids must be non-empty"))
  else if entry.1 ≠ entry.2.stableId then
    .error (.unit (label ++ " erased rewrite tombstone key must match payload stable id"))
  else .ok ()

/-- The semantic graph can be restored from its own snapshot. -/
def checkSemantics (label : String) (snapshot : UnifiedSemanticGraphSnapshot) : CaapResult Unit :=
  match UnifiedSemanticGraph.restoreSnapshot snapshot with
  | .ok _ => .ok ()
  | .error err => .error (.unit (label ++ " is invalid: " ++ err.display))

namespace UnitSnapshot

/-- `UnitSnapshot::validate`. -/
def validate (s : UnitSnapshot) : CaapResult Unit :=
  if s.unitId = "" then .error (.unit "unit snapshot id must be non-empty")
  else if s.stableId.value = "" then .error (.unit "unit snapshot stable id must be non-empty")
  else do
    s.ir.validateIntegrity
    checkSemantics "unit snapshot semantic graph" s.semantics.snapshot
    checkLinkBindings "unit snapshot" s.linkBindings
    checkAll (checkAttribute "unit snapshot") s.attributes.toList
    s.syntaxState.validate
    checkLifecycleEvents "unit snapshot" s.lifecycleEvents
    checkAll (fun entry => do
      checkTombstoneKey "unit snapshot" entry
      entry.2.validate) s.erasedRewriteTombstones.toList

end UnitSnapshot

namespace CaapUnit

/-- `Unit::from_graph`. -/
def fromGraph (unitId : String) (ir : IRGraph) : CaapResult CaapUnit :=
  if unitId = "" then .error (.unit "unit id must be non-empty")
  else do
    let stableId ← StableId.new ("unit:" ++ unitId)
    let syntaxState ← UnitSyntaxState.new "ir"
    .ok
      { unitId := unitId
        ir := ir
        semantics := UnifiedSemanticGraph.new
        linkBindings := []
        attributes := ∅
        syntaxState := syntaxState
        lifecycleEvents := []
        erasedRewriteTombstones := ∅
        stableId := stableId
        rewriteGeneration := 0
        version := 0 }

/-- `snapshot`. -/
def snapshot (u : CaapUnit) : UnitSnapshot := u

/-- `restore_snapshot`: the unit that replaces the receiver. -/
def restoreSnapshot (snapshot : UnitSnapshot) : CaapResult CaapUnit := do
  UnitSnapshot.validate snapshot
  .ok snapshot

/-- `next_version`. -/
def nextVersion (u : CaapUnit) : CaapResult Nat :=
  if u.version + 1 < u64Size then .ok (u.version + 1) else .error (.unit "unit version overflow")

/-- `record_lifecycle`. -/
def recordLifecycle (kind detail : String) : UnitAction Unit :=
  .update fun u => do
    let event ← UnitLifecycleEvent.new kind detail u.version
    .ok { u with lifecycleEvents := u.lifecycleEvents ++ [event] }

/-- `restore_after_error`: a rollback that is refused leaves the unit as it is. -/
def restoreAfterError {α : Type} (snapshot : UnitSnapshot) (error : CaapError) : UnitAction α :=
  fun u =>
    match restoreSnapshot snapshot with
    | .ok restored => (.error error, restored)
    | .error rollbackError =>
      (.error (.unit (error.display ++ "; unit rollback failed: " ++ rollbackError.display)), u)

end CaapUnit

end Caap
