/-
  Caap.Unit.Template

  `UnitTemplate` of `unit/serial.rs`: a unit as plain lists, and how `unit/core.rs` makes one
  and reads it back.  Reading back restores the semantic graph, which counts the restore, so
  that no unit comes back with the template it was written as.
-/

import Caap.Ir.Template
import Caap.Semantic.Snapshot
import Caap.Unit.State

namespace Caap

open Std Lib

/-- `UnitTemplate`. -/
structure UnitTemplate where
  unitId : String
  ir : IRGraphTemplate
  semantics : UnifiedSemanticGraphSnapshot
  linkBindings : List LinkBinding
  attributes : List (String × SemanticValue)
  syntaxState : UnitSyntaxState
  lifecycleEvents : List UnitLifecycleEvent
  erasedRewriteTombstones : List (String × RewriteTombstone)
  stableId : StableId
  rewriteGeneration : Nat
  version : Nat

namespace UnitTemplate

/-- The check on one attribute, with the keys that came before it. -/
def checkAttributes : List String → List (String × SemanticValue) → CaapResult Unit
  | _, [] => .ok ()
  | seen, (key, value) :: rest =>
    if key = "" then .error (.unit "unit template attribute key must be non-empty")
    else if key ∈ seen then .error (.unit "unit template attribute keys must be unique")
    else do
      value.validate
      checkAttributes (key :: seen) rest

/-- The check on one tombstone, with the keys that came before it. -/
def checkTombstones : List String → List (String × RewriteTombstone) → CaapResult Unit
  | _, [] => .ok ()
  | seen, entry :: rest => do
    checkTombstoneKey "unit template" entry
    if entry.1 ∈ seen then
      .error (.unit "unit template erased rewrite tombstone stable ids must be unique")
    else do
      entry.2.validate
      checkTombstones (entry.1 :: seen) rest

/-- `UnitTemplate::validate`. -/
def validate (t : UnitTemplate) : CaapResult Unit :=
  if t.unitId = "" then .error (.unit "unit template id must be non-empty")
  else if t.stableId.value = "" then .error (.unit "unit template stable id must be non-empty")
  else do
    checkSemantics "unit template semantic snapshot" t.semantics
    checkLinkBindings "unit template" t.linkBindings
    checkAttributes [] t.attributes
    t.syntaxState.validate
    checkLifecycleEvents "unit template" t.lifecycleEvents
    checkTombstones [] t.erasedRewriteTombstones
    t.ir.validate

end UnitTemplate

namespace CaapUnit

/-- `to_template`.  The attributes come in key order, so that sorting them by key leaves
    them as they are. -/
def toTemplate (u : CaapUnit) : UnitTemplate :=
  { unitId := u.unitId
    ir := u.ir.toTemplate
    semantics := u.semantics.snapshot
    linkBindings := u.linkBindings
    attributes := u.attributes.toList.insertionSort fun a b => a.1 ≤ b.1
    syntaxState := u.syntaxState
    lifecycleEvents := u.lifecycleEvents
    erasedRewriteTombstones := u.erasedRewriteTombstones.toList
    stableId := u.stableId
    rewriteGeneration := u.rewriteGeneration
    version := u.version }

/-- `from_template`. -/
def fromTemplate (t : UnitTemplate) : CaapResult CaapUnit := do
  t.validate
  let semantics ← UnifiedSemanticGraph.restoreSnapshot t.semantics
  let ir ← IRGraph.fromTemplate t.ir
  .ok
    { unitId := t.unitId
      ir := ir
      semantics := semantics
      linkBindings := t.linkBindings
      attributes := OrdMap.ofEntries t.attributes
      syntaxState := t.syntaxState
      lifecycleEvents := t.lifecycleEvents
      erasedRewriteTombstones := OrdMap.ofEntries t.erasedRewriteTombstones
      stableId := t.stableId
      rewriteGeneration := t.rewriteGeneration
      version := t.version }

/-- The semantic graph of a unit that is read back counts the restore. -/
theorem fromTemplate_semantics {t : UnitTemplate} {u : CaapUnit} (h : fromTemplate t = .ok u) :
    u.semantics.version = t.semantics.version + 1 := by
  simp only [fromTemplate, bind_eq_ok] at h
  obtain ⟨_, -, semantics, hsemantics, ir, -, hu⟩ := h
  rw [← Except.ok.inj hu]
  exact UnifiedSemanticGraph.version_of_restoreSnapshot hsemantics

/-- No unit is read back with its own template. -/
theorem toTemplate_fromTemplate_ne (u : CaapUnit) :
    ¬ ∃ u', fromTemplate u.toTemplate = .ok u' ∧ u'.toTemplate = u.toTemplate := by
  rintro ⟨u', hread, hsame⟩
  have hversion : u'.semantics.version = u.semantics.version :=
    congrArg (·.semantics.version) hsame
  have hcounted : u'.semantics.version = u.semantics.version + 1 := fromTemplate_semantics hread
  omega

/-- A unit as it is made: the template is accepted, and its semantic version moves on. -/
theorem toTemplate_fromTemplate_new :
    (do
      let u ← fromGraph "main" IRGraph.new
      u.ir.validateIntegrity
      let u' ← fromTemplate u.toTemplate
      .ok (u.toTemplate.semantics.version, u'.toTemplate.semantics.version)) = .ok (0, 1) := by
  decide

end CaapUnit

end Caap
