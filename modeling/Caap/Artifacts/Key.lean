/-
  Caap.Artifacts.Key

  Artifact keys, invalidation records and their validation (`artifacts/defs.rs` and the
  head of `artifacts/cache.rs`).
-/

import Caap.Lib.Sorting
import Caap.Error

namespace Caap

open Std Lib

/-- `ArtifactKey`: a non-empty vector of non-empty parts. -/
structure ArtifactKey where
  parts : List String
  nonempty : parts ≠ []
  parts_nonempty : ∀ part ∈ parts, part ≠ ""
  deriving DecidableEq

namespace ArtifactKey

/-- `ArtifactKey::new`. -/
def new (parts : List String) : CaapResult ArtifactKey :=
  if h : parts = [] then .error (.artifacts "artifact key must contain at least one part")
  else if h' : ∃ part ∈ parts, part = "" then
    .error (.artifacts "artifact key parts must be non-empty")
  else .ok ⟨parts, h, fun part hp heq => h' ⟨part, hp, heq⟩⟩

instance : Ord ArtifactKey := ⟨compareOn ArtifactKey.parts⟩

instance : TransOrd ArtifactKey := inferInstanceAs (TransCmp (compareOn ArtifactKey.parts))

instance : LawfulEqOrd ArtifactKey where
  eq_of_compare {a b} h := by
    have hp : a.parts = b.parts := Std.compare_eq_iff_eq.mp h
    cases a
    cases b
    simp_all

/-- `kind`: the first part. -/
def kind (k : ArtifactKey) : String := k.parts.head k.nonempty

/-- `part`. -/
def part (k : ArtifactKey) (index : Nat) : Option String := k.parts[index]?

/-- `Display for ArtifactKey`. -/
def display (k : ArtifactKey) : String := String.intercalate ":" k.parts

theorem kind_ne_empty (k : ArtifactKey) : k.kind ≠ "" :=
  k.parts_nonempty _ (List.head_mem k.nonempty)

end ArtifactKey

/-- The labels and key positions `changed_inputs_for_lineage` compares. -/
def lineageInputLabels (lineageId previousKey replacementKey : ArtifactKey) :
    List (String × List Nat) :=
  if lineageId.kind = "parse_surface_source" then
    [("stage", [1]), ("phase", [2]), ("source_path", [3]), ("source_token", [4])]
  else if lineageId.kind = "parse_surface_inline" then
    [("stage", [1]), ("phase", [2]), ("source_digest", [3])]
  else if lineageId.kind = "unit_input" then
    [("stage", [1]), ("unit_fingerprint", [2]), ("phase", [3]), ("names_version", [4])]
  else if lineageId.kind = "stage_unit" then
    [("stage", [1]), ("phase", [2]), ("dependency_key", [3]), ("builtin_version", [4]),
      ("names_version", [5]), ("session_version", [6]), ("initial_bindings", [7])]
  else if previousKey.parts.length = 7 ∧ replacementKey.parts.length = 7 then
    [("stage", [0]), ("phase", [1]), ("dependency_key", [2]), ("builtin_version", [3]),
      ("names_version", [4]), ("session_version", [5]), ("initial_bindings", [6])]
  else []

/-- `changed_inputs_for_lineage`. -/
def changedInputsForLineage (lineageId previousKey replacementKey : ArtifactKey) : List String :=
  (lineageInputLabels lineageId previousKey replacementKey).filterMap fun (label, positions) =>
    if positions.any fun position => previousKey.part position != replacementKey.part position
    then some label else none

/-- `ArtifactInvalidationRecord`. -/
structure ArtifactInvalidationRecord where
  reasonKind : String
  lineageId : Option ArtifactKey
  lineageKind : Option String
  invalidatedKey : ArtifactKey
  replacementKey : Option ArtifactKey
  upstreamKey : Option ArtifactKey
  changedInputs : List String
  deriving DecidableEq

namespace ArtifactInvalidationRecord

/-- `ArtifactInvalidationRecord::new`. -/
def new (reasonKind : String) (invalidatedKey : ArtifactKey) :
    CaapResult ArtifactInvalidationRecord :=
  if reasonKind = "" then
    .error (.artifacts "artifact invalidation reason kind must be non-empty")
  else .ok
    { reasonKind := reasonKind, lineageId := none, lineageKind := none
      invalidatedKey := invalidatedKey, replacementKey := none, upstreamKey := none
      changedInputs := [] }

/-- `with_replacement_key`. -/
def withReplacementKey (r : ArtifactInvalidationRecord) (replacementKey : ArtifactKey) :
    ArtifactInvalidationRecord := { r with replacementKey := some replacementKey }

/-- `with_lineage`. -/
def withLineage (r : ArtifactInvalidationRecord) (lineageId : ArtifactKey) (lineageKind : String) :
    CaapResult ArtifactInvalidationRecord :=
  if lineageKind = "" then
    .error (.artifacts "artifact invalidation lineage kind must be non-empty")
  else .ok { r with lineageId := some lineageId, lineageKind := some lineageKind }

/-- `with_changed_inputs`. -/
def withChangedInputs (r : ArtifactInvalidationRecord) (changedInputs : List String) :
    CaapResult ArtifactInvalidationRecord :=
  if changedInputs.any fun input => input == "" then
    .error (.artifacts "artifact invalidation changed inputs must be non-empty")
  else .ok { r with changedInputs := sortDedup changedInputs }

/-- `dependency`. -/
def dependency (invalidatedKey upstreamKey : ArtifactKey) (lineageId : Option ArtifactKey)
    (changedInputs : List String) : ArtifactInvalidationRecord :=
  { reasonKind := "dependency_invalidated"
    lineageId := lineageId
    lineageKind := lineageId.map ArtifactKey.kind
    invalidatedKey := invalidatedKey
    replacementKey := none
    upstreamKey := some upstreamKey
    changedInputs := changedInputs }

/-- The last check of `validate_invalidation_record`: lineage id and kind agree. -/
def validateLineage : Option ArtifactKey → Option String → CaapResult Unit
  | some lineageId, some lineageKind =>
    if lineageKind = "" then
      .error (.artifacts "artifact invalidation lineage kind must be non-empty")
    else if lineageKind ≠ lineageId.kind then
      .error (.artifacts "artifact invalidation lineage kind must match lineage id kind")
    else .ok ()
  | none, none => .ok ()
  | _, _ =>
    .error (.artifacts "artifact invalidation lineage id and kind must be present together")

/-- `validate_invalidation_record`. -/
def validate (r : ArtifactInvalidationRecord) : CaapResult Unit :=
  if r.reasonKind = "" then
    .error (.artifacts "artifact invalidation reason kind must be non-empty")
  else if r.changedInputs.any fun input => input == "" then
    .error (.artifacts "artifact invalidation changed inputs must be non-empty")
  else if !isStrictlySorted r.changedInputs then
    .error (.artifacts "artifact invalidation changed inputs must be sorted and unique")
  else validateLineage r.lineageId r.lineageKind

/-- The record passes `validate_invalidation_record`. -/
def Valid (r : ArtifactInvalidationRecord) : Prop := r.validate = .ok ()

instance (r : ArtifactInvalidationRecord) : Decidable r.Valid :=
  inferInstanceAs (Decidable (_ = _))

/-- What a valid record's changed inputs meet. -/
def ValidInputs (changedInputs : List String) : Prop :=
  (changedInputs.any fun input => input == "") = false ∧ isStrictlySorted changedInputs = true

theorem valid_iff {r : ArtifactInvalidationRecord} :
    r.Valid ↔ r.reasonKind ≠ "" ∧ ValidInputs r.changedInputs ∧
      validateLineage r.lineageId r.lineageKind = .ok () := by
  unfold Valid validate ValidInputs
  rw [ite_error_eq_ok, ite_error_eq_ok, ite_error_eq_ok]
  cases r.changedInputs.any fun input => input == "" <;> cases isStrictlySorted r.changedInputs <;>
    simp

theorem validInputs_nil : ValidInputs [] := ⟨rfl, rfl⟩

theorem valid_dependency (key upstream : ArtifactKey) (lineageId : Option ArtifactKey)
    {inputs : List String} (hin : ValidInputs inputs) :
    (dependency key upstream lineageId inputs).Valid := by
  refine valid_iff.mpr ⟨show "dependency_invalidated" ≠ "" by decide, hin, ?_⟩
  show validateLineage lineageId (lineageId.map ArtifactKey.kind) = .ok ()
  cases lineageId with
  | none => rfl
  | some l => simp [validateLineage, l.kind_ne_empty]

end ArtifactInvalidationRecord

end Caap
