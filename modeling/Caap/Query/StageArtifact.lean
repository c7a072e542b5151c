/-
  Caap.Query.StageArtifact

  What a query stores of a stage it ran and reads back on a later hit
  (`query_stage_artifact_value` of `query_service/mod.rs` and `query_service/serde.rs`): a
  summary as a semantic map, with one map per provider record, and the template of the
  unit.

  The encoder writes the phase policy of each provider, and the decoder wants it to be
  the phase of the stage, so that a provider for both phases is written and not read
  back.  Everything else that a run of a stage can record survives.
-/

import Caap.Query.Record
import Caap.Unit.Template

namespace Caap

open Std Lib

/-- `SemanticValue::map`. -/
def SemanticValue.ofEntries (entries : List (String × SemanticValue)) : CaapResult SemanticValue := do
  validateSemanticMapEntries (SemanticValue.validateEntries entries)
  .ok (.map (entries.insertionSort fun a b => a.1 ≤ b.1))

/-- `QueryStageArtifactValue`. -/
structure QueryStageArtifactValue where
  summary : SemanticValue
  unitTemplate : UnitTemplate

/-- `ArtifactValue`. -/
inductive ArtifactValue where
  | text (text : String)
  | bytes (bytes : List UInt8)
  | source (text : String)
  | sourceTemplate (template : UnitTemplate)
  | queryStage (value : QueryStageArtifactValue)
  | semantic (value : SemanticValue)

/-- `QueryPlanStep`. -/
structure QueryPlanStep where
  stage : String
  providerNames : List String
  effectTags : EffectSet
  cached : Bool
  artifactKey : Option ArtifactKey
  restarted : Bool
  restartTarget : Option String
  deriving DecidableEq

/-! ## Encoding -/

/-- `semantic_string_list`. -/
def semanticStringList (values : List String) : SemanticValue := .list (values.map .str)

/-- `semantic_effect_set`. -/
def semanticEffectSet (values : EffectSet) : SemanticValue := semanticStringList values.tags

/-- `semantic_artifact_key_list`. -/
def semanticArtifactKeyList (values : List ArtifactKey) : SemanticValue :=
  .list (values.map fun key => semanticStringList key.parts)

/-- `optional_semantic_string`. -/
def optionalSemanticString : Option String → SemanticValue
  | some value => .str value
  | none => .null

/-- A `usize` or `u64` as an `i64`. -/
def semanticCount (n : Nat) : SemanticValue := .int (Int64.ofNat n)

/-- The entries of `provider_execution_record_to_semantic_value` but the last one. -/
def recordEntries (record : QueryProviderExecutionRecord) (outcomeSummary : SemanticValue) :
    List (String × SemanticValue) :=
  [("recorded_at_unix_ns", .int record.recordedAtUnixNs),
    ("provider_name", .str record.providerName),
    ("stage", .str record.stage),
    ("family", optionalSemanticString record.family),
    ("phase_policy", .str record.phasePolicy.asStr),
    ("effect_tags", semanticEffectSet record.effectTags),
    ("requires", semanticStringList record.requires),
    ("requires_data", semanticStringList record.requiresData),
    ("provides_data", semanticStringList record.providesData),
    ("provides", semanticStringList record.provides),
    ("reads", semanticStringList record.reads),
    ("writes", semanticStringList record.writes),
    ("artifact_dependencies", semanticArtifactKeyList record.artifactDependencies),
    ("reads_subjects", semanticStringList record.readsSubjects),
    ("writes_subjects", semanticStringList record.writesSubjects),
    ("read_cells", semanticStringList record.readCells),
    ("write_cells", semanticStringList record.writeCells),
    ("reads_files", semanticStringList record.readsFiles),
    ("writes_files", semanticStringList record.writesFiles),
    ("cache_scope", .str record.cacheScope.asStr),
    ("resume_policy", .str record.resumePolicy.asStr),
    ("iteration", semanticCount record.iteration),
    ("changed", .bool record.changed),
    ("diagnostics_emitted", semanticCount record.diagnosticsEmitted),
    ("rolled_back", .bool record.rolledBack),
    ("stopped_by_error", .bool record.stoppedByError),
    ("outcome_kind", .str record.outcomeKind),
    ("diagnostic_codes", semanticStringList record.diagnosticCodes),
    ("rewrite_count", semanticCount record.rewriteCount),
    ("erased_count", semanticCount record.erasedCount),
    ("touched_node_kinds", semanticStringList record.touchedNodeKinds),
    ("change_domains", semanticStringList record.changeDomains),
    ("restart_requested", .bool record.restartRequested),
    ("restart_stage", optionalSemanticString record.restartStage),
    ("outcome_summary", outcomeSummary)]

/-- `provider_execution_record_to_semantic_value`. -/
def providerExecutionRecordToSemanticValue (record : QueryProviderExecutionRecord) :
    CaapResult SemanticValue := do
  let outcomeSummary ← SemanticValue.ofEntries
    (record.outcomeSummary.map fun (key, value) => (key, .str value))
  SemanticValue.ofEntries (recordEntries record outcomeSummary)

/-- `collect_record_provider_names`. -/
def collectRecordProviderNames (records : List QueryProviderExecutionRecord) : List String :=
  records.map (·.providerName)

/-- `collect_record_effect_tags`, with the label of the caller. -/
def collectRecordEffectTags (records : List QueryProviderExecutionRecord) (label : String) :
    CaapResult EffectSet :=
  EffectSet.fromStringSet (records.flatMap (·.effectTags.tags)) label

/-- The entries of the summary of `query_stage_artifact_value`. -/
def summaryEntries (unit : CaapUnit) (step : QueryPlanStep) (phase : PhasePolicy)
    (records : List QueryProviderExecutionRecord) (effectTags : EffectSet)
    (writtenAt : Int64) (executionSummary : List SemanticValue) : List (String × SemanticValue) :=
  [("stage", .str step.stage),
    ("unit", .str unit.unitId),
    ("phase", .str phase.asStr),
    ("unit_version", semanticCount unit.version),
    ("cache_written_at_unix_ns", .int writtenAt),
    ("providers", semanticStringList (collectRecordProviderNames records)),
    ("provider_count", semanticCount (collectRecordProviderNames records).length),
    ("effect_tags", semanticEffectSet effectTags),
    ("reads_subjects", semanticStringList (collectRecordStrings records (·.readsSubjects))),
    ("writes_subjects", semanticStringList (collectRecordStrings records (·.writesSubjects))),
    ("read_cells", semanticStringList (collectRecordStrings records (·.readCells))),
    ("write_cells", semanticStringList (collectRecordStrings records (·.writeCells))),
    ("reads_files", semanticStringList (collectRecordStrings records (·.readsFiles))),
    ("writes_files", semanticStringList (collectRecordStrings records (·.writesFiles))),
    ("restarted", .bool step.restarted),
    ("restart_target", optionalSemanticString step.restartTarget),
    ("artifact_key", .str ((step.artifactKey.map ArtifactKey.display).getD "")),
    ("execution_summary", .list executionSummary)]

/-- `query_stage_artifact_value`. -/
def queryStageArtifactValue (clock : Int) (unit : CaapUnit) (step : QueryPlanStep)
    (phase : PhasePolicy) (records : List QueryProviderExecutionRecord) :
    CaapResult QueryStageArtifactValue := do
  let effectTags ← collectRecordEffectTags records "query stage effect tag"
  let writtenAt ← currentUnixNs clock
  let executionSummary ← records.mapM providerExecutionRecordToSemanticValue
  let summary ← SemanticValue.ofEntries
    (summaryEntries unit step phase records effectTags writtenAt executionSummary)
  .ok { summary := summary, unitTemplate := unit.toTemplate }

/-! ## Decoding of values -/

/-- `semantic_map_get` of `serde.rs`: the value of a key that occurs once. -/
def QueryStageArtifactValue.semanticMapGet (entries : List (String × SemanticValue)) (key : String) :
    Option SemanticValue :=
  match entries.filter fun entry => entry.1 = key with
  | [entry] => some entry.2
  | _ => none

/-- `semantic_string`. -/
def semanticString : SemanticValue → Except String String
  | .str value => .ok value
  | _ => .error "a string"

/-- `semantic_non_empty_string`. -/
def semanticNonEmptyString (value : SemanticValue) : Except String String := do
  let value ← semanticString value
  if value = "" then .error "a non-empty string" else .ok value

/-- `semantic_optional_string`. -/
def semanticOptionalString : SemanticValue → Except String (Option String)
  | .null => .ok none
  | .str value => .ok (some value)
  | _ => .error "null or a string"

/-- `semantic_string_list_field`, with the message for what is no string. -/
def stringElements (message : String) (values : List SemanticValue) : Except String (List String) :=
  values.mapM fun value =>
    match value with
    | .str value => .ok value
    | _ => .error message

/-- `semantic_string_list_field`. -/
def semanticStringListField : SemanticValue → Except String (List String)
  | .list values => stringElements "a list of strings" values
  | _ => .error "a list of strings"

/-- `semantic_unique_string_list`. -/
def semanticUniqueStringList (value : SemanticValue) : Except String (List String) := do
  let values ← semanticStringListField value
  if "" ∈ values ∨ ¬ values.Nodup then .error "a list of unique non-empty strings" else .ok values

/-- `semantic_execution_summary_list`. -/
def semanticExecutionSummaryList : SemanticValue → Except String Unit
  | .list _ => .ok ()
  | _ => .error "a list of provider execution records"

/-- `semantic_artifact_key_list_field`. -/
def semanticArtifactKeyListField : SemanticValue → Except String (List ArtifactKey)
  | .list values =>
    values.mapM fun value =>
      match value with
      | .list parts => do
        let parts ← stringElements "a list of artifact-key string segments" parts
        match ArtifactKey.new parts with
        | .ok key => .ok key
        | .error error => .error error.display
      | _ => .error "a list of artifact keys"
  | _ => .error "a list of artifact keys"

/-- `semantic_unique_artifact_key_list`. -/
def semanticUniqueArtifactKeyList (value : SemanticValue) : Except String (List ArtifactKey) := do
  let values ← semanticArtifactKeyListField value
  if ¬ values.Nodup then .error "a list of unique artifact keys" else .ok values

/-- `semantic_bool`. -/
def semanticBool : SemanticValue → Except String Bool
  | .bool value => .ok value
  | _ => .error "a boolean"

/-- `semantic_usize`, on a 64-bit platform. -/
def semanticUsize : SemanticValue → Except String Nat
  | .int value => if 0 ≤ value then .ok value.toInt.toNat else .error "a non-negative integer"
  | _ => .error "a non-negative integer"

/-- `semantic_positive_i64`. -/
def semanticPositiveI64 : SemanticValue → Except String Int64
  | .int value => if 0 < value then .ok value else .error "a positive integer"
  | _ => .error "a positive integer"

/-- `PhasePolicy::parse_label`. -/
def PhasePolicy.parseLabel (value : String) : CaapResult PhasePolicy :=
  if value = "runtime" then .ok .runtime
  else if value = "compile_time" then .ok .compileTime
  else if value = "dual" then .ok .dual
  else
    .error (.semantic ("phase policy must be one of runtime, compile_time, or dual: " ++
      debugStr value))

/-- `semantic_phase_policy`. -/
def semanticPhasePolicy (value : SemanticValue) : Except String PhasePolicy := do
  let label ← semanticString value
  match PhasePolicy.parseLabel label with
  | .ok phase => .ok phase
  | .error _ => .error "one of: runtime, compile_time, dual"

/-- The loop of `semantic_string_pairs`, with the keys seen so far. -/
def stringPairs : List String → List (String × SemanticValue) →
    Except String (List (String × String))
  | _, [] => .ok []
  | seen, (key, value) :: rest =>
    if key ∈ seen then .error "a string-keyed map with unique keys"
    else
      match value with
      | .str value => do
        let pairs ← stringPairs (key :: seen) rest
        .ok ((key, value) :: pairs)
      | _ => .error "a string-keyed map of string values"

/-- `semantic_string_pairs`. -/
def semanticStringPairs : SemanticValue → Except String (List (String × String))
  | .map values => stringPairs [] values
  | _ => .error "a string-keyed map of string values"

/-! ## Decoding of records and summaries -/

/-- `QUERY_STAGE_SUMMARY_FIELDS`. -/
def queryStageSummaryFields : List String :=
  ["stage", "unit", "phase", "unit_version", "cache_written_at_unix_ns", "providers",
    "provider_count", "effect_tags", "reads_subjects", "writes_subjects", "read_cells",
    "write_cells", "reads_files", "writes_files", "restarted", "restart_target", "artifact_key",
    "execution_summary"]

/-- `QUERY_PROVIDER_EXECUTION_RECORD_FIELDS`. -/
def queryProviderExecutionRecordFields : List String :=
  ["recorded_at_unix_ns", "provider_name", "stage", "family", "phase_policy", "effect_tags",
    "requires", "requires_data", "provides_data", "provides", "reads", "writes",
    "artifact_dependencies", "reads_subjects", "writes_subjects", "read_cells", "write_cells",
    "reads_files", "writes_files", "cache_scope", "resume_policy", "iteration", "changed",
    "diagnostics_emitted", "rolled_back", "stopped_by_error", "outcome_kind", "diagnostic_codes",
    "rewrite_count", "erased_count", "touched_node_kinds", "change_domains", "restart_requested",
    "restart_stage", "outcome_summary"]

/-- `cached_record_error`. -/
def cachedRecordError (recordIndex : Nat) (key expected : String) : CaapError :=
  .compiler ("cached query execution record[" ++ toString recordIndex ++ "] field '" ++ key ++
    "' must be " ++ expected)

/-- `query_stage_summary_field_error`. -/
def queryStageSummaryFieldError (key expected : String) : CaapError :=
  .compiler ("cached query stage artifact summary field '" ++ key ++ "' must be " ++ expected)

/-- A field that is there once and decodes; `fail` turns what was expected into the error. -/
def requiredField {α : Type} (fail : String → String → CaapError) (missing : String)
    (entries : List (String × SemanticValue)) (key : String)
    (decode : SemanticValue → Except String α) : CaapResult α :=
  match QueryStageArtifactValue.semanticMapGet entries key with
  | none => .error (fail key missing)
  | some value =>
    match decode value with
    | .ok result => .ok result
    | .error expected => .error (fail key expected)

/-- `required_semantic_field`. -/
def requiredSemanticField {α : Type} (entries : List (String × SemanticValue)) (recordIndex : Nat)
    (key : String) (decode : SemanticValue → Except String α) : CaapResult α :=
  requiredField (cachedRecordError recordIndex) "present exactly once in the record" entries key
    decode

/-- `required_query_stage_summary_field`. -/
def requiredQueryStageSummaryField {α : Type} (entries : List (String × SemanticValue))
    (key : String) (decode : SemanticValue → Except String α) : CaapResult α :=
  requiredField queryStageSummaryFieldError "present exactly once in the summary" entries key decode

/-- The loop of the two functions that refuse unknown and repeated fields. -/
def rejectUnknownOrDuplicate (allowed : List String) (unknown duplicate : String → CaapError)
    (entries : List (String × SemanticValue)) : CaapResult Unit :=
  checkDistinct Prod.fst
    (fun entry => if entry.1 ∉ allowed then .error (unknown entry.1) else .ok ())
    (fun entry => duplicate entry.1) [] entries

/-- `reject_unknown_or_duplicate_semantic_fields`. -/
def rejectUnknownOrDuplicateSemanticFields (entries : List (String × SemanticValue))
    (allowed : List String) (recordIndex : Nat) : CaapResult Unit :=
  rejectUnknownOrDuplicate allowed
    (fun key => .compiler ("cached query execution record[" ++ toString recordIndex ++
      "] contains unknown field '" ++ key ++ "'"))
    (fun key => cachedRecordError recordIndex key "present exactly once in the record") entries

/-- `reject_unknown_or_duplicate_query_stage_summary_fields`. -/
def rejectUnknownOrDuplicateQueryStageSummaryFields (entries : List (String × SemanticValue)) :
    CaapResult Unit :=
  rejectUnknownOrDuplicate queryStageSummaryFields
    (fun key => .compiler ("cached query stage artifact summary contains unknown field '" ++ key ++
      "'"))
    (fun key => .compiler ("cached query stage artifact summary field '" ++ key ++
      "' must be present exactly once")) entries

/-- A label that one of the two normalisations accepts. -/
def semanticLabel {α : Type} (normalize : String → CaapResult α) (expected : String)
    (value : SemanticValue) : Except String α := do
  let label ← semanticString value
  match normalize label with
  | .ok result => .ok result
  | .error _ => .error expected

/-- The fields of `query_provider_execution_record_from_semantic_value`, in its order. -/
def recordFromEntries (entries : List (String × SemanticValue)) (index : Nat) :
    CaapResult QueryProviderExecutionRecord := do
  let field {α : Type} (key : String) (decode : SemanticValue → Except String α) : CaapResult α :=
    requiredSemanticField entries index key decode
  let cacheScope ← field "cache_scope" (semanticLabel normalizeCacheScope "one of: none, unit")
  let resumePolicy ← field "resume_policy"
    (semanticLabel normalizeResumePolicy "one of: safe, never, bootstrap_safe")
  let recordedAtUnixNs ← field "recorded_at_unix_ns" semanticPositiveI64
  let providerName ← field "provider_name" semanticString
  let stage ← field "stage" semanticString
  let family ← field "family" semanticOptionalString
  let phasePolicy ← field "phase_policy" semanticPhasePolicy
  let effectTags ← field "effect_tags" semanticUniqueStringList
  let effectTags ← EffectSet.fromUniqueStrings effectTags "cached query execution record effect tag"
  let requires ← field "requires" semanticUniqueStringList
  let requiresData ← field "requires_data" semanticUniqueStringList
  let providesData ← field "provides_data" semanticUniqueStringList
  let provides ← field "provides" semanticUniqueStringList
  let reads ← field "reads" semanticUniqueStringList
  let writes ← field "writes" semanticUniqueStringList
  let artifactDependencies ← field "artifact_dependencies" semanticUniqueArtifactKeyList
  let readsSubjects ← field "reads_subjects" semanticUniqueStringList
  let writesSubjects ← field "writes_subjects" semanticUniqueStringList
  let readCells ← field "read_cells" semanticUniqueStringList
  let writeCells ← field "write_cells" semanticUniqueStringList
  let readsFiles ← field "reads_files" semanticUniqueStringList
  let writesFiles ← field "writes_files" semanticUniqueStringList
  let iteration ← field "iteration" semanticUsize
  let changed ← field "changed" semanticBool
  let diagnosticsEmitted ← field "diagnostics_emitted" semanticUsize
  let rolledBack ← field "rolled_back" semanticBool
  let stoppedByError ← field "stopped_by_error" semanticBool
  let outcomeKind ← field "outcome_kind" semanticString
  let diagnosticCodes ← field "diagnostic_codes" semanticStringListField
  let rewriteCount ← field "rewrite_count" semanticUsize
  let erasedCount ← field "erased_count" semanticUsize
  let touchedNodeKinds ← field "touched_node_kinds" semanticUniqueStringList
  let changeDomains ← field "change_domains" semanticUniqueStringList
  let restartRequested ← field "restart_requested" semanticBool
  let restartStage ← field "restart_stage" semanticOptionalString
  let outcomeSummary ← field "outcome_summary" semanticStringPairs
  .ok
    { recordedAtUnixNs := recordedAtUnixNs
      providerName := providerName
      stage := stage
      family := family
      phasePolicy := phasePolicy
      effectTags := effectTags
      requires := requires
      requiresData := requiresData
      providesData := providesData
      provides := provides
      reads := reads
      writes := writes
      readsSubjects := readsSubjects
      writesSubjects := writesSubjects
      readCells := readCells
      writeCells := writeCells
      readsFiles := readsFiles
      writesFiles := writesFiles
      artifactDependencies := artifactDependencies
      cacheScope := cacheScope
      resumePolicy := resumePolicy
      iteration := iteration
      changed := changed
      diagnosticsEmitted := diagnosticsEmitted
      rolledBack := rolledBack
      stoppedByError := stoppedByError
      outcomeKind := outcomeKind
      diagnosticCodes := diagnosticCodes
      rewriteCount := rewriteCount
      erasedCount := erasedCount
      touchedNodeKinds := touchedNodeKinds
      changeDomains := changeDomains
      restartRequested := restartRequested
      restartStage := restartStage
      outcomeSummary := outcomeSummary }

/-- `query_provider_execution_record_from_semantic_value`. -/
def queryProviderExecutionRecordFromSemanticValue (value : SemanticValue) (index : Nat) :
    CaapResult QueryProviderExecutionRecord :=
  match value with
  | .map entries => do
    rejectUnknownOrDuplicateSemanticFields entries queryProviderExecutionRecordFields index
    recordFromEntries entries index
  | _ => .error (cachedRecordError index "record" "semantic map")

/-- `validate_query_stage_summary_fields`. -/
def validateQueryStageSummaryFields (entries : List (String × SemanticValue)) :
    CaapResult Unit := do
  let _ ← requiredQueryStageSummaryField entries "stage" semanticNonEmptyString
  let _ ← requiredQueryStageSummaryField entries "unit" semanticNonEmptyString
  let _ ← requiredQueryStageSummaryField entries "phase" semanticPhasePolicy
  let _ ← requiredQueryStageSummaryField entries "unit_version" semanticUsize
  let _ ← requiredQueryStageSummaryField entries "cache_written_at_unix_ns" semanticPositiveI64
  let providers ← requiredQueryStageSummaryField entries "providers" semanticUniqueStringList
  let providerCount ← requiredQueryStageSummaryField entries "provider_count" semanticUsize
  if providers.length ≠ providerCount then
    .error (queryStageSummaryFieldError "provider_count" "equal to providers length")
  else do
    checkAll (fun key => do
        let _ ← requiredQueryStageSummaryField entries key semanticUniqueStringList
        .ok ())
      ["effect_tags", "reads_subjects", "writes_subjects", "read_cells", "write_cells",
        "reads_files", "writes_files"]
    let _ ← requiredQueryStageSummaryField entries "restarted" semanticBool
    let _ ← requiredQueryStageSummaryField entries "restart_target" semanticOptionalString
    let _ ← requiredQueryStageSummaryField entries "artifact_key" semanticString
    requiredQueryStageSummaryField entries "execution_summary" semanticExecutionSummaryList

/-- `validate_query_stage_summary_string_projection`. -/
def validateQueryStageSummaryStringProjection (entries : List (String × SemanticValue))
    (records : List QueryProviderExecutionRecord)
    (field : String × (QueryProviderExecutionRecord → List String)) : CaapResult Unit := do
  let summary ← requiredQueryStageSummaryField entries field.1 semanticUniqueStringList
  if summary ≠ collectRecordStrings records field.2 then
    .error (queryStageSummaryFieldError field.1 "consistent with execution_summary projection")
  else .ok ()

/-- `validate_query_stage_summary_record_consistency`. -/
def validateQueryStageSummaryRecordConsistency (entries : List (String × SemanticValue))
    (records : List QueryProviderExecutionRecord) : CaapResult Unit := do
  let stage ← requiredQueryStageSummaryField entries "stage" semanticNonEmptyString
  if records.any fun record => record.stage != stage then
    .error (queryStageSummaryFieldError "stage" "consistent with all execution_summary stages")
  else do
    let phase ← requiredQueryStageSummaryField entries "phase" semanticPhasePolicy
    if records.any fun record => record.phasePolicy != phase then
      .error (queryStageSummaryFieldError "phase"
        "consistent with all execution_summary phase policies")
    else do
      let providers ← requiredQueryStageSummaryField entries "providers" semanticUniqueStringList
      if providers ≠ records.map (·.providerName) then
        .error (queryStageSummaryFieldError "providers"
          "consistent with execution_summary provider order")
      else do
        let effectTags ← requiredQueryStageSummaryField entries "effect_tags" semanticUniqueStringList
        let recordEffectTags ← collectRecordEffectTags records "cached query stage summary effect tag"
        if effectTags ≠ recordEffectTags.tags then
          .error (queryStageSummaryFieldError "effect_tags"
            "consistent with execution_summary effect tags")
        else
          checkAll (validateQueryStageSummaryStringProjection entries records)
            [("reads_subjects", (·.readsSubjects)), ("writes_subjects", (·.writesSubjects)),
              ("read_cells", (·.readCells)), ("write_cells", (·.writeCells)),
              ("reads_files", (·.readsFiles)), ("writes_files", (·.writesFiles))]

/-- `CachedQueryStageReplayRequest`. -/
structure CachedQueryStageReplayRequest where
  stage : String
  phase : PhasePolicy
  unitId : String
  deriving DecidableEq

/-- `validate_query_stage_summary_request`. -/
def validateQueryStageSummaryRequest (entries : List (String × SemanticValue))
    (request : CachedQueryStageReplayRequest) : CaapResult Unit := do
  let stage ← requiredQueryStageSummaryField entries "stage" semanticNonEmptyString
  if stage ≠ request.stage then
    .error (queryStageSummaryFieldError "stage" ("requested stage '" ++ request.stage ++ "'"))
  else do
    let phase ← requiredQueryStageSummaryField entries "phase" semanticPhasePolicy
    if phase ≠ request.phase then
      .error (queryStageSummaryFieldError "phase"
        ("requested phase '" ++ request.phase.asStr ++ "'"))
    else do
      let unitId ← requiredQueryStageSummaryField entries "unit" semanticNonEmptyString
      if unitId ≠ request.unitId then
        .error (queryStageSummaryFieldError "unit" ("requested unit '" ++ request.unitId ++ "'"))
      else .ok ()

/-- `query_stage_summary_entries`. -/
def queryStageSummaryEntries : ArtifactValue → CaapResult (List (String × SemanticValue))
  | .semantic (.map entries) => .ok entries
  | .queryStage cached =>
    match cached.summary with
    | .map entries => .ok entries
    | _ => .error (.compiler "cached query stage artifact summary must be a semantic map")
  | _ => .error (.compiler "cached query stage artifact must be a semantic map")

/-- The records of the execution summary. -/
def executionSummaryValues (entries : List (String × SemanticValue)) :
    CaapResult (List SemanticValue) :=
  match QueryStageArtifactValue.semanticMapGet entries "execution_summary" with
  | some (.list records) => .ok records
  | _ =>
    .error (.compiler "cached query stage artifact has missing or malformed execution_summary")

/-- The check of the time of writing. -/
def checkWrittenAt (entries : List (String × SemanticValue)) : CaapResult Unit :=
  match QueryStageArtifactValue.semanticMapGet entries "cache_written_at_unix_ns" with
  | some (.int value) =>
    if 0 < value then .ok ()
    else .error (.compiler
      "cached query stage artifact has missing or malformed cache_written_at_unix_ns")
  | _ =>
    .error (.compiler
      "cached query stage artifact has missing or malformed cache_written_at_unix_ns")

/-- `decode_cached_execution_records`. -/
def decodeCachedExecutionRecords (value : ArtifactValue) :
    CaapResult (List (String × SemanticValue) × List QueryProviderExecutionRecord) := do
  let entries ← queryStageSummaryEntries value
  rejectUnknownOrDuplicateQueryStageSummaryFields entries
  let values ← executionSummaryValues entries
  checkWrittenAt entries
  validateQueryStageSummaryFields entries
  let records ← values.zipIdx.mapM fun (value, index) =>
    queryProviderExecutionRecordFromSemanticValue value index
  validateQueryStageSummaryRecordConsistency entries records
  .ok (entries, records)

/-- `cached_execution_records_for_request`. -/
def cachedExecutionRecordsForRequest (value : ArtifactValue)
    (request : CachedQueryStageReplayRequest) : CaapResult (List QueryProviderExecutionRecord) := do
  let (entries, records) ← decodeCachedExecutionRecords value
  validateQueryStageSummaryRequest entries request
  .ok records

end Caap
