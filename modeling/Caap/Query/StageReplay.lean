/-
  Caap.Query.StageReplay

  Reading back the artifact of a stage.  Every field of the encoder is found again under
  its name (`semanticMapGet_sorted`), so that a record comes back as it was, and the
  checks of the decoder ask for nothing that a run of the stage does not give, apart from
  positive times, a unit version that fits into a signed integer, and providers for the
  one phase of the stage.
-/

import Caap.Lib.Delimited
import Caap.Query.StageArtifact

namespace Caap

open Std Lib QueryProviderRegistry List Int64 SemanticValue EffectSet

/-! ## Maps -/

variable {key : String} {value : SemanticValue}

section Maps

variable {raw : List (String × SemanticValue)}

/-- The entries of a map, as `SemanticValue::map` leaves them. -/
abbrev sortedEntries (raw : List (String × SemanticValue)) : List (String × SemanticValue) :=
  raw.insertionSort fun a b => a.1 ≤ b.1

theorem perm_sortedEntries (raw : List (String × SemanticValue)) : (sortedEntries raw).Perm raw :=
  perm_insertionSort _ _

theorem filter_key_of_nodup (hnodup : (raw.map Prod.fst).Nodup) (hmem : (key, value) ∈ raw) :
    raw.filter (fun entry => entry.1 = key) = [(key, value)] := by
  induction raw with
  | nil => exact absurd hmem not_mem_nil
  | cons e raw ih =>
    obtain ⟨hfresh, hrest⟩ := nodup_cons.mp hnodup
    rcases mem_cons.mp hmem with rfl | htail
    · have hnone : raw.filter (fun entry => entry.1 = key) = [] := by
        rw [filter_eq_nil_iff]
        intro entry hentry heq
        have hkey : entry.1 = key := of_decide_eq_true heq
        exact hfresh (mem_map.mpr ⟨entry, hentry, hkey⟩)
      rw [filter_cons_of_pos (by simp), hnone]
    · have hne : e.1 ≠ key := by
        rintro rfl
        exact hfresh (mem_map.mpr ⟨_, htail, rfl⟩)
      rw [filter_cons_of_neg (by simpa using hne)]
      exact ih hrest htail

/-- Sorting does not change what is found under a key. -/
theorem semanticMapGet_sorted (hnodup : (raw.map Prod.fst).Nodup) (hmem : (key, value) ∈ raw) :
    QueryStageArtifactValue.semanticMapGet (sortedEntries raw) key = some value := by
  have hperm := (perm_sortedEntries raw).filter fun entry => decide (entry.1 = key)
  rw [filter_key_of_nodup hnodup hmem, perm_singleton] at hperm
  rw [QueryStageArtifactValue.semanticMapGet, hperm]

theorem requiredField_sorted {α : Type} {fail : String → String → CaapError} {missing : String}
    (hnodup : (raw.map Prod.fst).Nodup)
    (hmem : (key, value) ∈ raw) (decode : SemanticValue → Except String α) :
    requiredField fail missing (sortedEntries raw) key decode =
      (decode value).mapError (fail key) := by
  simp only [requiredField, semanticMapGet_sorted hnodup hmem]
  cases decode value <;> rfl

theorem rejectUnknownOrDuplicate_sorted {allowed : List String} {unknown duplicate : String → CaapError}
    (hallowed : ∀ e ∈ raw, e.1 ∈ allowed) (hnodup : (raw.map Prod.fst).Nodup) :
    rejectUnknownOrDuplicate allowed unknown duplicate (sortedEntries raw) = .ok () := by
  refine checkDistinct_eq_ok.mpr ⟨fun e he => ?_, ?_, by simp⟩
  · have hin := hallowed e ((perm_sortedEntries raw).mem_iff.mp he)
    rw [if_neg (not_not.mpr hin)]
  · exact ((perm_sortedEntries raw).map Prod.fst).nodup_iff.mpr hnodup

/-- Entries that a semantic map takes: named, once each, with valid values. -/
structure MapEntries (raw : List (String × SemanticValue)) : Prop where
  keys : ∀ e ∈ raw, e.1 ≠ ""
  nodup : (raw.map Prod.fst).Nodup
  values : ∀ e ∈ raw, e.2.Valid

theorem MapEntries.valid (h : MapEntries raw) : (map raw).Valid := by
  show validateSemanticMapEntries (validateEntries raw) = .ok ()
  rw [validateEntries_eq_map]
  refine validateSemanticMapEntries_of_nodup ?_ ?_ ?_
  · intro e he
    obtain ⟨e', he', rfl⟩ := mem_map.mp he
    exact h.keys e' he'
  · rw [map_map]
    exact h.nodup
  · intro e he
    obtain ⟨e', he', rfl⟩ := mem_map.mp he
    exact h.values e' he'

theorem MapEntries.sorted (h : MapEntries raw) : MapEntries (sortedEntries raw) where
  keys e he := h.keys e ((perm_sortedEntries raw).mem_iff.mp he)
  nodup := ((perm_sortedEntries raw).map Prod.fst).nodup_iff.mpr h.nodup
  values e he := h.values e ((perm_sortedEntries raw).mem_iff.mp he)

theorem MapEntries.ofEntries (h : MapEntries raw) :
    ofEntries raw = .ok (.map (sortedEntries raw)) := by
  have hvalid : validateSemanticMapEntries (validateEntries raw) = .ok () := h.valid
  rw [SemanticValue.ofEntries, hvalid]
  rfl

end Maps

/-! ## Values -/

theorem valid_semanticStringList (values : List String) : (semanticStringList values).Valid := by
  refine validateList_of_forall fun v hv => ?_
  obtain ⟨s, -, rfl⟩ := mem_map.mp hv
  rfl

theorem valid_semanticArtifactKeyList (values : List ArtifactKey) :
    (semanticArtifactKeyList values).Valid := by
  refine validateList_of_forall fun v hv => ?_
  obtain ⟨key, -, rfl⟩ := mem_map.mp hv
  exact valid_semanticStringList key.parts

theorem valid_optionalSemanticString (value : Option String) :
    (optionalSemanticString value).Valid := by
  cases value <;> rfl

theorem stringElements_map (message : String) (values : List String) :
    stringElements message (values.map .str) = .ok values := by
  induction values with
  | nil => rfl
  | cons s values ih =>
    rw [stringElements, map_cons, mapM_cons]
    rw [stringElements] at ih
    simp only [ok_bind, ih]
    rfl

theorem semanticStringListField_list (values : List String) :
    semanticStringListField (semanticStringList values) = .ok values :=
  stringElements_map _ values

theorem semanticUniqueStringList_list {values : List String} (h : UniqueLabels values) :
    semanticUniqueStringList (semanticStringList values) = .ok values := by
  have hno : ¬ ("" ∈ values ∨ ¬ values.Nodup) := by
    rintro (hempty | hdup)
    · exact h.nonempty "" hempty rfl
    · exact hdup h.nodup
  rw [semanticUniqueStringList, semanticStringListField_list, ok_bind, if_neg hno]

theorem artifactKey_new_parts (key : ArtifactKey) : ArtifactKey.new key.parts = .ok key := by
  have hparts : ¬ ∃ part ∈ key.parts, part = "" := by
    rintro ⟨part, hmem, hempty⟩
    exact key.parts_nonempty part hmem hempty
  rw [ArtifactKey.new, dif_neg key.nonempty, dif_neg hparts]

theorem semanticArtifactKeyListField_list (values : List ArtifactKey) :
    semanticArtifactKeyListField (semanticArtifactKeyList values) = .ok values := by
  rw [semanticArtifactKeyList, semanticArtifactKeyListField]
  induction values with
  | nil => rfl
  | cons key values ih =>
    rw [map_cons, mapM_cons, ih]
    simp only [semanticStringList, stringElements_map, ok_bind, artifactKey_new_parts]
    rfl

theorem semanticUniqueArtifactKeyList_list {values : List ArtifactKey} (h : values.Nodup) :
    semanticUniqueArtifactKeyList (semanticArtifactKeyList values) = .ok values := by
  rw [semanticUniqueArtifactKeyList, semanticArtifactKeyListField_list, ok_bind,
    if_neg (not_not.mpr h)]

theorem semanticOptionalString_optional (value : Option String) :
    semanticOptionalString (optionalSemanticString value) = .ok value := by
  cases value <;> rfl

theorem semanticUsize_count {n : Nat} (h : n < i64Size) :
    semanticUsize (semanticCount n) = .ok n := by
  have hn : (ofNat n).toInt = n := toInt_ofNat_of_lt h
  have hnonneg : (0 : Int64) ≤ ofNat n := by
    rw [le_iff_toInt_le, hn]
    exact Int.natCast_nonneg n
  rw [semanticCount, semanticUsize, if_pos hnonneg, hn, Int.toNat_natCast]

theorem semanticPhasePolicy_asStr (phase : PhasePolicy) :
    semanticPhasePolicy (.str phase.asStr) = .ok phase := by
  cases phase <;> rfl

theorem semanticLabel_cacheScope (scope : QueryProviderCacheScope) :
    semanticLabel normalizeCacheScope "one of: none, unit" (.str scope.asStr) = .ok scope := by
  cases scope <;> rfl

theorem semanticLabel_resumePolicy (policy : QueryProviderResumePolicy) :
    semanticLabel normalizeResumePolicy "one of: safe, never, bootstrap_safe" (.str policy.asStr) =
      .ok policy := by
  cases policy <;> rfl

theorem semanticString_str (value : String) : semanticString (.str value) = .ok value := rfl

theorem semanticExecutionSummaryList_list (values : List SemanticValue) :
    semanticExecutionSummaryList (.list values) = .ok () := rfl

theorem semanticBool_bool (value : Bool) : semanticBool (.bool value) = .ok value := rfl

theorem semanticStringPairs_nil : semanticStringPairs (.map []) = .ok [] := rfl

theorem semanticPositiveI64_eq_ok {value result : Int64} :
    semanticPositiveI64 (.int value) = .ok result ↔ 0 < value ∧ value = result := by
  rw [semanticPositiveI64]
  split_ifs with h
  · simp [h]
  · simp [h]

theorem EffectSet.uniqueLabels {e : EffectSet} (h : e.Valid) : UniqueLabels e.tags := by
  refine ⟨e.sorted.imp fun hlt => hlt.ne, fun tag htag hempty => ?_⟩
  have htag' := h tag htag
  rw [hempty] at htag'
  exact absurd htag' (by simp [validateEffectPolicyTag])

theorem EffectSet.ofTags_tags (e : EffectSet) : ofTags e.tags = e := by
  have hsorted : e.tags.Pairwise ordLt := e.sorted.imp fun hlt => compare_lt_iff_lt.mpr hlt
  have htags : sortDedup e.tags = e.tags := sortDedup_of_pairwise hsorted
  cases e
  simp only [ofTags, htags]

theorem EffectSet.fromUniqueStrings_tags {e : EffectSet} (h : e.Valid) (label : String) :
    fromUniqueStrings e.tags label = .ok e := by
  have hcheck : checkDistinct id (checkTag label)
      (fun tag => CaapError.semantic (label ++ " is duplicated: " ++ tag)) [] e.tags = .ok () := by
    refine checkDistinct_eq_ok.mpr ⟨fun tag htag => ?_, ?_, by simp⟩
    · exact checkTag_eq_ok.mpr (h tag htag)
    · rw [map_id]
      exact (uniqueLabels h).nodup
  rw [fromUniqueStrings, hcheck]
  show Except.ok (ofTags e.tags) = _
  rw [ofTags_tags]

/-! ## Records -/

variable {records : List QueryProviderExecutionRecord}

section Records

variable {r : QueryProviderExecutionRecord}

theorem nodup_recordEntries (r : QueryProviderExecutionRecord) (s : SemanticValue) :
    ((recordEntries r s).map Prod.fst).Nodup := by
  have hkeys : (recordEntries r s).map Prod.fst = queryProviderExecutionRecordFields := rfl
  rw [hkeys]
  decide

theorem mapEntries_record (r : QueryProviderExecutionRecord) :
    MapEntries (recordEntries r (.map [])) where
  keys e he hempty := by
    have hkey : e.1 ∈ queryProviderExecutionRecordFields := mem_map_of_mem (f := Prod.fst) he
    rw [hempty] at hkey
    exact absurd hkey (by decide)
  nodup := nodup_recordEntries r _
  values := by
    have hempty : (map []).Valid := rfl
    simp only [recordEntries, forall_mem_cons, not_mem_nil, false_imp_iff, implies_true,
      semanticEffectSet, valid_semanticStringList, valid_semanticArtifactKeyList,
      valid_optionalSemanticString, and_true, true_and, semanticCount, hempty]
    refine ⟨rfl, rfl, rfl, rfl, ?_⟩
    trivial

/-- A record is written as the map of its fields. -/
theorem providerExecutionRecordToSemanticValue_eq (h : r.WellFormed) :
    providerExecutionRecordToSemanticValue r =
      .ok (.map (sortedEntries (recordEntries r (.map [])))) := by
  rw [providerExecutionRecordToSemanticValue, h.outcomeSummary]
  show (ofEntries [] >>= fun summary =>
    ofEntries (recordEntries r summary)) = _
  have hsummary : ofEntries [] = .ok (.map []) := rfl
  rw [hsummary, ok_bind]
  exact (mapEntries_record r).ofEntries

variable {index : Nat}

/-- A field of the record is read back from the entries. -/
theorem recordField {r : QueryProviderExecutionRecord}
    (hmem : (key, value) ∈ recordEntries r (.map [])) {α : Type}
    (decode : SemanticValue → Except String α) :
    requiredSemanticField (sortedEntries (recordEntries r (.map []))) index key decode =
      (decode value).mapError (cachedRecordError index key) :=
  requiredField_sorted (nodup_recordEntries r _) hmem decode

theorem recordFromEntries_eq_ok (h : r.WellFormed) {result : QueryProviderExecutionRecord} :
    recordFromEntries (sortedEntries (recordEntries r (.map []))) index = .ok result ↔
      0 < r.recordedAtUnixNs ∧ r = result := by
  have field (key : String) {value : SemanticValue} {α : Type}
      {decode : SemanticValue → Except String α} {result : α} (hdecode : decode value = .ok result)
      (hmem : (key, value) ∈ recordEntries r (.map []) := by simp [recordEntries]) :
      requiredSemanticField (sortedEntries (recordEntries r (.map []))) index key decode =
        .ok result := by
    rw [recordField hmem, hdecode]
    rfl
  have htags : semanticUniqueStringList (semanticEffectSet r.effectTags) = .ok r.effectTags.tags :=
    semanticUniqueStringList_list (uniqueLabels h.effectTags)
  have htime : ("recorded_at_unix_ns", int r.recordedAtUnixNs) ∈
      recordEntries r (.map []) := by simp [recordEntries]
  simp only [recordFromEntries, recordField htime,
    field "cache_scope" (semanticLabel_cacheScope r.cacheScope),
    field "resume_policy" (semanticLabel_resumePolicy r.resumePolicy),
    field "provider_name" (semanticString_str r.providerName),
    field "stage" (semanticString_str r.stage),
    field "family" (semanticOptionalString_optional r.family),
    field "phase_policy" (semanticPhasePolicy_asStr r.phasePolicy), field "effect_tags" htags,
    field "requires" (semanticUniqueStringList_list h.requires),
    field "requires_data" (semanticUniqueStringList_list h.requiresData),
    field "provides_data" (semanticUniqueStringList_list h.providesData),
    field "provides" (semanticUniqueStringList_list h.provides),
    field "reads" (semanticUniqueStringList_list h.reads),
    field "writes" (semanticUniqueStringList_list h.writes),
    field "artifact_dependencies" (semanticUniqueArtifactKeyList_list h.artifactDependencies),
    field "reads_subjects" (semanticUniqueStringList_list h.readsSubjects),
    field "writes_subjects" (semanticUniqueStringList_list h.writesSubjects),
    field "read_cells" (semanticUniqueStringList_list h.readCells),
    field "write_cells" (semanticUniqueStringList_list h.writeCells),
    field "reads_files" (semanticUniqueStringList_list h.readsFiles),
    field "writes_files" (semanticUniqueStringList_list h.writesFiles),
    field "iteration" (semanticUsize_count h.iteration),
    field "changed" (semanticBool_bool r.changed),
    field "diagnostics_emitted" (semanticUsize_count h.diagnosticsEmitted),
    field "rolled_back" (semanticBool_bool r.rolledBack),
    field "stopped_by_error" (semanticBool_bool r.stoppedByError),
    field "outcome_kind" (semanticString_str r.outcomeKind),
    field "diagnostic_codes" (semanticStringListField_list r.diagnosticCodes),
    field "rewrite_count" (semanticUsize_count h.rewriteCount),
    field "erased_count" (semanticUsize_count h.erasedCount),
    field "touched_node_kinds" (semanticUniqueStringList_list h.touchedNodeKinds),
    field "change_domains" (semanticUniqueStringList_list h.changeDomains),
    field "restart_requested" (semanticBool_bool r.restartRequested),
    field "restart_stage" (semanticOptionalString_optional r.restartStage),
    field "outcome_summary" semanticStringPairs_nil, fromUniqueStrings_tags h.effectTags,
    ok_bind]
  simp only [bind_eq_ok, mapError_eq_ok, semanticPositiveI64_eq_ok, Except.ok.injEq]
  constructor
  · rintro ⟨_, ⟨hpos, rfl⟩, rfl⟩
    refine ⟨hpos, ?_⟩
    rw [← h.outcomeSummary]
  · rintro ⟨hpos, rfl⟩
    refine ⟨_, ⟨hpos, rfl⟩, ?_⟩
    rw [← h.outcomeSummary]

/-- A record of a run is read back if it has a positive time, and as it was. -/
theorem queryProviderExecutionRecordFromSemanticValue_eq_ok (h : r.WellFormed)
    {result : QueryProviderExecutionRecord} :
    queryProviderExecutionRecordFromSemanticValue (.map (sortedEntries (recordEntries r (.map []))))
        index = .ok result ↔ 0 < r.recordedAtUnixNs ∧ r = result := by
  have hfields : rejectUnknownOrDuplicateSemanticFields
      (sortedEntries (recordEntries r (.map []))) queryProviderExecutionRecordFields index =
        .ok () := by
    refine rejectUnknownOrDuplicate_sorted ?_ (nodup_recordEntries r _)
    intro e he
    exact mem_map_of_mem (f := Prod.fst) he
  rw [queryProviderExecutionRecordFromSemanticValue, hfields, ok_bind, recordFromEntries_eq_ok h]

/-- The records of the summary are read back together if each of them is. -/
theorem mapM_recordFromSemanticValue_eq_ok
    (h : ∀ r ∈ records, r.WellFormed) {start : Nat} {results : List QueryProviderExecutionRecord} :
    (((records.map fun r => map (sortedEntries (recordEntries r (.map [])))).zipIdx
        start).mapM fun (value, index) =>
          queryProviderExecutionRecordFromSemanticValue value index) = .ok results ↔
      (∀ r ∈ records, 0 < r.recordedAtUnixNs) ∧ records = results := by
  induction records generalizing start results with
  | nil => simp [pure, Except.pure]
  | cons r records ih =>
    obtain ⟨hr, hrest⟩ := forall_mem_cons.mp h
    simp only [map_cons, zipIdx_cons, mapM_cons, bind_eq_ok,
      queryProviderExecutionRecordFromSemanticValue_eq_ok hr, ih hrest, forall_mem_cons]
    constructor
    · rintro ⟨_, ⟨hpos, rfl⟩, _, ⟨hall, rfl⟩, heq⟩
      exact ⟨⟨hpos, hall⟩, Except.ok.inj heq⟩
    · rintro ⟨⟨hpos, hall⟩, rfl⟩
      exact ⟨r, ⟨hpos, rfl⟩, records, ⟨hall, rfl⟩, rfl⟩

theorem mapM_recordToSemanticValue (h : ∀ r ∈ records, r.WellFormed) :
    records.mapM providerExecutionRecordToSemanticValue =
      .ok (records.map fun r => .map (sortedEntries (recordEntries r (.map [])))) := by
  induction records with
  | nil => rfl
  | cons r records ih =>
    obtain ⟨hr, hrest⟩ := forall_mem_cons.mp h
    rw [mapM_cons, providerExecutionRecordToSemanticValue_eq hr, ok_bind, ih hrest, ok_bind]
    rfl

end Records

/-! ## Summaries -/

theorem semanticNonEmptyString_eq_ok {value result : String} :
    semanticNonEmptyString (.str value) = .ok result ↔ value ≠ "" ∧ value = result := by
  rw [semanticNonEmptyString, semanticString_str, ok_bind]
  split_ifs with h
  · simp [h]
  · simp [h]

/-- A `u64` comes back from the signed integer if it is below its bound. -/
theorem semanticUsize_version {n : Nat} (h : n < 2 * i64Size) {result : Nat} :
    semanticUsize (semanticCount n) = .ok result ↔ n < i64Size ∧ n = result := by
  by_cases hn : n < i64Size
  · rw [semanticUsize_count hn]
    simp [hn]
  · have hneg : ¬ (0 : Int64) ≤ ofNat n := by
      have hint : (ofNat n).toInt = (n : Int) - 2 * i64Size := by
        have hsize : size = 2 * i64Size := rfl
        rw [toInt_ofNat', Int.bmod_def, hsize]
        push_cast
        rw [Int.emod_eq_of_lt (by omega) (by omega), if_neg (by omega)]
      rw [le_iff_toInt_le, hint, toInt_zero]
      omega
    rw [semanticCount, semanticUsize, if_neg hneg]
    simp [hn]

section Summary

variable {unit : CaapUnit} {step : QueryPlanStep} {phase : PhasePolicy}
  {records : List QueryProviderExecutionRecord} {tags : EffectSet} {writtenAt : Int64}
  {values : List SemanticValue}

theorem nodup_summaryEntries :
    ((summaryEntries unit step phase records tags writtenAt values).map Prod.fst).Nodup := by
  have hkeys : (summaryEntries unit step phase records tags writtenAt values).map Prod.fst =
      queryStageSummaryFields := rfl
  rw [hkeys]
  decide

theorem uniqueLabels_collectRecordStrings {selector : QueryProviderExecutionRecord → List String}
    (h : ∀ r ∈ records, UniqueLabels (selector r)) :
    UniqueLabels (collectRecordStrings records selector) := by
  refine uniqueLabels_sortDedup fun value hv => ?_
  obtain ⟨r, hr, hmem⟩ := mem_flatMap.mp hv
  exact (h r hr).nonempty value hmem

/-- The lists that the summary projects from the records, under their names. -/
def summaryProjections : List (String × (QueryProviderExecutionRecord → List String)) :=
  [("reads_subjects", (·.readsSubjects)), ("writes_subjects", (·.writesSubjects)),
    ("read_cells", (·.readCells)), ("write_cells", (·.writeCells)),
    ("reads_files", (·.readsFiles)), ("writes_files", (·.writesFiles))]

theorem uniqueLabels_projection (h : ∀ r ∈ records, r.WellFormed) :
    ∀ field ∈ summaryProjections, UniqueLabels (collectRecordStrings records field.2) := by
  simp only [summaryProjections, forall_mem_cons, not_mem_nil, false_imp_iff,
    implies_true, and_true]
  exact ⟨uniqueLabels_collectRecordStrings fun r hr => (h r hr).readsSubjects,
    uniqueLabels_collectRecordStrings fun r hr => (h r hr).writesSubjects,
    uniqueLabels_collectRecordStrings fun r hr => (h r hr).readCells,
    uniqueLabels_collectRecordStrings fun r hr => (h r hr).writeCells,
    uniqueLabels_collectRecordStrings fun r hr => (h r hr).readsFiles,
    uniqueLabels_collectRecordStrings fun r hr => (h r hr).writesFiles⟩

theorem mem_summaryEntries_projection : ∀ field ∈ summaryProjections,
    (field.1, semanticStringList (collectRecordStrings records field.2)) ∈
        summaryEntries unit step phase records tags writtenAt values := by
  simp [summaryProjections, summaryEntries]

/-- What a run of a stage gives for its summary. -/
structure SummaryOfRun (step : QueryPlanStep) (records : List QueryProviderExecutionRecord)
    (tags : EffectSet) : Prop where
  stage : step.stage ≠ ""
  names : UniqueLabels (collectRecordProviderNames records)
  length : records.length < i64Size
  valid : tags.Valid
  collect : ∀ label, collectRecordEffectTags records label = .ok tags
  wellFormed : ∀ r ∈ records, r.WellFormed
  stages : ∀ r ∈ records, r.stage = step.stage

-- the entries of the summary, as the decoder finds them
variable {entries : List (String × SemanticValue)}
  (hs : entries = sortedEntries (summaryEntries unit step phase records tags writtenAt values))

include hs

/-- A field of the summary is read back from the entries. -/
theorem summaryField
    (hmem : (key, value) ∈ summaryEntries unit step phase records tags writtenAt values) {α : Type}
    (decode : SemanticValue → Except String α) : requiredQueryStageSummaryField entries key decode =
      (decode value).mapError (queryStageSummaryFieldError key) := by
  rw [hs]
  exact requiredField_sorted nodup_summaryEntries hmem decode

theorem summaryField_eq_ok (key : String) {α : Type}
    {decode : SemanticValue → Except String α} {result : α} (hdecode : decode value = .ok result)
    (hmem : (key, value) ∈ summaryEntries unit step phase records tags writtenAt values := by
      simp [summaryEntries]) :
    requiredQueryStageSummaryField entries key decode = .ok result := by
  rw [summaryField hs hmem, hdecode]
  rfl

/-- What is read back under the name of a projection. -/
theorem summaryField_projection (h : ∀ r ∈ records, r.WellFormed)
    {field : String × (QueryProviderExecutionRecord → List String)}
    (hfield : field ∈ summaryProjections) :
    requiredQueryStageSummaryField entries field.1 semanticUniqueStringList =
      .ok (collectRecordStrings records field.2) :=
  summaryField_eq_ok hs field.1
    (semanticUniqueStringList_list (uniqueLabels_projection h field hfield))
    (mem_summaryEntries_projection field hfield)

theorem summaryField_effectTags (htags : tags.Valid) :
    requiredQueryStageSummaryField entries "effect_tags" semanticUniqueStringList = .ok tags.tags :=
  summaryField_eq_ok hs "effect_tags" (semanticUniqueStringList_list (uniqueLabels htags))
    (by simp [summaryEntries, semanticEffectSet])

theorem summaryField_providers (hnames : UniqueLabels (collectRecordProviderNames records)) :
    requiredQueryStageSummaryField entries "providers" semanticUniqueStringList =
      .ok (collectRecordProviderNames records) :=
  summaryField_eq_ok hs "providers" (semanticUniqueStringList_list hnames)

theorem summaryField_stage (hstage : step.stage ≠ "") :
    requiredQueryStageSummaryField entries "stage" semanticNonEmptyString = .ok step.stage :=
  summaryField_eq_ok hs "stage" (semanticNonEmptyString_eq_ok.mpr ⟨hstage, rfl⟩)

theorem summaryField_phase :
    requiredQueryStageSummaryField entries "phase" semanticPhasePolicy = .ok phase :=
  summaryField_eq_ok hs "phase" (semanticPhasePolicy_asStr phase)

/-- The fields of the summary of a run pass their checks if the unit has a name and a
    version that fits, and the time of writing is positive. -/
theorem validateQueryStageSummaryFields_eq_ok (hversion : unit.version < 2 * i64Size)
    (h : SummaryOfRun step records tags) : validateQueryStageSummaryFields entries = .ok () ↔
      unit.unitId ≠ "" ∧ unit.version < i64Size ∧ 0 < writtenAt := by
  have hcount : (collectRecordProviderNames records).length < i64Size := by
    rw [collectRecordProviderNames, length_map]
    exact h.length
  have hlists : checkAll (fun key => do
        let _ ← requiredQueryStageSummaryField entries key semanticUniqueStringList
        .ok ())
      ["effect_tags", "reads_subjects", "writes_subjects", "read_cells", "write_cells",
        "reads_files", "writes_files"] = .ok () := by
    rw [checkAll_eq_ok]
    intro key hkey
    rcases mem_cons.mp hkey with rfl | hkey
    · rw [summaryField_effectTags hs h.valid]
      rfl
    · obtain ⟨field, hfield, rfl⟩ : ∃ field ∈ summaryProjections, field.1 = key :=
        mem_map.mp hkey
      rw [summaryField_projection hs h.wellFormed hfield]
      rfl
  have hunit : ("unit", str unit.unitId) ∈
      summaryEntries unit step phase records tags writtenAt values := by simp [summaryEntries]
  have hversion' : ("unit_version", semanticCount unit.version) ∈
      summaryEntries unit step phase records tags writtenAt values := by simp [summaryEntries]
  have htime : ("cache_written_at_unix_ns", int writtenAt) ∈
      summaryEntries unit step phase records tags writtenAt values := by simp [summaryEntries]
  simp only [validateQueryStageSummaryFields, summaryField_stage hs h.stage, summaryField_phase hs,
    summaryField hs hunit, summaryField hs hversion', summaryField hs htime,
    summaryField_providers hs h.names,
    summaryField_eq_ok hs "provider_count" (semanticUsize_count hcount),
    summaryField_eq_ok hs "restarted" (semanticBool_bool step.restarted),
    summaryField_eq_ok hs "restart_target" (semanticOptionalString_optional step.restartTarget),
    summaryField_eq_ok hs "artifact_key" (semanticString_str _) (mem_of_getElem? (i := 16) rfl),
    summaryField_eq_ok hs "execution_summary" (semanticExecutionSummaryList_list values),
    hlists, ok_bind, ne_eq, not_true_eq_false, if_false, bind_eq_ok, mapError_eq_ok,
    semanticNonEmptyString_eq_ok, semanticUsize_version hversion, semanticPositiveI64_eq_ok]
  constructor
  · rintro ⟨_, ⟨hunit, -⟩, _, ⟨hversion, -⟩, _, ⟨htime, -⟩, -⟩
    exact ⟨hunit, hversion, htime⟩
  · rintro ⟨hunit, hversion, htime⟩
    exact ⟨_, ⟨hunit, rfl⟩, _, ⟨hversion, rfl⟩, _, ⟨htime, rfl⟩, trivial⟩

/-- The summary agrees with the records it was made of, but for the phase of the
    providers. -/
theorem validateQueryStageSummaryRecordConsistency_eq_ok (h : SummaryOfRun step records tags) :
    validateQueryStageSummaryRecordConsistency entries records = .ok () ↔
      ∀ r ∈ records, r.phasePolicy = phase := by
  have hany : (records.any fun record => record.stage != step.stage) = false := by
    rw [any_eq_false]
    intro r hr
    simp [h.stages r hr]
  have hprojections : checkAll (validateQueryStageSummaryStringProjection entries records)
      [("reads_subjects", (·.readsSubjects)), ("writes_subjects", (·.writesSubjects)),
        ("read_cells", (·.readCells)), ("write_cells", (·.writeCells)),
        ("reads_files", (·.readsFiles)), ("writes_files", (·.writesFiles))] = .ok () := by
    rw [checkAll_eq_ok]
    intro field hfield
    rw [validateQueryStageSummaryStringProjection,
      summaryField_projection hs h.wellFormed hfield, ok_bind, if_neg (not_not.mpr rfl)]
  have hprovided : ¬ collectRecordProviderNames records ≠ records.map (·.providerName) :=
    not_not.mpr rfl
  rw [validateQueryStageSummaryRecordConsistency, summaryField_stage hs h.stage, ok_bind, hany,
    if_neg Bool.false_ne_true, summaryField_phase hs, ok_bind, ite_error_eq_ok,
    summaryField_providers hs h.names, ok_bind, if_neg hprovided,
    summaryField_effectTags hs h.valid, ok_bind, h.collect, ok_bind, if_neg (not_not.mpr rfl),
    hprojections]
  simp

theorem validateQueryStageSummaryRequest_of_summary (hstage : step.stage ≠ "")
    (hunit : unit.unitId ≠ "") :
    validateQueryStageSummaryRequest entries ⟨step.stage, phase, unit.unitId⟩ = .ok () := by
  have hfield : requiredQueryStageSummaryField entries "unit" semanticNonEmptyString =
      .ok unit.unitId :=
    summaryField_eq_ok hs "unit" (semanticNonEmptyString_eq_ok.mpr ⟨hunit, rfl⟩)
  rw [validateQueryStageSummaryRequest, summaryField_stage hs hstage, ok_bind,
    if_neg (not_not.mpr rfl), summaryField_phase hs, ok_bind, if_neg (not_not.mpr rfl), hfield,
    ok_bind, if_neg (not_not.mpr rfl)]

/-- The time of writing, as `decode_cached_execution_records` checks it once more. -/
theorem checkWrittenAt_eq_ok : checkWrittenAt entries = .ok () ↔ 0 < writtenAt := by
  have hmem : ("cache_written_at_unix_ns", int writtenAt) ∈
      summaryEntries unit step phase records tags writtenAt values := by simp [summaryEntries]
  simp only [hs, checkWrittenAt, semanticMapGet_sorted nodup_summaryEntries hmem]
  exact ite_ok_eq_ok

theorem executionSummaryValues_of_summary : executionSummaryValues entries = .ok values := by
  have hmem : ("execution_summary", list values) ∈
      summaryEntries unit step phase records tags writtenAt values := by simp [summaryEntries]
  simp only [hs, executionSummaryValues, semanticMapGet_sorted nodup_summaryEntries hmem]

theorem rejectUnknownOrDuplicateQueryStageSummaryFields_of_summary :
    rejectUnknownOrDuplicateQueryStageSummaryFields entries = .ok () := by
  rw [hs]
  refine rejectUnknownOrDuplicate_sorted ?_ nodup_summaryEntries
  intro e he
  exact mem_map_of_mem (f := Prod.fst) he

end Summary

/-! ## Runs of a stage -/

section Runs

variable {registry : QueryProviderRegistry} {stage : String} {phase : PhasePolicy}
  {records : List QueryProviderExecutionRecord}

theorem StageRun.stage_ne (h : StageRun registry stage phase records) : stage ≠ "" := by
  rintro rfl
  have hcanonical := h.canonical
  rw [resolveStage] at hcanonical
  split_ifs at hcanonical
  obtain ⟨target, htarget, -⟩ := bind_eq_ok.mp hcanonical
  exact absurd htarget (by simp [normalizeStageName, trim])

theorem StageRun.wellFormed (h : StageRun registry stage phase records) :
    ∀ r ∈ records, r.WellFormed := by
  obtain ⟨-, -, -, -, providers, -, -, hrecords⟩ := h.scheduled
  intro r hr
  obtain ⟨p, -, -, hproduced⟩ := exists_of_forall₂_right hrecords hr
  exact hproduced.wellFormed

theorem StageRun.stage_eq (hregistry : registry.WellFormed)
    (h : StageRun registry stage phase records) : ∀ r ∈ records, r.stage = stage := by
  obtain ⟨_, _, _, schedule, providers, hschedule, hinitial, hrecords⟩ := h.scheduled
  obtain ⟨-, resolved, hresolved, hproviders⟩ := hregistry.schedule hschedule
  obtain rfl : resolved = stage := Except.ok.inj (hresolved.symm.trans h.canonical)
  intro r hr
  obtain ⟨p, hp, -, hproduced⟩ := exists_of_forall₂_right hrecords hr
  rw [hproduced.identity.2.1]
  exact (hproviders p (hinitial.subset hp)).2

theorem StageRun.names (hregistry : registry.WellFormed)
    (h : StageRun registry stage phase records) :
    UniqueLabels (collectRecordProviderNames records) := by
  obtain ⟨_, _, _, schedule, providers, hschedule, hinitial, hrecords⟩ := h.scheduled
  obtain ⟨hnodup, _, -, hproviders⟩ := hregistry.schedule hschedule
  have hnames : collectRecordProviderNames records = providers.map QueryProvider.name := by
    rw [collectRecordProviderNames, ← forall₂_eq_eq_eq, forall₂_map_left_iff,
      forall₂_map_right_iff]
    exact hrecords.flip.imp fun r p hrp => hrp.2.identity.1
  rw [hnames]
  refine ⟨hnodup.sublist (hinitial.sublist.map _), fun name hname => ?_⟩
  obtain ⟨p, hp, rfl⟩ := mem_map.mp hname
  exact (hproviders p (hinitial.subset hp)).1.name

end Runs

/-- The effect tags of well-formed records are collected without a complaint. -/
theorem collectRecordEffectTags_eq (h : ∀ r ∈ records, r.WellFormed) :
    ∃ tags : EffectSet, tags.Valid ∧ ∀ label, collectRecordEffectTags records label = .ok tags := by
  have hvalid : ∀ tag ∈ records.flatMap (·.effectTags.tags), validateEffectPolicyTag tag = .ok () := by
    intro tag htag
    obtain ⟨r, hr, hmem⟩ := mem_flatMap.mp htag
    exact (h r hr).effectTags tag hmem
  refine ⟨ofTags (records.flatMap (·.effectTags.tags)), ?_, fun label => ?_⟩
  · intro tag htag
    exact hvalid tag (mem_ofTags.mp htag)
  · have hcheck : checkAll (checkTag label) (records.flatMap (·.effectTags.tags)) =
        .ok () :=
      checkAll_eq_ok.mpr fun tag htag => checkTag_eq_ok.mpr (hvalid tag htag)
    rw [collectRecordEffectTags, fromStringSet, hcheck]
    rfl

section Replay

variable {unit : CaapUnit} {step : QueryPlanStep} {phase : PhasePolicy}
  {records : List QueryProviderExecutionRecord} {tags : EffectSet} {writtenAt : Int64}

theorem mapEntries_summary {values : List SemanticValue} (hvalues : ∀ v ∈ values, v.Valid) :
    MapEntries (summaryEntries unit step phase records tags writtenAt values) where
  keys e he hempty := by
    have hkey : e.1 ∈ queryStageSummaryFields := mem_map_of_mem (f := Prod.fst) he
    rw [hempty] at hkey
    exact absurd hkey (by decide)
  nodup := nodup_summaryEntries
  values := by
    have hlist : (list values).Valid := validateList_of_forall hvalues
    simp only [summaryEntries, forall_mem_cons, not_mem_nil, false_imp_iff, implies_true,
      semanticEffectSet, valid_semanticStringList, valid_optionalSemanticString, and_true, true_and,
      semanticCount, hlist]
    exact ⟨rfl, rfl, rfl, rfl, rfl, rfl, rfl, rfl⟩

/-- The summary of a run, with the records as it holds them. -/
abbrev summaryOf (unit : CaapUnit) (step : QueryPlanStep) (phase : PhasePolicy)
    (records : List QueryProviderExecutionRecord) (tags : EffectSet) (writtenAt : Int64) :
    List (String × SemanticValue) :=
  sortedEntries (summaryEntries unit step phase records tags writtenAt
    (records.map fun r => .map (sortedEntries (recordEntries r (.map [])))))

variable {clock : Int}

/-- The artifact of a run is written if the clock can be. -/
theorem queryStageArtifactValue_eq
    (hcollect : ∀ label, collectRecordEffectTags records label = .ok tags)
    (hrecords : ∀ r ∈ records, r.WellFormed) :
    queryStageArtifactValue clock unit step phase records = (do
      let writtenAt ← currentUnixNs clock
      .ok ⟨.map (summaryOf unit step phase records tags writtenAt), unit.toTemplate⟩) := by
  have hvalues : ∀ v ∈ records.map fun r =>
      map (sortedEntries (recordEntries r (.map []))), v.Valid := by
    intro v hv
    obtain ⟨r, -, rfl⟩ := mem_map.mp hv
    exact (mapEntries_record r).sorted.valid
  simp only [queryStageArtifactValue, hcollect, ok_bind, mapM_recordToSemanticValue hrecords,
    (mapEntries_summary hvalues).ofEntries]

/-- The artifact of a run gives back its records if its time is positive, the unit has a
    name and a version that fits, and every record has a positive time and the phase of the
    stage. -/
theorem cachedExecutionRecordsForRequest_eq_ok (hversion : unit.version < 2 * i64Size)
    (h : SummaryOfRun step records tags) {template : UnitTemplate} :
    cachedExecutionRecordsForRequest
        (.queryStage ⟨.map (summaryOf unit step phase records tags writtenAt), template⟩)
        ⟨step.stage, phase, unit.unitId⟩ = .ok records ↔
      0 < writtenAt ∧ unit.unitId ≠ "" ∧ unit.version < i64Size ∧
        ∀ r ∈ records, r.phasePolicy = phase ∧ 0 < r.recordedAtUnixNs := by
  obtain ⟨entries, hs⟩ : ∃ entries, entries = summaryOf unit step phase records tags writtenAt :=
    ⟨_, rfl⟩
  have hentries : queryStageSummaryEntries (.queryStage ⟨.map entries, template⟩) = .ok entries :=
    rfl
  have hfields := validateQueryStageSummaryFields_eq_ok hs hversion h
  have hconsistency := validateQueryStageSummaryRecordConsistency_eq_ok hs h
  rw [← hs, cachedExecutionRecordsForRequest, decodeCachedExecutionRecords, hentries, ok_bind,
    rejectUnknownOrDuplicateQueryStageSummaryFields_of_summary hs, ok_bind,
    executionSummaryValues_of_summary hs, ok_bind]
  constructor
  · intro hok
    obtain ⟨⟨entries, results⟩, hdecode, hrequest⟩ := bind_eq_ok.mp hok
    obtain ⟨hwritten, hdecode⟩ := check_bind_eq_ok.mp hdecode
    obtain ⟨hvalid, hdecode⟩ := check_bind_eq_ok.mp hdecode
    obtain ⟨results', hmap, hdecode⟩ := bind_eq_ok.mp hdecode
    obtain ⟨htimes, rfl⟩ := (mapM_recordFromSemanticValue_eq_ok h.wellFormed).mp hmap
    obtain ⟨hphases, -⟩ := check_bind_eq_ok.mp hdecode
    obtain ⟨hunit, hsmall, -⟩ := hfields.mp hvalid
    have hphases := hconsistency.mp hphases
    exact ⟨(checkWrittenAt_eq_ok hs).mp hwritten, hunit, hsmall,
      fun r hr => ⟨hphases r hr, htimes r hr⟩⟩
  · rintro ⟨hwritten, hunit, hsmall, hall⟩
    rw [(checkWrittenAt_eq_ok hs).mpr hwritten, ok_bind, hfields.mpr ⟨hunit, hsmall, hwritten⟩,
      ok_bind, (mapM_recordFromSemanticValue_eq_ok h.wellFormed).mpr
        ⟨fun r hr => (hall r hr).2, rfl⟩, ok_bind,
      hconsistency.mpr fun r hr => (hall r hr).1, ok_bind, ok_bind]
    show (do
      validateQueryStageSummaryRequest entries ⟨step.stage, phase, unit.unitId⟩
      .ok records) = _
    rw [validateQueryStageSummaryRequest_of_summary hs h.stage hunit, ok_bind]

theorem currentUnixNs_eq_ok {now : Int64} :
    currentUnixNs clock = .ok now ↔ 0 ≤ clock ∧ clock < i64Size ∧ now = ofInt clock := by
  unfold currentUnixNs
  split_ifs with hneg hsmall
  · simp only [false_iff]
    omega
  · have hclock : 0 ≤ clock := by omega
    simp only [Except.ok.injEq, hclock, hsmall, true_and]
    exact eq_comm
  · simp [hsmall]

theorem ofInt_pos (hnonneg : 0 ≤ clock) (hsmall : clock < i64Size) :
    0 < ofInt clock ↔ 0 < clock := by
  have hint : (ofInt clock).toInt = clock := by
    apply toInt_ofInt_of_le
    · omega
    · have : (i64Size : Int) = 2 ^ 63 := rfl
      omega
  rw [lt_iff_toInt_lt, hint, toInt_zero]

end Replay

/-- A stored stage decodes to the records that were executed exactly if its providers are
    all for the one phase of the stage, the times are positive and the unit's version fits
    into a signed integer.  A provider for both phases may run in the stage
    (`StageRun.scheduled`), and then the artifact is refused. -/
theorem cachedExecutionRecords_iff (calls : List QueryProviderRegistry.Call) (unit : CaapUnit)
    (step : QueryPlanStep) (phase : PhasePolicy) (records : List QueryProviderExecutionRecord)
    (clock : Int) (hversion : unit.version < 2 * i64Size)
    (hrun : StageRun (run QueryProviderRegistry.step QueryProviderRegistry.new calls) step.stage
      phase records) : (queryStageArtifactValue clock unit step phase records >>= fun value =>
        cachedExecutionRecordsForRequest (.queryStage value) ⟨step.stage, phase, unit.unitId⟩) =
          .ok records ↔
      (0 < clock ∧ clock < i64Size) ∧ (unit.unitId ≠ "" ∧ unit.version < i64Size) ∧
        ∀ r ∈ records, r.phasePolicy = phase ∧ 0 < r.recordedAtUnixNs := by
  have hregistry := QueryProviderRegistry.wellFormed_run calls
  obtain ⟨tags, htags, hcollect⟩ := collectRecordEffectTags_eq hrun.wellFormed
  have hdecode (writtenAt : Int64) (template : UnitTemplate) :
      cachedExecutionRecordsForRequest
        (.queryStage ⟨.map (summaryOf unit step phase records tags writtenAt), template⟩)
        ⟨step.stage, phase, unit.unitId⟩ = .ok records ↔ _ :=
    cachedExecutionRecordsForRequest_eq_ok hversion ⟨hrun.stage_ne, hrun.names hregistry,
      hrun.length, htags, hcollect, hrun.wellFormed, hrun.stage_eq hregistry⟩
  rw [queryStageArtifactValue_eq hcollect hrun.wellFormed]
  constructor
  · intro h
    obtain ⟨value, hvalue, hrecords⟩ := bind_eq_ok.mp h
    obtain ⟨now, hnow, hvalue⟩ := bind_eq_ok.mp hvalue
    obtain rfl := Except.ok.inj hvalue
    obtain ⟨hnonneg, hsmall, rfl⟩ := currentUnixNs_eq_ok.mp hnow
    obtain ⟨hpos, hunit, hfits, hall⟩ := (hdecode _ _).mp hrecords
    exact ⟨⟨(ofInt_pos hnonneg hsmall).mp hpos, hsmall⟩, ⟨hunit, hfits⟩, hall⟩
  · rintro ⟨⟨hpos, hsmall⟩, ⟨hunit, hfits⟩, hall⟩
    rw [currentUnixNs_eq_ok.mpr ⟨hpos.le, hsmall, rfl⟩, ok_bind, ok_bind]
    exact (hdecode _ _).mpr ⟨(ofInt_pos hpos.le hsmall).mpr hpos, hunit, hfits, hall⟩

/-! ## One provider -/

/-- A registry with the one stage `check` and the one provider `lint` for it. -/
def lintCalls (policy : PhasePolicy) : List QueryProviderRegistry.Call :=
  [.registerStage ⟨"check", [], .dual, [], none, [], none⟩,
    .registerProvider "lint" "check" policy [] 0]

/-- The provider as it is registered. -/
def lintProvider (policy : PhasePolicy) : QueryProvider :=
  .registered "lint" "check" policy .empty 0 0

/-- A run of the provider that changes nothing. -/
def lintInput (policy : PhasePolicy) : ProviderExecutionRecordInput where
  provider := lintProvider policy
  iteration := 0
  changed := false
  diagnosticsEmitted := 0
  rolledBack := false
  stoppedByError := false
  outcomeKind := "ok"
  diagnosticCodes := []
  irChange := ⟨0, 0, [], []⟩
  attributesChanged := false
  restartStage := none
  context := none

def lintStep : QueryPlanStep := ⟨"check", ["lint"], .empty, false, none, false, none⟩

/-- The unit of the run. -/
def lintUnit : CaapUnit where
  unitId := "main"
  ir := IRGraph.new
  semantics := UnifiedSemanticGraph.new
  linkBindings := []
  attributes := ∅
  syntaxState := ⟨"ir", none, none, 0, ∅, ∅, ∅⟩
  lifecycleEvents := []
  erasedRewriteTombstones := ∅
  stableId := ⟨"unit:main", by decide⟩
  rewriteGeneration := 0
  version := 0

theorem mem_lintCalls (policy : PhasePolicy) : (run step new (lintCalls policy)).providers =
      [lintProvider policy] := by
  cases policy <;> decide

theorem lintSchedule (policy : PhasePolicy) : (run step new
    (lintCalls policy)).providerScheduleForStage "check" [] ∅ ∅ =
      .ok ⟨[[lintProvider policy]], [none]⟩ := by
  cases policy <;> decide

theorem lintStage (policy : PhasePolicy) : (run step new
    (lintCalls policy)).resolveStage "check" = .ok "check" := by
  cases policy <;> decide

/-- The record of the run, made at the first nanosecond. -/
def lintRecord (policy : PhasePolicy) : QueryProviderExecutionRecord :=
  ⟨1, "lint", "check", none, policy, .empty, [], [], [], [], [], [], [], [], [], [], [], [], [],
    (lintProvider policy).cacheScope, (lintProvider policy).resumePolicy, 0, false, 0, false, false,
    "ok", [], 0, 0, [], [], false, none, []⟩

theorem lintRun {policy phase : PhasePolicy} (hphase : policy = .dual ∨ policy = phase) :
    StageRun (run step new (lintCalls policy)) "check" phase [lintRecord policy] := by
  have hregistered : (lintProvider policy).IsRegistered :=
    ⟨lintCalls policy, by rw [mem_lintCalls]; exact mem_singleton.mpr rfl⟩
  have hrecord : providerExecutionRecord 1 (lintInput policy) = .ok (lintRecord policy) := by
    cases policy <;> decide
  have hchange : (⟨0, 0, [], []⟩ : ProviderIrChangeStats) = providerIrChangeStats [] lintUnit := by
    decide
  have hzero : 0 < i64Size := by decide
  have hproduced : ProducedRecord (lintProvider policy) (lintRecord policy) :=
    .executed (lintInput policy) 1 _ hregistered (fun c hc => nomatch hc)
      ⟨[], lintUnit, hchange⟩ hzero hzero hzero hzero hrecord
  exact
    { canonical := lintStage policy
      scheduled := ⟨[], ∅, ∅, _, [lintProvider policy], lintSchedule policy, prefix_refl _,
        .cons ⟨hphase, hproduced⟩ .nil⟩
      length := show 1 < i64Size by decide }

/-- A provider for the phase of the stage: the record is read back. -/
theorem cachedExecutionRecords_compileTime :
    (queryStageArtifactValue 1 lintUnit lintStep .compileTime [lintRecord .compileTime] >>=
        fun value => cachedExecutionRecordsForRequest (.queryStage value)
          ⟨"check", .compileTime, "main"⟩) = .ok [lintRecord .compileTime] :=
  (cachedExecutionRecords_iff (lintCalls .compileTime) lintUnit lintStep .compileTime
    [lintRecord .compileTime] 1 (by decide) (lintRun (.inr rfl))).mpr
      ⟨by decide, by decide, by decide⟩

/-- A provider for both phases: the artifact is written, and refused when it is read. -/
theorem cachedExecutionRecords_dual :
    StageRun (run QueryProviderRegistry.step QueryProviderRegistry.new (lintCalls .dual)) "check"
        .compileTime [lintRecord .dual] ∧
      (queryStageArtifactValue 1 lintUnit lintStep .compileTime [lintRecord .dual]).isOk = true ∧
      (queryStageArtifactValue 1 lintUnit lintStep .compileTime [lintRecord .dual] >>=
        fun value => cachedExecutionRecordsForRequest (.queryStage value)
          ⟨"check", .compileTime, "main"⟩) =
        .error (.compiler ("cached query stage artifact summary field 'phase' must be " ++
          "consistent with all execution_summary phase policies")) :=
  ⟨lintRun (.inl rfl), by decide, by decide⟩

end Caap
