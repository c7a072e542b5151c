/-
  Caap.Query.Record

  The record a query keeps of each provider it ran (`QueryProviderExecutionRecord` of
  `compiler/query_provider_types.rs`), and the three ways it gets there: a provider that
  was executed, one whose cached result was reused, and the cache entry in between
  (`query_service/cache.rs`).

  What providers read and write is tracked in the active context.  Tracking only adds
  texts that are not there yet, and none that is empty (`ProducedRecord.wellFormed`).
-/

import Caap.Query.IrChange
import Caap.Query.Registry
import Caap.Query.WriteTracking

namespace Caap

open Std Lib List QueryProviderContext

/-- `DiagnosticSeverity`. -/
inductive DiagnosticSeverity where
  | error | warning | note | hint
  deriving DecidableEq, Repr

/-- `Diagnostic`, with the fields a query reads. -/
structure Diagnostic where
  severity : DiagnosticSeverity
  message : String
  code : Option String
  deriving DecidableEq, Repr

/-- `QueryProviderExecutionRecord`. -/
structure QueryProviderExecutionRecord where
  recordedAtUnixNs : Int64
  providerName : String
  stage : String
  family : Option String
  phasePolicy : PhasePolicy
  effectTags : EffectSet
  requires : List String
  requiresData : List String
  providesData : List String
  provides : List String
  reads : List String
  writes : List String
  readsSubjects : List String
  writesSubjects : List String
  readCells : List String
  writeCells : List String
  readsFiles : List String
  writesFiles : List String
  artifactDependencies : List ArtifactKey
  cacheScope : QueryProviderCacheScope
  resumePolicy : QueryProviderResumePolicy
  iteration : Nat
  changed : Bool
  diagnosticsEmitted : Nat
  rolledBack : Bool
  stoppedByError : Bool
  outcomeKind : String
  diagnosticCodes : List String
  rewriteCount : Nat
  erasedCount : Nat
  touchedNodeKinds : List String
  changeDomains : List String
  restartRequested : Bool
  restartStage : Option String
  outcomeSummary : List (String × String)
  deriving DecidableEq

/-! ## Execution -/

/-- `current_unix_ns`, of a clock that shows `clock` nanoseconds since the epoch. -/
def currentUnixNs (clock : Int) : CaapResult Int64 :=
  if clock < 0 then
    .error (.compiler "system clock is before UNIX epoch; cannot timestamp query execution")
  else if clock < i64Size then .ok (Int64.ofInt clock)
  else .error (.compiler "system clock timestamp exceeds semantic integer range")

/-- `collect_record_strings`. -/
def collectRecordStrings (records : List QueryProviderExecutionRecord)
    (selector : QueryProviderExecutionRecord → List String) : List String :=
  sortDedup (records.flatMap selector)

/-- `merge_runtime_tracking`. -/
def mergeRuntimeTracking (staticValues : List String) (context : Option QueryProviderContext)
    (selector : QueryProviderContext → List String) : List String :=
  match context with
  | some context => extendUnique staticValues (selector context)
  | none => sortDedup staticValues

/-- `ProviderExecutionRecordInput`. -/
structure ProviderExecutionRecordInput where
  provider : QueryProvider
  iteration : Nat
  changed : Bool
  diagnosticsEmitted : Nat
  rolledBack : Bool
  stoppedByError : Bool
  outcomeKind : String
  diagnosticCodes : List String
  irChange : ProviderIrChangeStats
  attributesChanged : Bool
  restartStage : Option String
  context : Option QueryProviderContext

/-- A write of the unit itself, when something of it changed in the context of a provider. -/
def pushUnitChange (happened : Bool) (context : Option QueryProviderContext) (predicate : String)
    (writes : WriteTracking) : WriteTracking :=
  match happened, context with
  | true, some context =>
    let writes := writes.pushUnitWrite context.unitId predicate
    { writesSubjects := sortDedup writes.writesSubjects
      writeCells := sortDedup writes.writeCells }
  | _, _ => writes

/-- `provider_execution_record`. -/
def providerExecutionRecord (clock : Int) (input : ProviderExecutionRecordInput) :
    CaapResult QueryProviderExecutionRecord := do
  let provider := input.provider
  let context := input.context
  let writes : WriteTracking :=
    { writesSubjects := mergeRuntimeTracking provider.writes context (·.writesSubjects)
      writeCells := mergeRuntimeTracking provider.writes context (·.writeCells) }
  let writes := pushUnitChange input.irChange.hasIrChange context "ir" writes
  let writes := pushUnitChange input.attributesChanged context "attributes" writes
  let recordedAtUnixNs ← currentUnixNs clock
  .ok
    { recordedAtUnixNs := recordedAtUnixNs
      providerName := provider.name
      stage := provider.stage
      family := provider.family
      phasePolicy := provider.phasePolicy
      effectTags := provider.effectTags
      requires := provider.requires
      requiresData := provider.requiresData
      providesData := provider.providesData
      provides := provider.provides
      reads := provider.reads
      writes := provider.writes
      readsSubjects := mergeRuntimeTracking provider.reads context (·.readsSubjects)
      writesSubjects := writes.writesSubjects
      readCells := mergeRuntimeTracking provider.reads context (·.readCells)
      writeCells := writes.writeCells
      readsFiles := (context.map (·.readsFiles)).getD []
      writesFiles := (context.map (·.writesFiles)).getD []
      artifactDependencies := (context.map (·.artifactDependencies)).getD []
      cacheScope := provider.cacheScope
      resumePolicy := provider.resumePolicy
      iteration := input.iteration
      changed := input.changed
      diagnosticsEmitted := input.diagnosticsEmitted
      rolledBack := input.rolledBack
      stoppedByError := input.stoppedByError
      outcomeKind := input.outcomeKind
      diagnosticCodes := input.diagnosticCodes
      rewriteCount := input.irChange.rewriteCount
      erasedCount := input.irChange.erasedCount
      touchedNodeKinds := input.irChange.touchedNodeKinds
      changeDomains := input.irChange.changeDomains
      restartRequested := input.restartStage.isSome
      restartStage := input.restartStage
      outcomeSummary := [] }

/-! ## Cached results -/

/-- `ProviderCacheEntry`. -/
structure ProviderCacheEntry where
  recordedAtUnixNs : Int64
  snapshot : Option UnitSnapshot
  diagnostics : List Diagnostic
  readsSubjects : List String
  writesSubjects : List String
  readCells : List String
  writeCells : List String
  readsFiles : List String
  writesFiles : List String
  artifactDependencies : List ArtifactKey
  dynamicRequires : List String
  changed : Bool
  restartRequested : Bool
  restartStage : Option String

/-- `ProviderTransactionMode`. -/
inductive ProviderTransactionMode where
  | none | semantic | attributes | unit
  deriving DecidableEq, Repr

/-- `provider_transaction_mode`. -/
def providerTransactionMode (provider : QueryProvider) : ProviderTransactionMode :=
  let unitWrites := sortDedup
    (provider.writes.filter fun domain => ["ir", "attributes", "facts", "symbols"].contains domain)
  if unitWrites.isEmpty then .none
  else if unitWrites.all fun domain => ["facts", "symbols"].contains domain then .semantic
  else if unitWrites = ["attributes"] then .attributes
  else .unit

/-- `provider_cacheable`. -/
def providerCacheable (provider : QueryProvider) : Bool :=
  provider.cacheScope.isCacheable
    && !provider.reads.contains "files"
    && !provider.effectTags.containsBuiltin .emitEvents
    && !provider.effectTags.containsBuiltin .useHostServices
    && !provider.effectTags.containsBuiltin .hostServices
    && !provider.effectTags.containsBuiltin .readFiles
    && !provider.effectTags.containsBuiltin .useFiles

/-- `provider_cache_entry`. -/
def providerCacheEntry (unit : CaapUnit) (provider : QueryProvider)
    (record : QueryProviderExecutionRecord) (diagnostics : List Diagnostic)
    (dynamicRequires : List String) : Option ProviderCacheEntry :=
  if !providerCacheable provider || record.stoppedByError || record.rolledBack then none
  else
    some
      { recordedAtUnixNs := record.recordedAtUnixNs
        snapshot :=
          if record.changed && providerTransactionMode provider != .none then some unit.snapshot
          else none
        diagnostics := diagnostics
        readsSubjects := record.readsSubjects
        writesSubjects := record.writesSubjects
        readCells := record.readCells
        writeCells := record.writeCells
        readsFiles := record.readsFiles
        writesFiles := record.writesFiles
        artifactDependencies := record.artifactDependencies
        dynamicRequires := dynamicRequires
        changed := record.changed
        restartRequested := record.restartRequested
        restartStage := record.restartStage }

/-- `cached_provider_execution_record`. -/
def cachedProviderExecutionRecord (provider : QueryProvider) (iteration : Nat)
    (entry : ProviderCacheEntry) : QueryProviderExecutionRecord :=
  { recordedAtUnixNs := entry.recordedAtUnixNs
    providerName := provider.name
    stage := provider.stage
    family := provider.family
    phasePolicy := provider.phasePolicy
    effectTags := provider.effectTags
    requires := provider.requires
    requiresData := provider.requiresData
    providesData := provider.providesData
    provides := provider.provides
    reads := provider.reads
    writes := provider.writes
    readsSubjects := entry.readsSubjects
    writesSubjects := entry.writesSubjects
    readCells := entry.readCells
    writeCells := entry.writeCells
    readsFiles := entry.readsFiles
    writesFiles := entry.writesFiles
    artifactDependencies := entry.artifactDependencies
    cacheScope := provider.cacheScope
    resumePolicy := provider.resumePolicy
    iteration := iteration
    changed := entry.changed
    diagnosticsEmitted := entry.diagnostics.length
    rolledBack := false
    stoppedByError := false
    outcomeKind := "cached"
    diagnosticCodes := entry.diagnostics.filterMap (·.code)
    rewriteCount := 0
    erasedCount := 0
    touchedNodeKinds := []
    changeDomains := []
    restartRequested := entry.restartRequested
    restartStage := entry.restartStage
    outcomeSummary := [] }

/-! ## Tracking -/

/-- The context a provider starts in. -/
def QueryProviderContext.start (provider : QueryProvider) (phase : PhasePolicy) (unitId : String)
    (initialBindings : List (String × InitialValue)) : QueryProviderContext :=
  { provider := provider.name
    stage := provider.stage
    family := provider.family
    phase := phase
    unitId := unitId
    effectTags := provider.effectTags
    initialBindings := initialBindings
    registrationIndex := provider.registrationIndex
    readsSubjects := []
    writesSubjects := []
    readCells := []
    writeCells := []
    readsFiles := []
    writesFiles := []
    artifactDependencies := [] }

/-- `extend_unique_artifact_keys`. -/
def extendUniqueArtifactKeys (target values : List ArtifactKey) : List ArtifactKey :=
  sort (values.foldl (fun target value => if value ∈ target then target else target ++ [value])
    target)

/-- What is tracked while a provider runs. -/
inductive TrackingEvent where
  | readCell (subject : SemanticSubjectId) (predicate : String)
  | writeCell (subject : SemanticSubjectId) (predicate : String)
  | readFile (path : String)
  | writeFile (path : String)
  | nestedQuery (records : List QueryProviderExecutionRecord) (key : ArtifactKey)
      (dependencies : List ArtifactKey)

/-- The context after an event: `track_active_unit_cell`, `track_subject_read`,
    `track_subject_write`, `track_file_read`, `track_file_write` and
    `note_nested_query_artifact_dependency`. -/
def QueryProviderContext.track (c : QueryProviderContext) : TrackingEvent → QueryProviderContext
  | .readCell subject predicate =>
    let subject := semanticSubjectTrackingKey subject
    { c with
      readsSubjects := extendUnique c.readsSubjects [subject]
      readCells := extendUnique c.readCells [semanticCellTrackingKey subject predicate] }
  | .writeCell subject predicate =>
    let subject := semanticSubjectTrackingKey subject
    { c with
      writesSubjects := extendUnique c.writesSubjects [subject]
      writeCells := extendUnique c.writeCells [semanticCellTrackingKey subject predicate] }
  | .readFile path =>
    if path = "" then c else { c with readsFiles := extendUnique c.readsFiles [path] }
  | .writeFile path =>
    if path = "" then c else { c with writesFiles := extendUnique c.writesFiles [path] }
  | .nestedQuery records key dependencies =>
    { c with
      readsSubjects := extendUnique c.readsSubjects (collectRecordStrings records (·.readsSubjects))
      readCells := extendUnique c.readCells (collectRecordStrings records (·.readCells))
      readsFiles := extendUnique c.readsFiles (collectRecordStrings records (·.readsFiles))
      artifactDependencies :=
        extendUniqueArtifactKeys c.artifactDependencies (key :: dependencies) }

/-- The provider belongs to a registry. -/
def QueryProvider.IsRegistered (p : QueryProvider) : Prop :=
  ∃ calls : List QueryProviderRegistry.Call,
    p ∈ (run QueryProviderRegistry.step QueryProviderRegistry.new calls).providers

theorem QueryProvider.IsRegistered.wellFormed {p : QueryProvider} (h : p.IsRegistered) :
    p.WellFormed := by
  obtain ⟨calls, hmem⟩ := h
  exact (QueryProviderRegistry.wellFormed_run calls).providers p hmem

mutual

/-- The contexts that a provider's callback can leave. -/
inductive TrackedContext : QueryProviderContext → Prop
  | start (provider : QueryProvider) (phase : PhasePolicy) (unitId : String)
      (initialBindings : List (String × InitialValue)) :
      TrackedContext (.start provider phase unitId initialBindings)
  | track (c : QueryProviderContext) (event : TrackingEvent)
      (providerOf : QueryProviderExecutionRecord → QueryProvider) (hc : TrackedContext c)
      (hnested : ∀ records key dependencies, event = .nestedQuery records key dependencies →
        ∀ record ∈ records, ProducedRecord (providerOf record) record) :
      TrackedContext (c.track event)
  | merge (c c' : QueryProviderContext) (before after : UnifiedSemanticGraphSnapshot)
      (hc : TrackedContext c) (h : mergeSemanticWriteTracking (some c) before after = some c') :
      TrackedContext c'

/-- The records that `query_inner` makes of a provider.  The counts are lengths of vectors,
    which hold less than `i64::MAX` elements. -/
inductive ProducedRecord : QueryProvider → QueryProviderExecutionRecord → Prop
  | executed (input : ProviderExecutionRecordInput) (clock : Int)
      (record : QueryProviderExecutionRecord) (hprovider : input.provider.IsRegistered)
      (hcontext : ∀ c, input.context = some c → TrackedContext c)
      (hir : ∃ nodes unit, input.irChange = providerIrChangeStats nodes unit)
      (hiteration : input.iteration < i64Size) (hdiagnostics : input.diagnosticsEmitted < i64Size)
      (hrewrites : input.irChange.rewriteCount < i64Size)
      (herased : input.irChange.erasedCount < i64Size)
      (h : providerExecutionRecord clock input = .ok record) : ProducedRecord input.provider record
  | cached (provider first : QueryProvider) (iteration : Nat) (unit : CaapUnit)
      (record : QueryProviderExecutionRecord) (diagnostics : List Diagnostic)
      (dynamicRequires : List String) (entry : ProviderCacheEntry)
      (hprovider : provider.IsRegistered) (hrecord : ProducedRecord first record)
      (hiteration : iteration < i64Size) (hdiagnostics : diagnostics.length < i64Size)
      (h : providerCacheEntry unit first record diagnostics dynamicRequires = some entry) :
      ProducedRecord provider (cachedProviderExecutionRecord provider iteration entry)

end

/-! ## Records are well formed -/

/-- What tracking keeps. -/
structure QueryProviderContext.Tracked (c : QueryProviderContext) : Prop where
  readsSubjects : UniqueLabels c.readsSubjects
  writesSubjects : UniqueLabels c.writesSubjects
  readCells : UniqueLabels c.readCells
  writeCells : UniqueLabels c.writeCells
  readsFiles : UniqueLabels c.readsFiles
  writesFiles : UniqueLabels c.writesFiles
  artifactDependencies : c.artifactDependencies.Nodup

/-- What holds of every record: its lists hold non-empty texts once, its effect tags are
    valid, its counts fit into a signed integer, and it has no outcome summary. -/
structure QueryProviderExecutionRecord.WellFormed (r : QueryProviderExecutionRecord) : Prop where
  effectTags : r.effectTags.Valid
  requires : UniqueLabels r.requires
  requiresData : UniqueLabels r.requiresData
  providesData : UniqueLabels r.providesData
  provides : UniqueLabels r.provides
  reads : UniqueLabels r.reads
  writes : UniqueLabels r.writes
  readsSubjects : UniqueLabels r.readsSubjects
  writesSubjects : UniqueLabels r.writesSubjects
  readCells : UniqueLabels r.readCells
  writeCells : UniqueLabels r.writeCells
  readsFiles : UniqueLabels r.readsFiles
  writesFiles : UniqueLabels r.writesFiles
  artifactDependencies : r.artifactDependencies.Nodup
  iteration : r.iteration < i64Size
  diagnosticsEmitted : r.diagnosticsEmitted < i64Size
  rewriteCount : r.rewriteCount < i64Size
  erasedCount : r.erasedCount < i64Size
  touchedNodeKinds : UniqueLabels r.touchedNodeKinds
  changeDomains : UniqueLabels r.changeDomains
  outcomeSummary : r.outcomeSummary = []

theorem uniqueLabels_sortDedup {values : List String} (h : ∀ value ∈ values, value ≠ "") :
    UniqueLabels (sortDedup values) :=
  ⟨(pairwise_sortDedup values).imp ne_of_ordLt, fun value hv => h value (mem_sortDedup.mp hv)⟩

theorem nodup_pushUnique {target : List String} {value : String} (h : target.Nodup) :
    (pushUnique target value).Nodup := by
  unfold pushUnique
  split_ifs with hmem
  · exact h
  · exact nodup_append'.mpr ⟨h, nodup_singleton _, by simpa using hmem⟩

theorem UniqueLabels.extendUnique {target values : List String} (h : UniqueLabels target)
    (hvalues : ∀ value ∈ values, value ≠ "") : UniqueLabels (extendUnique target values) := by
  refine ⟨?_, fun value hv => ?_⟩
  · refine (perm_insertionSort _ _).nodup_iff.mpr ?_
    exact foldlRecOn values pushUnique h.nodup fun target ht value _ => nodup_pushUnique ht
  · rcases mem_extendUnique.mp hv with hold | hnew
    · exact h.nonempty value hold
    · exact hvalues value hnew

theorem nodup_extendUniqueArtifactKeys {target values : List ArtifactKey} (h : target.Nodup) :
    (extendUniqueArtifactKeys target values).Nodup := by
  refine (perm_insertionSort _ _).nodup_iff.mpr ?_
  refine foldlRecOn values _ h fun target ht value _ => ?_
  split_ifs with hmem
  · exact ht
  · exact nodup_append'.mpr ⟨ht, nodup_singleton _, by simpa using hmem⟩

theorem ne_empty_of_mem_toList {s : String} {c : Char} (h : c ∈ s.toList) : s ≠ "" := by
  rintro rfl
  simp at h

theorem subjectTrackingKey_ne {subject : SemanticSubjectId} :
    semanticSubjectTrackingKey subject ≠ "" :=
  ne_empty_of_mem_toList (c := ':') (by simp [semanticSubjectTrackingKey])

theorem cellTrackingKey_ne {subject predicate : String} :
    semanticCellTrackingKey subject predicate ≠ "" :=
  ne_empty_of_mem_toList (c := '@') (by simp [semanticCellTrackingKey])

namespace WriteTracking

/-- No text of the tracking is empty. -/
structure Named (t : WriteTracking) : Prop where
  writesSubjects : ∀ subject ∈ t.writesSubjects, subject ≠ ""
  writeCells : ∀ cell ∈ t.writeCells, cell ≠ ""

theorem Named.pushTrackingWrite {t : WriteTracking} (h : t.Named) {subject : String}
    (hsubject : subject ≠ "") (predicate : String) : (t.pushTrackingWrite subject predicate).Named := by
  constructor
  · intro s hs
    rcases mem_append.mp hs with hold | hnew
    · exact h.writesSubjects s hold
    · exact mem_singleton.mp hnew ▸ hsubject
  · intro cell hcell
    rcases mem_append.mp hcell with hold | hnew
    · exact h.writeCells cell hold
    · exact mem_singleton.mp hnew ▸ cellTrackingKey_ne

theorem Named.pushSemanticWrite {t : WriteTracking} (h : t.Named) (subject : SemanticSubjectId)
    (predicate : String) : (t.pushSemanticWrite subject predicate).Named :=
  h.pushTrackingWrite subjectTrackingKey_ne predicate

theorem Named.pushUnitWrite {t : WriteTracking} (h : t.Named) (unitId predicate : String) :
    (t.pushUnitWrite unitId predicate).Named := by
  unfold WriteTracking.pushUnitWrite
  cases subjectId "unit" unitId with
  | ok subject => exact h.pushSemanticWrite subject predicate
  | error e => exact h

theorem Named.pushUnitWriteIfGrown {start t : WriteTracking} (h : t.Named)
    (unitId predicate : String) : (WriteTracking.pushUnitWriteIfGrown unitId predicate start t).Named := by
  unfold WriteTracking.pushUnitWriteIfGrown
  split_ifs
  · exact h.pushUnitWrite unitId predicate
  · exact h

theorem named_collect (unitId : String) (before after : UnifiedSemanticGraphSnapshot) :
    (collectWriteTracking unitId before after).Named := by
  have hlead (lead name : String) (hlead : lead ≠ "") : lead ++ name ≠ "" := by
    intro hempty
    have htext := congrArg String.toList hempty
    rw [String.toList_append, String.toList_empty, append_eq_nil_iff] at htext
    exact hlead (String.toList_eq_nil_iff.mp htext.1)
  have hstart : Named { writesSubjects := [], writeCells := [] } := ⟨by simp, by simp⟩
  have hsymbols : (collectSymbols before after { writesSubjects := [], writeCells := [] }).Named := by
    refine foldlRecOn _ _ hstart fun t ht name _ => ?_
    cases symbolSubjectId name with
    | ok subject => exact ht.pushSemanticWrite subject _
    | error e => exact ht
  have hfacts {t : WriteTracking} (ht : t.Named) : (collectFacts before after t).Named :=
    foldlRecOn _ _ ht fun t ht cell _ => ht.pushSemanticWrite cell.1 cell.2
  have hregistry {t : WriteTracking} (ht : t.Named) :
      (collectSemanticRegistry before after t).Named :=
    foldlRecOn _ _ ht fun t ht name _ =>
      ht.pushTrackingWrite (hlead "semantic:" name (by decide)) _
  have hstable {t : WriteTracking} (ht : t.Named) : (collectStableIds before after t).Named :=
    foldlRecOn _ _ ht fun t ht key _ =>
      ht.pushTrackingWrite (hlead "stable-id:" key (by decide)) _
  exact hstable (hregistry ((hfacts (hsymbols.pushUnitWriteIfGrown _ _)).pushUnitWriteIfGrown _ _))

end WriteTracking

theorem QueryProviderContext.tracked_start {provider : QueryProvider} {phase : PhasePolicy}
    {unitId : String} {initialBindings : List (String × InitialValue)} :
    (start provider phase unitId initialBindings).Tracked :=
  ⟨uniqueLabels_nil, uniqueLabels_nil, uniqueLabels_nil, uniqueLabels_nil, uniqueLabels_nil,
    uniqueLabels_nil, nodup_nil⟩

theorem ne_of_mem_collectRecordStrings {records : List QueryProviderExecutionRecord}
    {selector : QueryProviderExecutionRecord → List String}
    (h : ∀ record ∈ records, UniqueLabels (selector record)) :
    ∀ value ∈ collectRecordStrings records selector, value ≠ "" := by
  intro value hv
  obtain ⟨record, hrecord, hmem⟩ := mem_flatMap.mp (mem_sortDedup.mp hv)
  exact (h record hrecord).nonempty value hmem

theorem QueryProviderContext.Tracked.track {c : QueryProviderContext} (h : c.Tracked)
    (event : TrackingEvent)
    (hnested : ∀ records key dependencies, event = .nestedQuery records key dependencies →
      ∀ record ∈ records, record.WellFormed) : (c.track event).Tracked := by
  cases event with
  | readCell subject predicate =>
    exact { h with
      readsSubjects := h.readsSubjects.extendUnique
        (by simpa using subjectTrackingKey_ne)
      readCells := h.readCells.extendUnique (by simpa using cellTrackingKey_ne) }
  | writeCell subject predicate =>
    exact { h with
      writesSubjects := h.writesSubjects.extendUnique
        (by simpa using subjectTrackingKey_ne)
      writeCells := h.writeCells.extendUnique (by simpa using cellTrackingKey_ne) }
  | readFile path =>
    by_cases hpath : path = ""
    · simp only [QueryProviderContext.track, if_pos hpath]
      exact h
    · simp only [QueryProviderContext.track, if_neg hpath]
      exact { h with readsFiles := h.readsFiles.extendUnique (by simpa using hpath) }
  | writeFile path =>
    by_cases hpath : path = ""
    · simp only [QueryProviderContext.track, if_pos hpath]
      exact h
    · simp only [QueryProviderContext.track, if_neg hpath]
      exact { h with writesFiles := h.writesFiles.extendUnique (by simpa using hpath) }
  | nestedQuery records key dependencies =>
    have hrecords := hnested records key dependencies rfl
    exact { h with
      readsSubjects := h.readsSubjects.extendUnique
        (ne_of_mem_collectRecordStrings fun record hr => (hrecords record hr).readsSubjects)
      readCells := h.readCells.extendUnique
        (ne_of_mem_collectRecordStrings fun record hr => (hrecords record hr).readCells)
      readsFiles := h.readsFiles.extendUnique
        (ne_of_mem_collectRecordStrings fun record hr => (hrecords record hr).readsFiles)
      artifactDependencies := nodup_extendUniqueArtifactKeys h.artifactDependencies }

theorem QueryProviderContext.Tracked.merge {c c' : QueryProviderContext} (h : c.Tracked)
    {before after : UnifiedSemanticGraphSnapshot}
    (hmerge : mergeSemanticWriteTracking (some c) before after = some c') : c'.Tracked := by
  obtain rfl := Option.some.inj hmerge
  have hnamed := WriteTracking.named_collect c.unitId before after
  exact { h with
    writesSubjects := h.writesSubjects.extendUnique hnamed.writesSubjects
    writeCells := h.writeCells.extendUnique hnamed.writeCells }

theorem uniqueLabels_mergeRuntimeTracking {values : List String} (h : UniqueLabels values)
    {context : Option QueryProviderContext} {selector : QueryProviderContext → List String}
    (hcontext : ∀ c, context = some c → UniqueLabels (selector c)) :
    UniqueLabels (mergeRuntimeTracking values context selector) := by
  cases context with
  | none => exact uniqueLabels_sortDedup h.nonempty
  | some c => exact h.extendUnique (hcontext c rfl).nonempty

/-- Both vectors of the tracking hold non-empty texts once. -/
structure WriteTracking.Unique (t : WriteTracking) : Prop where
  writesSubjects : UniqueLabels t.writesSubjects
  writeCells : UniqueLabels t.writeCells

theorem WriteTracking.Unique.pushUnitChange {t : WriteTracking} (h : t.Unique) (happened : Bool)
    (context : Option QueryProviderContext) (predicate : String) :
    (Caap.pushUnitChange happened context predicate t).Unique := by
  unfold Caap.pushUnitChange
  split
  · next c =>
      have hnamed : t.Named := ⟨h.writesSubjects.nonempty, h.writeCells.nonempty⟩
      have hpushed := hnamed.pushUnitWrite c.unitId predicate
      exact ⟨uniqueLabels_sortDedup hpushed.writesSubjects, uniqueLabels_sortDedup hpushed.writeCells⟩
  · exact h

theorem nodeKindLabel_ne {node : Node} : nodeKindLabel node ≠ "" := by
  cases node <;> simp [nodeKindLabel]

theorem uniqueLabels_touchedNodeKinds {nodes : List Node} {unit : CaapUnit} :
    UniqueLabels (providerIrChangeStats nodes unit).touchedNodeKinds := by
  refine uniqueLabels_sortDedup fun kind hkind => ?_
  simp only [mem_append, mem_map, mem_flatMap, mem_cons, not_mem_nil,
    or_false] at hkind
  rcases hkind with (⟨e, -, rfl⟩ | ⟨pair, -, rfl | rfl⟩) | ⟨e, -, rfl⟩
  all_goals exact nodeKindLabel_ne

theorem uniqueLabels_changeDomains {nodes : List Node} {unit : CaapUnit} :
    UniqueLabels (providerIrChangeStats nodes unit).changeDomains := by
  simp only [providerIrChangeStats]
  split_ifs
  · exact ⟨by simp, by simp⟩
  · exact uniqueLabels_nil

theorem QueryProvider.WellFormed.record {input : ProviderExecutionRecordInput}
    (hp : input.provider.WellFormed) {clock : Int} {record : QueryProviderExecutionRecord}
    (hcontext : ∀ c, input.context = some c → c.Tracked)
    (hir : ∃ nodes unit, input.irChange = providerIrChangeStats nodes unit)
    (hiteration : input.iteration < i64Size) (hdiagnostics : input.diagnosticsEmitted < i64Size)
    (hrewrites : input.irChange.rewriteCount < i64Size)
    (herased : input.irChange.erasedCount < i64Size)
    (h : providerExecutionRecord clock input = .ok record) : record.WellFormed := by
  obtain ⟨now, -, heq⟩ := bind_eq_ok.mp h
  obtain rfl := Except.ok.inj heq
  have htracking {values : List String} {selector : QueryProviderContext → List String}
      (hvalues : UniqueLabels values) (hselector : ∀ c, c.Tracked → UniqueLabels (selector c)) :
      UniqueLabels (mergeRuntimeTracking values input.context selector) :=
    uniqueLabels_mergeRuntimeTracking hvalues fun c hc => hselector c (hcontext c hc)
  have hfiles {selector : QueryProviderContext → List String}
      (hselector : ∀ c, c.Tracked → UniqueLabels (selector c)) :
      UniqueLabels ((input.context.map selector).getD []) := by
    cases hc : input.context with
    | none => exact uniqueLabels_nil
    | some c => exact hselector c (hcontext c hc)
  have hdependencies : ((input.context.map (·.artifactDependencies)).getD []).Nodup := by
    cases hc : input.context with
    | none => exact nodup_nil
    | some c => exact (hcontext c hc).artifactDependencies
  have htracked : WriteTracking.Unique
      { writesSubjects := mergeRuntimeTracking input.provider.writes input.context (·.writesSubjects)
        writeCells := mergeRuntimeTracking input.provider.writes input.context (·.writeCells) } :=
    ⟨htracking hp.writes fun c hc => hc.writesSubjects,
      htracking hp.writes fun c hc => hc.writeCells⟩
  have hwrites := (htracked.pushUnitChange input.irChange.hasIrChange input.context
    "ir").pushUnitChange input.attributesChanged input.context "attributes"
  obtain ⟨nodes, unit, hstats⟩ := hir
  exact
    { effectTags := hp.effectTags
      requires := hp.requires
      requiresData := hp.requiresData
      providesData := hp.providesData
      provides := hp.provides
      reads := hp.reads
      writes := hp.writes
      readsSubjects := htracking hp.reads fun c hc => hc.readsSubjects
      writesSubjects := hwrites.writesSubjects
      readCells := htracking hp.reads fun c hc => hc.readCells
      writeCells := hwrites.writeCells
      readsFiles := hfiles fun c hc => hc.readsFiles
      writesFiles := hfiles fun c hc => hc.writesFiles
      artifactDependencies := hdependencies
      iteration := hiteration
      diagnosticsEmitted := hdiagnostics
      rewriteCount := hrewrites
      erasedCount := herased
      touchedNodeKinds := hstats ▸ uniqueLabels_touchedNodeKinds
      changeDomains := hstats ▸ uniqueLabels_changeDomains
      outcomeSummary := rfl }

theorem QueryProviderExecutionRecord.WellFormed.cached {record : QueryProviderExecutionRecord}
    (h : record.WellFormed) {provider first : QueryProvider} (hp : provider.WellFormed)
    {iteration : Nat} {unit : CaapUnit} {diagnostics : List Diagnostic}
    {dynamicRequires : List String} {entry : ProviderCacheEntry} (hiteration : iteration < i64Size)
    (hdiagnostics : diagnostics.length < i64Size)
    (hentry : providerCacheEntry unit first record diagnostics dynamicRequires = some entry) :
    (cachedProviderExecutionRecord provider iteration entry).WellFormed := by
  rw [providerCacheEntry, Option.ite_none_left_eq_some] at hentry
  obtain rfl := Option.some.inj hentry.2
  exact { h with
    effectTags := hp.effectTags
    requires := hp.requires
    requiresData := hp.requiresData
    providesData := hp.providesData
    provides := hp.provides
    reads := hp.reads
    writes := hp.writes
    iteration := hiteration
    diagnosticsEmitted := hdiagnostics
    rewriteCount := by simp [cachedProviderExecutionRecord, i64Size]
    erasedCount := by simp [cachedProviderExecutionRecord, i64Size]
    touchedNodeKinds := uniqueLabels_nil
    changeDomains := uniqueLabels_nil
    outcomeSummary := rfl }

mutual

theorem TrackedContext.tracked {c : QueryProviderContext} : TrackedContext c → c.Tracked
  | .start provider phase unitId initialBindings =>
    tracked_start
  | .track _ event _ hc hnested =>
    hc.tracked.track event fun records key dependencies heq record hrecord =>
      (hnested records key dependencies heq record hrecord).wellFormed
  | .merge _ _ _ _ hc h => hc.tracked.merge h

theorem ProducedRecord.wellFormed {p : QueryProvider} {r : QueryProviderExecutionRecord} :
    ProducedRecord p r → r.WellFormed
  | .executed _ _ _ hprovider hcontext hir hiteration hdiagnostics hrewrites herased h =>
    hprovider.wellFormed.record (fun c hc => (hcontext c hc).tracked) hir hiteration hdiagnostics
      hrewrites herased h
  | .cached _ _ _ _ _ _ _ _ hprovider hrecord hiteration hdiagnostics h =>
    hrecord.wellFormed.cached hprovider.wellFormed hiteration hdiagnostics h

end

/-- A record carries the name, stage and phase policy of its provider. -/
theorem ProducedRecord.identity {p : QueryProvider} {r : QueryProviderExecutionRecord}
    (h : ProducedRecord p r) :
    r.providerName = p.name ∧ r.stage = p.stage ∧ r.phasePolicy = p.phasePolicy := by
  cases h with
  | executed input clock record hprovider hcontext hir hiteration hdiagnostics hrewrites herased h =>
    obtain ⟨now, -, heq⟩ := bind_eq_ok.mp h
    obtain rfl := Except.ok.inj heq
    exact ⟨rfl, rfl, rfl⟩
  | cached => exact ⟨rfl, rfl, rfl⟩

/-- The records of a run of a stage: those of the first providers of its schedule, each of
    them available in the phase. -/
structure StageRun (registry : QueryProviderRegistry) (stage : String) (phase : PhasePolicy)
    (records : List QueryProviderExecutionRecord) : Prop where
  canonical : registry.resolveStage stage = .ok stage
  scheduled : ∃ availableData previouslySatisfied dynamicRequires schedule providers,
    registry.providerScheduleForStage stage availableData previouslySatisfied dynamicRequires =
        .ok schedule ∧
      providers <+: schedule.groups.flatten ∧
      List.Forall₂ (fun provider record =>
        (provider.phasePolicy = .dual ∨ provider.phasePolicy = phase) ∧
          ProducedRecord provider record) providers records
  length : records.length < i64Size

end Caap
