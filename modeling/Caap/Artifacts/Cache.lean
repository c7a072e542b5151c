/-
  Caap.Artifacts.Cache

  `ArtifactCache` of `artifacts/cache.rs`, over an arbitrary type of artifact values:
  entries with their dependencies and the inverse index, lineages and their heads, and
  the invalidation records.

  `store_with_lineage` writes its lineage maps before it calls `store_internal`, which
  can still refuse; it therefore returns its outcome next to the cache it leaves.
-/

import Caap.Lib.Chain
import Caap.Lib.Worklist
import Caap.Artifacts.Key

namespace Caap

open Std Lib

/-- `ArtifactCacheStats`. -/
structure ArtifactCacheStats where
  hits : Nat
  misses : Nat
  generation : Nat
  deriving DecidableEq, Repr

namespace ArtifactCacheStats

/-- `record_hit`. -/
def recordHit (s : ArtifactCacheStats) : ArtifactCacheStats :=
  { s with hits := min (s.hits + 1) (u64Size - 1) }

/-- `record_miss`. -/
def recordMiss (s : ArtifactCacheStats) : ArtifactCacheStats :=
  { s with misses := min (s.misses + 1) (u64Size - 1) }

end ArtifactCacheStats

/-- A map of invalidation records. -/
abbrev InvalidationMap := OrdMap ArtifactKey ArtifactInvalidationRecord

/-- `ArtifactCache`. -/
structure ArtifactCache (V : Type) where
  entries : OrdMap ArtifactKey V
  dependencies : OrdMap ArtifactKey (List ArtifactKey)
  dependents : NestedMap ArtifactKey ArtifactKey Unit
  lineageHeads : OrdMap ArtifactKey ArtifactKey
  lineages : OrdMap ArtifactKey ArtifactKey
  invalidationByKey : InvalidationMap
  invalidationByLineage : InvalidationMap
  dirty : InvalidationMap
  dirtyLineages : InvalidationMap
  stats : ArtifactCacheStats

/-- `ArtifactCacheSnapshot`. -/
structure ArtifactCacheSnapshot (V : Type) where
  entries : List (ArtifactKey × V)
  dependencies : List (ArtifactKey × List ArtifactKey)
  lineageHeads : List (ArtifactKey × ArtifactKey)
  lineages : List (ArtifactKey × ArtifactKey)
  invalidationByKey : List (ArtifactKey × ArtifactInvalidationRecord)
  invalidationByLineage : List (ArtifactKey × ArtifactInvalidationRecord)
  dirty : List (ArtifactKey × ArtifactInvalidationRecord)
  dirtyLineages : List (ArtifactKey × ArtifactInvalidationRecord)
  stats : ArtifactCacheStats

namespace ArtifactCache

variable {V : Type}

/-- `ArtifactCache::new`. -/
def new : ArtifactCache V :=
  { entries := ∅, dependencies := ∅, dependents := ∅, lineageHeads := ∅, lineages := ∅
    invalidationByKey := ∅, invalidationByLineage := ∅, dirty := ∅, dirtyLineages := ∅
    stats := { hits := 0, misses := 0, generation := 0 } }

/-! ## Reads -/

/-- `contains`. -/
def contains (c : ArtifactCache V) (key : ArtifactKey) : Bool := (c.entries[key]?).isSome

/-- `is_dirty`. -/
def isDirty (c : ArtifactCache V) (key : ArtifactKey) : Bool :=
  (c.dirty[key]?).isSome ||
    (c.lineages[key]?).any fun lineageId => (c.dirtyLineages[lineageId]?).isSome

/-- `get`: the value, and the cache with the hit or miss counted. -/
def get (c : ArtifactCache V) (key : ArtifactKey) : Option V × ArtifactCache V :=
  if c.isDirty key then (none, { c with stats := c.stats.recordMiss })
  else
    match c.entries[key]? with
    | some v => (some v, { c with stats := c.stats.recordHit })
    | none => (none, { c with stats := c.stats.recordMiss })

/-- `peek`. -/
def peek (c : ArtifactCache V) (key : ArtifactKey) : Option V :=
  if c.isDirty key then none else c.entries[key]?

/-- `dependents_for`. -/
def dependentsFor (c : ArtifactCache V) (key : ArtifactKey) : List ArtifactKey :=
  match c.dependents[key]? with
  | some inner => inner.toList.map Prod.fst
  | none => []

/-- `generation_after`. -/
def generationAfter (c : ArtifactCache V) (increments : Nat) : CaapResult Nat :=
  if c.stats.generation + increments < u64Size then .ok (c.stats.generation + increments)
  else .error (.artifacts "artifact cache generation overflow")

/-- `next_generation`. -/
def nextGeneration (c : ArtifactCache V) : CaapResult Nat := c.generationAfter 1

/-! ## Invalidation -/

/-- `record_invalidation`. -/
def recordInvalidation (c : ArtifactCache V) (record : ArtifactInvalidationRecord) :
    ArtifactCache V :=
  let c := { c with
    invalidationByKey := c.invalidationByKey.insert record.invalidatedKey record }
  match record.lineageId with
  | some lineageId =>
    { c with
      invalidationByLineage := c.invalidationByLineage.insert lineageId record
      dirtyLineages := c.dirtyLineages.insert lineageId record }
  | none => c

/-- The body of the loop of `mark_dependents_dirty` for a key not seen before. -/
def visitDependent (c : ArtifactCache V) (key upstreamKey : ArtifactKey) : ArtifactCache V :=
  let record := ArtifactInvalidationRecord.dependency key upstreamKey c.lineages[key]?
    (((c.dirty[upstreamKey]?).map ArtifactInvalidationRecord.changedInputs).getD [])
  { c with dirty := c.dirty.insert key record }.recordInvalidation record

/-- Every key that depends on another. -/
def allDependents (c : ArtifactCache V) : List ArtifactKey :=
  c.dependents.entries.map fun e => e.1.2

theorem dependentsFor_subset (c : ArtifactCache V) (a : ArtifactKey) :
    ∀ b ∈ c.dependentsFor a, b ∈ c.allDependents := by
  intro b hb
  rw [dependentsFor] at hb
  cases hm : c.dependents[a]? with
  | none => rw [hm] at hb; exact absurd hb List.not_mem_nil
  | some inner =>
    rw [hm] at hb
    obtain ⟨⟨b', u⟩, hmem, rfl⟩ := List.mem_map.mp hb
    refine List.mem_map.mpr ⟨((a, b'), u), NestedMap.mem_entries.mpr ?_, rfl⟩
    rw [NestedMap.get2, hm, Option.bind_some]
    exact OrdMap.mem_toList.mp hmem

/-- `mark_dependents_dirty`: the stack starts with the dependents of `root`, last one on
    top; the dependents index does not change during the loop. -/
def markDependentsDirty (c : ArtifactCache V) (root : ArtifactKey) : ArtifactCache V :=
  depthFirst c.dependentsFor visitDependent c.allDependents c.dependentsFor_subset []
    ((c.dependentsFor root).reverse.map fun dependent => (dependent, root))
    (by
      intro e he
      obtain ⟨b, hb, rfl⟩ := List.mem_map.mp he
      exact c.dependentsFor_subset root b (List.mem_reverse.mp hb))
    c

/-- `mark_dirty_validated`. -/
def markDirtyValidated (c : ArtifactCache V) (record : ArtifactInvalidationRecord) :
    ArtifactCache V :=
  let c := c.recordInvalidation record
  { c with dirty := c.dirty.insert record.invalidatedKey record }.markDependentsDirty
    record.invalidatedKey

/-- `mark_dirty`. -/
def markDirty (c : ArtifactCache V) (record : ArtifactInvalidationRecord) :
    CaapResult (ArtifactCache V) := do
  record.validate
  let generation ← c.nextGeneration
  let c := c.markDirtyValidated record
  .ok { c with stats := { c.stats with generation := generation } }

/-- `mark_dirty_batch`. -/
def markDirtyBatch (c : ArtifactCache V) (records : List ArtifactInvalidationRecord) :
    CaapResult (ArtifactCache V) := do
  checkAll ArtifactInvalidationRecord.validate records
  let generation ← c.generationAfter records.length
  let c := records.foldl markDirtyValidated c
  .ok { c with stats := { c.stats with generation := generation } }

/-- `invalidate_all`. -/
def invalidateAll (c : ArtifactCache V) (reasonKind : String) : CaapResult (ArtifactCache V) :=
  if reasonKind = "" then
    .error (.artifacts "artifact invalidation reason kind must be non-empty")
  else do
    let records ← (c.entries.toList.map Prod.fst).mapM fun key =>
      ArtifactInvalidationRecord.new reasonKind key
    c.markDirtyBatch records

/-! ## Stores -/

/-- Remove `key` from the dependents of its old dependencies. -/
def unlinkDependents (c : ArtifactCache V) (key : ArtifactKey) :
    NestedMap ArtifactKey ArtifactKey Unit :=
  match c.dependencies[key]? with
  | some oldDependencies =>
    oldDependencies.foldl (fun dependents dependency => dependents.erase2 dependency key)
      c.dependents
  | none => c.dependents

/-- `store_internal`. -/
def storeInternal (c : ArtifactCache V) (key : ArtifactKey) (value : V)
    (dependencies : List ArtifactKey) : CaapResult (ArtifactCache V) :=
  let dependencies := sortDedup dependencies
  if key ∈ dependencies then .error (.artifacts "artifact cannot depend on itself")
  else do
    let generation ← c.nextGeneration
    .ok
      { c with
        dependents := dependencies.foldl
          (fun dependents dependency => dependents.insert2 dependency key ())
          (c.unlinkDependents key)
        dependencies := c.dependencies.insert key dependencies
        entries := c.entries.insert key value
        dirty := c.dirty.erase key
        stats := { c.stats with generation := generation } }

/-- `store`. -/
def store (c : ArtifactCache V) (key : ArtifactKey) (value : V)
    (dependencies : List ArtifactKey) : CaapResult (ArtifactCache V) :=
  c.storeInternal key value dependencies

/-- The first part of `store_with_lineage`: mark the previous head of the lineage as
    replaced. -/
def replaceLineageHead (c : ArtifactCache V) (key lineageId : ArtifactKey) :
    CaapResult (ArtifactCache V) :=
  match c.lineageHeads[lineageId]? with
  | some previous =>
    if previous ≠ key then do
      let changedInputs := changedInputsForLineage lineageId previous key
      let record ← ArtifactInvalidationRecord.new "lineage_replaced" previous
      let record ← (record.withReplacementKey key).withLineage lineageId lineageId.kind
      let record ← record.withChangedInputs changedInputs
      let _ ← c.generationAfter 2
      c.markDirty record
    else .ok c
  | none => .ok c

/-- The second part of `store_with_lineage`: make `key` the head of its lineage. -/
def linkLineage (c : ArtifactCache V) (key lineageId : ArtifactKey) : ArtifactCache V :=
  { c with
    lineageHeads := c.lineageHeads.insert lineageId key
    lineages := c.lineages.insert key lineageId
    dirtyLineages := c.dirtyLineages.erase lineageId }

/-- `store_with_lineage`: the outcome and the cache it leaves. -/
def storeWithLineage (c : ArtifactCache V) (key : ArtifactKey) (value : V)
    (dependencies : List ArtifactKey) (lineageId : ArtifactKey) :
    CaapResult Unit × ArtifactCache V :=
  match c.replaceLineageHead key lineageId with
  | .error e => (.error e, c)
  | .ok replaced =>
    match replaced.nextGeneration with
    | .error e => (.error e, replaced)
    | .ok _ =>
      let linked := replaced.linkLineage key lineageId
      match linked.storeInternal key value dependencies with
      | .error e => (.error e, linked)
      | .ok stored => (.ok (), stored)

/-- `record_cache_hit`. -/
def recordCacheHit (c : ArtifactCache V) : ArtifactCache V :=
  { c with stats := c.stats.recordHit }

/-- `record_cache_miss`. -/
def recordCacheMiss (c : ArtifactCache V) : ArtifactCache V :=
  { c with stats := c.stats.recordMiss }

/-! ## Snapshots -/

/-- `snapshot`. -/
def snapshot (c : ArtifactCache V) : ArtifactCacheSnapshot V :=
  { entries := c.entries.toList
    dependencies := c.dependencies.toList
    lineageHeads := c.lineageHeads.toList
    lineages := c.lineages.toList
    invalidationByKey := c.invalidationByKey.toList
    invalidationByLineage := c.invalidationByLineage.toList
    dirty := c.dirty.toList
    dirtyLineages := c.dirtyLineages.toList
    stats := c.stats }

/-- One iteration of `restore_unique_artifact_map`. -/
def restoreUnique {W : Type} (label : String) (map : OrdMap ArtifactKey W)
    (item : ArtifactKey × W) : CaapResult (OrdMap ArtifactKey W) :=
  if (map[item.1]?).isSome then
    .error (.artifacts
      ("artifact snapshot " ++ label ++ " key is duplicated: " ++ item.1.display))
  else .ok (map.insert item.1 item.2)

/-- `restore_unique_artifact_map`. -/
def restoreUniqueArtifactMap {W : Type} (entries : List (ArtifactKey × W)) (label : String) :
    CaapResult (OrdMap ArtifactKey W) := foldOk (restoreUnique label) ∅ entries

/-- One iteration of `restore_invalidation_map`. -/
def restoreInvalidation (label : String) (requireLineage : Bool) (map : InvalidationMap)
    (item : ArtifactKey × ArtifactInvalidationRecord) : CaapResult InvalidationMap := do
  item.2.validate
  if requireLineage && item.2.lineageId.isNone then
    .error (.artifacts ("artifact snapshot " ++ label ++ " records must include lineage id"))
  else restoreUnique label map item

/-- `restore_invalidation_map`. -/
def restoreInvalidationMap (entries : List (ArtifactKey × ArtifactInvalidationRecord))
    (label : String) (requireLineage : Bool) : CaapResult InvalidationMap :=
  foldOk (restoreInvalidation label requireLineage) ∅ entries

/-- One iteration of the dependency loop of `restore_snapshot`, with the dependencies and
    dependents restored so far. -/
def restoreDependency (entries : OrdMap ArtifactKey V)
    (state : OrdMap ArtifactKey (List ArtifactKey) × NestedMap ArtifactKey ArtifactKey Unit)
    (item : ArtifactKey × List ArtifactKey) : CaapResult
      (OrdMap ArtifactKey (List ArtifactKey) × NestedMap ArtifactKey ArtifactKey Unit) :=
  let (key, keyDependencies) := item
  if (entries[key]?).isNone then
    .error (.artifacts "artifact snapshot dependency owner is missing from entries")
  else if (state.1[key]?).isSome then
    .error (.artifacts
      ("artifact snapshot dependencies key is duplicated: " ++ key.display))
  else if key ∈ keyDependencies then
    .error (.artifacts "artifact snapshot cannot contain self dependency")
  else
    let keyDependencies := sort keyDependencies
    if hasRepeat keyDependencies then
      .error (.artifacts ("artifact snapshot dependencies for " ++ key.display
        ++ " contain duplicate dependency"))
    else if keyDependencies.any fun dependency => (entries[dependency]?).isNone then
      .error (.artifacts "artifact snapshot dependency is missing from entries")
    else
      .ok (state.1.insert key keyDependencies,
        keyDependencies.foldl (fun dependents dependency => dependents.insert2 dependency key ())
          state.2)

/-- One iteration of the dirty loop of `restore_snapshot`. -/
def restoreDirty (dirty : InvalidationMap) (item : ArtifactKey × ArtifactInvalidationRecord) :
    CaapResult InvalidationMap :=
  if item.2.invalidatedKey ≠ item.1 then
    .error (.artifacts "artifact dirty snapshot key must match record key")
  else do
    item.2.validate
    if (dirty[item.1]?).isSome then
      .error (.artifacts ("artifact dirty snapshot key is duplicated: " ++ item.1.display))
    else .ok (dirty.insert item.1 item.2)

/-- The check of one lineage head in `validate_snapshot_lineage_graph`. -/
def validateLineageHead (entries : OrdMap ArtifactKey V) (lineages : OrdMap ArtifactKey ArtifactKey)
    (item : ArtifactKey × ArtifactKey) : CaapResult Unit :=
  let (lineageId, headKey) := item
  if (entries[headKey]?).isNone then
    .error (.artifacts "artifact snapshot lineage head is missing from entries")
  else
    match lineages[headKey]? with
    | some recordedLineage =>
      if recordedLineage = lineageId then .ok ()
      else .error (.artifacts
        "artifact snapshot lineage head does not match lineages back-reference")
    | none => .error (.artifacts
        "artifact snapshot lineage head is missing lineages back-reference")

/-- The check of one lineage entry in `validate_snapshot_lineage_graph`. -/
def validateLineageEntry (entries : OrdMap ArtifactKey V)
    (lineageHeads : OrdMap ArtifactKey ArtifactKey) (item : ArtifactKey × ArtifactKey) :
    CaapResult Unit :=
  let (key, lineageId) := item
  if (entries[key]?).isNone then
    .error (.artifacts "artifact snapshot lineage entry is missing from entries")
  else if (lineageHeads[lineageId]?).isNone then
    .error (.artifacts "artifact snapshot lineage entry references missing lineage head")
  else .ok ()

/-- The cycle check of `validate_snapshot_lineage_graph` from one key: the loop sees each
    key of `lineages` at most once before it stops. -/
def validateLineageChain (lineages : OrdMap ArtifactKey ArtifactKey)
    (item : ArtifactKey × ArtifactKey) : CaapResult Unit :=
  if walk (fun key => lineages[key]?) (lineages.toList.length + 1) [] item.1 then .ok ()
  else .error (.artifacts "artifact snapshot lineage graph contains a cycle")

/-- `validate_snapshot_lineage_graph`. -/
def validateSnapshotLineageGraph (entries : OrdMap ArtifactKey V)
    (lineageHeads lineages : OrdMap ArtifactKey ArtifactKey) : CaapResult Unit := do
  checkAll (validateLineageHead entries lineages) lineageHeads.toList
  checkAll (validateLineageEntry entries lineageHeads) lineages.toList
  checkAll (validateLineageChain lineages) lineages.toList

/-- A record is filed under the key it names. -/
def checkRecordKey (message : String) (named : ArtifactInvalidationRecord → Option ArtifactKey)
    (item : ArtifactKey × ArtifactInvalidationRecord) : CaapResult Unit :=
  if named item.2 ≠ some item.1 then .error (.artifacts message) else .ok ()

/-- `restore_snapshot`: the cache that replaces the receiver. -/
def restoreSnapshot (snapshot : ArtifactCacheSnapshot V) : CaapResult (ArtifactCache V) := do
  let entries ← restoreUniqueArtifactMap snapshot.entries "entries"
  let (dependencies, dependents) ←
    foldOk (restoreDependency entries) (∅, ∅) snapshot.dependencies
  let dirty ← foldOk restoreDirty ∅ snapshot.dirty
  let lineageHeads ← restoreUniqueArtifactMap snapshot.lineageHeads "lineage heads"
  let lineages ← restoreUniqueArtifactMap snapshot.lineages "lineages"
  validateSnapshotLineageGraph entries lineageHeads lineages
  let invalidationByKey ←
    restoreInvalidationMap snapshot.invalidationByKey "invalidation by key" false
  let invalidationByLineage ←
    restoreInvalidationMap snapshot.invalidationByLineage "invalidation by lineage" true
  let dirtyLineages ← restoreInvalidationMap snapshot.dirtyLineages "dirty lineages" true
  checkAll
    (checkRecordKey "artifact invalidation snapshot key must match record key"
      fun r => some r.invalidatedKey) invalidationByKey.toList
  checkAll
    (checkRecordKey "artifact lineage invalidation snapshot key must match record lineage id"
      ArtifactInvalidationRecord.lineageId) invalidationByLineage.toList
  checkAll
    (checkRecordKey "artifact dirty lineage snapshot key must match record lineage id"
      ArtifactInvalidationRecord.lineageId) dirtyLineages.toList
  .ok
    { entries := entries
      dependencies := dependencies
      dependents := dependents
      lineageHeads := lineageHeads
      lineages := lineages
      invalidationByKey := invalidationByKey
      invalidationByLineage := invalidationByLineage
      dirty := dirty
      dirtyLineages := dirtyLineages
      stats := snapshot.stats }

end ArtifactCache

/-! ## Cache files -/

/-- `ArtifactCacheFile`. -/
structure ArtifactCacheFile (V : Type) where
  formatName : String
  formatVersion : Nat
  snapshot : ArtifactCacheSnapshot V

namespace ArtifactCacheFile

/-- `ArtifactCacheFile::FORMAT_NAME`. -/
def expectedFormatName : String := "caap_artifact_cache"

/-- `ArtifactCacheFile::FORMAT_VERSION`. -/
def expectedFormatVersion : Nat := 1

/-- `ArtifactCacheFile::new`. -/
def new {V : Type} (snapshot : ArtifactCacheSnapshot V) : ArtifactCacheFile V :=
  { formatName := expectedFormatName
    formatVersion := expectedFormatVersion
    snapshot := snapshot }

/-- `ArtifactCacheFile::validate`, which `to_json_string` runs before it writes. -/
def validate {V : Type} (file : ArtifactCacheFile V) : CaapResult Unit :=
  if file.formatName ≠ expectedFormatName then
    .error (.artifacts "artifact cache file format name is unsupported")
  else if file.formatVersion ≠ expectedFormatVersion then
    .error (.artifacts "artifact cache file format version is unsupported")
  else do
    let _ ← ArtifactCache.restoreSnapshot file.snapshot
    .ok ()

end ArtifactCacheFile

/-- `cache_file`. -/
def ArtifactCache.cacheFile {V : Type} (c : ArtifactCache V) : ArtifactCacheFile V :=
  .new c.snapshot

/-- `restore_cache_file`: the cache that replaces the receiver. -/
def ArtifactCache.restoreCacheFile {V : Type} (file : ArtifactCacheFile V) :
    CaapResult (ArtifactCache V) := do
  file.validate
  ArtifactCache.restoreSnapshot file.snapshot

end Caap
