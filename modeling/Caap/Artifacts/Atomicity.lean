/-
  Caap.Artifacts.Atomicity

  The mutators of the artifact cache statement by statement, in the order in which the
  source checks and writes.  Each comes to what `Caap.Artifacts.Cache` says it returns, so
  all of them check before they write, with one exception: `store_with_lineage` links the
  lineage before `store_internal` looks at the dependencies, and a self-dependency is
  refused with the lineage already linked.
-/

import Caap.Lib.Action
import Caap.Artifacts.Invalidation

namespace Caap

open Std Lib OrdMap

variable {V : Type}

namespace ArtifactCache

/-- A method of the cache that may fail. -/
abbrev Method (V α : Type) := Action CaapError (ArtifactCache V) α

/-! ## The mutators, statement by statement -/

/-- `self.stats.generation = generation`. -/
def setGeneration (generation : Nat) (c : ArtifactCache V) : ArtifactCache V :=
  { c with stats := { c.stats with generation := generation } }

/-- `mark_dirty`. -/
def markDirtyBody (record : ArtifactInvalidationRecord) : Method V Unit := do
  Action.check fun _ => record.validate
  let generation ← Action.check nextGeneration
  Action.modify (recordInvalidation · record)
  Action.modify fun c => { c with dirty := c.dirty.insert record.invalidatedKey record }
  Action.modify (markDependentsDirty · record.invalidatedKey)
  Action.modify (setGeneration generation)

/-- The loop of `mark_dirty_batch` after its checks. -/
def markAllDirty : List ArtifactInvalidationRecord → Method V Unit
  | [] => pure ()
  | record :: records => do
    Action.modify (markDirtyValidated · record)
    markAllDirty records

/-- `mark_dirty_batch`. -/
def markDirtyBatchBody (records : List ArtifactInvalidationRecord) : Method V Unit := do
  Action.check fun _ => checkAll ArtifactInvalidationRecord.validate records
  let generation ← Action.check (generationAfter · records.length)
  markAllDirty records
  Action.modify (setGeneration generation)

/-- `invalidate_all`. -/
def invalidateAllBody (reasonKind : String) : Method V Unit :=
  if reasonKind = "" then
    Action.check fun _ => .error (.artifacts "artifact invalidation reason kind must be non-empty")
  else do
    let records ← Action.check fun c => (c.entries.toList.map Prod.fst).mapM fun key =>
      ArtifactInvalidationRecord.new reasonKind key
    markDirtyBatchBody records

/-- `store_internal`. -/
def storeInternalBody (key : ArtifactKey) (value : V) (dependencies : List ArtifactKey) :
    Method V Unit := do
  Action.check fun _ =>
    if key ∈ sortDedup dependencies then .error (.artifacts "artifact cannot depend on itself")
    else .ok ()
  let generation ← Action.check nextGeneration
  Action.modify fun c =>
    { c with dependents := c.unlinkDependents key, dependencies := c.dependencies.erase key }
  Action.modify fun c =>
    { c with
      dependents := (sortDedup dependencies).foldl
        (fun dependents dependency => dependents.insert2 dependency key ()) c.dependents }
  Action.modify fun c =>
    { c with dependencies := c.dependencies.insert key (sortDedup dependencies) }
  Action.modify fun c => { c with entries := c.entries.insert key value }
  Action.modify fun c => { c with dirty := c.dirty.erase key }
  Action.modify (setGeneration generation)

/-- The record for the head `previous` of a lineage that `key` replaces. -/
def replacementRecord (lineageId previous key : ArtifactKey) :
    CaapResult ArtifactInvalidationRecord := do
  let record ← ArtifactInvalidationRecord.new "lineage_replaced" previous
  let record ← (record.withReplacementKey key).withLineage lineageId lineageId.kind
  record.withChangedInputs (changedInputsForLineage lineageId previous key)

/-- The first statement of `store_with_lineage`. -/
def replaceLineageHeadBody (key lineageId : ArtifactKey) : Method V Unit := do
  let head ← Action.check fun c => .ok c.lineageHeads[lineageId]?
  match head with
  | some previous =>
    if previous ≠ key then do
      let record ← Action.check fun _ => replacementRecord lineageId previous key
      let _ ← Action.check (generationAfter · 2)
      markDirtyBody record
    else pure ()
  | none => pure ()

/-- `store_with_lineage`. -/
def storeWithLineageBody (key : ArtifactKey) (value : V) (dependencies : List ArtifactKey)
    (lineageId : ArtifactKey) : Method V Unit := do
  replaceLineageHeadBody key lineageId
  let _ ← Action.check nextGeneration
  Action.modify fun c => { c with lineageHeads := c.lineageHeads.insert lineageId key }
  Action.modify fun c => { c with lineages := c.lineages.insert key lineageId }
  Action.modify fun c => { c with dirtyLineages := c.dirtyLineages.erase lineageId }
  storeInternalBody key value dependencies

/-- `restore_snapshot`: everything is restored into locals and then moved. -/
def restoreSnapshotBody (snapshot : ArtifactCacheSnapshot V) : Method V Unit := do
  let restored ← Action.check fun _ => restoreSnapshot snapshot
  Action.modify fun _ => restored

/-! ## What they come to -/

theorem markDirtyBody_eq {record : ArtifactInvalidationRecord} :
    (markDirtyBody record : Method V Unit) = .update (markDirty · record) := by
  unfold markDirtyBody
  simp only [Action.modify_eq_update, Action.modify_bind_update, Action.check_bind_update]
  rfl

theorem markAllDirty_eq {records : List ArtifactInvalidationRecord} :
    (markAllDirty records : Method V Unit) =
      .modify fun c => records.foldl markDirtyValidated c := by
  induction records with
  | nil => rfl
  | cons record records ih =>
    rw [markAllDirty, ih]
    rfl

theorem markDirtyBatchBody_eq {records : List ArtifactInvalidationRecord} :
    (markDirtyBatchBody records : Method V Unit) = .update (markDirtyBatch · records) := by
  unfold markDirtyBatchBody
  simp only [markAllDirty_eq, Action.modify_eq_update, Action.modify_bind_update,
    Action.check_bind_update]
  rfl

theorem invalidateAllBody_eq {reasonKind : String} :
    (invalidateAllBody reasonKind : Method V Unit) = .update (invalidateAll · reasonKind) := by
  unfold invalidateAllBody invalidateAll
  by_cases hempty : reasonKind = ""
  · simp only [if_pos hempty]
    rfl
  · simp only [if_neg hempty, markDirtyBatchBody_eq, Action.check_bind_update]

variable {key : ArtifactKey} {value : V} {dependencies : List ArtifactKey}

theorem storeInternalBody_eq : storeInternalBody key value dependencies =
      .update (storeInternal · key value dependencies) := by
  unfold storeInternalBody
  simp only [Action.modify_eq_update, Action.modify_bind_update, Action.check_bind_update]
  congr 1
  funext c
  unfold storeInternal
  by_cases hself : key ∈ sortDedup dependencies
  · simp only [if_pos hself, error_bind]
  · have hrelink : (c.dependencies.erase key).insert key (sortDedup dependencies) =
        c.dependencies.insert key (sortDedup dependencies) := by
      refine ext_lookup fun k => ?_
      rw [lookup_insert, lookup_insert, lookup_erase]
      by_cases hk : key = k
      · rw [if_pos hk, if_pos hk]
      · rw [if_neg hk, if_neg hk, if_neg hk]
    simp only [if_neg hself, ok_bind, setGeneration, hrelink]

variable {lineageId : ArtifactKey}

theorem replaceLineageHeadBody_eq : (replaceLineageHeadBody key lineageId : Method V Unit) =
      .update (replaceLineageHead · key lineageId) := by
  funext c
  unfold replaceLineageHeadBody replaceLineageHead
  rw [Action.bind_check_of_ok (f := fun c : ArtifactCache V => .ok c.lineageHeads[lineageId]?) _ rfl]
  cases hhead : c.lineageHeads[lineageId]? with
  | none => simp only [Action.update, Action.call, hhead]; rfl
  | some previous =>
    by_cases hne : previous ≠ key
    · simp only [if_pos hne, markDirtyBody_eq, Action.check_bind_update]
      simp only [Action.update, Action.call, hhead, if_pos hne, replacementRecord, bind_assoc]
    · simp only [if_neg hne, Action.update, Action.call, hhead]
      rfl

theorem storeWithLineageBody_eq {c : ArtifactCache V} :
    storeWithLineageBody key value dependencies lineageId c =
      c.storeWithLineage key value dependencies lineageId := by
  unfold storeWithLineageBody storeWithLineage
  rw [replaceLineageHeadBody_eq]
  cases hreplace : c.replaceLineageHead key lineageId with
  | error e =>
    have hrun : Action.update (replaceLineageHead · key lineageId) c = (.error e, c) := by
      simp only [Action.update, Action.call, hreplace, Except.map]
    rw [Action.bind_of_error _ hrun]
  | ok replaced =>
    have hrun : Action.update (replaceLineageHead · key lineageId) c = (.ok (), replaced) := by
      simp only [Action.update, Action.call, hreplace, Except.map]
    rw [Action.bind_of_ok _ hrun]
    cases hgen : replaced.nextGeneration with
    | error e =>
      rw [Action.bind_check_of_error _ hgen]
      simp only [hgen]
    | ok generation =>
      rw [Action.bind_check_of_ok _ hgen, Action.bind_modify, Action.bind_modify,
        Action.bind_modify, storeInternalBody_eq]
      show Action.update (storeInternal · key value dependencies)
        (replaced.linkLineage key lineageId) = _
      cases hstore : (replaced.linkLineage key lineageId).storeInternal key value dependencies with
      | error _ | ok _ => simp only [Action.update, Action.call, hgen, hstore, Except.map]

theorem restoreSnapshotBody_eq {snapshot : ArtifactCacheSnapshot V} :
    restoreSnapshotBody snapshot = .update fun _ => restoreSnapshot snapshot := by
  unfold restoreSnapshotBody
  funext c
  cases restoreSnapshot snapshot with
  | ok restored => rfl
  | error e => rfl

/-! ## Atomicity -/

/-- Perform one call. -/
def perform : CacheCall V → Method V Unit
  | .op (.store key value dependencies) => storeInternalBody key value dependencies
  | .op (.storeWithLineage key value dependencies lineageId) =>
    storeWithLineageBody key value dependencies lineageId
  | .op (.get key) => Action.modify fun c => (c.get key).2
  | .op (.markDirty record) => markDirtyBody record
  | .op (.markDirtyBatch records) => markDirtyBatchBody records
  | .op (.invalidateAll reasonKind) => invalidateAllBody reasonKind
  | .recordCacheHit => Action.modify recordCacheHit
  | .recordCacheMiss => Action.modify recordCacheMiss
  | .restoreSnapshot snapshot => restoreSnapshotBody snapshot
  | .restoreCacheFile file => do
    Action.check fun _ => file.validate
    restoreSnapshotBody file.snapshot

/-- A call that links the lineage and is refused afterwards: the key is among its own
    dependencies, the generations suffice, and the link is not there already. -/
def RefusedLate (c : ArtifactCache V) : CacheCall V → Prop
  | .op (.storeWithLineage key _ dependencies lineageId) =>
    key ∈ dependencies ∧ c.stats.generation + c.lineageIncrements key lineageId < u64Size ∧
      ¬ (c.lineageHeads[lineageId]? = some key ∧ c.lineages[key]? = some lineageId ∧
        c.dirtyLineages[lineageId]? = none)
  | _ => False

theorem restoreCacheFileBody_eq {file : ArtifactCacheFile V} :
    (perform (.restoreCacheFile file) : Method V Unit) =
      .update fun _ => restoreCacheFile file := by
  rw [perform, restoreSnapshotBody_eq, Action.check_bind_update]
  rfl

/-- The labels of the inputs that a lineage compares are not empty. -/
theorem lineageInputLabels_ne_empty {previous : ArtifactKey} :
    ∀ e ∈ lineageInputLabels lineageId previous key, e.1 ≠ "" := by
  unfold lineageInputLabels
  split_ifs <;> decide

/-- The record of a replaced head can be made and is valid. -/
theorem replacementRecord_valid {previous : ArtifactKey} :
    ∃ record, replacementRecord lineageId previous key = .ok record ∧ record.Valid := by
  have hinputs : ∀ input ∈ changedInputsForLineage lineageId previous key, input ≠ "" := by
    intro input hinput
    unfold changedInputsForLineage at hinput
    obtain ⟨⟨label, positions⟩, hmem, hlabel⟩ := List.mem_filterMap.mp hinput
    have hne := lineageInputLabels_ne_empty _ hmem
    simp only [Option.ite_none_right_eq_some, Option.some.injEq] at hlabel
    rw [← hlabel.2]
    exact hne
  have hany : ((changedInputsForLineage lineageId previous key).any fun input => input == "") =
      false := by
    rw [List.any_eq_false]
    intro input hinput
    simpa using hinputs input hinput
  unfold replacementRecord ArtifactInvalidationRecord.new
  rw [if_neg (by decide), ok_bind, ArtifactInvalidationRecord.withLineage,
    if_neg lineageId.kind_ne_empty, ok_bind, ArtifactInvalidationRecord.withChangedInputs, hany,
    if_neg (by decide)]
  refine ⟨_, rfl, ArtifactInvalidationRecord.valid_iff.mpr
    ⟨show "lineage_replaced" ≠ "" by decide, ⟨?_, ?_⟩, ?_⟩⟩
  · rw [List.any_eq_false]
    intro input hinput
    simpa using hinputs input (mem_sortDedup.mp hinput)
  · exact isStrictlySorted_iff.mpr (pairwise_sortDedup _)
  · simp [ArtifactInvalidationRecord.validateLineage, lineageId.kind_ne_empty]

variable {c : ArtifactCache V}

theorem generationAfter_of_lt {n : Nat} (h : c.stats.generation + n < u64Size) :
    c.generationAfter n = .ok (c.stats.generation + n) := if_pos h

theorem lt_of_generationAfter {n generation : Nat}
    (h : c.generationAfter n = .ok generation) : c.stats.generation + n < u64Size := by
  unfold generationAfter at h
  by_contra hge
  rw [if_neg hge] at h
  exact nomatch h

/-- A valid record is accepted while there is a generation left. -/
theorem markDirty_of_valid {record : ArtifactInvalidationRecord}
    (hvalid : record.Valid) (hgen : c.stats.generation + 1 < u64Size) :
    ∃ c', c.markDirty record = .ok c' ∧ c'.stats.generation = c.stats.generation + 1 := by
  unfold markDirty
  rw [show record.validate = .ok () from hvalid, ok_bind, nextGeneration,
    generationAfter_of_lt hgen, ok_bind]
  exact ⟨_, rfl, rfl⟩

/-- The lineage has another head than the key. -/
def HeadReplaced (c : ArtifactCache V) (key lineageId : ArtifactKey) : Prop :=
  ∃ previous, c.lineageHeads[lineageId]? = some previous ∧ previous ≠ key

variable {key lineageId : ArtifactKey}

theorem replaceLineageHead_of_not (h : ¬ c.HeadReplaced key lineageId) :
    c.replaceLineageHead key lineageId = .ok c ∧ c.lineageIncrements key lineageId = 1 := by
  unfold replaceLineageHead lineageIncrements
  cases hhead : c.lineageHeads[lineageId]? with
  | none => exact ⟨rfl, rfl⟩
  | some previous =>
    have heq : previous = key := by
      by_contra hne
      exact h ⟨previous, hhead, hne⟩
    simp only [heq, ne_eq, not_true_eq_false, if_false, and_self]

/-- A head is replaced with two generations left; one is used. -/
theorem replaceLineageHead_of_replaced (h : c.HeadReplaced key lineageId) :
    c.lineageIncrements key lineageId = 2 ∧
      (c.stats.generation + 2 < u64Size → ∃ replaced, c.replaceLineageHead key lineageId =
        .ok replaced ∧ replaced.stats.generation = c.stats.generation + 1) := by
  obtain ⟨previous, hhead, hne⟩ := h
  unfold replaceLineageHead lineageIncrements
  simp only [hhead, ne_eq, hne, not_false_eq_true, if_true, true_and]
  intro hgen
  obtain ⟨record, hrecord, hvalid⟩ := replacementRecord_valid
  obtain ⟨c', hmark, hstep⟩ := markDirty_of_valid hvalid (show c.stats.generation + 1 < u64Size by omega)
  refine ⟨c', ?_, hstep⟩
  unfold replacementRecord at hrecord
  simp only [bind_eq_ok] at hrecord ⊢
  obtain ⟨r₀, h₀, r₁, h₁, h₂⟩ := hrecord
  exact ⟨r₀, h₀, r₁, h₁, record, h₂, _, generationAfter_of_lt hgen, hmark⟩

/-- The second generation is checked before the first is used. -/
theorem generation_of_replaceLineageHead {replaced : ArtifactCache V}
    (h : c.HeadReplaced key lineageId)
    (hreplace : c.replaceLineageHead key lineageId = .ok replaced) :
    replaced.stats.generation + 1 < u64Size := by
  have htwo : c.stats.generation + 2 < u64Size := by
    obtain ⟨previous, hhead, hne⟩ := h
    unfold replaceLineageHead at hreplace
    simp only [hhead, if_pos hne, bind_eq_ok] at hreplace
    obtain ⟨_, _, _, _, _, _, _, hgen, _⟩ := hreplace
    exact lt_of_generationAfter hgen
  obtain ⟨replaced', hreplace', hstep⟩ := (replaceLineageHead_of_replaced h).2 htwo
  rw [hreplace] at hreplace'
  cases hreplace'
  omega

/-- Linking a lineage that is linked already changes nothing. -/
theorem linkLineage_eq_self_iff :
    c.linkLineage key lineageId = c ↔ c.lineageHeads[lineageId]? = some key ∧
      c.lineages[key]? = some lineageId ∧ c.dirtyLineages[lineageId]? = none := by
  constructor
  · intro h
    have hheads := congrArg (fun c => c.lineageHeads[lineageId]?) h
    have hlineages := congrArg (fun c => c.lineages[key]?) h
    have hdirty := congrArg (fun c => c.dirtyLineages[lineageId]?) h
    simp only [linkLineage, lookup_insert, lookup_erase, if_true] at hheads hlineages hdirty
    exact ⟨hheads.symm, hlineages.symm, hdirty.symm⟩
  · rintro ⟨hheads, hlineages, hdirty⟩
    have hinsert {m : OrdMap ArtifactKey ArtifactKey} {a b : ArtifactKey} (h : m[a]? = some b) :
        m.insert a b = m := by
      refine ext_lookup fun k => ?_
      rw [lookup_insert]
      by_cases hk : a = k
      · rw [if_pos hk, ← hk, h]
      · rw [if_neg hk]
    unfold linkLineage
    rw [hinsert hheads, hinsert hlineages, erase_eq_self hdirty]

/-- A self-dependency is refused after the lineage has been linked. -/
theorem storeWithLineage_of_self {replaced : ArtifactCache V} (hself : key ∈ dependencies)
    (hreplace : c.replaceLineageHead key lineageId = .ok replaced)
    (hgen : replaced.stats.generation + 1 < u64Size) :
    storeWithLineageBody key value dependencies lineageId c =
      (.error (.artifacts "artifact cannot depend on itself"),
        replaced.linkLineage key lineageId) := by
  have hstore : (replaced.linkLineage key lineageId).storeInternal key value dependencies =
      .error (.artifacts "artifact cannot depend on itself") := by
    unfold storeInternal
    exact if_pos (mem_sortDedup.mpr hself)
  rw [storeWithLineageBody_eq]
  unfold storeWithLineage
  simp only [hreplace, nextGeneration, generationAfter_of_lt hgen, hstore]

/-- A call that is refused late leaves a changed cache. -/
theorem not_atomic_of_refusedLate {call : CacheCall V}
    (h : c.RefusedLate call) : ¬ (perform call).Atomic c := by
  match call, h with
  | .op (.storeWithLineage key value dependencies lineageId), ⟨hself, hgen, hlink⟩ =>
    intro hatomic
    by_cases hhead : c.HeadReplaced key lineageId
    · obtain ⟨hincrements, hreplace⟩ := replaceLineageHead_of_replaced hhead
      rw [hincrements] at hgen
      obtain ⟨replaced, hreplaced, hstep⟩ := hreplace hgen
      have hrun : storeWithLineageBody key value dependencies lineageId c = _ :=
        storeWithLineage_of_self hself hreplaced (by omega)
      have hsame := congrArg (fun c => c.stats.generation) (hatomic _ _ hrun)
      have hkept : replaced.stats.generation = c.stats.generation := hsame
      omega
    · obtain ⟨hreplaced, hincrements⟩ := replaceLineageHead_of_not hhead
      rw [hincrements] at hgen
      have hrun : storeWithLineageBody key value dependencies lineageId c = _ :=
        storeWithLineage_of_self hself hreplaced hgen
      exact hlink (linkLineage_eq_self_iff.mp (hatomic _ _ hrun))

/-- `store_with_lineage` fails before it writes, or it is refused late. -/
theorem atomic_storeWithLineage
    (h : ¬ c.RefusedLate (.op (.storeWithLineage key value dependencies lineageId))) :
    (storeWithLineageBody key value dependencies lineageId).Atomic c := by
  intro e c' herr
  rw [storeWithLineageBody_eq] at herr
  unfold storeWithLineage at herr
  cases hreplace : c.replaceLineageHead key lineageId with
  | error e' =>
    simp only [hreplace, Prod.mk.injEq] at herr
    exact herr.2.symm
  | ok replaced =>
    simp only [hreplace] at herr
    cases hgen : replaced.nextGeneration with
    | error e' =>
      simp only [hgen, Prod.mk.injEq] at herr
      by_cases hhead : c.HeadReplaced key lineageId
      · have hleft := generation_of_replaceLineageHead hhead hreplace
        rw [nextGeneration, generationAfter_of_lt hleft] at hgen
        exact absurd hgen (by simp)
      · rw [(replaceLineageHead_of_not hhead).1] at hreplace
        cases hreplace
        exact herr.2.symm
    | ok generation =>
      simp only [hgen] at herr
      cases hstore : (replaced.linkLineage key lineageId).storeInternal key value dependencies with
      | ok stored =>
        simp only [hstore] at herr
        exact absurd (congrArg Prod.fst herr) (by simp)
      | error e' =>
        simp only [hstore, Prod.mk.injEq] at herr
        have hself : key ∈ dependencies := mem_of_storeInternal_error hstore hgen
        have hlink : c.lineageHeads[lineageId]? = some key ∧
            c.lineages[key]? = some lineageId ∧ c.dirtyLineages[lineageId]? = none := by
          by_contra hlink
          exact h ⟨hself, generation_lt_of_replaced hreplace hgen, hlink⟩
        have hhead : ¬ c.HeadReplaced key lineageId := by
          rintro ⟨previous, hprevious, hne⟩
          rw [hlink.1] at hprevious
          exact hne (Option.some.inj hprevious).symm
        rw [(replaceLineageHead_of_not hhead).1] at hreplace
        cases hreplace
        rw [← herr.2]
        exact linkLineage_eq_self_iff.mpr hlink

theorem atomic_update {f : ArtifactCache V → CaapResult (ArtifactCache V)} {c : ArtifactCache V} :
    (Action.update f).Atomic c := Action.Atomic.call _ c

/-- Every call of every mutator that fails leaves the cache as it was, except for a
    `store_with_lineage` that is refused late. -/
theorem atomic_iff_not_refusedLate (c : ArtifactCache V) (call : CacheCall V) :
    (perform call).Atomic c ↔ ¬ c.RefusedLate call := by
  refine ⟨fun hatomic hlate => not_atomic_of_refusedLate hlate hatomic, fun h => ?_⟩
  cases call with
  | op op =>
    cases op with
    | store key value dependencies =>
      rw [perform, storeInternalBody_eq]
      exact atomic_update
    | storeWithLineage key value dependencies lineageId => exact atomic_storeWithLineage h
    | get key => exact Action.Atomic.of_ok rfl
    | markDirty record =>
      rw [perform, markDirtyBody_eq]
      exact atomic_update
    | markDirtyBatch records =>
      rw [perform, markDirtyBatchBody_eq]
      exact atomic_update
    | invalidateAll reasonKind =>
      rw [perform, invalidateAllBody_eq]
      exact atomic_update
  | recordCacheHit | recordCacheMiss => exact Action.Atomic.of_ok rfl
  | restoreSnapshot snapshot =>
    rw [perform, restoreSnapshotBody_eq]
    exact atomic_update
  | restoreCacheFile file =>
    rw [restoreCacheFileBody_eq]
    exact atomic_update

/-- A key that depends on itself becomes the head of its lineage although the store is
    refused. -/
theorem refused_store_links_lineage :
    (perform (.op (.storeWithLineage lowerStageKey 2 [lowerStageKey] stageUnitLineage))
        (new : ArtifactCache Nat)).1 = .error (.artifacts "artifact cannot depend on itself") ∧
      (new : ArtifactCache Nat).lineageHeads[stageUnitLineage]? = none ∧
      (perform (.op (.storeWithLineage lowerStageKey 2 [lowerStageKey] stageUnitLineage))
        (new : ArtifactCache Nat)).2.lineageHeads[stageUnitLineage]? = some lowerStageKey := by
  decide

end ArtifactCache

end Caap
