/-
  Caap.Artifacts.Reload

  What `restore_snapshot` demands of a cache, as an invariant of the cache itself, and
  the round trip: a cache that meets it is restored from its own snapshot unchanged.
-/

import Caap.Artifacts.Cache

namespace Caap

open Std Lib OrdMap

variable {V : Type}

/-! ## The invariant -/

/-- Dependencies are closed under the entries, and `dependents` is their inverse. -/
structure DependencyIndex (entries : OrdMap ArtifactKey V)
    (dependencies : OrdMap ArtifactKey (List ArtifactKey))
    (dependents : NestedMap ArtifactKey ArtifactKey Unit) : Prop where
  owned : ∀ {k : ArtifactKey} {ds : List ArtifactKey},
    dependencies[k]? = some ds → (entries[k]?).isSome = true
  closed : ∀ {k : ArtifactKey} {ds : List ArtifactKey},
    dependencies[k]? = some ds → ∀ d ∈ ds, (entries[d]?).isSome = true
  sorted : ∀ {k : ArtifactKey} {ds : List ArtifactKey},
    dependencies[k]? = some ds → ds.Pairwise ordLt
  irreflexive : ∀ {k : ArtifactKey} {ds : List ArtifactKey}, dependencies[k]? = some ds → k ∉ ds
  inverse : ∀ d k : ArtifactKey,
    dependents.get2 d k = some () ↔ ∃ ds, dependencies[k]? = some ds ∧ d ∈ ds
  inhabited : dependents.NoEmptyInner

/-- `dependents` is the inverse of `dependencies`, without empty sets, and no artifact
    depends on itself.  Unlike `DependencyIndex` this asks nothing of the entries. -/
structure InverseIndex (dependencies : OrdMap ArtifactKey (List ArtifactKey))
    (dependents : NestedMap ArtifactKey ArtifactKey Unit) : Prop where
  irreflexive : ∀ {k : ArtifactKey} {ds : List ArtifactKey}, dependencies[k]? = some ds → k ∉ ds
  inverse : ∀ d k : ArtifactKey,
    dependents.get2 d k = some () ↔ ∃ ds, dependencies[k]? = some ds ∧ d ∈ ds
  inhabited : dependents.NoEmptyInner

variable {entries : OrdMap ArtifactKey V}

theorem DependencyIndex.inverseIndex {dependencies : OrdMap ArtifactKey (List ArtifactKey)}
    {dependents : NestedMap ArtifactKey ArtifactKey Unit}
    (h : DependencyIndex entries dependencies dependents) : InverseIndex dependencies dependents :=
  ⟨h.irreflexive, h.inverse, h.inhabited⟩

/-- Heads and lineages refer to stored artifacts and to each other, without cycles. -/
structure LineageGraph (entries : OrdMap ArtifactKey V)
    (lineageHeads lineages : OrdMap ArtifactKey ArtifactKey) : Prop where
  head : ∀ {l k : ArtifactKey}, lineageHeads[l]? = some k →
    (entries[k]?).isSome = true ∧ lineages[k]? = some l
  member : ∀ {k l : ArtifactKey}, lineages[k]? = some l →
    (entries[k]?).isSome = true ∧ (lineageHeads[l]?).isSome = true
  acyclic : ∀ k, Ends (fun key : ArtifactKey => lineages[key]?) k

/-- Every record is valid and filed under the key it names. -/
def RecordsFiled (named : ArtifactInvalidationRecord → Option ArtifactKey)
    (records : InvalidationMap) : Prop :=
  ∀ (k : ArtifactKey) (r : ArtifactInvalidationRecord),
    records[k]? = some r → r.Valid ∧ named r = some k

/-- The key `dirty` and `invalidation_by_key` file a record under. -/
def ArtifactInvalidationRecord.namedKey (r : ArtifactInvalidationRecord) : Option ArtifactKey :=
  some r.invalidatedKey

namespace ArtifactCache

/-- The four maps of invalidation records. -/
structure RecordsSound (c : ArtifactCache V) : Prop where
  byKey : RecordsFiled ArtifactInvalidationRecord.namedKey c.invalidationByKey
  byLineage : RecordsFiled ArtifactInvalidationRecord.lineageId c.invalidationByLineage
  dirty : RecordsFiled ArtifactInvalidationRecord.namedKey c.dirty
  dirtyLineages : RecordsFiled ArtifactInvalidationRecord.lineageId c.dirtyLineages

/-- Everything `restore_snapshot` checks, and what it rebuilds. -/
structure Reloadable (c : ArtifactCache V) : Prop where
  index : DependencyIndex c.entries c.dependencies c.dependents
  lineage : LineageGraph c.entries c.lineageHeads c.lineages
  records : c.RecordsSound

end ArtifactCache

theorem RecordsFiled.empty (named : ArtifactInvalidationRecord → Option ArtifactKey) :
    RecordsFiled named ∅ := by
  intro k r h
  simp at h

variable {named : ArtifactInvalidationRecord → Option ArtifactKey}

theorem RecordsFiled.insert
    {records : InvalidationMap} (h : RecordsFiled named records) {key : ArtifactKey}
    {record : ArtifactInvalidationRecord} (hv : record.Valid) (hn : named record = some key) :
    RecordsFiled named (records.insert key record) := by
  intro k r hr
  rw [lookup_insert] at hr
  by_cases hk : key = k
  · rw [if_pos hk] at hr
    rw [← Option.some.inj hr, ← hk]
    exact ⟨hv, hn⟩
  · rw [if_neg hk] at hr
    exact h k r hr

theorem RecordsFiled.erase
    {records : InvalidationMap} (h : RecordsFiled named records) (key : ArtifactKey) :
    RecordsFiled named (records.erase key) := by
  intro k r hr
  rw [lookup_erase] at hr
  by_cases hk : key = k
  · rw [if_pos hk] at hr
    exact absurd hr (by simp)
  · rw [if_neg hk] at hr
    exact h k r hr

namespace ArtifactCache

theorem reloadable_new : (new : ArtifactCache V).Reloadable where
  index :=
    { owned := fun h => by simp [new] at h
      closed := fun h => by simp [new] at h
      sorted := fun h => by simp [new] at h
      irreflexive := fun h => by simp [new] at h
      inverse := fun d k => by simp [new]
      inhabited := NestedMap.noEmptyInner_empty }
  lineage :=
    { head := fun h => by simp [new] at h
      member := fun h => by simp [new] at h
      acyclic := fun k => .stop (by simp [new]) }
  records :=
    { byKey := .empty _
      byLineage := .empty _
      dirty := .empty _
      dirtyLineages := .empty _ }

/-! ## Restoring each part -/

theorem restoreUniqueArtifactMap_toList {W : Type} (m : OrdMap ArtifactKey W) (label : String) :
    restoreUniqueArtifactMap m.toList label = .ok m := by
  apply foldOk_toList
  intro s k v _ hs
  simp [restoreUnique, hs]

variable {m : InvalidationMap}

theorem restoreInvalidationMap_toList
    (h : RecordsFiled named m) (label : String) {requireLineage : Bool}
    (hl : requireLineage = true → ∀ r, (named r).isSome → r.lineageId.isSome) :
    restoreInvalidationMap m.toList label requireLineage = .ok m := by
  apply foldOk_toList
  intro s k r hm hs
  obtain ⟨hv, hn⟩ := h k r hm
  have hreq : ¬ (requireLineage && r.lineageId.isNone) = true := by
    intro hc
    rw [Bool.and_eq_true] at hc
    have hsome := hl hc.1 r (by rw [hn]; rfl)
    rw [Option.isNone_iff_eq_none] at hc
    rw [hc.2] at hsome
    exact absurd hsome (by simp)
  simp only [restoreInvalidation, show r.validate = .ok () from hv, ok_bind, if_neg hreq]
  simp [restoreUnique, hs]

theorem restoreDirty_toList (h : RecordsFiled ArtifactInvalidationRecord.namedKey m) :
    foldOk restoreDirty ∅ m.toList = .ok m := by
  apply foldOk_toList
  intro s k r hm hs
  obtain ⟨hv, hn⟩ := h k r hm
  have hkey : ¬ r.invalidatedKey ≠ k := fun hne => hne (Option.some.inj hn)
  simp only [restoreDirty, if_neg hkey, show r.validate = .ok () from hv, ok_bind]
  simp [hs]

theorem checkRecordKey_toList (h : RecordsFiled named m) (message : String) :
    checkAll (checkRecordKey message named) m.toList = .ok () := by
  rw [checkAll_eq_ok]
  rintro ⟨k, r⟩ hmem
  have hn : named r = some k := (h k r (mem_toList.mp hmem)).2
  simp [checkRecordKey, hn]

/-- One dependency entry is accepted and linked. -/
theorem restoreDependency_eq
    {state : OrdMap ArtifactKey (List ArtifactKey) × NestedMap ArtifactKey ArtifactKey Unit}
    {k : ArtifactKey} {ds : List ArtifactKey} (howned : (entries[k]?).isSome = true)
    (hfresh : state.1[k]? = none) (hself : k ∉ ds) (hsorted : ds.Pairwise ordLt)
    (hclosed : ∀ d ∈ ds, (entries[d]?).isSome = true) :
    restoreDependency entries state (k, ds) = .ok (state.1.insert k ds,
      ds.foldl (fun dependents d => dependents.insert2 d k ()) state.2) := by
  have hno : (entries[k]?).isNone = false := Option.isNone_eq_false_iff.mpr howned
  have hany : (ds.any fun d => (entries[d]?).isNone) = false := by
    rw [List.any_eq_false]
    intro d hd
    rw [Bool.not_eq_true, Option.isNone_eq_false_iff]
    exact hclosed d hd
  simp only [restoreDependency, hno, hfresh, Option.isSome_none, Bool.false_eq_true, if_false, hself,
    sort_of_pairwise_ordLt hsorted, hasRepeat_eq_false hsorted, hany]

/-- The state of the dependency loop after the entries `pre`: these entries, and their
    inverse. -/
structure RestoredDependencies (pre : List (ArtifactKey × List ArtifactKey))
    (state : OrdMap ArtifactKey (List ArtifactKey) × NestedMap ArtifactKey ArtifactKey Unit) :
    Prop where
  dependencies : state.1 = OrdMap.ofEntries pre
  inhabited : state.2.NoEmptyInner
  inverse : ∀ d k : ArtifactKey, state.2.get2 d k = some () ↔ ∃ ds, (k, ds) ∈ pre ∧ d ∈ ds

theorem RestoredDependencies.concat {pre : List (ArtifactKey × List ArtifactKey)}
    {state : OrdMap ArtifactKey (List ArtifactKey) × NestedMap ArtifactKey ArtifactKey Unit}
    (h : RestoredDependencies pre state) (k : ArtifactKey) (ds : List ArtifactKey) :
    RestoredDependencies (pre ++ [(k, ds)]) (state.1.insert k ds,
      ds.foldl (fun dependents d => dependents.insert2 d k ()) state.2) := by
  refine ⟨?_, h.inhabited.foldl_insert2 ds k, ?_⟩
  · rw [ofEntries_concat, ← h.dependencies]
  · intro d k'
    rw [NestedMap.get2_foldl_insert2, h.inverse d k']
    simp only [List.mem_append, List.mem_singleton, Prod.mk.injEq]
    constructor
    · rintro (⟨hd, rfl⟩ | ⟨ds', hds', hd⟩)
      · exact ⟨ds, .inr ⟨rfl, rfl⟩, hd⟩
      · exact ⟨ds', .inl hds', hd⟩
    · rintro ⟨ds', hds' | ⟨rfl, rfl⟩, hd⟩
      · exact .inr ⟨ds', hds', hd⟩
      · exact .inl ⟨hd, rfl⟩

/-- The dependency loop restores the dependencies and rebuilds their inverse. -/
theorem restoreDependencies_toList {dependencies : OrdMap ArtifactKey (List ArtifactKey)}
    {dependents : NestedMap ArtifactKey ArtifactKey Unit}
    (h : DependencyIndex entries dependencies dependents) :
    foldOk (restoreDependency entries) (∅, ∅) dependencies.toList
      = .ok (dependencies, dependents) := by
  have hloop : ∃ state, foldOk (restoreDependency entries) (∅, ∅) dependencies.toList = .ok state ∧
      RestoredDependencies dependencies.toList state := by
    apply foldOk_total
    · rintro pre ⟨k, ds⟩ post state hl hstate
      have hmem : dependencies[k]? = some ds := by
        apply mem_toList.mp
        rw [hl]
        simp
      have hfresh : state.1[k]? = none := by
        rw [hstate.dependencies, lookup_ofEntries_none]
        exact key_notMem_of_toList_eq hl
      exact ⟨_, restoreDependency_eq (h.owned hmem) hfresh (h.irreflexive hmem) (h.sorted hmem)
        (h.closed hmem), hstate.concat k ds⟩
    · exact ⟨rfl, NestedMap.noEmptyInner_empty, fun d k => by simp⟩
  obtain ⟨⟨deps, inv⟩, hrun, hstate⟩ := hloop
  have hdeps : deps = dependencies :=
    hstate.dependencies.trans (ofEntries_toList dependencies)
  have hinv : inv = dependents := by
    apply hstate.inhabited.ext h.inhabited
    intro d k
    apply Option.ext
    intro u
    rw [hstate.inverse d k, h.inverse d k]
    simp only [mem_toList]
  rw [hrun, hdeps, hinv]

/-- The lineage validation accepts a sound lineage graph. -/
theorem validateSnapshotLineageGraph_eq_ok {lineageHeads lineages : OrdMap ArtifactKey ArtifactKey}
    (h : LineageGraph entries lineageHeads lineages) :
    validateSnapshotLineageGraph entries lineageHeads lineages = .ok () := by
  have hheads : checkAll (validateLineageHead entries lineages) lineageHeads.toList = .ok () := by
    rw [checkAll_eq_ok]
    rintro ⟨l, k⟩ hmem
    obtain ⟨hentry, hback⟩ := h.head (mem_toList.mp hmem)
    have hno : (entries[k]?).isNone = false := Option.isNone_eq_false_iff.mpr hentry
    simp only [validateLineageHead, hno, Bool.false_eq_true, if_false, hback, if_true]
  have hmembers : checkAll (validateLineageEntry entries lineageHeads) lineages.toList
      = .ok () := by
    rw [checkAll_eq_ok]
    rintro ⟨k, l⟩ hmem
    obtain ⟨hentry, hhead⟩ := h.member (mem_toList.mp hmem)
    have hno : (entries[k]?).isNone = false := Option.isNone_eq_false_iff.mpr hentry
    have hno' : (lineageHeads[l]?).isNone = false := Option.isNone_eq_false_iff.mpr hhead
    simp only [validateLineageEntry, hno, hno', Bool.false_eq_true, if_false]
  have hchains : checkAll (validateLineageChain lineages) lineages.toList = .ok () := by
    rw [checkAll_eq_ok]
    rintro ⟨k, l⟩ _
    have hdom : ∀ a : ArtifactKey, (lineages[a]?).isSome → a ∈ lineages.toList.map Prod.fst := by
      intro a ha
      obtain ⟨b, hb⟩ := Option.isSome_iff_exists.mp ha
      exact List.mem_map.mpr ⟨(a, b), mem_toList.mpr hb, rfl⟩
    have hwalk := (walk_eq_true_iff hdom).mpr (h.acyclic k)
    rw [List.length_map] at hwalk
    simp only [validateLineageChain, hwalk, if_true]
  rw [validateSnapshotLineageGraph, hheads, ok_bind, hmembers, ok_bind, hchains]

/-- A reloadable cache is restored from its own snapshot unchanged. -/
theorem Reloadable.restoreSnapshot_eq {c : ArtifactCache V} (h : c.Reloadable) :
    restoreSnapshot c.snapshot = .ok c := by
  have hbyKey : restoreInvalidationMap c.invalidationByKey.toList "invalidation by key" false
      = .ok c.invalidationByKey :=
    restoreInvalidationMap_toList h.records.byKey _ (fun hf => nomatch hf)
  have hbyLineage :
      restoreInvalidationMap c.invalidationByLineage.toList "invalidation by lineage" true
        = .ok c.invalidationByLineage :=
    restoreInvalidationMap_toList h.records.byLineage _ (fun _ _ hr => hr)
  have hdirtyLineages : restoreInvalidationMap c.dirtyLineages.toList "dirty lineages" true
      = .ok c.dirtyLineages :=
    restoreInvalidationMap_toList h.records.dirtyLineages _ (fun _ _ hr => hr)
  have hfiled : checkAll (checkRecordKey "artifact invalidation snapshot key must match record key"
      fun r => some r.invalidatedKey) c.invalidationByKey.toList = .ok () :=
    checkRecordKey_toList h.records.byKey _
  simp only [restoreSnapshot, snapshot, restoreUniqueArtifactMap_toList, ok_bind,
    restoreDependencies_toList h.index, restoreDirty_toList h.records.dirty,
    validateSnapshotLineageGraph_eq_ok h.lineage, hbyKey, hbyLineage, hdirtyLineages, hfiled,
    checkRecordKey_toList h.records.byLineage, checkRecordKey_toList h.records.dirtyLineages]

end ArtifactCache

end Caap
