/-
  Caap.Artifacts.Runs

  Runs of the artifact cache.  Invalidation only ever files valid records under the
  right keys; a store keeps the cache reloadable when its dependencies are stored, and
  a store with a lineage when moreover the key does not leave the head of another
  lineage and its lineage does not lead back to it.  `store` and `store_with_lineage`
  check none of this, so a run that breaks it leaves a cache that cannot be saved.
-/

import Caap.Artifacts.Reload

namespace Caap

open Std Lib Except

variable {V : Type}

/-! ## Operations and runs -/

/-- The public operations that change a cache. -/
inductive CacheOp (V : Type) where
  | store (key : ArtifactKey) (value : V) (dependencies : List ArtifactKey)
  | storeWithLineage (key : ArtifactKey) (value : V) (dependencies : List ArtifactKey)
      (lineageId : ArtifactKey)
  | get (key : ArtifactKey)
  | markDirty (record : ArtifactInvalidationRecord)
  | markDirtyBatch (records : List ArtifactInvalidationRecord)
  | invalidateAll (reasonKind : String)

namespace ArtifactCache

/-- The cache after one call, successful or not. -/
def step (c : ArtifactCache V) : CacheOp V → ArtifactCache V
  | .store key value dependencies => advance c (c.store key value dependencies)
  | .storeWithLineage key value dependencies lineageId =>
    (c.storeWithLineage key value dependencies lineageId).2
  | .get key => (c.get key).2
  | .markDirty record => advance c (c.markDirty record)
  | .markDirtyBatch records => advance c (c.markDirtyBatch records)
  | .invalidateAll reasonKind => advance c (c.invalidateAll reasonKind)

/-! ## Invalidation changes records only -/

/-- `c'` differs from `c` in its records and statistics, and its records are as sound
    as those of `c`. -/
structure Marked (c c' : ArtifactCache V) : Prop where
  entries : c'.entries = c.entries
  dependencies : c'.dependencies = c.dependencies
  dependents : c'.dependents = c.dependents
  lineageHeads : c'.lineageHeads = c.lineageHeads
  lineages : c'.lineages = c.lineages
  records : c.RecordsSound → c'.RecordsSound

theorem Marked.refl (c : ArtifactCache V) : Marked c c := ⟨rfl, rfl, rfl, rfl, rfl, id⟩

variable {c : ArtifactCache V}

theorem Marked.trans {a b : ArtifactCache V} (h : Marked a b) (h' : Marked b c) : Marked a c :=
  ⟨h'.entries.trans h.entries, h'.dependencies.trans h.dependencies,
    h'.dependents.trans h.dependents, h'.lineageHeads.trans h.lineageHeads,
    h'.lineages.trans h.lineages, h'.records ∘ h.records⟩

variable {c' : ArtifactCache V}

theorem Marked.reloadable (h : Marked c c') (hc : c.Reloadable) : c'.Reloadable where
  index := by rw [h.entries, h.dependencies, h.dependents]; exact hc.index
  lineage := by rw [h.entries, h.lineageHeads, h.lineages]; exact hc.lineage
  records := h.records hc.records

/-- Statistics play no part. -/
theorem Marked.withStats (h : Marked c c') (stats : ArtifactCacheStats) :
    Marked c { c' with stats := stats } :=
  ⟨h.entries, h.dependencies, h.dependents, h.lineageHeads, h.lineages,
    fun hc => ⟨(h.records hc).byKey, (h.records hc).byLineage, (h.records hc).dirty,
      (h.records hc).dirtyLineages⟩⟩

variable {record : ArtifactInvalidationRecord}

theorem marked_recordInvalidation {c : ArtifactCache V}
    (hv : record.Valid) : Marked c (c.recordInvalidation record) := by
  unfold recordInvalidation
  cases hl : record.lineageId with
  | none =>
    refine ⟨rfl, rfl, rfl, rfl, rfl, fun hc => ?_⟩
    exact ⟨hc.byKey.insert hv rfl, hc.byLineage, hc.dirty, hc.dirtyLineages⟩
  | some lineageId =>
    refine ⟨rfl, rfl, rfl, rfl, rfl, fun hc => ?_⟩
    exact ⟨hc.byKey.insert hv rfl, hc.byLineage.insert hv hl, hc.dirty,
      hc.dirtyLineages.insert hv hl⟩

theorem marked_insertDirty {c : ArtifactCache V} (hv : record.Valid) :
    Marked c { c with dirty := c.dirty.insert record.invalidatedKey record } :=
  ⟨rfl, rfl, rfl, rfl, rfl,
    fun hc => ⟨hc.byKey, hc.byLineage, hc.dirty.insert hv rfl, hc.dirtyLineages⟩⟩

/-- The inputs a dependent inherits from its upstream record are valid. -/
theorem validInputs_inherited {dirty : InvalidationMap}
    (h : RecordsFiled ArtifactInvalidationRecord.namedKey dirty) (upstream : ArtifactKey) :
    ArtifactInvalidationRecord.ValidInputs
      (((dirty[upstream]?).map ArtifactInvalidationRecord.changedInputs).getD []) := by
  cases hd : dirty[upstream]? with
  | none => exact ArtifactInvalidationRecord.validInputs_nil
  | some r =>
    have hv : r.Valid := (h upstream r hd).1
    exact (ArtifactInvalidationRecord.valid_iff.mp hv).2.1

variable {s : ArtifactCache V}

theorem marked_visitDependent (hc : c.RecordsSound)
    (h : Marked c s) (key upstream : ArtifactKey) : Marked c (s.visitDependent key upstream) := by
  have hv := ArtifactInvalidationRecord.valid_dependency key upstream s.lineages[key]?
    (validInputs_inherited (h.records hc).dirty upstream)
  exact h.trans ((marked_insertDirty hv).trans (marked_recordInvalidation hv))

theorem marked_markDependentsDirty (hc : c.RecordsSound) (h : Marked c s)
    {root : ArtifactKey} : Marked c (s.markDependentsDirty root) :=
  depthFirst_invariant (P := fun s' => Marked c s')
    (fun _ key upstream hs => marked_visitDependent hc hs key upstream) _ _ _ _ h

theorem marked_markDirtyValidated (hc : c.RecordsSound) (h : Marked c s) (hv : record.Valid) :
    Marked c (s.markDirtyValidated record) := by
  have hrecord : Marked c (s.recordInvalidation record) :=
    h.trans (marked_recordInvalidation hv)
  exact marked_markDependentsDirty hc (hrecord.trans (marked_insertDirty hv))

theorem marked_markDirty (hc : c.RecordsSound) (h : c.markDirty record = .ok c') : Marked c c' := by
  simp only [markDirty, bind_eq_ok] at h
  obtain ⟨_, hv, generation, _, hr⟩ := h
  rw [← ok.inj hr]
  exact (marked_markDirtyValidated hc (.refl c) hv).withStats _

theorem marked_markDirtyBatch (hc : c.RecordsSound)
    {records : List ArtifactInvalidationRecord} (h : c.markDirtyBatch records = .ok c') :
    Marked c c' := by
  simp only [markDirtyBatch, bind_eq_ok] at h
  obtain ⟨_, hv, generation, _, hr⟩ := h
  rw [← ok.inj hr]
  have hfold : ∀ (rs : List ArtifactInvalidationRecord) (s : ArtifactCache V),
      (∀ r ∈ rs, r.Valid) → Marked c s → Marked c (rs.foldl markDirtyValidated s) := by
    intro rs
    induction rs with
    | nil => exact fun s _ hs => hs
    | cons r rs ih =>
      intro s hvalid hs
      apply ih
      · exact fun r' hr' => hvalid r' (List.mem_cons_of_mem _ hr')
      · exact marked_markDirtyValidated hc hs (hvalid r (List.mem_cons_self ..))
  exact (hfold records c (checkAll_eq_ok.mp hv) (.refl c)).withStats _

theorem marked_invalidateAll (hc : c.RecordsSound) {reasonKind : String}
    (h : c.invalidateAll reasonKind = .ok c') : Marked c c' := by
  simp only [invalidateAll, ite_error_eq_ok, bind_eq_ok] at h
  obtain ⟨_, records, _, hbatch⟩ := h
  exact marked_markDirtyBatch hc hbatch

theorem marked_get (c : ArtifactCache V) (key : ArtifactKey) : Marked c (c.get key).2 := by
  unfold get
  by_cases hd : c.isDirty key = true
  · rw [if_pos hd]
    exact (Marked.refl c).withStats _
  · rw [if_neg hd]
    cases c.entries[key]? with
    | some _ | none => exact (Marked.refl c).withStats _

variable {key lineageId : ArtifactKey}

theorem marked_replaceLineageHead (hc : c.RecordsSound)
    (h : c.replaceLineageHead key lineageId = .ok c') : Marked c c' := by
  unfold replaceLineageHead at h
  cases hh : c.lineageHeads[lineageId]? with
  | none =>
    simp only [hh, ok.injEq] at h
    rw [← h]
    exact .refl c
  | some previous =>
    simp only [hh] at h
    by_cases hne : previous ≠ key
    · simp only [if_pos hne, bind_eq_ok] at h
      obtain ⟨r₀, _, r₁, _, r₂, _, _, _, hmark⟩ := h
      exact marked_markDirty hc hmark
    · simp only [if_neg hne, ok.injEq] at h
      rw [← h]
      exact .refl c

/-! ## Stores -/

variable {entries : OrdMap ArtifactKey V}

theorem isSome_insert {k : ArtifactKey} {value : V} (h : k = key ∨ (entries[k]?).isSome = true) :
    ((entries.insert key value)[k]?).isSome = true := by
  rw [OrdMap.lookup_insert]
  by_cases hk : key = k
  · rw [if_pos hk]
    rfl
  · rw [if_neg hk]
    exact h.resolve_left (fun heq => hk heq.symm)

/-- After unlinking, `key` is a dependent of nothing and all other pairs are kept. -/
theorem get2_unlinkDependents
    (h : InverseIndex c.dependencies c.dependents) {key d k : ArtifactKey} :
    (c.unlinkDependents key).get2 d k = some () ↔ key ≠ k ∧ c.dependents.get2 d k = some () := by
  unfold unlinkDependents
  cases hk : c.dependencies[key]? with
  | none =>
    show c.dependents.get2 d k = some () ↔ key ≠ k ∧ c.dependents.get2 d k = some ()
    refine ⟨fun hd => ⟨?_, hd⟩, And.right⟩
    rintro rfl
    obtain ⟨ds, hds, _⟩ := (h.inverse d key).mp hd
    exact absurd (hk.symm.trans hds) (by simp)
  | some old =>
    show NestedMap.get2 (old.foldl (fun dependents d' => dependents.erase2 d' key) c.dependents)
      d k = some () ↔ key ≠ k ∧ c.dependents.get2 d k = some ()
    rw [NestedMap.get2_foldl_erase2]
    refine and_congr_left fun hd => ⟨fun hnot heq => ?_, fun hne hpair => hne hpair.2⟩
    -- a dependent `key` of `d` has `d` among its old dependencies
    subst heq
    obtain ⟨ds, hds, hmem⟩ := (h.inverse d key).mp hd
    rw [hk, Option.some.injEq] at hds
    exact hnot ⟨hds ▸ hmem, rfl⟩

theorem noEmptyInner_unlinkDependents (h : c.dependents.NoEmptyInner)
    {key : ArtifactKey} : (c.unlinkDependents key).NoEmptyInner := by
  unfold unlinkDependents
  cases c.dependencies[key]? with
  | none => exact h
  | some old => exact h.foldl_erase2 old key

variable {ds : List ArtifactKey}

theorem lookup_insert_cases {dependencies : OrdMap ArtifactKey (List ArtifactKey)}
    {k : ArtifactKey} {ds' : List ArtifactKey} (h : (dependencies.insert key ds)[k]? = some ds') :
    (k = key ∧ ds' = ds) ∨ (key ≠ k ∧ dependencies[k]? = some ds') := by
  rw [OrdMap.lookup_insert] at h
  by_cases heq : key = k
  · rw [if_pos heq] at h
    exact .inl ⟨heq.symm, (Option.some.inj h).symm⟩
  · rw [if_neg heq] at h
    exact .inr ⟨heq, h⟩

/-- Storing an artifact keeps the index the inverse of the dependencies, whether or not
    these are stored. -/
theorem inverseIndex_store (h : InverseIndex c.dependencies c.dependents) (hself : key ∉ ds) :
    InverseIndex (c.dependencies.insert key ds)
      (ds.foldl (fun dependents d => dependents.insert2 d key ()) (c.unlinkDependents key)) := by
  refine ⟨?_, ?_, (noEmptyInner_unlinkDependents h.inhabited).foldl_insert2 ds key⟩
  · intro k ds' hk
    rcases lookup_insert_cases hk with ⟨rfl, rfl⟩ | ⟨_, hold⟩
    · exact hself
    · exact h.irreflexive hold
  · intro d k
    rw [NestedMap.get2_foldl_insert2, get2_unlinkDependents h, h.inverse d k, OrdMap.lookup_insert]
    by_cases heq : key = k
    · subst heq
      simp
    · simp [heq]

/-- Storing an artifact whose dependencies are stored keeps the dependency index. -/
theorem dependencyIndex_store
    (h : DependencyIndex c.entries c.dependencies c.dependents) {value : V}
    (hsorted : ds.Pairwise ordLt) (hself : key ∉ ds)
    (hclosed : ∀ d ∈ ds, (c.entries[d]?).isSome = true) :
    DependencyIndex (c.entries.insert key value) (c.dependencies.insert key ds)
      (ds.foldl (fun dependents d => dependents.insert2 d key ()) (c.unlinkDependents key)) := by
  have hinverse := inverseIndex_store h.inverseIndex hself
  refine ⟨?_, ?_, ?_, hinverse.irreflexive, hinverse.inverse, hinverse.inhabited⟩
  · intro k ds' hk
    rcases lookup_insert_cases hk with ⟨rfl, _⟩ | ⟨_, hold⟩
    · exact isSome_insert (.inl rfl)
    · exact isSome_insert (.inr (h.owned hold))
  · intro k ds' hk d hd
    rcases lookup_insert_cases hk with ⟨_, rfl⟩ | ⟨_, hold⟩
    · exact isSome_insert (.inr (hclosed d hd))
    · exact isSome_insert (.inr (h.closed hold d hd))
  · intro k ds' hk
    rcases lookup_insert_cases hk with ⟨_, rfl⟩ | ⟨_, hold⟩
    · exact hsorted
    · exact h.sorted hold

/-- A larger set of entries keeps the lineage graph. -/
theorem lineageGraph_mono {entries' : OrdMap ArtifactKey V}
    {lineageHeads lineages : OrdMap ArtifactKey ArtifactKey}
    (h : LineageGraph entries lineageHeads lineages)
    (hsub : ∀ k : ArtifactKey, (entries[k]?).isSome = true → (entries'[k]?).isSome = true) :
    LineageGraph entries' lineageHeads lineages :=
  ⟨fun hk => ⟨hsub _ (h.head hk).1, (h.head hk).2⟩,
    fun hk => ⟨hsub _ (h.member hk).1, (h.member hk).2⟩, h.acyclic⟩

/-- `key` may become the head of `lineageId`: it is the head of no other lineage it would
    leave, and `lineageId` does not lead to it. -/
structure LineageAccepted (c : ArtifactCache V) (key lineageId : ArtifactKey) : Prop where
  notHead : ∀ l : ArtifactKey, c.lineages[key]? = some l → l ≠ lineageId →
    c.lineageHeads[l]? ≠ some key
  noCycle : ¬ Leads (fun k : ArtifactKey => c.lineages[k]?) lineageId key

/-- Making a stored `key` the head of an accepted lineage keeps the lineage graph. -/
theorem lineageGraph_link (h : LineageGraph entries c.lineageHeads c.lineages)
    (hkey : (entries[key]?).isSome = true) (ha : c.LineageAccepted key lineageId) :
    LineageGraph entries (c.lineageHeads.insert lineageId key)
      (c.lineages.insert key lineageId) := by
  refine ⟨?_, ?_, ?_⟩
  · intro l k hl
    rw [OrdMap.lookup_insert] at hl ⊢
    by_cases heq : lineageId = l
    · rw [if_pos heq, Option.some.injEq] at hl
      rw [← hl, if_pos rfl, heq]
      exact ⟨hkey, rfl⟩
    · rw [if_neg heq] at hl
      obtain ⟨hentry, hback⟩ := h.head hl
      -- `k` is the head of `l`, so it cannot be the key that moves to `lineageId`
      have hne : key ≠ k := by
        rintro rfl
        exact ha.notHead l hback (fun h' => heq h'.symm) hl
      rw [if_neg hne]
      exact ⟨hentry, hback⟩
  · intro k l hk
    rw [OrdMap.lookup_insert] at hk ⊢
    by_cases heq : key = k
    · rw [if_pos heq, Option.some.injEq] at hk
      rw [if_pos hk, ← heq]
      exact ⟨hkey, rfl⟩
    · rw [if_neg heq] at hk
      obtain ⟨hentry, hhead⟩ := h.member hk
      refine ⟨hentry, ?_⟩
      by_cases hl : lineageId = l
      · rw [if_pos hl]
        rfl
      · rw [if_neg hl]
        exact hhead
  · refine Ends.redirect h.acyclic (k := key) (l := lineageId) ?_ ?_ ha.noCycle
    · rw [OrdMap.lookup_insert, if_pos rfl]
    · intro x hx
      rw [OrdMap.lookup_insert, if_neg (fun heq => hx heq.symm)]

variable {value : V} {dependencies : List ArtifactKey}

/-- What a successful `store_internal` does. -/
theorem storeInternal_cases (h : c.storeInternal key value dependencies = .ok c') :
    key ∉ dependencies ∧ c.stats.generation + 1 < u64Size ∧ ∃ stats, c' = { c with
        dependents := (sortDedup dependencies).foldl
          (fun dependents d => dependents.insert2 d key ()) (c.unlinkDependents key)
        dependencies := c.dependencies.insert key (sortDedup dependencies)
        entries := c.entries.insert key value
        dirty := c.dirty.erase key
        stats := stats } := by
  simp only [storeInternal, ite_error_eq_ok, mem_sortDedup, bind_eq_ok, nextGeneration,
    generationAfter] at h
  obtain ⟨hself, generation, hgen, hr⟩ := h
  have hlt : c.stats.generation + 1 < u64Size := by
    by_contra hge
    rw [if_neg hge] at hgen
    exact absurd hgen (by simp)
  exact ⟨hself, hlt, _, (ok.inj hr).symm⟩

/-- With a generation left, `store_internal` refuses self-dependencies only. -/
theorem mem_of_storeInternal_error {e : CaapError} {generation : Nat}
    (h : c.storeInternal key value dependencies = .error e)
    (hg : c.nextGeneration = .ok generation) : key ∈ dependencies := by
  by_contra hself
  simp only [storeInternal, mem_sortDedup, if_neg hself, hg, ok_bind] at h
  exact absurd h (by simp)

/-- A successful store of an artifact whose dependencies are stored; the lineage graph is
    that of the entries with the new one. -/
theorem reloadable_storeInternal (h : c.storeInternal key value dependencies = .ok c')
    (hindex : DependencyIndex c.entries c.dependencies c.dependents) (hrecords : c.RecordsSound)
    (hlineage : LineageGraph (c.entries.insert key value) c.lineageHeads c.lineages)
    (hclosed : ∀ d ∈ dependencies, (c.entries[d]?).isSome = true) : c'.Reloadable := by
  obtain ⟨hself, _, stats, rfl⟩ := storeInternal_cases h
  refine ⟨?_, hlineage,
    ⟨hrecords.byKey, hrecords.byLineage, hrecords.dirty.erase key, hrecords.dirtyLineages⟩⟩
  refine dependencyIndex_store hindex (pairwise_sortDedup dependencies) ?_ ?_
  · rwa [mem_sortDedup]
  · intro d hd
    exact hclosed d (mem_sortDedup.mp hd)

/-- The generations `store_with_lineage` needs: one more when it replaces a head. -/
def lineageIncrements (c : ArtifactCache V) (key lineageId : ArtifactKey) : Nat :=
  match c.lineageHeads[lineageId]? with
  | some previous => if previous ≠ key then 2 else 1
  | none => 1

/-- The generations suffice when `store_with_lineage` gets past its early checks. -/
theorem generation_lt_of_replaced {replaced : ArtifactCache V}
    {generation : Nat} (hr : c.replaceLineageHead key lineageId = .ok replaced)
    (hg : replaced.nextGeneration = .ok generation) :
    c.stats.generation + c.lineageIncrements key lineageId < u64Size := by
  have hlt : ∀ {s : ArtifactCache V} {n g : Nat}, s.generationAfter n = .ok g →
      s.stats.generation + n < u64Size := by
    intro s n g h
    unfold generationAfter at h
    by_contra hge
    rw [if_neg hge] at h
    exact absurd h (by simp)
  unfold replaceLineageHead at hr
  unfold lineageIncrements
  cases hh : c.lineageHeads[lineageId]? with
  | none =>
    simp only [hh, ok.injEq] at hr
    rw [← hr] at hg
    exact hlt hg
  | some previous =>
    simp only [hh] at hr ⊢
    by_cases hne : previous ≠ key
    · simp only [if_pos hne, bind_eq_ok] at hr ⊢
      obtain ⟨_, _, _, _, _, _, _, htwo, _⟩ := hr
      exact hlt htwo
    · simp only [if_neg hne, ok.injEq] at hr ⊢
      rw [← hr] at hg
      exact hlt hg

/-! ## Guarded runs -/

/-- The stores that keep a cache reloadable.  A store that is refused because the
    generation would overflow, or before it writes anything, is always fine; a
    `store_with_lineage` that depends on itself is refused only after it has made the
    key the head of its lineage. -/
def StoreAccepted (c : ArtifactCache V) : CacheOp V → Prop
  | .store key _ dependencies =>
    key ∉ dependencies → c.stats.generation + 1 < u64Size →
      ∀ d ∈ dependencies, (c.entries[d]?).isSome = true
  | .storeWithLineage key _ dependencies lineageId =>
    c.stats.generation + c.lineageIncrements key lineageId < u64Size →
      c.LineageAccepted key lineageId ∧
        (key ∈ dependencies → (c.entries[key]?).isSome = true) ∧
        (key ∉ dependencies → ∀ d ∈ dependencies, (c.entries[d]?).isSome = true)
  | _ => True

theorem reloadable_storeWithLineage (h : c.Reloadable)
    (ha : c.StoreAccepted (.storeWithLineage key value dependencies lineageId)) :
    (c.storeWithLineage key value dependencies lineageId).2.Reloadable := by
  unfold storeWithLineage
  cases hr : c.replaceLineageHead key lineageId with
  | error e => exact h
  | ok replaced =>
    have hm : Marked c replaced := marked_replaceLineageHead h.records hr
    have hreplaced : replaced.Reloadable := hm.reloadable h
    cases hg : replaced.nextGeneration with
    | error e => simpa only [hg] using hreplaced
    | ok generation =>
      simp only [hg]
      obtain ⟨hlin, hselfStored, hdepsStored⟩ := ha (generation_lt_of_replaced hr hg)
      have hlin' : replaced.LineageAccepted key lineageId := by
        refine ⟨?_, ?_⟩
        · rw [hm.lineages, hm.lineageHeads]
          exact hlin.notHead
        · rw [hm.lineages]
          exact hlin.noCycle
      have hrecords : (replaced.linkLineage key lineageId).RecordsSound :=
        ⟨hreplaced.records.byKey, hreplaced.records.byLineage, hreplaced.records.dirty,
          hreplaced.records.dirtyLineages.erase lineageId⟩
      cases hs : (replaced.linkLineage key lineageId).storeInternal key value dependencies with
      | error e =>
        -- the lineage is linked although nothing was stored
        have hself : key ∈ dependencies := mem_of_storeInternal_error hs hg
        have hkey : (replaced.entries[key]?).isSome = true := by
          rw [hm.entries]
          exact hselfStored hself
        exact ⟨hreplaced.index, lineageGraph_link hreplaced.lineage hkey hlin', hrecords⟩
      | ok stored =>
        obtain ⟨hself, _⟩ := storeInternal_cases hs
        refine reloadable_storeInternal hs hreplaced.index hrecords ?_ ?_
        · refine lineageGraph_link ?_ (isSome_insert (.inl rfl)) hlin'
          exact lineageGraph_mono hreplaced.lineage fun k hk => isSome_insert (.inr hk)
        · intro d hd
          show (replaced.entries[d]?).isSome = true
          rw [hm.entries]
          exact hdepsStored hself d hd

/-- One accepted call keeps the cache reloadable. -/
theorem reloadable_step (c : ArtifactCache V) (op : CacheOp V) (h : c.Reloadable)
    (ha : c.StoreAccepted op) : (c.step op).Reloadable := by
  -- a call that fails as a whole leaves the cache as it was
  have hadvance : ∀ r : CaapResult (ArtifactCache V), (∀ c', r = .ok c' → c'.Reloadable) →
      (advance c r).Reloadable := by
    intro r hr
    rcases advance_cases c r with heq | ⟨c', hok, heq⟩
    · rw [heq]
      exact h
    · rw [heq]
      exact hr c' hok
  cases op with
  | store key value dependencies =>
    apply hadvance
    intro c' hs
    obtain ⟨hself, hgen, _⟩ := storeInternal_cases hs
    refine reloadable_storeInternal hs h.index h.records ?_ (ha hself hgen)
    exact lineageGraph_mono h.lineage fun k hk => isSome_insert (.inr hk)
  | storeWithLineage key value dependencies lineageId => exact reloadable_storeWithLineage h ha
  | get key => exact (marked_get c key).reloadable h
  | markDirty record => exact hadvance _ fun c' hr => (marked_markDirty h.records hr).reloadable h
  | markDirtyBatch records =>
    exact hadvance _ fun c' hr => (marked_markDirtyBatch h.records hr).reloadable h
  | invalidateAll reasonKind =>
    exact hadvance _ fun c' hr => (marked_invalidateAll h.records hr).reloadable h

/-- Every cache reached by accepted calls can be saved and is reloaded unchanged. -/
theorem reload_of_storesAccepted {ops : List (CacheOp V)} (h : Guarded StoreAccepted step new ops) :
    restoreSnapshot (run step new ops).snapshot = .ok (run step new ops) ∧
      (run step new ops).cacheFile.validate = .ok () := by
  have hreload : (run step (new : ArtifactCache V) ops).Reloadable :=
    h.invariant reloadable_step reloadable_new
  simp [cacheFile, ArtifactCacheFile.new, ArtifactCacheFile.validate, hreload.restoreSnapshot_eq,
    ok_bind]

/-- The key of a unit artifact. -/
def mainUnitKey : ArtifactKey := ⟨["unit", "main"], by decide, by decide⟩

/-- The key of a stage artifact. -/
def lowerStageKey : ArtifactKey := ⟨["stage", "lower"], by decide, by decide⟩

/-- The lineage of the stage artifacts of a unit. -/
def stageUnitLineage : ArtifactKey := ⟨["stage_unit", "main"], by decide, by decide⟩

/-- A run that stores an artifact, links a second one that depends on it to a lineage, and
    then invalidates both. -/
def linkedRun : List (CacheOp Nat) :=
  [.store mainUnitKey 1 [], .storeWithLineage lowerStageKey 2 [mainUnitKey] stageUnitLineage,
    .invalidateAll "source_changed"]

theorem reload_of_storesAccepted_linkedRun : Guarded StoreAccepted step new linkedRun ∧
      restoreSnapshot (run step new linkedRun).snapshot = .ok (run step new linkedRun) ∧
      (run step new linkedRun).cacheFile.validate = .ok () := by
  have hstage : (step (new : ArtifactCache Nat) (.store mainUnitKey 1 [])).lineages[lowerStageKey]?
      = none := by decide
  have hlineage :
      (step (new : ArtifactCache Nat) (.store mainUnitKey 1 [])).lineages[stageUnitLineage]?
        = none := by decide
  have h : Guarded StoreAccepted step new linkedRun := by
    refine ⟨fun _ _ d hd => absurd hd List.not_mem_nil, fun _ => ⟨⟨?_, ?_⟩, ?_, ?_⟩, trivial, trivial⟩
    · intro l hl
      exact absurd (hstage.symm.trans hl) (by simp)
    · intro hleads
      exact absurd (hleads.eq_of_none hlineage) (by decide)
    · decide
    · decide
  exact ⟨h, reload_of_storesAccepted h⟩

/-- `store` accepts a dependency that is not stored, and the cache can no longer be
    saved. -/
theorem store_absent_dependency_not_reloadable :
    (run step (new : ArtifactCache Nat) [.store lowerStageKey 2 [mainUnitKey]]).peek lowerStageKey
        = some 2 ∧ (run step (new : ArtifactCache Nat)
          [.store lowerStageKey 2 [mainUnitKey]]).cacheFile.validate
        = .error (.artifacts "artifact snapshot dependency is missing from entries") := by
  decide

end ArtifactCache

end Caap
