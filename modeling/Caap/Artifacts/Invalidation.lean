/-
  Caap.Artifacts.Invalidation

  What invalidation reaches.  Every public operation, restoring a snapshot included,
  keeps `dependents` the inverse of `dependencies`; marking a key dirty then adds to the
  dirty keys that key and everything that depends on it, directly or not, and to the
  dirty lineages those of the dependents together with the lineage the record names.

  A key is fresh when neither it nor its lineage is dirty.  `store_with_lineage` clears
  both marks; `store` clears the first one only.
-/

import Caap.Artifacts.Runs

namespace Caap

open Std Lib OrdMap

variable {V : Type}

/-- All public operations that change a cache. -/
inductive CacheCall (V : Type) where
  | op (op : CacheOp V)
  | recordCacheHit
  | recordCacheMiss
  | restoreSnapshot (snapshot : ArtifactCacheSnapshot V)
  | restoreCacheFile (file : ArtifactCacheFile V)

namespace ArtifactCache

/-- The cache after one call, successful or not. -/
def callStep (c : ArtifactCache V) : CacheCall V → ArtifactCache V
  | .op op => c.step op
  | .recordCacheHit => c.recordCacheHit
  | .recordCacheMiss => c.recordCacheMiss
  | .restoreSnapshot snapshot => advance c (restoreSnapshot snapshot)
  | .restoreCacheFile file => advance c (restoreCacheFile file)

/-- The artifact `k` lists `d` among its dependencies. -/
def DependsOn (c : ArtifactCache V) (k d : ArtifactKey) : Prop :=
  ∃ ds, c.dependencies[k]? = some ds ∧ d ∈ ds

/-! ## One invalidation -/

/-- `c'` is `c` with the keys in `keys` and the lineages in `lineageIds` marked dirty. -/
structure Spread (c c' : ArtifactCache V) (keys lineageIds : ArtifactKey → Prop) : Prop where
  entries : c'.entries = c.entries
  dependencies : c'.dependencies = c.dependencies
  dependents : c'.dependents = c.dependents
  lineages : c'.lineages = c.lineages
  dirty : ∀ k, k ∈ c'.dirty ↔ k ∈ c.dirty ∨ keys k
  dirtyLineages : ∀ l, l ∈ c'.dirtyLineages ↔ l ∈ c.dirtyLineages ∨ lineageIds l

theorem Spread.refl (c : ArtifactCache V) : Spread c c (fun _ => False) (fun _ => False) :=
  ⟨rfl, rfl, rfl, rfl, fun _ => by rw [or_false], fun _ => by rw [or_false]⟩

variable {c : ArtifactCache V}

theorem Spread.trans {a b : ArtifactCache V} {keys keys' ids ids' : ArtifactKey → Prop}
    (h : Spread a b keys ids) (h' : Spread b c keys' ids') :
    Spread a c (fun k => keys k ∨ keys' k) (fun l => ids l ∨ ids' l) where
  entries := h'.entries.trans h.entries
  dependencies := h'.dependencies.trans h.dependencies
  dependents := h'.dependents.trans h.dependents
  lineages := h'.lineages.trans h.lineages
  dirty := fun k => by rw [h'.dirty, h.dirty, or_assoc]
  dirtyLineages := fun l => by rw [h'.dirtyLineages, h.dirtyLineages, or_assoc]

variable {c' : ArtifactCache V}

theorem Spread.congr {keys keys' ids ids' : ArtifactKey → Prop}
    (h : Spread c c' keys ids) (hkeys : ∀ k, keys k ↔ keys' k) (hids : ∀ l, ids l ↔ ids' l) :
    Spread c c' keys' ids' :=
  { h with
    dirty := fun k => by rw [h.dirty, hkeys]
    dirtyLineages := fun l => by rw [h.dirtyLineages, hids] }

theorem spread_recordInvalidation (c : ArtifactCache V) (record : ArtifactInvalidationRecord) :
    Spread c (c.recordInvalidation record) (fun _ => False)
      (fun l => record.lineageId = some l) := by
  unfold recordInvalidation
  cases hl : record.lineageId with
  | none => exact ⟨rfl, rfl, rfl, rfl, fun _ => by simp, fun _ => by simp⟩
  | some lineageId =>
    refine ⟨rfl, rfl, rfl, rfl, fun _ => by simp, fun l => ?_⟩
    show l ∈ c.dirtyLineages.insert lineageId record ↔ _
    rw [mem_insert, Option.some.injEq, or_comm, eq_comm]

theorem spread_insertDirty (c : ArtifactCache V) (key : ArtifactKey)
    (record : ArtifactInvalidationRecord) :
    Spread c { c with dirty := c.dirty.insert key record } (fun k => k = key) (fun _ => False) := by
  refine ⟨rfl, rfl, rfl, rfl, fun k => ?_, fun _ => by simp⟩
  show k ∈ c.dirty.insert key record ↔ _
  rw [mem_insert, or_comm]

theorem spread_visitDependent (c : ArtifactCache V) (key upstream : ArtifactKey) :
    Spread c (c.visitDependent key upstream) (fun k => k = key)
      (fun l => c.lineages[key]? = some l) := by
  refine ((spread_insertDirty c key _).trans (spread_recordInvalidation _ _)).congr ?_ ?_
  · intro k
    rw [or_false]
  · intro l
    rw [false_or]
    rfl

/-- The visits of a traversal mark the visited keys and their lineages. -/
theorem spread_foldl_visitDependent (order : List (ArtifactKey × ArtifactKey))
    (c : ArtifactCache V) : Spread c (order.foldl (fun s e => visitDependent s e.1 e.2) c)
      (fun k => ∃ e ∈ order, e.1 = k) (fun l => ∃ e ∈ order, c.lineages[e.1]? = some l) := by
  induction order generalizing c with
  | nil => exact (Spread.refl c).congr (fun _ => by simp) (fun _ => by simp)
  | cons e order ih =>
    have hvisit := spread_visitDependent c e.1 e.2
    refine (hvisit.trans (ih (c.visitDependent e.1 e.2))).congr ?_ ?_
    · intro k
      simp only [List.mem_cons, or_and_right, exists_or, exists_eq_left]
      rw [eq_comm]
    · intro l
      simp only [List.mem_cons, or_and_right, exists_or, exists_eq_left, hvisit.lineages]

theorem mem_dependentsFor {a b : ArtifactKey} :
    b ∈ c.dependentsFor a ↔ c.dependents.get2 a b = some () := by
  unfold dependentsFor NestedMap.get2
  cases c.dependents[a]? with
  | none => simp
  | some inner =>
    rw [Option.bind_some, List.mem_map]
    constructor
    · rintro ⟨⟨b', u⟩, hmem, rfl⟩
      exact mem_toList.mp hmem
    · intro h
      exact ⟨(b, ()), mem_toList.mpr h, rfl⟩

/-- The dependents of `root`, direct or not. -/
def Dependents (c : ArtifactCache V) : ArtifactKey → ArtifactKey → Prop :=
  Relation.TransGen fun a b => b ∈ c.dependentsFor a

/-- With the index the inverse of the dependencies, these are the artifacts that depend on
    `root`. -/
theorem dependents_iff (h : InverseIndex c.dependencies c.dependents)
    (root k : ArtifactKey) : c.Dependents root k ↔ Relation.TransGen c.DependsOn k root := by
  have hstep : (fun a b => b ∈ c.dependentsFor a) = Function.swap c.DependsOn := by
    funext a b
    exact propext (mem_dependentsFor.trans (h.inverse a b))
  rw [Dependents, hstep, Relation.transGen_swap]

theorem spread_markDependentsDirty (c : ArtifactCache V) (root : ArtifactKey) :
    Spread c (c.markDependentsDirty root) (c.Dependents root)
      (fun l => ∃ k, c.Dependents root k ∧ c.lineages[k]? = some l) := by
  have htraversal : ∃ order : List (ArtifactKey × ArtifactKey),
      c.markDependentsDirty root = order.foldl (fun s e => visitDependent s e.1 e.2) c ∧
        ∀ k, (k ∈ [] ∨ ∃ e ∈ order, e.1 = k) ↔ k ∈ [] ∨
          ∃ e ∈ (c.dependentsFor root).reverse.map fun dependent => (dependent, root),
            Leadsto c.dependentsFor e.1 k :=
    depthFirst_eq_foldl [] _ _ c fun a ha => absurd ha List.not_mem_nil
  obtain ⟨order, hfold, hkeys⟩ := htraversal
  have horder : ∀ k, (∃ e ∈ order, e.1 = k) ↔ c.Dependents root k := by
    intro k
    have hk := hkeys k
    simp only [List.not_mem_nil, false_or, List.mem_map, List.mem_reverse,
      exists_exists_and_eq_and] at hk
    rw [hk, Dependents, Relation.TransGen.head'_iff]
  rw [hfold]
  refine (spread_foldl_visitDependent order c).congr horder fun l => ?_
  constructor
  · rintro ⟨e, he, hl⟩
    exact ⟨e.1, (horder e.1).mp ⟨e, he, rfl⟩, hl⟩
  · rintro ⟨k, hk, hl⟩
    obtain ⟨e, he, rfl⟩ := (horder k).mpr hk
    exact ⟨e, he, hl⟩

/-- The keys a record makes dirty: the one it names and its dependents. -/
def Invalidated (c : ArtifactCache V) (record : ArtifactInvalidationRecord)
    (k : ArtifactKey) : Prop :=
  k = record.invalidatedKey ∨ c.Dependents record.invalidatedKey k

theorem spread_markDirtyValidated (c : ArtifactCache V) (record : ArtifactInvalidationRecord) :
    Spread c (c.markDirtyValidated record) (c.Invalidated record)
      (fun l => record.lineageId = some l ∨
        ∃ k, c.Dependents record.invalidatedKey k ∧ c.lineages[k]? = some l) := by
  have hfirst := (spread_recordInvalidation c record).trans
    (spread_insertDirty _ record.invalidatedKey record)
  have hdependents : ∀ s : ArtifactCache V, s.dependents = c.dependents →
      s.Dependents = c.Dependents := by
    intro s hs
    unfold Dependents dependentsFor
    rw [hs]
  refine (hfirst.trans (spread_markDependentsDirty _ record.invalidatedKey)).congr ?_ ?_
  · intro k
    rw [hdependents _ hfirst.dependents, false_or]
    rfl
  · intro l
    rw [hdependents _ hfirst.dependents, hfirst.lineages, or_false]

theorem markDirty_cases {record : ArtifactInvalidationRecord} (h : c.markDirty record = .ok c') :
    ∃ stats, c' = { c.markDirtyValidated record with stats := stats } := by
  simp only [markDirty, bind_eq_ok] at h
  obtain ⟨_, _, generation, _, hr⟩ := h
  exact ⟨_, (Except.ok.inj hr).symm⟩

theorem spread_markDirty {record : ArtifactInvalidationRecord} (h : c.markDirty record = .ok c') :
    Spread c c' (c.Invalidated record) (fun l => record.lineageId = some l ∨
        ∃ k, c.Dependents record.invalidatedKey k ∧ c.lineages[k]? = some l) := by
  obtain ⟨stats, rfl⟩ := markDirty_cases h
  have hs := spread_markDirtyValidated c record
  exact ⟨hs.entries, hs.dependencies, hs.dependents, hs.lineages, hs.dirty, hs.dirtyLineages⟩

/-! ## The dependency index over runs -/

/-- `dependents` is the inverse of `dependencies`. -/
def Indexed (c : ArtifactCache V) : Prop := InverseIndex c.dependencies c.dependents

theorem indexed_new : (new : ArtifactCache V).Indexed := reloadable_new.index.inverseIndex

theorem Spread.indexed {keys ids : ArtifactKey → Prop}
    (h : Spread c c' keys ids) (hc : c.Indexed) : c'.Indexed := by
  unfold Indexed
  rw [h.dependencies, h.dependents]
  exact hc

theorem Indexed.markDirtyBatch (hc : c.Indexed)
    {records : List ArtifactInvalidationRecord} (h : c.markDirtyBatch records = .ok c') :
    c'.Indexed := by
  simp only [ArtifactCache.markDirtyBatch, bind_eq_ok] at h
  obtain ⟨_, _, generation, _, hr⟩ := h
  rw [← Except.ok.inj hr]
  have hfold : ∀ (rs : List ArtifactInvalidationRecord) (s : ArtifactCache V), s.Indexed →
      (rs.foldl markDirtyValidated s).Indexed := by
    intro rs
    induction rs with
    | nil => exact fun _ hs => hs
    | cons r rs ih => exact fun s hs => ih _ ((spread_markDirtyValidated s r).indexed hs)
  exact hfold records c hc

variable {key : ArtifactKey} {value : V} {dependencies : List ArtifactKey}

theorem Indexed.storeInternal (hc : c.Indexed)
    (h : c.storeInternal key value dependencies = .ok c') : c'.Indexed := by
  obtain ⟨hself, _, stats, rfl⟩ := storeInternal_cases h
  exact inverseIndex_store hc (by rwa [mem_sortDedup])

variable {lineageId : ArtifactKey}

theorem replaceLineageHead_cases (h : c.replaceLineageHead key lineageId = .ok c') :
    c' = c ∨ ∃ record, c.markDirty record = .ok c' := by
  unfold replaceLineageHead at h
  cases hh : c.lineageHeads[lineageId]? with
  | none =>
    simp only [hh, Except.ok.injEq] at h
    exact .inl h.symm
  | some previous =>
    simp only [hh] at h
    by_cases hne : previous ≠ key
    · simp only [if_pos hne, bind_eq_ok] at h
      obtain ⟨_, _, _, _, record, _, _, _, hmark⟩ := h
      exact .inr ⟨record, hmark⟩
    · simp only [if_neg hne, Except.ok.injEq] at h
      exact .inl h.symm

theorem Indexed.replaceLineageHead (hc : c.Indexed)
    (h : c.replaceLineageHead key lineageId = .ok c') : c'.Indexed := by
  rcases replaceLineageHead_cases h with rfl | ⟨record, hmark⟩
  · exact hc
  · exact (spread_markDirty hmark).indexed hc

theorem Indexed.storeWithLineage (hc : c.Indexed) (key : ArtifactKey)
    (value : V) (dependencies : List ArtifactKey) (lineageId : ArtifactKey) :
    (c.storeWithLineage key value dependencies lineageId).2.Indexed := by
  unfold ArtifactCache.storeWithLineage
  cases hr : c.replaceLineageHead key lineageId with
  | error e => exact hc
  | ok replaced =>
    have hreplaced : replaced.Indexed := hc.replaceLineageHead hr
    have hlinked : (replaced.linkLineage key lineageId).Indexed := hreplaced
    cases hg : replaced.nextGeneration with
    | error e => simpa only [hg] using hreplaced
    | ok generation =>
      simp only [hg]
      cases hs : (replaced.linkLineage key lineageId).storeInternal key value dependencies with
      | error e => exact hlinked
      | ok stored => exact hlinked.storeInternal hs

/-- The dependency loop of `restore_snapshot` rebuilds the inverse of what it accepts. -/
theorem inverseIndex_restoreDependency {entries : OrdMap ArtifactKey V}
    {state state' : OrdMap ArtifactKey (List ArtifactKey) × NestedMap ArtifactKey ArtifactKey Unit}
    {item : ArtifactKey × List ArtifactKey} (hs : InverseIndex state.1 state.2)
    (h : restoreDependency entries state item = .ok state') : InverseIndex state'.1 state'.2 := by
  obtain ⟨key, keyDependencies⟩ := item
  simp only [restoreDependency, ite_error_eq_ok, Except.ok.injEq] at h
  obtain ⟨_, hfresh, hself, _, _, rfl⟩ := h
  have hnone : state.1[key]? = none := by
    rwa [Option.not_isSome_iff_eq_none] at hfresh
  have hself' : key ∉ sort keyDependencies := by rwa [mem_sort]
  refine ⟨?_, ?_, hs.inhabited.foldl_insert2 _ key⟩
  · intro k ds hk
    rcases lookup_insert_cases hk with ⟨rfl, rfl⟩ | ⟨_, hold⟩
    · exact hself'
    · exact hs.irreflexive hold
  · intro d k
    rw [NestedMap.get2_foldl_insert2, hs.inverse d k, lookup_insert]
    by_cases heq : key = k
    · subst heq
      simp [hnone]
    · simp [heq]

theorem indexed_restoreSnapshot {snapshot : ArtifactCacheSnapshot V}
    (h : restoreSnapshot snapshot = .ok c) : c.Indexed := by
  simp only [restoreSnapshot, bind_eq_ok] at h
  obtain ⟨entries, _, ⟨dependencies, dependents⟩, hdeps, h⟩ := h
  have hempty : InverseIndex ∅ ∅ := indexed_new (V := V)
  have hindex : InverseIndex dependencies dependents :=
    foldOk_invariant (I := fun _ s => InverseIndex s.1 s.2)
      (fun _ _ _ _ hs hstep => inverseIndex_restoreDependency hs hstep) hdeps hempty
  obtain ⟨_, _, _, _, _, _, _, _, _, _, _, _, _, _, _, _, _, _, _, _, hc⟩ := h
  rw [← Except.ok.inj hc]
  exact hindex

/-- Every call keeps the index the inverse of the dependencies. -/
theorem Indexed.callStep (hc : c.Indexed) (call : CacheCall V) : (c.callStep call).Indexed := by
  have hadvance : ∀ r : CaapResult (ArtifactCache V), (∀ c', r = .ok c' → c'.Indexed) →
      (advance c r).Indexed := by
    intro r hr
    rcases advance_cases c r with heq | ⟨c', hok, heq⟩
    · rw [heq]
      exact hc
    · rw [heq]
      exact hr c' hok
  cases call with
  | op op =>
    cases op with
    | store key value dependencies => exact hadvance _ fun _ h => hc.storeInternal h
    | storeWithLineage key value dependencies lineageId =>
      exact hc.storeWithLineage key value dependencies lineageId
    | get key =>
      have hm := marked_get c key
      show InverseIndex (c.get key).2.dependencies (c.get key).2.dependents
      rw [hm.dependencies, hm.dependents]
      exact hc
    | markDirty record => exact hadvance _ fun _ h => (spread_markDirty h).indexed hc
    | markDirtyBatch records => exact hadvance _ fun _ h => hc.markDirtyBatch h
    | invalidateAll reasonKind =>
      refine hadvance _ fun c' h => ?_
      simp only [ArtifactCache.invalidateAll, ite_error_eq_ok, bind_eq_ok] at h
      obtain ⟨_, records, _, hbatch⟩ := h
      exact hc.markDirtyBatch hbatch
  | recordCacheHit => exact hc
  | recordCacheMiss => exact hc
  | restoreSnapshot snapshot => exact hadvance _ fun _ h => indexed_restoreSnapshot h
  | restoreCacheFile file =>
    refine hadvance _ fun c' h => ?_
    simp only [ArtifactCache.restoreCacheFile, bind_eq_ok] at h
    obtain ⟨_, _, hrestore⟩ := h
    exact indexed_restoreSnapshot hrestore

/-! ## What invalidation reaches -/

variable {k : ArtifactKey}

theorem isDirty_iff : c.isDirty k = true ↔
      k ∈ c.dirty ∨ ∃ l, c.lineages[k]? = some l ∧ l ∈ c.dirtyLineages := by
  simp only [isDirty, Bool.or_eq_true, Option.any_eq_true, ← ExtTreeMap.mem_iff_isSome_getElem?]

theorem get_of_isDirty (h : c.isDirty k = true) : (c.get k).1 = none := by
  rw [get, if_pos h]

theorem peek_of_isDirty (h : c.isDirty k = true) : c.peek k = none := by
  rw [peek, if_pos h]

/-- In every reachable cache the dependents index is the inverse of the dependencies, and
    `mark_dirty` makes dirty the key of the record and all that depends on it, serves none
    of the dirty keys, and changes the answer of `is_dirty` elsewhere only for a key whose
    lineage is named by the record or is that of an invalidated key. -/
theorem markDirty_reaches_dependents {c : ArtifactCache V} (hreach : Reachable callStep new c) :
    InverseIndex c.dependencies c.dependents ∧
      ∀ (record : ArtifactInvalidationRecord) (c' : ArtifactCache V), c.markDirty record = .ok c' →
          (∀ k, k ∈ c'.dirty ↔ k ∈ c.dirty ∨ k = record.invalidatedKey ∨
            Relation.TransGen c.DependsOn k record.invalidatedKey) ∧
          (∀ k ∈ c'.dirty, (c'.get k).1 = none ∧ c'.peek k = none) ∧
          ∀ k, k ∉ c'.dirty → c'.isDirty k ≠ c.isDirty k → ∃ l, c.lineages[k]? = some l ∧
              (record.lineageId = some l ∨ ∃ d, (d = record.invalidatedKey ∨
                    Relation.TransGen c.DependsOn d record.invalidatedKey) ∧
                  c.lineages[d]? = some l) := by
  have hindex : c.Indexed := hreach.invariant indexed_new fun _ call hc => hc.callStep call
  refine ⟨hindex, fun record c' hmark => ?_⟩
  have hspread := spread_markDirty hmark
  have hinvalidated : ∀ k, c.Invalidated record k ↔ k = record.invalidatedKey ∨
      Relation.TransGen c.DependsOn k record.invalidatedKey := by
    intro k
    rw [Invalidated, dependents_iff hindex]
  refine ⟨fun k => ?_, fun k hk => ?_, fun k hk hne => ?_⟩
  · rw [hspread.dirty, hinvalidated]
  · have hdirty : c'.isDirty k = true := isDirty_iff.mpr (.inl hk)
    exact ⟨get_of_isDirty hdirty, peek_of_isDirty hdirty⟩
  · have hbefore : k ∉ c.dirty := fun h => hk ((hspread.dirty k).mpr (.inl h))
    -- dirt is never removed, so the key was fresh before and its lineage is now dirty
    have hmono : c.isDirty k = true → c'.isDirty k = true := by
      rw [isDirty_iff, isDirty_iff, hspread.lineages]
      rintro (h | ⟨l, hl, hd⟩)
      · exact absurd h hbefore
      · exact .inr ⟨l, hl, (hspread.dirtyLineages l).mpr (.inl hd)⟩
    have hfresh : ¬ c.isDirty k = true := fun h => hne ((hmono h).trans h.symm)
    have hnow : c'.isDirty k = true := by
      by_contra hnot
      exact hne ((Bool.eq_false_iff.mpr hnot).trans (Bool.eq_false_iff.mpr hfresh).symm)
    rw [isDirty_iff, hspread.lineages] at hnow
    obtain ⟨l, hl, hdirty⟩ := hnow.resolve_left hk
    refine ⟨l, hl, ?_⟩
    rcases (hspread.dirtyLineages l).mp hdirty with hold | hrecord | ⟨d, hd, hdl⟩
    · exact absurd (isDirty_iff.mpr (.inr ⟨l, hl, hold⟩)) hfresh
    · exact .inl hrecord
    · exact .inr ⟨d, (hinvalidated d).mp (.inr hd), hdl⟩

/-- `mark_dirty` on the unit artifact of a cache in which a stage artifact depends on it. -/
theorem markDirty_reaches_dependents_stage :
    ∃ record c', ArtifactInvalidationRecord.new "source_changed" mainUnitKey = .ok record ∧
      (run callStep (new : ArtifactCache Nat) [.op (.store mainUnitKey 1 []),
        .op (.store lowerStageKey 2 [mainUnitKey])]).markDirty record = .ok c' ∧
      lowerStageKey ∈ c'.dirty ∧ c'.peek lowerStageKey = none := by
  have hreach := markDirty_reaches_dependents (V := Nat) ⟨[.op (.store mainUnitKey 1 []),
    .op (.store lowerStageKey 2 [mainUnitKey])], rfl⟩
  have hmark : ∃ record c', ArtifactInvalidationRecord.new "source_changed" mainUnitKey
      = .ok record ∧ record.invalidatedKey = mainUnitKey ∧
        (run callStep (new : ArtifactCache Nat) [.op (.store mainUnitKey 1 []),
          .op (.store lowerStageKey 2 [mainUnitKey])]).markDirty record = .ok c' :=
    ⟨_, _, rfl, rfl, rfl⟩
  obtain ⟨record, c', hrecord, hkey, hc'⟩ := hmark
  obtain ⟨hdirty, hread, _⟩ := hreach.2 record c' hc'
  rw [hkey] at hdirty
  have hstage := (hdirty lowerStageKey).mpr
    (.inr (.inr (.single ⟨[mainUnitKey], by decide, List.mem_singleton.mpr rfl⟩)))
  exact ⟨record, c', hrecord, hc', hstage, (hread lowerStageKey hstage).2⟩

/-- A stage artifact in a lineage, next to a unit artifact without one. -/
def lineageBesideUnit : List (CacheCall Nat) :=
  [.op (.storeWithLineage lowerStageKey 2 [] stageUnitLineage), .op (.store mainUnitKey 1 [])]

/-- A record for the unit artifact that names the lineage of the stage artifact. -/
def unitRecordNamingLineage : ArtifactInvalidationRecord :=
  { reasonKind := "source_changed"
    invalidatedKey := mainUnitKey
    replacementKey := none
    lineageId := some stageUnitLineage
    lineageKind := some "stage_unit"
    upstreamKey := none
    changedInputs := [] }

/-- The record for a key without dependents invalidates that key only. -/
theorem invalidated_iff_of_no_dependents (record : ArtifactInvalidationRecord)
    (h : c.dependentsFor record.invalidatedKey = []) (k : ArtifactKey) :
    c.Invalidated record k ↔ k = record.invalidatedKey := by
  refine or_iff_left_of_imp fun hd => ?_
  obtain ⟨b, hb, _⟩ := Relation.TransGen.head'_iff.mp hd
  rw [h] at hb
  exact absurd hb List.not_mem_nil

/-- Invalidating the unit artifact makes the stage artifact stale, although the only
    invalidated key belongs to no lineage. -/
theorem markDirty_names_foreign_lineage : unitRecordNamingLineage.Valid ∧
      ∃ c', (run callStep new lineageBesideUnit).markDirty unitRecordNamingLineage = .ok c' ∧
        lowerStageKey ∉ c'.dirty ∧
        (run callStep new lineageBesideUnit).isDirty lowerStageKey = false ∧
        c'.isDirty lowerStageKey = true ∧
        ∀ d, (run callStep new lineageBesideUnit).Invalidated unitRecordNamingLineage d →
          (run callStep new lineageBesideUnit).lineages[d]? = none := by
  have hnone : (run callStep new lineageBesideUnit).dependentsFor mainUnitKey = [] := by
    decide
  have hiff := invalidated_iff_of_no_dependents unitRecordNamingLineage hnone
  have hmark : ∃ c', (run callStep new lineageBesideUnit).markDirty unitRecordNamingLineage
      = .ok c' := ⟨_, rfl⟩
  obtain ⟨c', hc'⟩ := hmark
  have hspread := spread_markDirty hc'
  refine ⟨by decide, c', hc', ?_, by decide, ?_, ?_⟩
  · rw [hspread.dirty, hiff]
    decide
  · rw [isDirty_iff, hspread.lineages]
    refine .inr ⟨stageUnitLineage, by decide, ?_⟩
    exact (hspread.dirtyLineages stageUnitLineage).mpr (.inr (.inl rfl))
  · intro d hd
    rw [(hiff d).mp hd]
    decide

/-! ## Reading back a store -/

/-- The lineage of `key` is marked dirty. -/
def lineageDirty (c : ArtifactCache V) (key : ArtifactKey) : Bool :=
  (c.lineages[key]?).any fun lineageId => (c.dirtyLineages[lineageId]?).isSome

/-- After a store the key has the stored value unless its lineage is dirty. -/
theorem peek_storeInternal (h : c.storeInternal key value dependencies = .ok c') :
    c'.peek key = if c.lineageDirty key then none else some value := by
  obtain ⟨_, _, stats, rfl⟩ := storeInternal_cases h
  have herased : ((c.dirty.erase key)[key]?).isSome = false := by
    rw [lookup_erase, if_pos rfl]
    rfl
  have hentry : (c.entries.insert key value)[key]? = some value := by
    rw [lookup_insert, if_pos rfl]
  simp only [peek, isDirty, herased, Bool.false_or, hentry]
  rfl

theorem storeWithLineage_cases
    (h : (c.storeWithLineage key value dependencies lineageId).1 = .ok ()) :
    ∃ replaced : ArtifactCache V,
      (replaced.linkLineage key lineageId).storeInternal key value dependencies
        = .ok (c.storeWithLineage key value dependencies lineageId).2 := by
  unfold storeWithLineage at h ⊢
  cases hr : c.replaceLineageHead key lineageId with
  | error e => simp [hr] at h
  | ok replaced =>
    simp only [hr] at h ⊢
    cases hg : replaced.nextGeneration with
    | error e => simp [hg] at h
    | ok generation =>
      simp only [hg] at h ⊢
      cases hs : (replaced.linkLineage key lineageId).storeInternal key value dependencies with
      | error e => simp [hs] at h
      | ok stored => exact ⟨replaced, hs⟩

theorem lineageDirty_linkLineage (c : ArtifactCache V) (key lineageId : ArtifactKey) :
    (c.linkLineage key lineageId).lineageDirty key = false := by
  simp [lineageDirty, linkLineage, lookup_erase]

/-- A store can be read back at once, except for a plain `store` of a key whose lineage is
    dirty. -/
theorem peek_stored_iff (c : ArtifactCache V) (key : ArtifactKey) (value : V)
    (dependencies : List ArtifactKey) : (∀ c', c.store key value dependencies = .ok c' →
        (c'.peek key = some value ↔ c.lineageDirty key = false)) ∧
      ∀ lineageId, (c.storeWithLineage key value dependencies lineageId).1 = .ok () →
        (c.storeWithLineage key value dependencies lineageId).2.peek key = some value := by
  constructor
  · intro c' h
    rw [peek_storeInternal h]
    cases c.lineageDirty key <;> simp
  · intro lineageId h
    obtain ⟨replaced, hs⟩ := storeWithLineage_cases h
    rw [peek_storeInternal hs, lineageDirty_linkLineage]
    rfl

/-- Both kinds of store, read back from an empty cache. -/
theorem peek_stored_iff_new : ∃ c', (new : ArtifactCache Nat).store mainUnitKey 1 [] = .ok c' ∧
      (c'.peek mainUnitKey = some 1 ↔ (new : ArtifactCache Nat).lineageDirty mainUnitKey = false) ∧
      ((new : ArtifactCache Nat).storeWithLineage lowerStageKey 2 [] stageUnitLineage).2.peek
        lowerStageKey = some 2 :=
  ⟨_, rfl, (peek_stored_iff new mainUnitKey 1 []).1 _ rfl,
    (peek_stored_iff new lowerStageKey 2 []).2 stageUnitLineage rfl⟩

/-- A record for the stage artifact that names its lineage. -/
def stageRecord : ArtifactInvalidationRecord :=
  { unitRecordNamingLineage with invalidatedKey := lowerStageKey }

/-- A stage artifact is stored in a lineage and invalidated by a record that names it. -/
def staleStageCalls : List (CacheCall Nat) :=
  [.op (.storeWithLineage lowerStageKey 2 [] stageUnitLineage), .op (.markDirty stageRecord)]

/-- A fresh `store` of the stale stage artifact succeeds and cannot be read. -/
theorem store_of_stale_lineage_unread :
    ∃ c', (run callStep new staleStageCalls).store lowerStageKey 3 [] = .ok c' ∧
      c'.peek lowerStageKey = none := by
  have hstore : ∃ c', (run callStep new staleStageCalls).store lowerStageKey 3 [] = .ok c' :=
    ⟨_, rfl⟩
  obtain ⟨c', hc'⟩ := hstore
  refine ⟨c', hc', ?_⟩
  rw [peek_storeInternal hc', if_pos]
  have hmark : ∃ c₁, (run callStep new (staleStageCalls.take 1)).markDirty stageRecord = .ok c₁ :=
    ⟨_, rfl⟩
  obtain ⟨c₁, hc₁⟩ := hmark
  have hspread := spread_markDirty hc₁
  have hrun : run callStep new staleStageCalls = c₁ := by
    show advance (run callStep new (staleStageCalls.take 1))
      ((run callStep new (staleStageCalls.take 1)).markDirty stageRecord) = c₁
    rw [hc₁]
    rfl
  rw [hrun, lineageDirty, hspread.lineages, Option.any_eq_true]
  refine ⟨stageUnitLineage, by decide, ?_⟩
  rw [← ExtTreeMap.mem_iff_isSome_getElem?]
  exact (hspread.dirtyLineages stageUnitLineage).mpr (.inr (.inl rfl))

end ArtifactCache

end Caap
