/-
  Caap.Unit.Atomicity

  Failing mutators of a unit.  A mutator that computes everything before it writes leaves
  the unit alone when it fails.  The IR mutators undo their edit through a snapshot that
  has to validate, the provenance writes undo theirs through a semantic restore that
  advances the generations, and the erase tombstones are stored one by one and not undone
  at all: each of them is atomic where this makes no difference.
-/

import Caap.Semantic.UnifiedOps
import Caap.Unit.IrRuns

namespace Caap

open Std Lib Option ExceptT

/-! ## Provenance facts -/

namespace UnifiedSemanticGraph

/-- There is a fact store, and the counters can take `n` more fact writes. -/
structure FactRoom (g : UnifiedSemanticGraph) (n : Nat) : Prop where
  facts : g.facts.isSome = true
  cell : max g.nextCellGeneration 1 + n < u64Size
  factGeneration : g.factGeneration + n < u64Size
  version : g.version + n < u64Size

variable {g : UnifiedSemanticGraph}

theorem FactRoom.pred {n : Nat} (h : g.FactRoom (n + 1)) : g.FactRoom n := by
  obtain ⟨hfacts, hcell, hfact, hversion⟩ := h
  exact ⟨hfacts, by omega, by omega, by omega⟩

theorem prepareFactWrite_of_room {n : Nat} (h : g.FactRoom (n + 1)) :
    g.prepareFactWrite = .ok ((max g.nextCellGeneration 1, max g.nextCellGeneration 1 + 1),
      g.factGeneration + 1, g.version + 1) := by
  have hincrement : ∀ {value : Nat} (label : String), value + 1 < u64Size →
      checkedGenerationIncrement value label = .ok (value + 1) :=
    fun label hlt => checkedGenerationIncrement_eq_ok.mpr ⟨hlt, rfl⟩
  have hcell := h.cell
  have hfact := h.factGeneration
  have hversion := h.version
  simp only [prepareFactWrite, prepareCellBump,
    hincrement "semantic cell generation" (by omega : max g.nextCellGeneration 1 + 1 < u64Size),
    hincrement "semantic fact generation" (by omega : g.factGeneration + 1 < u64Size),
    hincrement "semantic graph version" (by omega : g.version + 1 < u64Size), ok_bind]

/-- With room left a fact write succeeds and uses up at most one step of each counter. -/
theorem setFact_of_room {n : Nat} (h : g.FactRoom (n + 1))
    {s : SemanticSubjectId} {p : String} (hp : p ≠ "") {v : SemanticValue} (hv : v.Valid) :
    ∃ r, g.setFact s p v = .ok r ∧ r.2.FactRoom n := by
  obtain ⟨facts, hfacts⟩ := isSome_iff_exists.mp h.facts
  have hcell := h.cell
  have hfact := h.factGeneration
  have hversion := h.version
  simp only [setFact, show v.validate = .ok () from hv, ok_bind, factStore, hfacts,
    SemanticGraph.getFact_eq hp, prepareFactWrite_of_room h, SemanticGraph.addFact, if_neg hp]
  by_cases hsame :
      ((facts.cell s p).visibleAt (getD none facts.currentVersion) == some v) = true
  · rw [if_pos hsame]
    exact ⟨_, rfl, h.pred⟩
  · rw [if_neg hsame]
    refine ⟨_, rfl, rfl, ?_, ?_, ?_⟩
    · show max (max g.nextCellGeneration 1 + 1) 1 + n < u64Size
      omega
    · show g.factGeneration + 1 + n < u64Size
      omega
    · show g.version + 1 + n < u64Size
      omega

end UnifiedSemanticGraph

/-- Sorting the entries of a map by key does not change its check. -/
theorem validateSemanticMapEntries_insertionSort {entries : List (String × CaapResult Unit)} :
    validateSemanticMapEntries (entries.insertionSort fun a b => a.1 ≤ b.1)
      = validateSemanticMapEntries entries := by
  have hsorted := (List.pairwise_insertionSort
    (fun a b : String × CaapResult Unit => a.1 ≤ b.1) entries).insertionSort_eq
  have hempty : (entries.insertionSort fun a b => a.1 ≤ b.1).any (fun e => e.1 == "")
      = entries.any fun e => e.1 == "" :=
    (List.perm_insertionSort _ entries).any_eq
  rw [validateSemanticMapEntries, hempty, hsorted, validateSemanticMapEntries]

theorem SemanticValue.valid_of_newMap {entries : List (String × SemanticValue)} {v : SemanticValue}
    (h : SemanticValue.newMap entries = .ok v) : v.Valid := by
  simp only [newMap, bind_eq_ok] at h
  obtain ⟨_, hcheck, hv⟩ := h
  rw [← Except.ok.inj hv]
  show validateSemanticMapEntries (validateEntries (entries.insertionSort fun a b => a.1 ≤ b.1))
    = .ok ()
  have hmap : validateEntries (entries.insertionSort fun a b => a.1 ≤ b.1)
      = (validateEntries entries).insertionSort fun a b => a.1 ≤ b.1 := by
    rw [validateEntries_eq_map, validateEntries_eq_map]
    exact List.map_insertionSort _ _ _ _ fun _ _ _ _ => Iff.rfl
  rw [hmap, validateSemanticMapEntries_insertionSort]
  exact hcheck

variable {fact : SemanticValue}

theorem valid_of_rewriteRecordToSemanticValue {record : RewriteRecord}
    (h : rewriteRecordToSemanticValue record = .ok fact) : fact.Valid := by
  simp only [rewriteRecordToSemanticValue, ite_error_eq_ok] at h
  obtain ⟨_, h⟩ := h
  cases hlabel : record.familyLabel with
  | none | some _ =>
    rw [hlabel] at h
    exact SemanticValue.valid_of_newMap h

variable {u u' : CaapUnit} {e : CaapError}

namespace CaapUnit

variable {nodeIds : List Nat}

/-- With room for all of them the provenance facts are written. -/
theorem setProvenanceFacts_of_room (hfact : fact.Valid) {semantics : UnifiedSemanticGraph}
    (h : semantics.FactRoom nodeIds.length) :
    (setProvenanceFacts fact semantics nodeIds).1 = .ok () := by
  induction nodeIds generalizing semantics with
  | nil => rfl
  | cons nodeId rest ih =>
    obtain ⟨⟨changed, written⟩, hset, hroom⟩ :=
      UnifiedSemanticGraph.setFact_of_room h
        (by decide : rewriteProvenanceFact ≠ "") hfact
    rw [setProvenanceFacts, hset]
    exact ih hroom

/-- Once the facts are written nothing can fail. -/
theorem writeRewriteProvenance_of_written {version : Nat} {record : RewriteRecord}
    (hset : (setProvenanceFacts fact u.semantics nodeIds).1 = .ok ())
    (hoperation : record.operation ≠ "") :
    ∃ u', writeRewriteProvenance version record fact nodeIds u = (.ok (some record), u') := by
  rw [writeRewriteProvenance]
  rcases hfacts : setProvenanceFacts fact u.semantics nodeIds with ⟨r, semantics⟩
  rw [hfacts] at hset
  rw [show r = .ok () from hset]
  exact ⟨_, Action.bind_of_ok _ (recordLifecycle_eq (by decide) hoperation _)⟩

variable {familyLabel : Option String}

theorem atomic_recordRewriteProvenance {providerName stage : String}
    {operation : String} {nodeIds sources : List Nat} (h : u.semantics.FactRoom nodeIds.length) :
    (recordRewriteProvenance providerName stage familyLabel operation nodeIds sources).Atomic u := by
  refine .check_bind fun _ _ => .check_bind fun _ hoperation => ?_
  have hop : operation ≠ "" := by
    rintro rfl
    exact absurd hoperation (by simp)
  by_cases hnil : nodeIds.isEmpty = true
  · rw [if_pos hnil]
    exact .of_ok rfl
  · rw [if_neg hnil]
    refine .check_bind fun _ _ => .check_bind fun version _ => .check_bind fun generation _ =>
      .check_bind fun fact hfact => ?_
    have hwritten := setProvenanceFacts_of_room (valid_of_rewriteRecordToSemanticValue hfact) h
    obtain ⟨u', hu'⟩ := writeRewriteProvenance_of_written hwritten
      (show (RewriteRecord.mk providerName stage familyLabel operation sources
        generation).operation ≠ "" from hop)
    exact .of_ok hu'

/-! ## Erase tombstones -/

section Tombstones

variable (debugF64 : UInt64 → String)

/-- The tombstone of `nodeId` can be made: its stable id and its rewrite chain, if they
    are computed within the bound, are not errors. -/
def TombstoneMade (u : CaapUnit) (fuel nodeId : Nat) : Prop :=
  (∀ e, (nodeStableId debugF64 u fuel nodeId).run ≠ some (.error e)) ∧
    ∀ e, (liveRewriteChain u fuel nodeId).run ≠ some (.error e)

theorem nodeStructuralFingerprint_congr (hir : u'.ir = u.ir) (fuel nodeId : Nat) :
    nodeStructuralFingerprint debugF64 u' fuel nodeId
      = nodeStructuralFingerprint debugF64 u fuel nodeId := by
  induction fuel generalizing nodeId with
  | zero => rfl
  | succ fuel ih =>
    have hfun : nodeStructuralFingerprint debugF64 u' fuel
        = nodeStructuralFingerprint debugF64 u fuel := funext ih
    rw [nodeStructuralFingerprint, nodeStructuralFingerprint, hir, hfun]

theorem countOccurrences_congr (hir : u'.ir = u.ir) (fuel nodeId : Nat)
    (fingerprint : String) (occurrence : Nat) (candidates : List Nat) :
    countOccurrences debugF64 u' fuel nodeId fingerprint occurrence candidates
      = countOccurrences debugF64 u fuel nodeId fingerprint occurrence candidates := by
  induction candidates generalizing occurrence with
  | nil => rfl
  | cons candidate rest ih =>
    simp only [countOccurrences, nodeStructuralFingerprint_congr debugF64 hir, ih]

theorem followRewriteChain_congr (hsemantics : u'.semantics = u.semantics)
    (fuel : Nat) (seen : List Nat) (current : Option Nat) :
    followRewriteChain u' fuel seen current = followRewriteChain u fuel seen current := by
  induction fuel generalizing seen current with
  | zero => rfl
  | succ fuel ih =>
    cases current with
    | none => rfl
    | some id => simp only [followRewriteChain, hsemantics, ih]

/-- The stored tombstones play no part in the next one. -/
theorem eraseTombstone_stored (u : CaapUnit) (stored : OrdMap String RewriteTombstone) (fuel : Nat)
    (providerName stage : String) (familyLabel : Option String) (generation nodeId : Nat) :
    eraseTombstone debugF64 { u with erasedRewriteTombstones := stored } fuel providerName stage
        familyLabel generation nodeId
      = eraseTombstone debugF64 u fuel providerName stage familyLabel generation nodeId := by
  have hfingerprint : ∀ id, nodeStructuralFingerprint debugF64
      { u with erasedRewriteTombstones := stored } fuel id
        = nodeStructuralFingerprint debugF64 u fuel id :=
    nodeStructuralFingerprint_congr debugF64
      (show ({ u with erasedRewriteTombstones := stored } : CaapUnit).ir = u.ir from rfl) fuel
  simp only [eraseTombstone, nodeStableId, hfingerprint, nodeFingerprintOccurrence,
    countOccurrences_congr debugF64
      (show ({ u with erasedRewriteTombstones := stored } : CaapUnit).ir = u.ir from rfl),
    liveRewriteChain, followRewriteChain_congr
      (show ({ u with erasedRewriteTombstones := stored } : CaapUnit).semantics = u.semantics
        from rfl)]

theorem eraseTombstone_of_made {fuel nodeId : Nat}
    (h : TombstoneMade debugF64 u fuel nodeId) (providerName stage : String)
    (familyLabel : Option String) (generation : Nat) (e : CaapError) :
    (eraseTombstone debugF64 u fuel providerName stage familyLabel generation nodeId).run
      ≠ some (.error e) := by
  intro herr
  unfold eraseTombstone at herr
  rcases hid : (nodeStableId debugF64 u fuel nodeId).run with _ | (e' | stableId)
  · rw [run_bind, hid] at herr
    exact absurd herr (by simp)
  · exact h.1 e' hid
  · rcases hchain : (liveRewriteChain u fuel nodeId).run with _ | (e' | live)
    · rw [run_bind, hid] at herr
      simp only [run_bind, hchain] at herr
      exact absurd herr (by simp)
    · exact h.2 e' hchain
    · rw [run_bind, hid] at herr
      simp only [run_bind, hchain] at herr
      exact absurd herr (by simp)

/-- Tombstones that can all be made are all stored, and nothing else changes. -/
theorem storeTombstones_of_made {mk : CaapUnit → Nat → Bounded RewriteTombstone}
    (hstored : ∀ u stored nodeId, mk { u with erasedRewriteTombstones := stored } nodeId = mk u nodeId)
        (hmade : ∀ nodeId ∈ nodeIds, ∀ e, (mk u nodeId).run ≠ some (.error e))
    {r : CaapResult (List RewriteTombstone) × CaapUnit}
    (h : storeTombstones mk u nodeIds = some r) : (∃ tombstones, r.1 = .ok tombstones) ∧
      ∃ stored, r.2 = { u with erasedRewriteTombstones := stored } := by
  induction nodeIds generalizing u r with
  | nil =>
    rw [storeTombstones, some.injEq] at h
    rw [← h]
    exact ⟨⟨[], rfl⟩, u.erasedRewriteTombstones, rfl⟩
  | cons nodeId rest ih =>
    rw [storeTombstones] at h
    rcases hmk : (mk u nodeId).run with _ | (e | tombstone)
    · rw [hmk] at h
      exact absurd h (by simp)
    · exact absurd hmk (hmade nodeId (List.mem_cons_self ..) e)
    · simp only [hmk, map_eq_some_iff] at h
      obtain ⟨r', hr', rfl⟩ := h
      have hrest : ∀ id ∈ rest, ∀ e, (mk { u with
          erasedRewriteTombstones :=
            u.erasedRewriteTombstones.insert tombstone.stableId tombstone } id).run
            ≠ some (.error e) := by
        intro id hid
        rw [hstored]
        exact hmade id (List.mem_cons_of_mem _ hid)
      obtain ⟨⟨tombstones, hok⟩, stored, hu'⟩ := ih hrest hr'
      exact ⟨⟨tombstone :: tombstones, by rw [hok]; rfl⟩, stored, hu'⟩

/-- With a version left the end of `record_erase_rewrite_tombstones` cannot fail. -/
theorem finishTombstones_of_version {next : Nat} (h : u.nextVersion = .ok next)
    {version generation : Nat} {tombstones : List RewriteTombstone} :
    ∃ u', finishTombstones version generation tombstones u = (.ok tombstones, u') := by
  have hprune : ∃ n u₁, pruneErasedRewriteTombstones defaultRewriteTombstoneLimit u
      = (.ok n, u₁) := by
    simp only [pruneErasedRewriteTombstones, Action.call, h, ok_bind]
    by_cases hlen : u.erasedRewriteTombstones.size ≤ defaultRewriteTombstoneLimit
    · rw [if_pos hlen]
      exact ⟨_, _, rfl⟩
    · rw [if_neg hlen, if_neg (by decide : ¬ defaultRewriteTombstoneLimit = 0)]
      exact ⟨_, _, rfl⟩
  obtain ⟨n, u₁, hpruned⟩ := hprune
  rw [finishTombstones, Action.bind_of_ok _ hpruned, Action.bind_modify]
  exact ⟨_, Action.bind_of_ok _ (recordLifecycle_eq (by decide) (by decide) _)⟩

theorem prepareTombstones_eq_ok {fuel : Nat} {providerName stage : String}
    {rootId nodeId : Nat} {rest : List Nat} {version generation : Nat}
    (h : (prepareTombstones u fuel providerName stage familyLabel rootId).run
      = some (.ok (nodeId :: rest, version, generation))) :
    (subtreeIds u fuel rootId).run = some (.ok (nodeId :: rest)) ∧ u.nextVersion = .ok version := by
  unfold prepareTombstones Bounded.ofResult at h
  cases htexts : checkRewriteTexts providerName stage familyLabel with
  | error e => simp [htexts, run_bind] at h
  | ok _ =>
    rcases hids : (subtreeIds u fuel rootId).run with _ | (e | ids)
    · simp [htexts, run_bind, hids] at h
    · simp [htexts, run_bind, hids] at h
    · cases hversion : u.nextVersion with
      | error e =>
        cases ids <;> simp [htexts, run_bind, hids, hversion] at h
      | ok next =>
        cases hgen : u.prepareRewriteGeneration with
        | error e =>
          cases ids <;> simp [htexts, run_bind, hids, hversion, hgen] at h
        | ok nextGeneration =>
          cases ids with
          | nil => simp [htexts, run_bind, hids, hversion, hgen] at h
          | cons id ids =>
            simp [htexts, run_bind, hids, hversion, hgen] at h
            obtain ⟨⟨rfl, rfl⟩, rfl, -⟩ := h
            exact ⟨rfl, rfl⟩

/-- The first tombstone may fail, since nothing is stored before it. -/
theorem recordEraseRewriteTombstones_atomic {fuel : Nat} {providerName stage : String}
    {rootId : Nat} (hmade : ∀ ids, (subtreeIds u fuel rootId).run = some (.ok ids) →
      ∀ nodeId ∈ ids.tail, TombstoneMade debugF64 u fuel nodeId)
        (h : recordEraseRewriteTombstones debugF64 fuel providerName stage familyLabel rootId u
      = some (.error e, u')) : u' = u := by
  rw [recordEraseRewriteTombstones] at h
  rcases hprep : (prepareTombstones u fuel providerName stage familyLabel rootId).run with
    _ | (e' | ⟨subtree, version, generation⟩)
  · rw [hprep] at h
    exact absurd h (by simp)
  · simp only [hprep, some.injEq, Prod.mk.injEq] at h
    exact h.2.symm
  · cases subtree with
    | nil =>
      simp only [hprep, some.injEq, Prod.mk.injEq] at h
      exact h.2.symm
    | cons nodeId rest =>
      obtain ⟨hids, hversion⟩ := prepareTombstones_eq_ok hprep
      have hrest := hmade _ hids
      simp only [hprep, map_eq_some_iff] at h
      obtain ⟨r, hr, hfinish⟩ := h
      rw [storeTombstones] at hr
      rcases hfirst : (eraseTombstone debugF64 u fuel providerName stage familyLabel generation
        nodeId).run with _ | (e' | tombstone)
      · rw [hfirst] at hr
        exact absurd hr (by simp)
      · simp only [hfirst, some.injEq] at hr
        rw [← hr] at hfinish
        exact (congrArg Prod.snd hfinish).symm
      · simp only [hfirst, map_eq_some_iff] at hr
        obtain ⟨r', hr', rfl⟩ := hr
        obtain ⟨⟨tombstones, hok⟩, stored, hu'⟩ := storeTombstones_of_made
          (fun u stored id => eraseTombstone_stored debugF64 u stored fuel providerName stage
            familyLabel generation id)
          (fun id hid => by
            rw [eraseTombstone_stored]
            exact eraseTombstone_of_made debugF64 (hrest id hid) providerName stage familyLabel
              generation) hr'
        obtain ⟨u₁, hu₁⟩ := finishTombstones_of_version
          (show r'.2.nextVersion = .ok version by rw [hu']; exact hversion)
        rw [hok] at hfinish
        exact absurd (congrArg Prod.fst (hu₁.symm.trans hfinish)) (by simp)

end Tombstones

/-! ## IR edits -/

/-- The snapshot of the unit can be restored. -/
def SnapshotValid (u : CaapUnit) : Prop := UnitSnapshot.validate u = .ok ()

instance (u : CaapUnit) : Decidable u.SnapshotValid := inferInstanceAs (Decidable (_ = _))

/-- A version is left, or the change can be undone. -/
def VersionOrSnapshot (u : CaapUnit) : Prop := u.version + 1 < u64Size ∨ u.SnapshotValid

variable {detail : String}

theorem atomic_editIr {α : Type} (h : u.SnapshotValid)
    {edit : IRGraph.GraphAction α} (hdetail : detail ≠ "") : (editIr edit detail).Atomic u := by
  rcases editIr_cases h edit hdetail with ⟨e, he⟩ | ⟨a, ir, version, -, hok⟩
  · exact .of_error he
  · exact .of_ok hok

/-- The end of an edit fails only when the version overflows. -/
theorem finishEdit_of_version {α : Type} {s : UnitSnapshot}
    (h : u.version + 1 < u64Size) (hdetail : detail ≠ "") (result : α) :
    ∃ u', finishEdit s detail result u = (.ok result, u') := by
  rw [finishEdit, nextVersion, if_pos h]
  exact ⟨_, Action.bind_of_ok _ (recordLifecycle_eq (by decide) hdetail _)⟩

theorem finishEdit_error {α : Type} (h : u.VersionOrSnapshot)
    (hdetail : detail ≠ "") (result : α) (ir : IRGraph)
    (herr : finishEdit u.snapshot detail result { u with ir := ir } = (.error e, u')) : u' = u := by
  rcases h with hversion | hvalid
  · obtain ⟨u₁, hok⟩ := finishEdit_of_version (s := u.snapshot)
      (show ({ u with ir := ir } : CaapUnit).version + 1 < u64Size from hversion) hdetail result
    exact absurd (congrArg Prod.fst (hok.symm.trans herr)) (by simp)
  · rcases finishEdit_cases hvalid hdetail result { u with ir := ir } with ⟨e', he⟩ | ⟨version, hok⟩
    · exact (congrArg Prod.snd (he.symm.trans herr)).symm
    · exact absurd (congrArg Prod.fst (hok.symm.trans herr)) (by simp)

/-- An undo that has nothing to undo, whether or not it is refused. -/
theorem restoreAfterError_self {α : Type} (u : CaapUnit) (error : CaapError) :
    ((restoreAfterError u.snapshot error : UnitAction α) u).2 = u := by
  simp only [restoreAfterError, restoreSnapshot, snapshot]
  cases UnitSnapshot.validate u with
  | ok _ => rfl
  | error e => rfl

/-- An edit that writes nothing when it is refused. -/
theorem atomic_editIr_update (h : u.VersionOrSnapshot)
    (f : IRGraph → CaapResult IRGraph) (hdetail : detail ≠ "") :
    (editIr (.update f) detail).Atomic u := by
  intro e u' herr
  rw [editIr] at herr
  cases hf : f u.ir with
  | error e' =>
    have hupdate : (.update f : IRGraph.GraphAction Unit) u.ir = (.error e', u.ir) := by
      rw [Action.update, Action.call, hf]
      rfl
    rw [hupdate] at herr
    exact (congrArg Prod.snd herr).symm.trans (restoreAfterError_self u e')
  | ok ir =>
    rw [Action.update_eq_ok.mpr hf] at herr
    exact finishEdit_error h hdetail () ir herr

theorem atomic_eraseIrSubtree (h : u.VersionOrSnapshot) {targetId : Nat} :
    (eraseIrSubtree targetId).Atomic u := by
  intro e u' herr
  rw [eraseIrSubtree] at herr
  cases herase : u.ir.eraseDetachedSubtree targetId with
  | error e' =>
    rw [herase] at herr
    exact (congrArg Prod.snd herr).symm
  | ok r =>
    obtain ⟨dropped, ir⟩ := r
    simp only [herase] at herr
    by_cases hempty : dropped.isEmpty = true
    · rw [if_pos hempty] at herr
      exact absurd (congrArg Prod.fst herr) (by simp)
    · rw [if_neg hempty] at herr
      exact finishEdit_error h (by decide : "erase_subtree" ≠ "") dropped ir herr

variable {u : CaapUnit}

theorem atomic_setIrRootId {rootId : Nat} : (setIrRootId rootId).Atomic u := by
  rcases setIrRootId_cases u rootId with ⟨e, he⟩ | hok | ⟨-, version, hok⟩
  · exact .of_error he
  · exact .of_ok hok
  · exact .of_ok hok

/-! ## Mutators that check before they write -/

/-- A change that only has its event left to record. -/
theorem atomic_modify_recordLifecycle {f : CaapUnit → CaapUnit} {kind : String}
    (hkind : kind ≠ "") (hdetail : detail ≠ "") :
    (.modify f >>= fun _ => recordLifecycle kind detail : UnitAction Unit).Atomic u :=
  .of_ok ((Action.bind_modify f _ u).trans (recordLifecycle_eq hkind hdetail (f u)))

theorem atomic_setAttribute {key : String} {value : SemanticValue} :
    (setAttribute key value).Atomic u := by
  refine .check_bind fun _ _ => .check_bind fun _ _ => .check_bind fun version _ => ?_
  exact atomic_modify_recordLifecycle (by decide) (by decide)

theorem atomic_addLinkBinding {binding : LinkBinding} : (addLinkBinding binding).Atomic u := by
  refine .check_bind fun _ _ => .check_bind fun version _ => ?_
  exact atomic_modify_recordLifecycle (by decide) (by decide)

theorem atomic_setSyntaxState {syntaxState : UnitSyntaxState} :
    (setSyntaxState syntaxState).Atomic u := by
  refine .check_bind fun version _ => ?_
  exact atomic_modify_recordLifecycle (by decide) (by decide)

theorem atomic_replaceSemantics {semantics : UnifiedSemanticGraph} :
    (replaceSemantics semantics).Atomic u := by
  refine .check_bind fun version _ => ?_
  exact .of_ok (show Action.modify _ u
    = (.ok (), { u with version := version, semantics := semantics }) from rfl)

end CaapUnit

/-! ## Runs -/

/-- A call of a mutator of a unit. -/
inductive UnitCall where
  | ir (call : IrCall)
  | recordRewriteProvenance (providerName stage : String) (familyLabel : Option String)
      (operation : String) (nodeIds sources : List Nat)
  | recordEraseRewriteTombstones (providerName stage : String) (familyLabel : Option String)
      (rootId : Nat)
  | pruneErasedRewriteTombstones (maxEntries : Nat)
  | setAttribute (key : String) (value : SemanticValue)
  | addLinkBinding (binding : LinkBinding)
  | setSyntaxState (syntaxState : UnitSyntaxState)
  | replaceSemantics (semantics : UnifiedSemanticGraph)

namespace UnitCall

open CaapUnit

section Calls

variable (debugF64 : UInt64 → String) (fuel : Nat)

/-- The outcome of the call without its result, and the unit it leaves; none when the
    recursion of the erase tombstones needs more than `fuel` steps. -/
def perform : UnitCall → CaapUnit → Option (CaapResult Unit × CaapUnit)
  | .ir call, u => some (call.perform u)
  | .recordRewriteProvenance providerName stage familyLabel operation nodeIds sources, u =>
    some ((CaapUnit.recordRewriteProvenance providerName stage familyLabel operation nodeIds
      sources).ignore u)
  | .recordEraseRewriteTombstones providerName stage familyLabel rootId, u =>
    (CaapUnit.recordEraseRewriteTombstones debugF64 fuel providerName stage familyLabel rootId
      u).map fun r => (r.1.map fun _ => (), r.2)
  | .pruneErasedRewriteTombstones maxEntries, u =>
    some ((CaapUnit.pruneErasedRewriteTombstones maxEntries).ignore u)
  | .setAttribute key value, u => some (CaapUnit.setAttribute key value u)
  | .addLinkBinding binding, u => some (CaapUnit.addLinkBinding binding u)
  | .setSyntaxState syntaxState, u => some (CaapUnit.setSyntaxState syntaxState u)
  | .replaceSemantics semantics, u => some (CaapUnit.replaceSemantics semantics u)

/-- The unit after the call, whether it succeeded or failed. -/
def step (u : CaapUnit) (call : UnitCall) : CaapUnit :=
  ((call.perform debugF64 fuel u).map Prod.snd).getD u

/-- A failure of the call can be undone, or happens before anything is written. -/
def Undoable (u : CaapUnit) : UnitCall → Prop
  | .ir (.replaceSubtree _ _) | .ir (.appendTopLevel _) => u.SnapshotValid
  | .ir (.setTopLevelFormIds _) | .ir (.eraseSubtree _) => u.VersionOrSnapshot
  | .recordRewriteProvenance _ _ _ _ nodeIds _ => u.semantics.FactRoom nodeIds.length
  | .recordEraseRewriteTombstones _ _ _ rootId =>
    ∀ ids, (subtreeIds u fuel rootId).run = some (.ok ids) →
      ∀ nodeId ∈ ids.tail, TombstoneMade debugF64 u fuel nodeId
  | _ => True

variable {debugF64 fuel}

theorem atomic_of_undoable {call : UnitCall} (h : call.Undoable debugF64 fuel u)
    (herr : call.perform debugF64 fuel u = some (.error e, u')) : u' = u := by
  -- the calls that are plain actions
  have haction : ∀ {x : UnitAction Unit}, x.Atomic u → some (x u) = some (.error e, u') → u' = u :=
    fun hatomic heq => hatomic e u' (some.inj heq)
  cases call with
  | ir call =>
    cases call with
    | replaceSubtree _ _ | appendTopLevel _ =>
      exact haction (Action.Atomic.ignore (atomic_editIr h (by decide))) herr
    | setTopLevelFormIds formIds => exact haction (atomic_editIr_update h _ (by decide)) herr
    | setRootId rootId => exact haction atomic_setIrRootId herr
    | eraseSubtree targetId =>
      exact haction (Action.Atomic.ignore (atomic_eraseIrSubtree h)) herr
  | recordRewriteProvenance providerName stage familyLabel operation nodeIds sources =>
    exact haction (Action.Atomic.ignore (atomic_recordRewriteProvenance h)) herr
  | recordEraseRewriteTombstones providerName stage familyLabel rootId =>
    obtain ⟨⟨r, u₁⟩, hr, heq⟩ := map_eq_some_iff.mp herr
    rw [Prod.mk.injEq] at heq
    cases r with
    | ok tombstones => exact absurd heq.1 (by simp [Except.map])
    | error e' =>
      rw [← heq.2]
      exact recordEraseRewriteTombstones_atomic debugF64 h hr
  | pruneErasedRewriteTombstones maxEntries =>
    exact haction (Action.Atomic.ignore (.call _ u)) herr
  | setAttribute key value => exact haction atomic_setAttribute herr
  | addLinkBinding binding => exact haction atomic_addLinkBinding herr
  | setSyntaxState syntaxState => exact haction atomic_setSyntaxState herr
  | replaceSemantics semantics => exact haction atomic_replaceSemantics herr

/-- In a run whose calls can all be undone, a call that fails leaves the whole unit exactly
    as it was. -/
theorem unitRun_atomic {u : CaapUnit} {calls : List UnitCall}
    (hcalls : Guarded (fun u call => Undoable debugF64 fuel u call) (step debugF64 fuel) u calls)
    {k : Nat} {call : UnitCall} (hk : calls[k]? = some call) {e : CaapError} {u' : CaapUnit}
    (herr : call.perform debugF64 fuel (run (step debugF64 fuel) u (calls.take k))
      = some (.error e, u')) : u' = run (step debugF64 fuel) u (calls.take k) :=
  atomic_of_undoable (hcalls.getElem? hk) herr

end Calls

/-- The call fails, and something of the unit is different afterwards. -/
def FailsVisibly (u : CaapUnit) (call : UnitCall) (changed : CaapUnit → CaapUnit → Prop) : Prop :=
  ∃ e u', call.perform (fun _ => "") 20 u = some (.error e, u') ∧ changed u u'

/-- A form is appended and the replacement of a node that does not exist fails. -/
def missingTarget : List UnitCall :=
  [.ir (.appendTopLevel (.name "a" none)), .ir (.replaceSubtree 9 (.name "c" none))]

theorem unitRun_atomic_missingTarget : ∃ u, CaapUnit.fromGraph "main" IRGraph.new = .ok u ∧
      ∃ e, (UnitCall.ir (.replaceSubtree 9 (.name "c" none))).perform (fun _ => "") 20
          (run (step (fun _ => "") 20) u (missingTarget.take 1))
        = some (.error e, run (step (fun _ => "") 20) u (missingTarget.take 1)) := by
  have hunit : ∃ u, CaapUnit.fromGraph "main" IRGraph.new = .ok u := ⟨_, rfl⟩
  obtain ⟨u, hu⟩ := hunit
  have hguard : Guarded (fun u call => Undoable (fun _ => "") 20 u call) (step (fun _ => "") 20)
      u missingTarget := by
    rw [← Except.ok.inj (show _ = Except.ok u from hu)]
    refine ⟨?_, ?_, trivial⟩
    · show CaapUnit.SnapshotValid _
      decide
    · show CaapUnit.SnapshotValid _
      decide
  have herr : ∃ e u', (UnitCall.ir (.replaceSubtree 9 (.name "c" none))).perform (fun _ => "") 20
      (run (step (fun _ => "") 20) u (missingTarget.take 1)) = some (.error e, u') := by
    rw [← Except.ok.inj (show _ = Except.ok u from hu)]
    exact ⟨_, _, rfl⟩
  obtain ⟨e, u', herr⟩ := herr
  refine ⟨u, hu, e, ?_⟩
  rw [herr, unitRun_atomic hguard (show missingTarget[1]? = some _ from rfl) herr]

/-- A semantic graph in which the provenance of node 1 is not a rewrite record. -/
def malformedProvenance : UnifiedSemanticGraph :=
  advance .new ((UnifiedSemanticGraph.new.setFact (nodeSubjectId 1) CaapUnit.rewriteProvenanceFact
    (.int 7)).map Prod.snd)

/-- Three failures that leave their mark: the replaced expression stays in an IR whose
    snapshot does not validate, a provenance write without a fact store advances the
    semantic version, and the tombstone of a call stays although that of its callee
    cannot be made. -/
theorem unitRun_not_atomic : ∃ u, CaapUnit.fromGraph "main" IRGraph.new = .ok u ∧ FailsVisibly
    (run (step (fun _ => "") 20) u
          [.ir (.appendTopLevel (.name "a" none)), .ir (.appendTopLevel (.name "b" none)),
            .ir (.setTopLevelFormIds [0])]) (.ir (.replaceSubtree 9 (.name "c" none)))
        (fun u u' => 2 ∉ u.ir.nodes ∧ 2 ∈ u'.ir.nodes) ∧ FailsVisibly (run (step (fun _ => "") 20) u
          [.ir (.appendTopLevel (.name "a" none)), .replaceSemantics .withoutFacts])
        (.recordRewriteProvenance "provider" "lower" none "replace" [0] [])
        (fun u u' => u.semantics.version = 0 ∧ u'.semantics.version = 1) ∧ FailsVisibly
        (run (step (fun _ => "") 20) u [.ir (.appendTopLevel (.call (.name "f" none) [] none)),
            .replaceSemantics malformedProvenance])
        (.recordEraseRewriteTombstones "provider" "lower" none 0)
        (fun u u' => u.erasedRewriteTombstones.size = 0 ∧ u'.erasedRewriteTombstones.size = 1) := by
  refine ⟨_, rfl, ⟨_, _, rfl, ?_⟩, ⟨_, _, rfl, ?_⟩, ⟨_, _, rfl, ?_⟩⟩
  · decide
  · decide
  · decide

end UnitCall

end Caap
