/-
  Caap.Semantic.Snapshot

  What survives a snapshot and a restore.  A well-formed fact store is restored with
  every cell as it was (`restoreSnapshot_snapshot`); a unified graph that is restored
  has the symbols, entries, stable ids, cell generations and facts of the graph the
  snapshot was taken of, and counters one higher (`Restored`).
-/

import Caap.Semantic.FactViews
import Caap.Semantic.Unified

namespace Caap

open Std Lib OrdMap NestedMap Except

/-! ## The fact store -/

namespace SemanticGraph

variable {g : SemanticGraph}

/-- The loop over the triples of a well-formed store regroups them. -/
theorem foldOk_restoreTriple (h : g.WellFormed) :
    foldOk (restoreTriple g.currentVersion) ∅ g.snapshot.triples
      = .ok (g.facts.flatten2.foldl push2 ∅) := by
  have hstep : ∀ t ∈ g.snapshot.triples, ∀ facts,
      restoreTriple g.currentVersion facts t
        = .ok (facts.push2 ((t.2.1, t.2.2.1), (t.1, t.2.2.2))) := by
    intro t ht facts
    obtain ⟨⟨⟨s, p⟩, ver, v⟩, hmem, heq⟩ := List.mem_map.mp ht
    subst heq
    have hin : (ver, v) ∈ (g.cell s p).entries := mem_flatten2.mp hmem
    have hle : ver ≤ g.currentVersion := (h.cells s p).entries_le _ hin
    have hp : p ≠ "" := by
      intro hp
      rw [hp, h.emptyPredicate] at hin
      exact List.not_mem_nil hin
    have hv : v.validate = .ok () := h.valid s p _ hin
    simp only [restoreTriple, if_neg (Nat.not_lt.mpr hle), if_neg hp, hv, ok_bind]
  rw [foldOk_eq_foldl hstep, snapshot, List.foldl_map]

/-- The loop over the retractions of a well-formed store regroups them. -/
theorem foldOk_restoreRetraction (h : g.WellFormed) :
    foldOk (restoreRetraction g.currentVersion) ∅ g.snapshot.retractions
      = .ok (g.retractions.flatten2.foldl push2 ∅) := by
  have hstep : ∀ t ∈ g.snapshot.retractions, ∀ retractions,
      restoreRetraction g.currentVersion retractions t
        = .ok (retractions.push2 ((t.2.1, t.2.2), t.1)) := by
    intro t ht retractions
    obtain ⟨⟨⟨s, p⟩, ver⟩, hmem, heq⟩ := List.mem_map.mp ht
    subst heq
    have hin : ver ∈ (g.cell s p).tombs := mem_flatten2.mp hmem
    have hle : ver ≤ g.currentVersion := (h.cells s p).tombs_le _ hin
    have hp : p ≠ "" := by
      intro hp
      rw [hp, h.emptyPredicate] at hin
      exact List.not_mem_nil hin
    simp only [restoreRetraction, if_neg (Nat.not_lt.mpr hle), if_neg hp]
  rw [foldOk_eq_foldl hstep, snapshot, List.foldl_map]

/-- A well-formed store is restored from its snapshot with the same version and the
    same cells. -/
theorem restoreSnapshot_snapshot (h : g.WellFormed) :
    ∃ g', restoreSnapshot g.snapshot = .ok g' ∧ g'.currentVersion = g.currentVersion ∧
      ∀ s p, g'.cell s p = g.cell s p := by
  have hver : g.snapshot.currentVersion = g.currentVersion := rfl
  rw [restoreSnapshot, hver, foldOk_restoreTriple h, ok_bind, foldOk_restoreRetraction h, ok_bind]
  refine ⟨_, rfl, rfl, ?_⟩
  intro s p
  -- grouping gives each history back, and a sorted history is a fixed point of the sort
  have hes : (g.facts.listAt s p).insertionSort (fun a b => a.1 ≤ b.1) = g.facts.listAt s p :=
    List.Pairwise.insertionSort_eq (h.cells s p).entries_sorted
  have hts : (g.retractions.listAt s p).insertionSort (fun a b => a ≤ b)
      = g.retractions.listAt s p :=
    List.Pairwise.insertionSort_eq ((h.cells s p).tombs_sorted.imp Nat.le_of_lt)
  apply VersionedCell.ext
  · show listAt _ s p = g.facts.listAt s p
    rw [listAt_map _ _ (List.insertionSort_nil _), listAt_group_flatten2, hes]
  · show listAt _ s p = g.retractions.listAt s p
    rw [listAt_map _ _ (List.insertionSort_nil _), listAt_group_flatten2, hts]

/-- A store with the cells and the version of a well-formed one is well formed. -/
theorem WellFormed.of_cells {g' : SemanticGraph} (h : g.WellFormed)
    (hver : g'.currentVersion = g.currentVersion) (hcell : ∀ s p, g'.cell s p = g.cell s p) :
    g'.WellFormed where
  cells s p := by rw [hcell, hver]; exact h.cells s p
  emptyPredicate s := by rw [hcell]; exact h.emptyPredicate s
  valid s p := by rw [hcell]; exact h.valid s p

/-- In every run the snapshot is accepted, and the restored store answers every read of every
    version as the store does. -/
theorem restored_store_answers (ops : List FactOp) : ∃ g',
    restoreSnapshot (run step new ops).snapshot = .ok g' ∧
      ∀ s p version, g'.getFact s p version = (run step new ops).getFact s p version := by
  obtain ⟨g', hrestore, hver, hcell⟩ :=
    restoreSnapshot_snapshot (wellFormed_of_reachable ⟨ops, rfl⟩)
  refine ⟨g', hrestore, fun s p version => ?_⟩
  rcases eq_or_ne p "" with rfl | hp
  · rfl
  · rw [getFact_eq hp, getFact_eq hp, hcell, hver]

end SemanticGraph

/-! ## The other maps -/

/-- A restored registry holds the entries of the snapshot. -/
theorem SemanticRegistry.restoreSnapshot_entries {r r' : SemanticRegistry}
    {snapshot : SemanticRegistrySnapshot} (h : r.restoreSnapshot snapshot = .ok r') :
    r'.entries = ofEntries snapshot.entries ∧ r'.parents = [] := by
  rw [restoreSnapshot, ite_error_eq_ok, bind_eq_ok] at h
  obtain ⟨hparents, st, hfold, hr⟩ := h
  have hentries : st.1 = ofEntries snapshot.entries := by
    refine foldOk_invariant (I := fun pre st => st.1 = ofEntries pre) ?_ hfold rfl
    intro pre item st st' hI hstep
    rw [restoreEntry, ite_error_eq_ok, ite_error_eq_ok, bind_eq_ok] at hstep
    obtain ⟨-, -, -, -, hstep⟩ := hstep
    cases hid : item.2.stableId with
    | none => rw [hid] at hstep; exact absurd hstep (by simp)
    | some stableId =>
      simp only [hid] at hstep
      cases hown : st.2[stableId]? with
      | some previous => simp only [hown] at hstep; exact absurd hstep (by simp)
      | none =>
        simp only [hown] at hstep
        rw [← ok.inj hstep, ofEntries_concat, hI]
  have hr' := ok.inj hr
  rw [← hr']
  exact ⟨hentries, by simpa using hparents⟩

namespace UnifiedSemanticGraph

variable {g g' : UnifiedSemanticGraph}

theorem restoreSymbolMap_eq {l : List (String × SymbolEntry)} {m : OrdMap String SymbolEntry}
    (h : restoreSymbolMap l = .ok m) : m = ofEntries l := by
  rw [restoreSymbolMap, bind_eq_ok] at h
  obtain ⟨st, hfold, hm⟩ := h
  rw [← ok.inj hm]
  refine foldOk_invariant (I := fun pre st => st.1 = ofEntries pre) ?_ hfold rfl
  intro pre item st st' hI hstep
  rw [restoreSymbol, ite_error_eq_ok, bind_eq_ok] at hstep
  obtain ⟨-, -, -, hstep⟩ := hstep
  rw [ite_error_eq_ok, ite_error_eq_ok, bind_eq_ok] at hstep
  obtain ⟨-, -, owners, -, hst⟩ := hstep
  rw [← ok.inj hst, ofEntries_concat, hI]

theorem restoreStableIdMap_eq {l : List (String × StableId)} {m : OrdMap String StableId}
    (h : restoreStableIdMap l = .ok m) : m = ofEntries l := by
  rw [restoreStableIdMap, bind_eq_ok] at h
  obtain ⟨st, hfold, hm⟩ := h
  rw [← ok.inj hm]
  refine foldOk_invariant (I := fun pre st => st.1 = ofEntries pre) ?_ hfold rfl
  intro pre item st st' hI hstep
  rw [restoreStableId, ite_error_eq_ok] at hstep
  obtain ⟨-, hstep⟩ := hstep
  cases hown : st.2[item.2]? with
  | some previous => simp only [hown] at hstep; exact absurd hstep (by simp)
  | none =>
    simp only [hown] at hstep
    rw [ite_error_eq_ok] at hstep
    rw [← ok.inj hstep.2, ofEntries_concat, hI]

theorem restoreGenerationMap_eq {l : List (String × Nat)} {m : OrdMap String Nat}
    (h : restoreGenerationMap l = .ok m) : m = ofEntries l := by
  refine foldOk_invariant (I := fun pre m => m = ofEntries pre) ?_ h rfl
  intro pre item m m' hI hstep
  rw [restoreGeneration, ite_error_eq_ok, ite_error_eq_ok] at hstep
  rw [← ok.inj hstep.2.2, ofEntries_concat, hI]

/-! ## The unified graph -/

theorem version_of_restoreSnapshot {snapshot : UnifiedSemanticGraphSnapshot}
    (h : restoreSnapshot snapshot = .ok g) : g.version = snapshot.version + 1 := by
  simp only [restoreSnapshot, bind_eq_ok, checkedGenerationIncrement_eq_ok] at h
  obtain ⟨_, -, _, -, _, -, _, -, _, -, version, ⟨-, hversion⟩, _, -, _, -, hg⟩ := h
  rw [← ok.inj hg]
  exact hversion

/-- The attached fact store, if there is one, is well formed. -/
def FactsWellFormed (g : UnifiedSemanticGraph) : Prop := ∀ f, g.facts = some f → f.WellFormed

/-- Two optional fact stores with the same version and the same cells. -/
inductive SameFacts : Option SemanticGraph → Option SemanticGraph → Prop
  | none : SameFacts none none
  | some {f f' : SemanticGraph} (version : f'.currentVersion = f.currentVersion)
      (cells : ∀ s p, f'.cell s p = f.cell s p) : SameFacts (some f) (some f')

/-- `g'` is `g` after a restore: the same data, and counters one higher. -/
structure Restored (g g' : UnifiedSemanticGraph) : Prop where
  symbols : g'.symbols = g.symbols
  semantics : g'.semantics.entries = g.semantics.entries
  facts : SameFacts g.facts g'.facts
  stableIds : g'.stableIds = g.stableIds
  cellGenerations : g'.cellGenerations = g.cellGenerations
  version : g'.version = g.version + 1
  nameGeneration : g'.nameGeneration = g.nameGeneration + 1
  factGeneration : g'.factGeneration = g.factGeneration + 1
  nextCellGeneration : g'.nextCellGeneration = max g.nextCellGeneration 1

theorem sameFacts_of_restoreFacts {o : Option SemanticGraph} {o' : Option SemanticGraph}
    (hf : ∀ f, o = some f → f.WellFormed)
    (h : restoreFacts (o.map SemanticGraph.snapshot) = .ok o') : SameFacts o o' := by
  cases o with
  | none =>
    have ho' := ok.inj h
    rw [← ho']
    exact .none
  | some f =>
    obtain ⟨f', hrun, hver, hcells⟩ := SemanticGraph.restoreSnapshot_snapshot (hf f rfl)
    rw [Option.map_some, restoreFacts, hrun, ok_bind] at h
    rw [← ok.inj h]
    exact .some hver hcells

/-- A graph restored from the snapshot of `g` is `g` with higher counters. -/
theorem restored_of_restoreSnapshot (hf : g.FactsWellFormed)
    (h : restoreSnapshot g.snapshot = .ok g') : Restored g g' := by
  simp only [restoreSnapshot, bind_eq_ok, checkedGenerationIncrement_eq_ok] at h
  obtain ⟨symbols, hsym, semantics, hsem, facts, hfacts, stableIds, hids, gens, hgens,
    version, ⟨-, hversion⟩, nameGen, ⟨-, hname⟩, factGen, ⟨-, hfact⟩, hg'⟩ := h
  rw [← ok.inj hg']
  refine
    { symbols := ?_
      semantics := ?_
      facts := sameFacts_of_restoreFacts hf hfacts
      stableIds := ?_
      cellGenerations := ?_
      version := hversion
      nameGeneration := hname
      factGeneration := hfact
      nextCellGeneration := rfl }
  · exact (restoreSymbolMap_eq hsym).trans (ofEntries_toList _)
  · exact (SemanticRegistry.restoreSnapshot_entries hsem).1.trans (ofEntries_toList _)
  · exact (restoreStableIdMap_eq hids).trans (ofEntries_toList _)
  · exact (restoreGenerationMap_eq hgens).trans (ofEntries_toList _)

theorem getFact_eq_of_sameFacts (h : SameFacts g.facts g'.facts) (s : SemanticSubjectId)
    (p : String) : g'.getFact s p = g.getFact s p := by
  unfold getFact factStore
  cases h' : g.facts with
  | none =>
    rw [h'] at h
    generalize g'.facts = o at h ⊢
    cases h
    rfl
  | some f =>
    rw [h'] at h
    generalize g'.facts = o at h ⊢
    cases h with
    | @some _ f' hver hcells =>
      show f'.getFact s p none = f.getFact s p none
      exact SemanticGraph.getFact_none_congr (hcells s p) hver

theorem FactsWellFormed.of_sameFacts (hf : g.FactsWellFormed) (h : SameFacts g.facts g'.facts) :
    g'.FactsWellFormed := by
  intro f' hf'
  cases h' : g.facts with
  | none => rw [h', hf'] at h; cases h
  | some f =>
    rw [h', hf'] at h
    cases h with
    | some hver hcells => exact (hf f h').of_cells hver hcells

end UnifiedSemanticGraph

end Caap
