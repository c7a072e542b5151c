/-
  Caap.Query.WriteDetection

  Which changes of visible facts the comparison of two snapshots detects.  Along forward
  writes a history only grows, so histories that compare equal are identical; the cell
  is then unchanged as long as its retractions are, and a provider that changed it
  without declaring the write is refused.
-/

import Caap.Query.WriteTracking

namespace Caap

open Std Lib SemanticWriteSummary NestedMap SemanticGraph List

variable {s : SemanticSubjectId} {p : String}

namespace UnifiedSemanticGraph

/-- The recorded values and retractions of a cell; empty without a fact store. -/
def cell (g : UnifiedSemanticGraph) (s : SemanticSubjectId) (p : String) :
    VersionedCell SemanticValue :=
  g.facts.elim VersionedCell.empty fun f => f.cell s p

variable {g : UnifiedSemanticGraph}

theorem cell_of_facts {f : SemanticGraph} (hf : g.facts = some f) : g.cell s p = f.cell s p := by
  rw [cell, hf, Option.elim_some]

/-- The rebuilt histories are the recorded values. -/
theorem listAt_factHistoryMap : (factHistoryMap g.snapshot).listAt s p = (g.cell s p).entries := by
  cases hf : g.facts with
  | none =>
    have hsnap : g.snapshot.facts = none := by rw [snapshot, hf]; rfl
    rw [factHistoryMap, hsnap, cell, hf, Option.elim_none, listAt, get2_empty]
    rfl
  | some f =>
    have hsnap : g.snapshot.facts = some f.snapshot := by rw [snapshot, hf]; rfl
    rw [factHistoryMap, hsnap, cell_of_facts hf]
    show listAt (f.snapshot.triples.foldl _ ∅) s p = f.facts.listAt s p
    rw [SemanticGraph.snapshot, foldl_map]
    exact listAt_group_flatten2 f.facts s p

/-! ## Forward writes only extend histories -/

/-- `g'` has every recorded value of `g`, possibly more, and a version at least as high. -/
structure Extends (g g' : UnifiedSemanticGraph) : Prop where
  store : g'.facts.isSome = g.facts.isSome
  version : ∀ f f', g.facts = some f → g'.facts = some f' → f.currentVersion ≤ f'.currentVersion
  entries : ∀ s p, (g.cell s p).entries <+: (g'.cell s p).entries

theorem Extends.refl (g : UnifiedSemanticGraph) : Extends g g := by
  refine ⟨rfl, ?_, fun s p => prefix_rfl⟩
  intro f f' hf hf'
  rw [hf, Option.some.injEq] at hf'
  rw [hf']

theorem Extends.trans {g₁ g₂ g₃ : UnifiedSemanticGraph} (h : Extends g₁ g₂) (h' : Extends g₂ g₃) :
    Extends g₁ g₃ := by
  refine ⟨h'.store.trans h.store, ?_, fun s p => (h.entries s p).trans (h'.entries s p)⟩
  intro f₁ f₃ hf₁ hf₃
  have hsome : g₂.facts.isSome = true := by rw [h.store, hf₁]; rfl
  obtain ⟨f₂, hf₂⟩ := Option.isSome_iff_exists.mp hsome
  exact (h.version f₁ f₂ hf₁ hf₂).trans (h'.version f₂ f₃ hf₂ hf₃)

/-- Extension can be read off the two fact stores. -/
theorem extends_of_facts {g' : UnifiedSemanticGraph} {f f' : SemanticGraph}
    (hf : g.facts = some f) (hf' : g'.facts = some f') (hver : f.currentVersion ≤ f'.currentVersion)
    (hentries : ∀ s p, (f.cell s p).entries <+: (f'.cell s p).entries) : Extends g g' := by
  refine ⟨by rw [hf, hf']; rfl, ?_, ?_⟩
  · intro f₁ f₁' hf₁ hf₁'
    rw [hf, Option.some.injEq] at hf₁
    rw [hf', Option.some.injEq] at hf₁'
    rw [← hf₁, ← hf₁']
    exact hver
  · intro s p
    rw [cell_of_facts hf, cell_of_facts hf']
    exact hentries s p

theorem extends_of_same_store {g' : UnifiedSemanticGraph} (h : g'.facts = g.facts) :
    Extends g g' := by
  refine ⟨by rw [h], ?_, ?_⟩
  · intro f f' hf hf'
    rw [h, hf, Option.some.injEq] at hf'
    rw [hf']
  · intro s p
    rw [cell, cell, h]

theorem entries_prefix_put {c : VersionedCell SemanticValue} {now : Nat} {v : SemanticValue} :
    c.entries <+: (c.put now v).2.entries := by
  cases hs : c.skipsPut now v with
  | true => rw [VersionedCell.put_of_skips hs]
  | false =>
    rw [VersionedCell.put_of_not_skips hs]
    exact prefix_append _ _

theorem entries_retract {c : VersionedCell SemanticValue} {now : Nat} :
    (c.retract now).2.entries = c.entries := by
  unfold VersionedCell.retract
  split <;> rfl

theorem extends_step {op : SemanticOp} : Extends g (g.step op) := by
  rcases step_cases g op with heq | ⟨K, -, -, hfacts⟩ | ⟨f, s, p, v, hf, -, -, -, -, hfacts⟩ |
    ⟨f, s, p, x, hf, -, hx, -, -, hfacts⟩ | ⟨f, hf, -, hfacts⟩
  · rw [heq]
    exact .refl g
  · exact extends_of_same_store hfacts
  · refine extends_of_facts hf hfacts (Nat.le_of_eq recordFact_currentVersion.symm) ?_
    intro s' p'
    rw [cell_recordFact]
    by_cases hk : s = s' ∧ p = p'
    · rw [if_pos hk, hk.1, hk.2]
      exact entries_prefix_put
    · rw [if_neg hk]
  · refine extends_of_facts hf hfacts (Nat.le_refl _) ?_
    intro s' p'
    rw [cell_recordRetraction s' p' hx]
    by_cases hk : s = s' ∧ p = p'
    · rw [if_pos hk, hk.1, hk.2, entries_retract]
    · rw [if_neg hk]
  · exact extends_of_facts hf hfacts (Nat.le_succ _) fun s p => prefix_rfl

theorem extends_run {ops : List SemanticOp} : Extends g (run step g ops) :=
  run_invariant (P := fun g' => Extends g g') (fun g' op h => h.trans extends_step)
    (.refl g) ops

/-- A cell that an extension leaves as it was is read as before. -/
theorem getFact_of_cell_eq {g' : UnifiedSemanticGraph} (hwf : g.FactsWellFormed)
    (h : Extends g g') (hcell : g'.cell s p = g.cell s p) : g'.getFact s p = g.getFact s p := by
  cases hf : g.facts with
  | none =>
    have hf' : g'.facts = none := by
      have hstore := h.store
      rw [hf, Option.isSome_none] at hstore
      exact Option.isSome_eq_false_iff.mp hstore |> Option.isNone_iff_eq_none.mp
    exact getFact_of_same_store (hf'.trans hf.symm) s p
  | some f =>
    obtain ⟨f', hf'⟩ := Option.isSome_iff_exists.mp
      (show g'.facts.isSome = true by rw [h.store, hf]; rfl)
    rw [cell_of_facts hf, cell_of_facts hf'] at hcell
    rw [getFact_of_facts hf, getFact_of_facts hf']
    by_cases hp : p = ""
    · subst hp
      rfl
    rw [getFact_eq hp, getFact_eq hp, Option.getD_none,
      Option.getD_none, hcell]
    congr 1
    exact ((hwf f hf).cells s p).visibleAt_of_le (h.version f f' hf hf')

end UnifiedSemanticGraph

/-! ## What the comparison reports -/

section Reports

variable {before after : UnifiedSemanticGraphSnapshot} {s : SemanticSubjectId} {p : String}

theorem get2_collectCells {map : FactHistoryMap} {cells : NestedMap SemanticSubjectId String Unit} :
    (collectCells map cells).get2 s p = some () ↔
      (map.get2 s p).isSome = true ∨ cells.get2 s p = some () := by
  rw [collectCells, get2_foldl_insert2_keys]
  have hmem : (s, p) ∈ map.entries.map Prod.fst ↔ (map.get2 s p).isSome = true := by
    rw [mem_map, Option.isSome_iff_exists]
    constructor
    · rintro ⟨⟨⟨s', p'⟩, l⟩, he, hkey⟩
      obtain ⟨rfl, rfl⟩ := Prod.mk.inj hkey
      exact ⟨l, mem_entries.mp he⟩
    · rintro ⟨l, hl⟩
      exact ⟨((s, p), l), mem_entries.mpr hl, rfl⟩
  rw [hmem]

/-- The changed cells are those whose histories compare different. -/
theorem mem_changedFactCells : (s, p) ∈ changedFactCells before after ↔
      ((factHistoryMap before).get2 s p == (factHistoryMap after).get2 s p) = false := by
  simp only [changedFactCells, mem_filter, Bool.not_eq_true']
  refine ⟨And.right, fun hne => ⟨?_, hne⟩⟩
  -- two absent histories compare equal, so one of them is there
  have hsome : ((factHistoryMap after).get2 s p).isSome = true ∨
      ((factHistoryMap before).get2 s p).isSome = true := by
    cases hb : (factHistoryMap before).get2 s p with
    | some l => exact .inr rfl
    | none =>
      cases ha : (factHistoryMap after).get2 s p with
      | some l => exact .inl rfl
      | none =>
        rw [hb, ha] at hne
        exact absurd hne (by simp)
  refine mem_map.mpr ⟨((s, p), ()), mem_entries.mpr ?_, rfl⟩
  rw [get2_collectCells, get2_collectCells]
  rcases hsome with h | h
  · exact .inl h
  · exact .inr (.inl h)

/-- The flag of the summary that covers writes of a predicate. -/
def SemanticWriteSummary.flag (summary : SemanticWriteSummary) (predicate : String) : Bool :=
  if isAnnotation predicate then summary.attributes else summary.facts

/-- The effect a provider declares to write a predicate. -/
def writeEffect (predicate : String) : BuiltinEffectTag :=
  if isAnnotation predicate then .writeAttributes else .writeFacts

theorem flag_foldl_facts (cells : List (SemanticSubjectId × String)) (summary : SemanticWriteSummary)
    (h : (∃ s, (s, p) ∈ cells) ∨ summary.flag p = true) : (cells.foldl
      (fun (summary : SemanticWriteSummary) cell =>
        if isAnnotation cell.2 then { summary with attributes := true }
        else { summary with facts := true }) summary).flag p = true := by
  induction cells generalizing summary with
  | nil =>
    rcases h with ⟨s, hs⟩ | h
    · exact absurd hs not_mem_nil
    · exact h
  | cons cell cells ih =>
    rw [foldl_cons]
    apply ih
    rcases h with ⟨s, hs⟩ | h
    · rcases mem_cons.mp hs with rfl | hs
      · right
        unfold flag
        split <;> rfl
      · exact .inl ⟨s, hs⟩
    · unfold flag at h ⊢
      split <;> split at h <;> split <;> simp_all

/-- A changed cell sets its flag. -/
theorem flag_semanticWriteSummary (h : (s, p) ∈ changedFactCells before after) :
    (semanticWriteSummary before after).flag p = true := by
  have hfacts := flag_foldl_facts (p := p) (changedFactCells before after)
    (collectSymbolWriteSummary before after .empty) (.inl ⟨s, h⟩)
  -- the later collectors set no flag but that of symbols
  have hregistry : ∀ summary, (collectSemanticRegistryWriteSummary before after summary).flag p
      = summary.flag p := by
    intro summary
    unfold collectSemanticRegistryWriteSummary flag
    by_cases heq : (before.semantics.entries == after.semantics.entries) = true
    · rw [if_pos heq]
    · rw [if_neg heq]
  have hstable : ∀ summary, (collectStableIdWriteSummary before after summary).flag p
      = summary.flag p := by
    intro summary
    unfold collectStableIdWriteSummary flag
    by_cases hne : before.stableIds ≠ after.stableIds
    · rw [if_pos hne]
    · rw [if_neg hne]
  rw [semanticWriteSummary, hstable, hregistry]
  exact hfacts

/-- A set flag is a violation for a provider that does not declare the effect. -/
theorem violation_of_flag {summary : SemanticWriteSummary} (hflag : summary.flag p = true)
    {provider : QueryProvider} (hdecl : provider.declaresEffect (writeEffect p) = false)
    {diagnosticsEmitted : Nat} {irChange : ProviderIrChangeStats} {attributesChanged : Bool}
    {context : Option QueryProviderContext} :
    (providerEffectPolicyViolation provider diagnosticsEmitted irChange attributesChanged summary
      context).isSome = true := by
  by_contra hnone
  have hnone' := Option.not_isSome_iff_eq_none.mp hnone
  obtain ⟨-, hfacts, hattributes⟩ := declared_of_no_violation hnone'
  unfold flag at hflag
  unfold writeEffect at hdecl
  by_cases ha : isAnnotation p = true
  · rw [if_pos ha] at hflag hdecl
    rw [QueryProvider.undeclared, hflag, hdecl] at hattributes
    exact absurd hattributes (by decide)
  · rw [if_neg ha] at hflag hdecl
    rw [QueryProvider.undeclared, hflag, hdecl] at hfacts
    exact absurd hfacts (by decide)

/-! ### Tracked cells -/

theorem mem_pushTrackingWrite {t : WriteTracking} {subject predicate key : String}
    (h : key ∈ t.writeCells) : key ∈ (t.pushTrackingWrite subject predicate).writeCells :=
  mem_append_left _ h

theorem mem_pushUnitWriteIfGrown {unitId predicate key : String} {start t : WriteTracking}
    (h : key ∈ t.writeCells) :
    key ∈ (WriteTracking.pushUnitWriteIfGrown unitId predicate start t).writeCells := by
  unfold WriteTracking.pushUnitWriteIfGrown
  by_cases hgrown : t.writeCells.length ≠ start.writeCells.length
  · rw [if_pos hgrown, WriteTracking.pushUnitWrite]
    cases subjectId "unit" unitId with
    | ok subject => exact mem_pushTrackingWrite h
    | error e => exact h
  · rw [if_neg hgrown]
    exact h

/-- The key a cell is listed under in `write_cells`. -/
def cellTrackingKey (s : SemanticSubjectId) (p : String) : String :=
  semanticCellTrackingKey (semanticSubjectTrackingKey s) p

theorem mem_foldl_pushSemanticWrite {cells : List (SemanticSubjectId × String)} {t : WriteTracking}
    (h : (s, p) ∈ cells ∨ cellTrackingKey s p ∈ t.writeCells) : cellTrackingKey s p ∈
      (cells.foldl (fun t cell => t.pushSemanticWrite cell.1 cell.2) t).writeCells := by
  induction cells generalizing t with
  | nil =>
    rcases h with h | h
    · exact absurd h not_mem_nil
    · exact h
  | cons cell cells ih =>
    apply ih
    rcases h with h | h
    · rcases mem_cons.mp h with rfl | h
      · exact .inr (mem_append_right _ (mem_singleton_self _))
      · exact .inl h
    · exact .inr (mem_pushTrackingWrite h)

/-- A changed cell is among the tracked writes of every unit. -/
theorem mem_collectWriteTracking (h : (s, p) ∈ changedFactCells before after) {unitId : String} :
    cellTrackingKey s p ∈ (collectWriteTracking unitId before after).writeCells := by
  have hgrow : ∀ (kind predicate : String) (names : List String) (t : WriteTracking),
      cellTrackingKey s p ∈ t.writeCells →
      cellTrackingKey s p ∈
        (names.foldl (fun t name => t.pushTrackingWrite (kind ++ name) predicate) t).writeCells := by
    intro kind predicate names t ht
    exact run_invariant (P := fun t : WriteTracking => cellTrackingKey s p ∈ t.writeCells)
      (fun _ _ ht => mem_pushTrackingWrite ht) ht names
  apply hgrow
  apply hgrow
  apply mem_pushUnitWriteIfGrown
  exact mem_foldl_pushSemanticWrite (.inl h)

end Reports

/-! ## Detection -/

/-- A change of the cell is reported everywhere it should be. -/
structure WriteDetected (before after : UnifiedSemanticGraphSnapshot) (s : SemanticSubjectId)
    (p : String) : Prop where
  summary : (semanticWriteSummary before after).flag p = true
  refused : ∀ (provider : QueryProvider) (diagnosticsEmitted : Nat)
    (irChange : ProviderIrChangeStats) (attributesChanged : Bool)
    (context : Option QueryProviderContext),
    provider.declaresEffect (writeEffect p) = false →
      (providerEffectPolicyViolation provider diagnosticsEmitted irChange attributesChanged
        (semanticWriteSummary before after) context).isSome = true
  tracked : ∀ context : QueryProviderContext,
    ∃ tracked, mergeSemanticWriteTracking (some context) before after = some tracked ∧
      cellTrackingKey s p ∈ tracked.writeCells

theorem writeDetected_of_changed {before after : UnifiedSemanticGraphSnapshot}
    (h : (s, p) ∈ changedFactCells before after) : WriteDetected before after s p where
  summary := flag_semanticWriteSummary h
  refused _ diagnosticsEmitted irChange attributesChanged context hdecl :=
    violation_of_flag (flag_semanticWriteSummary h) hdecl
  tracked context :=
    ⟨_, rfl, mem_extendUnique.mpr (.inr (mem_collectWriteTracking h))⟩

namespace UnifiedSemanticGraph

/-- Where the recorded values of a cell are unchanged, so are its retractions. -/
def RetractionsFollow (before after : UnifiedSemanticGraph) : Prop :=
  ∀ s p, (after.cell s p).entries = (before.cell s p).entries →
    (after.cell s p).tombs = (before.cell s p).tombs

/-- Histories that compare equal across forward writes are identical. -/
theorem entries_eq_of_unchanged {before after : UnifiedSemanticGraph} (h : Extends before after)
    (hun : (s, p) ∉ changedFactCells before.snapshot after.snapshot) :
    (after.cell s p).entries = (before.cell s p).entries := by
  rw [mem_changedFactCells, Bool.not_eq_false] at hun
  have hbeq : ((factHistoryMap before.snapshot).listAt s p
      == (factHistoryMap after.snapshot).listAt s p) = true := by
    unfold listAt
    cases hb : (factHistoryMap before.snapshot).get2 s p with
    | none =>
      cases ha : (factHistoryMap after.snapshot).get2 s p with
      | none => rfl
      | some l => rw [hb, ha] at hun; exact absurd hun (by simp)
    | some l =>
      cases ha : (factHistoryMap after.snapshot).get2 s p with
      | none => rw [hb, ha] at hun; exact absurd hun (by simp)
      | some l' => rw [hb, ha] at hun; exact hun
  rw [listAt_factHistoryMap, listAt_factHistoryMap] at hbeq
  have hlen := length_eq_of_beq hbeq
  exact ((h.entries s p).eq_of_length hlen).symm

/-- Every change of a visible fact between a reachable graph and the graph after any
    forward writes is detected, as long as retractions follow the recorded values. -/
theorem factWrite_detected (includeFacts : Bool) (history : List GraphOp) (ops : List SemanticOp)
    (hfollow : RetractionsFollow (run GraphHistory.step (.start includeFacts) history).graph
      (run step (run GraphHistory.step (.start includeFacts) history).graph ops))
    (s : SemanticSubjectId) (p : String)
    (hchange : (run step (run GraphHistory.step (.start includeFacts) history).graph ops).getFact s p
      ≠ (run GraphHistory.step (.start includeFacts) history).graph.getFact s p) :
    WriteDetected (run GraphHistory.step (.start includeFacts) history).graph.snapshot
      (run step (run GraphHistory.step (.start includeFacts) history).graph ops).snapshot s p := by
  have hwf := (GraphHistory.wellFormed_run includeFacts history).graph
  generalize (run GraphHistory.step (.start includeFacts) history).graph = before at *
  have hext : Extends before (run step before ops) := extends_run
  apply writeDetected_of_changed
  by_contra hun
  have hentries := entries_eq_of_unchanged hext hun
  have hcell : (run step before ops).cell s p = before.cell s p :=
    VersionedCell.ext hentries (hfollow s p hentries)
  exact hchange (getFact_of_cell_eq hwf hext hcell)

/-- A fresh graph on which a provider sets one fact. -/
theorem factWrite_detected_setFact :
    WriteDetected (run GraphHistory.step (.start true) []).graph.snapshot
      (run step (run GraphHistory.step (.start true) []).graph
        [.setFact ⟨"node", "1"⟩ "type" (.int 7)]).snapshot ⟨"node", "1"⟩ "type" := by
  refine factWrite_detected true [] [.setFact ⟨"node", "1"⟩ "type" (.int 7)] ?_ _ _ ?_
  · intro s p _
    rfl
  · intro h
    exact absurd (Except.ok.inj (show Except.ok (some (SemanticValue.int 7)) = .ok none from h))
      (by simp)

/-- A graph that holds one fact. -/
def oneFact : UnifiedSemanticGraph :=
  (run GraphHistory.step (.start true) [.write (.setFact ⟨"node", "1"⟩ "type" (.int 7))]).graph

/-- A fact that was there before is removed: it is no longer visible, but the summary is
    empty and no cell is tracked. -/
theorem removeFact_undetected : oneFact.getFact ⟨"node", "1"⟩ "type" = .ok (some (.int 7)) ∧
      (run step oneFact [.removeFact ⟨"node", "1"⟩ "type"]).getFact ⟨"node", "1"⟩ "type"
        = .ok none ∧ semanticWriteSummary oneFact.snapshot
        (run step oneFact [.removeFact ⟨"node", "1"⟩ "type"]).snapshot = .empty ∧
      (collectWriteTracking "main" oneFact.snapshot
        (run step oneFact [.removeFact ⟨"node", "1"⟩ "type"]).snapshot).writeCells = [] ∧
      ¬ WriteDetected oneFact.snapshot
        (run step oneFact [.removeFact ⟨"node", "1"⟩ "type"]).snapshot ⟨"node", "1"⟩ "type" := by
  have hsummary : semanticWriteSummary oneFact.snapshot
      (run step oneFact [.removeFact ⟨"node", "1"⟩ "type"]).snapshot = .empty := by
    decide
  refine ⟨rfl, rfl, hsummary, by decide, ?_⟩
  intro h
  have hflag := h.summary
  exact absurd hflag (by decide)

end UnifiedSemanticGraph

end Caap
