/-
  Caap.Semantic.UnifiedOps

  The seven forward writes of a unified semantic graph as one operation type, and what
  each can do: nothing, bump one cell for a name or stable-id write, bump one cell and
  write one fact, or commit the fact store (`step_cases`).
-/

import Caap.Semantic.Snapshot

namespace Caap

open Std Lib SemanticGraph Except

/-- A forward write of a unified semantic graph. -/
inductive SemanticOp where
  | defineSymbol (entry : SymbolEntry)
  | removeSymbol (name : String)
  | defineSemantic (entry : SemanticEntry)
  | recordStableId (key : String) (stableId : StableId)
  | setFact (subject : SemanticSubjectId) (predicate : String) (value : SemanticValue)
  | removeFact (subject : SemanticSubjectId) (predicate : String)
  | commitFacts

namespace UnifiedSemanticGraph

variable {g g' : UnifiedSemanticGraph}

/-- The graph after one write, successful or not. -/
def step (g : UnifiedSemanticGraph) : SemanticOp → UnifiedSemanticGraph
  | .defineSymbol entry => settle g (g.defineSymbol entry)
  | .removeSymbol name => settle g (g.removeSymbol name)
  | .defineSemantic entry => settle g (g.defineSemantic entry)
  | .recordStableId key stableId => settle g (g.recordStableId key stableId)
  | .setFact s p v => settle g (g.setFact s p v)
  | .removeFact s p => settle g (g.removeFact s p)
  | .commitFacts => settle g g.commitFacts

/-- The key of the cell a write is about to bump, by the write's own change test. -/
def pendingBump (g : UnifiedSemanticGraph) : SemanticOp → Option String
  | .defineSymbol entry =>
    if g.symbols[entry.name]? = some entry then none
    else some (cellKey ⟨"symbol", entry.name⟩ "symbol.entry")
  | .removeSymbol name =>
    if (g.symbols[name]?).isNone then none else some (cellKey ⟨"symbol", name⟩ "symbol.entry")
  | .defineSemantic entry => some (cellKey ⟨"semantic", entry.name⟩ "semantic.entry")
  | .recordStableId key stableId =>
    if g.stableIds[key]? = some stableId then none else some (cellKey ⟨"stable_id", key⟩ "stable_id")
  | .setFact s p v =>
    if (g.getFact s p).toOption.any (fun current => current == some v) then none
    else some (cellKey s p)
  | .removeFact s p =>
    if (g.getFact s p).toOption.any Option.isSome then some (cellKey s p) else none
  | .commitFacts => none

/-- `g'` has handed out the next generation to the cell `key`. -/
def Bumped (g g' : UnifiedSemanticGraph) (key : String) : Prop :=
  g'.cellGenerations = g.cellGenerations.insert key (max g.nextCellGeneration 1)

/-! ## Inversion lemmas -/

theorem prepareCellBump_eq_ok {cell : Nat × Nat} (h : g.prepareCellBump = .ok cell) :
    cell = (max g.nextCellGeneration 1, max g.nextCellGeneration 1 + 1) := by
  rw [prepareCellBump, bind_eq_ok] at h
  obtain ⟨n, hn, hcell⟩ := h
  obtain ⟨-, hn⟩ := checkedGenerationIncrement_eq_ok.mp hn
  rw [← ok.inj hcell, hn]

variable {K : String}

theorem Bumped.of_cell {cell : Nat × Nat} (h : g.prepareCellBump = .ok cell)
    (hgens : g'.cellGenerations = g.cellGenerations.insert K cell.1) : Bumped g g' K := by
  rw [Bumped, hgens, prepareCellBump_eq_ok h]

theorem Bumped.of_name {r : (Nat × Nat) × Nat × Nat} (h : g.prepareNameWrite = .ok r)
    (hgens : g'.cellGenerations = g.cellGenerations.insert K r.1.1) : Bumped g g' K := by
  simp only [prepareNameWrite, bind_eq_ok] at h
  obtain ⟨cell, hcell, n, -, v, -, hr⟩ := h
  rw [← ok.inj hr] at hgens
  exact .of_cell hcell hgens

theorem Bumped.of_fact {r : (Nat × Nat) × Nat × Nat} (h : g.prepareFactWrite = .ok r)
    (hgens : g'.cellGenerations = g.cellGenerations.insert K r.1.1) : Bumped g g' K := by
  simp only [prepareFactWrite, bind_eq_ok] at h
  obtain ⟨cell, hcell, n, -, v, -, hr⟩ := h
  rw [← ok.inj hr] at hgens
  exact .of_cell hcell hgens

variable {s : SemanticSubjectId}

theorem symbolSubjectId_eq_ok {name : String}
    (h : symbolSubjectId name = .ok s) : s = ⟨"symbol", name⟩ := by
  rw [symbolSubjectId, SemanticSubjectId.new, ite_error_eq_ok, ite_error_eq_ok] at h
  exact (ok.inj h.2.2).symm

theorem eq_of_subjectId_eq_ok {kind value : String}
    (h : subjectId kind value = .ok s) : s = ⟨kind, value⟩ := by
  rw [subjectId, SemanticSubjectId.new, ite_error_eq_ok, ite_error_eq_ok] at h
  exact (ok.inj h.2.2).symm

/-- A write that would change nothing leaves the graph alone. -/
theorem unchanged_or {α : Type} {c : Prop} [Decidable c] {a : α} {r : α × UnifiedSemanticGraph}
    {x : CaapResult (α × UnifiedSemanticGraph)} (h : (if c then .ok (a, g) else x) = .ok r) :
    r.2 = g ∨ ¬ c ∧ x = .ok r := by
  by_cases hc : c
  · rw [if_pos hc] at h
    left
    rw [← ok.inj h]
  · rw [if_neg hc] at h
    exact .inr ⟨hc, h⟩

variable {r : Bool × UnifiedSemanticGraph}

theorem defineSymbol_cases {entry : SymbolEntry} (h : g.defineSymbol entry = .ok r) :
    r.2 = g ∨ g.symbols[entry.name]? ≠ some entry ∧
      Bumped g r.2 (cellKey ⟨"symbol", entry.name⟩ "symbol.entry") ∧ r.2.facts = g.facts := by
  rw [defineSymbol, bind_eq_ok] at h
  obtain ⟨-, -, h⟩ := h
  cases hc : g.publicNameConflict entry with
  | some conflict => simp only [hc] at h; exact absurd h (by simp)
  | none =>
    simp only [hc] at h
    refine (unchanged_or h).imp_right ?_
    rintro ⟨hsame, h⟩
    simp only [bind_eq_ok] at h
    obtain ⟨subject, hsub, w, hw, hr⟩ := h
    rw [← ok.inj hr, symbolSubjectId_eq_ok hsub]
    exact ⟨hsame, .of_name hw rfl, rfl⟩

theorem removeSymbol_cases {name : String} (h : g.removeSymbol name = .ok r) :
    r.2 = g ∨ (g.symbols[name]?).isNone = false ∧
      Bumped g r.2 (cellKey ⟨"symbol", name⟩ "symbol.entry") ∧ r.2.facts = g.facts := by
  rw [removeSymbol, ite_error_eq_ok] at h
  refine (unchanged_or h.2).imp_right ?_
  rintro ⟨hsome, h⟩
  simp only [bind_eq_ok] at h
  obtain ⟨subject, hsub, w, hw, hr⟩ := h
  rw [← ok.inj hr, symbolSubjectId_eq_ok hsub]
  exact ⟨Bool.eq_false_of_not_eq_true hsome, .of_name hw rfl, rfl⟩

theorem defineSemantic_cases {entry : SemanticEntry} {r : Unit × UnifiedSemanticGraph}
    (h : g.defineSemantic entry = .ok r) : r.2 = g ∨
      Bumped g r.2 (cellKey ⟨"semantic", entry.name⟩ "semantic.entry") ∧ r.2.facts = g.facts := by
  rw [defineSemantic, bind_eq_ok] at h
  obtain ⟨existing, -, h⟩ := h
  refine (unchanged_or h).imp_right ?_
  rintro ⟨-, h⟩
  simp only [bind_eq_ok] at h
  obtain ⟨subject, hsub, w, hw, semantics, -, hr⟩ := h
  rw [← ok.inj hr, eq_of_subjectId_eq_ok hsub]
  exact ⟨.of_name hw rfl, rfl⟩

theorem recordStableId_cases {key : String} {stableId : StableId}
    (h : g.recordStableId key stableId = .ok r) : r.2 = g ∨ g.stableIds[key]? ≠ some stableId ∧
      Bumped g r.2 (cellKey ⟨"stable_id", key⟩ "stable_id") ∧ r.2.facts = g.facts := by
  rw [recordStableId, ite_error_eq_ok] at h
  obtain ⟨-, h⟩ := h
  cases hc : g.stableIds.toList.find? fun e => e.1 != key && e.2 == stableId with
  | some conflict => simp only [hc] at h; exact absurd h (by simp)
  | none =>
    simp only [hc] at h
    refine (unchanged_or h).imp_right ?_
    rintro ⟨hsame, h⟩
    simp only [bind_eq_ok] at h
    obtain ⟨subject, hsub, cell, hcell, version, -, hr⟩ := h
    rw [← ok.inj hr, eq_of_subjectId_eq_ok hsub]
    exact ⟨hsame, .of_cell hcell rfl, rfl⟩

theorem factStore_eq_ok {f : SemanticGraph} : g.factStore = .ok f ↔ g.facts = some f := by
  unfold factStore
  cases g.facts with
  | none => simp
  | some f' => simp

theorem getFact_of_facts {f : SemanticGraph} (hf : g.facts = some f) (s : SemanticSubjectId)
    (p : String) : g.getFact s p = f.getFact s p none := by
  rw [getFact, factStore_eq_ok.mpr hf, ok_bind]

theorem setFact_cases {p : String} {v : SemanticValue} (h : g.setFact s p v = .ok r) :
    r.2 = g ∨ ∃ f, g.facts = some f ∧ p ≠ "" ∧ v.Valid ∧
      (g.getFact s p).toOption.any (fun current => current == some v) = false ∧
      Bumped g r.2 (cellKey s p) ∧ r.2.facts = some (f.recordFact s p v).2 := by
  simp only [setFact, bind_eq_ok, factStore_eq_ok] at h
  obtain ⟨-, -, f, hf, current, hcur, h⟩ := h
  refine (unchanged_or h).imp_right ?_
  rintro ⟨hsame, h⟩
  simp only [bind_eq_ok, addFact_eq_ok] at h
  obtain ⟨w, hw, ⟨changed, f'⟩, ⟨hp, hv, hadd⟩, hr⟩ := h
  refine ⟨f, hf, hp, hv, ?_, ?_, ?_⟩
  · rw [getFact_of_facts hf, hcur]
    exact Bool.eq_false_of_not_eq_true hsame
  · rw [← ok.inj hr]
    exact .of_fact hw rfl
  · rw [← ok.inj hr, ← hadd]

theorem removeFact_cases {p : String} (h : g.removeFact s p = .ok r) :
    r.2 = g ∨ ∃ f x, g.facts = some f ∧ p ≠ "" ∧ (f.cell s p).visibleAt f.currentVersion = some x ∧
      (g.getFact s p).toOption.any Option.isSome = true ∧
      Bumped g r.2 (cellKey s p) ∧ r.2.facts = some (f.recordRetraction s p) := by
  simp only [removeFact, bind_eq_ok, factStore_eq_ok] at h
  obtain ⟨f, hf, current, hcur, h⟩ := h
  refine (unchanged_or h).imp_right ?_
  rintro ⟨hsome, h⟩
  simp only [bind_eq_ok, removeFact_eq_ok] at h
  obtain ⟨w, hw, ⟨changed, f'⟩, ⟨hp, hcases⟩, hr⟩ := h
  rw [getFact_eq hp, Option.getD_none] at hcur
  rcases hcases with ⟨hvis, -⟩ | ⟨⟨x, hx⟩, hret⟩
  · rw [← ok.inj hcur, hvis] at hsome
    exact absurd rfl hsome
  · refine ⟨f, x, hf, hp, hx, ?_, ?_, ?_⟩
    · rw [getFact_of_facts hf, getFact_eq hp, Option.getD_none, hx]
      rfl
    · rw [← ok.inj hr]
      exact .of_fact hw rfl
    · rw [← ok.inj hr, ← (Prod.mk.inj hret).2]

theorem commitFacts_cases {r : Nat × UnifiedSemanticGraph} (h : g.commitFacts = .ok r) :
    ∃ f, g.facts = some f ∧ r.2.cellGenerations = g.cellGenerations ∧
      r.2.facts = some { f with currentVersion := f.currentVersion + 1 } := by
  simp only [commitFacts, bind_eq_ok, factStore_eq_ok, commit_eq_ok] at h
  obtain ⟨graphVersion, -, f, hf, ⟨version, f'⟩, ⟨-, hcommit⟩, hr⟩ := h
  refine ⟨f, hf, ?_, ?_⟩
  · rw [← ok.inj hr]
  · rw [← ok.inj hr, ← (Prod.mk.inj hcommit).2]

/-- What one write can do. -/
theorem step_cases (g : UnifiedSemanticGraph) (op : SemanticOp) : g.step op = g ∨
    (∃ K, g.pendingBump op = some K ∧ Bumped g (g.step op) K ∧ (g.step op).facts = g.facts) ∨
    (∃ f s p v, g.facts = some f ∧ p ≠ "" ∧ v.Valid ∧ g.pendingBump op = some (cellKey s p) ∧
      Bumped g (g.step op) (cellKey s p) ∧ (g.step op).facts = some (f.recordFact s p v).2) ∨
    (∃ f s p x, g.facts = some f ∧ p ≠ "" ∧ (f.cell s p).visibleAt f.currentVersion = some x ∧
      g.pendingBump op = some (cellKey s p) ∧ Bumped g (g.step op) (cellKey s p) ∧
      (g.step op).facts = some (f.recordRetraction s p)) ∨
    (∃ f, g.facts = some f ∧ (g.step op).cellGenerations = g.cellGenerations ∧
      (g.step op).facts = some { f with currentVersion := f.currentVersion + 1 }) := by
  cases op with
  | defineSymbol entry =>
    rcases settle_cases g (g.defineSymbol entry) with hsame | ⟨r, hr, hnew⟩
    · exact .inl hsame
    · rw [step, hnew]
      rcases defineSymbol_cases hr with heq | ⟨hne, hb, hf⟩
      · exact .inl heq
      · exact .inr (.inl ⟨_, if_neg hne, hb, hf⟩)
  | removeSymbol name =>
    rcases settle_cases g (g.removeSymbol name) with hsame | ⟨r, hr, hnew⟩
    · exact .inl hsame
    · rw [step, hnew]
      rcases removeSymbol_cases hr with heq | ⟨hne, hb, hf⟩
      · exact .inl heq
      · exact .inr (.inl ⟨_, if_neg (by rw [hne]; exact Bool.false_ne_true), hb, hf⟩)
  | defineSemantic entry =>
    rcases settle_cases g (g.defineSemantic entry) with hsame | ⟨r, hr, hnew⟩
    · exact .inl hsame
    · rw [step, hnew]
      rcases defineSemantic_cases hr with heq | ⟨hb, hf⟩
      · exact .inl heq
      · exact .inr (.inl ⟨_, rfl, hb, hf⟩)
  | recordStableId key stableId =>
    rcases settle_cases g (g.recordStableId key stableId) with hsame | ⟨r, hr, hnew⟩
    · exact .inl hsame
    · rw [step, hnew]
      rcases recordStableId_cases hr with heq | ⟨hne, hb, hf⟩
      · exact .inl heq
      · exact .inr (.inl ⟨_, if_neg hne, hb, hf⟩)
  | setFact s p v =>
    rcases settle_cases g (g.setFact s p v) with hsame | ⟨r, hr, hnew⟩
    · exact .inl hsame
    · rw [step, hnew]
      rcases setFact_cases hr with heq | ⟨f, hf, hp, hv, hch, hb, hnf⟩
      · exact .inl heq
      · have hpend : g.pendingBump (.setFact s p v) = some (cellKey s p) :=
          if_neg (by rw [hch]; exact Bool.false_ne_true)
        exact .inr (.inr (.inl ⟨f, s, p, v, hf, hp, hv, hpend, hb, hnf⟩))
  | removeFact s p =>
    rcases settle_cases g (g.removeFact s p) with hsame | ⟨r, hr, hnew⟩
    · exact .inl hsame
    · rw [step, hnew]
      rcases removeFact_cases hr with heq | ⟨f, x, hf, hp, hx, hvis, hb, hnf⟩
      · exact .inl heq
      · have hpend : g.pendingBump (.removeFact s p) = some (cellKey s p) := if_pos hvis
        exact .inr (.inr (.inr (.inl ⟨f, s, p, x, hf, hp, hx, hpend, hb, hnf⟩)))
  | commitFacts =>
    rcases settle_cases g g.commitFacts with hsame | ⟨r, hr, hnew⟩
    · exact .inl hsame
    · rw [step, hnew]
      exact .inr (.inr (.inr (.inr (commitFacts_cases hr))))

/-- Every write keeps the fact store well formed. -/
theorem FactsWellFormed.step (h : g.FactsWellFormed) (op : SemanticOp) :
    (g.step op).FactsWellFormed := by
  intro f' hf'
  rcases step_cases g op with heq | ⟨K, -, -, hfacts⟩ | ⟨f, s, p, v, hf, hp, hv, -, -, hfacts⟩ |
    ⟨f, s, p, x, hf, -, hx, -, -, hfacts⟩ | ⟨f, hf, -, hfacts⟩
  · rw [heq] at hf'
    exact h f' hf'
  · rw [hfacts] at hf'
    exact h f' hf'
  · rw [hfacts] at hf'
    rw [← Option.some.inj hf']
    exact (h f hf).recordFact hp hv
  · rw [hfacts] at hf'
    rw [← Option.some.inj hf']
    exact (h f hf).recordRetraction hx
  · rw [hfacts] at hf'
    rw [← Option.some.inj hf']
    exact (h f hf).commit

end UnifiedSemanticGraph

end Caap
