/-
  Caap.Semantic.Generations

  Cell generations as change counters.  A run of a unified graph keeps its
  transactions and every state it went through (`GraphHistory`), so that "two moments
  of the run" is a statement about one state.  The counters are sound in every run
  whose steps meet `SoundStep`: no `rollback_facts_for_subject` deletes a fact under a
  cell it does not bump, and no cell is handed a generation that it already carried
  (which a rolled-back transaction makes possible by rewinding the supply).
-/

import Caap.Semantic.UnifiedOps

namespace Caap

open Std Lib UnifiedSemanticGraph SemanticGraph List Option

variable {s : SemanticSubjectId} {p : String}

namespace UnifiedSemanticGraph

variable {g g' : UnifiedSemanticGraph}

theorem rollbackFactsForSubject_cases {r : Bool × UnifiedSemanticGraph}
    (h : g.rollbackFactsForSubject s = .ok r) :
    r.2 = g ∨ ∃ f, g.facts = some f ∧ (f.facts[s]?).isSome = true ∧
      Bumped g r.2 (cellKey s "_rollback") ∧ r.2.facts = some (f.rollbackSubject s).2 := by
  simp only [rollbackFactsForSubject, bind_eq_ok, factStore_eq_ok] at h
  obtain ⟨f, hf, h⟩ := h
  refine (unchanged_or h).imp_right ?_
  rintro ⟨hsome, h⟩
  obtain ⟨w, hw, hr⟩ := bind_eq_ok.mp h
  refine ⟨f, hf, ?_, ?_, ?_⟩
  · cases hs : f.facts[s]? with
    | none => exact absurd (by rw [hs]; rfl) hsome
    | some inner => rfl
  · rw [← Except.ok.inj hr]
    exact .of_fact hw rfl
  · rw [← Except.ok.inj hr]

/-- A fact store with the same version answers alike wherever its cells agree. -/
theorem getFact_frame {f f' : SemanticGraph} (hf : g.facts = some f) (hf' : g'.facts = some f')
    (hver : f'.currentVersion = f.currentVersion) (hcell : f'.cell s p = f.cell s p) :
    g'.getFact s p = g.getFact s p := by
  rw [getFact_of_facts hf, getFact_of_facts hf']
  exact getFact_none_congr hcell hver

theorem getFact_of_same_store (h : g'.facts = g.facts) (s : SemanticSubjectId) (p : String) :
    g'.getFact s p = g.getFact s p := by
  rw [getFact, getFact, factStore, factStore, h]

/-- A commit does not change the current view. -/
theorem getFact_commit {f : SemanticGraph} (hwf : f.WellFormed) (hf : g.facts = some f)
    (hf' : g'.facts = some { f with currentVersion := f.currentVersion + 1 })
    (s : SemanticSubjectId) (p : String) : g'.getFact s p = g.getFact s p := by
  rw [getFact_of_facts hf, getFact_of_facts hf']
  by_cases hp : p = ""
  · subst hp; rfl
  · rw [getFact_eq hp, getFact_eq hp, getD_none, getD_none]
    congr 1
    exact (hwf.cells s p).visibleAt_of_le (Nat.le_succ _)

/-- A forward write changes no fact outside the cell it bumps. -/
theorem step_frame (hwf : g.FactsWellFormed) {op : SemanticOp} :
    (g.step op).cellGenerations = g.cellGenerations ∧
      (∀ s p, (g.step op).getFact s p = g.getFact s p) ∨
    ∃ K, g.pendingBump op = some K ∧ Bumped g (g.step op) K ∧
      ∀ s p, cellKey s p ≠ K → (g.step op).getFact s p = g.getFact s p := by
  rcases step_cases g op with heq | ⟨K, hpend, hb, hfacts⟩ |
    ⟨f, s, p, v, hf, -, -, hpend, hb, hfacts⟩ | ⟨f, s, p, x, hf, -, hx, hpend, hb, hfacts⟩ |
    ⟨f, hf, hgens, hfacts⟩
  · exact .inl ⟨by rw [heq], fun s p => by rw [heq]⟩
  · exact .inr ⟨K, hpend, hb, fun s p _ => getFact_of_same_store hfacts s p⟩
  · refine .inr ⟨_, hpend, hb, fun s' p' hne => ?_⟩
    have hk : ¬ (s = s' ∧ p = p') := fun hk => hne (by rw [hk.1, hk.2])
    refine getFact_frame hf hfacts recordFact_currentVersion ?_
    rw [cell_recordFact, if_neg hk]
  · refine .inr ⟨_, hpend, hb, fun s' p' hne => ?_⟩
    have hk : ¬ (s = s' ∧ p = p') := fun hk => hne (by rw [hk.1, hk.2])
    refine getFact_frame hf hfacts rfl ?_
    rw [cell_recordRetraction _ _ hx, if_neg hk]
  · exact .inl ⟨hgens, getFact_commit (hwf f hf) hf hfacts⟩

/-- A subject rollback hides the subject's facts and leaves the others alone. -/
theorem getFact_rollbackSubject {f : SemanticGraph}
    (hf : g.facts = some f) (hf' : g'.facts = some (f.rollbackSubject s).2) {s' : SemanticSubjectId}
    (hvis : s = s' → ¬ ∃ v, g.getFact s' p = .ok (some v)) : g'.getFact s' p = g.getFact s' p := by
  by_cases hp : p = ""
  · subst hp
    rw [getFact_of_facts hf, getFact_of_facts hf']
    rfl
  by_cases hs : s = s'
  · -- nothing of the subject was visible under `p`, and nothing is afterwards
    have hnone : (f.cell s' p).visibleAt f.currentVersion = none := by
      cases hx : (f.cell s' p).visibleAt f.currentVersion with
      | none => rfl
      | some x =>
        refine absurd ⟨x, ?_⟩ (hvis hs)
        rw [getFact_of_facts hf, getFact_eq hp, getD_none, hx]
    rw [getFact_of_facts hf, getFact_of_facts hf', getFact_eq hp,
      getFact_eq hp, getD_none, getD_none, hnone,
      cell_rollbackSubject, if_pos hs]
    rfl
  · refine getFact_frame hf hf' rfl ?_
    rw [cell_rollbackSubject, if_neg hs]

end UnifiedSemanticGraph

/-! ## Runs with transactions -/

/-- The operations of a run. Transactions are referred to by the order they were begun
    in; a transaction value can be cloned, so it can be used more than once. -/
inductive GraphOp where
  | write (op : SemanticOp)
  | rollbackFactsForSubject (subject : SemanticSubjectId)
  | beginTransaction
  | rollbackTransaction (index : Nat)
  | commitTransaction (index : Nat)

/-- A graph with the transactions begun on it and all states it went through. -/
structure GraphHistory where
  graph : UnifiedSemanticGraph
  transactions : List UnifiedSemanticGraphSnapshot
  moments : List UnifiedSemanticGraph

namespace GraphHistory

/-- The history of a fresh graph. -/
def start (includeFacts : Bool) : GraphHistory :=
  { graph := UnifiedSemanticGraph.withFacts includeFacts
    transactions := []
    moments := [UnifiedSemanticGraph.withFacts includeFacts] }

/-- The graph after one operation, successful or not. -/
def next (h : GraphHistory) : GraphOp → UnifiedSemanticGraph
  | .write op => h.graph.step op
  | .rollbackFactsForSubject s => settle h.graph (h.graph.rollbackFactsForSubject s)
  | .beginTransaction => h.graph
  | .rollbackTransaction i =>
    (h.transactions[i]?).elim h.graph fun t =>
      settle h.graph (UnifiedSemanticGraph.rollbackTransaction t)
  | .commitTransaction i =>
    (h.transactions[i]?).elim h.graph fun _ => settle h.graph h.graph.commitTransaction

/-- The transactions after one operation. -/
def nextTransactions (h : GraphHistory) : GraphOp → List UnifiedSemanticGraphSnapshot
  | .beginTransaction => h.transactions ++ [h.graph.beginTransaction]
  | _ => h.transactions

/-- One operation of a run. -/
def step (h : GraphHistory) (op : GraphOp) : GraphHistory :=
  { graph := h.next op
    transactions := h.nextTransactions op
    moments := h.moments ++ [h.next op] }

/-- The key of the cell an operation is about to bump. -/
def pendingBump (h : GraphHistory) : GraphOp → Option String
  | .write op => h.graph.pendingBump op
  | .rollbackFactsForSubject s =>
    if h.graph.facts.any (fun f => (f.facts[s]?).isSome) then some (cellKey s "_rollback") else none
  | _ => none

/-- What a step must meet for the counters to stay sound. -/
def SoundStep (h : GraphHistory) (op : GraphOp) : Prop :=
  (∀ s, op = .rollbackFactsForSubject s →
    ∀ p, p ≠ "_rollback" → ¬ ∃ v, h.graph.getFact s p = .ok (some v)) ∧
  (∀ K, h.pendingBump op = some K → ∀ m ∈ h.moments,
    m.cellGenerations[K]? ≠ some (max h.graph.nextCellGeneration 1))

/-- Equal generations of a cell mean equal facts, at any two moments of the run. -/
def CountersSound (h : GraphHistory) : Prop :=
  ∀ m₁ ∈ h.moments, ∀ m₂ ∈ h.moments, ∀ s p,
    m₁.cellGeneration s p = m₂.cellGeneration s p → m₁.getFact s p = m₂.getFact s p

/-- What every run keeps: a well-formed fact store, and transactions that are snapshots of
    earlier moments with one. -/
structure WellFormed (h : GraphHistory) : Prop where
  graph : h.graph.FactsWellFormed
  current : h.graph ∈ h.moments
  transactions : ∀ t ∈ h.transactions, ∃ m ∈ h.moments, m.FactsWellFormed ∧ t = m.snapshot

variable {h : GraphHistory} {op : GraphOp}

/-- A graph that agrees with a moment of the run on generations and facts. -/
def Revisits (h : GraphHistory) (g : UnifiedSemanticGraph) : Prop :=
  ∃ m ∈ h.moments, g.cellGenerations = m.cellGenerations ∧ ∀ s p, g.getFact s p = m.getFact s p

/-- A graph that bumped one cell and changed no fact of another. -/
def Advances (h : GraphHistory) (op : GraphOp) (g : UnifiedSemanticGraph) : Prop :=
  ∃ K, h.pendingBump op = some K ∧ UnifiedSemanticGraph.Bumped h.graph g K ∧
    ∀ s p, cellKey s p ≠ K → g.getFact s p = h.graph.getFact s p

/-- A graph that dropped all facts of a subject and bumped its rollback cell only. -/
def DropsSubject (h : GraphHistory) (op : GraphOp) (g : UnifiedSemanticGraph) : Prop :=
  ∃ s f, op = .rollbackFactsForSubject s ∧ h.graph.facts = some f ∧
    h.pendingBump op = some (cellKey s "_rollback") ∧
    UnifiedSemanticGraph.Bumped h.graph g (cellKey s "_rollback") ∧
    g.facts = some (f.rollbackSubject s).2

/-- What one operation can do. -/
theorem next_cases (hw : h.WellFormed) {op : GraphOp} : (h.next op).FactsWellFormed ∧
      (h.Revisits (h.next op) ∨ h.Advances op (h.next op) ∨ h.DropsSubject op (h.next op)) := by
  have hstay : h.graph.FactsWellFormed ∧
      (h.Revisits h.graph ∨ h.Advances op h.graph ∨ h.DropsSubject op h.graph) :=
    ⟨hw.graph, .inl ⟨h.graph, hw.current, rfl, fun _ _ => rfl⟩⟩
  cases op with
  | write op =>
    refine ⟨hw.graph.step op, ?_⟩
    rcases step_frame hw.graph with ⟨hgens, hfacts⟩ | hadv
    · exact .inl ⟨h.graph, hw.current, hgens, hfacts⟩
    · exact .inr (.inl hadv)
  | rollbackFactsForSubject s =>
    rcases settle_cases h.graph (h.graph.rollbackFactsForSubject s) with hsame | ⟨r, hr, hnew⟩
    · rw [next, hsame]; exact hstay
    rcases rollbackFactsForSubject_cases hr with heq | ⟨f, hf, hsub, hb, hnf⟩
    · rw [next, hnew, heq]; exact hstay
    rw [next, hnew]
    have hwf : r.2.FactsWellFormed := by
      intro f' hf'
      rw [hnf] at hf'
      rw [← some.inj hf']
      exact (hw.graph f hf).rollbackSubject s
    have hpend : h.pendingBump (.rollbackFactsForSubject s) = some (cellKey s "_rollback") := by
      rw [pendingBump, hf]
      exact if_pos hsub
    exact ⟨hwf, .inr (.inr ⟨s, f, rfl, hf, hpend, hb, hnf⟩)⟩
  | beginTransaction => exact hstay
  | rollbackTransaction i =>
    cases ht : h.transactions[i]? with
    | none => rw [next, ht]; exact hstay
    | some t =>
      rw [next, ht, elim_some]
      rcases settle_cases h.graph (rollbackTransaction t)
        with hsame | ⟨r, hr, hnew⟩
      · rw [hsame]; exact hstay
      obtain ⟨m, hm, hmwf, rfl⟩ := hw.transactions t (mem_of_getElem? ht)
      rw [rollbackTransaction, bind_eq_ok] at hr
      obtain ⟨g', hg', hr⟩ := hr
      have hrest := restored_of_restoreSnapshot hmwf hg'
      rw [hnew, ← Except.ok.inj hr]
      refine ⟨hmwf.of_sameFacts hrest.facts, .inl ⟨m, hm, hrest.cellGenerations, ?_⟩⟩
      exact getFact_eq_of_sameFacts hrest.facts
  | commitTransaction i =>
    cases ht : h.transactions[i]? with
    | none => rw [next, ht]; exact hstay
    | some t =>
      rw [next, ht, elim_some]
      rcases settle_cases h.graph h.graph.commitTransaction with hsame | ⟨r, hr, hnew⟩
      · rw [hsame]; exact hstay
      rw [commitTransaction, bind_eq_ok] at hr
      obtain ⟨v, -, hr⟩ := hr
      rw [hnew, ← Except.ok.inj hr]
      exact ⟨hw.graph, .inl ⟨h.graph, hw.current, rfl, fun _ _ => rfl⟩⟩

theorem WellFormed.step (hw : h.WellFormed) (op : GraphOp) : (h.step op).WellFormed where
  graph := (next_cases hw).1
  current := mem_append_right _ (mem_singleton_self _)
  transactions := by
    have hold : ∀ t ∈ h.transactions,
        ∃ m ∈ h.moments ++ [h.next op], m.FactsWellFormed ∧ t = m.snapshot := by
      intro t ht
      obtain ⟨m, hm, hrest⟩ := hw.transactions t ht
      exact ⟨m, mem_append_left _ hm, hrest⟩
    intro t ht
    cases op with
    | beginTransaction =>
      rcases mem_append.mp ht with ht | ht
      · exact hold t ht
      · refine ⟨h.graph, mem_append_left _ hw.current, hw.graph, ?_⟩
        exact mem_singleton.mp ht
    | write _ | rollbackFactsForSubject _ | rollbackTransaction _ | commitTransaction _ =>
      exact hold t ht

variable {includeFacts : Bool}

theorem wellFormed_start : (start includeFacts).WellFormed where
  graph := by
    intro f hf
    cases includeFacts with
    | true =>
      rw [← some.inj (show some SemanticGraph.new = some f from hf)]
      exact wellFormed_new
    | false => exact absurd (show (none : Option SemanticGraph) = some f from hf) (by simp)
  current := mem_singleton_self _
  transactions := fun t ht => absurd ht not_mem_nil

theorem wellFormed_run (includeFacts : Bool) (ops : List GraphOp) :
    (run step (start includeFacts) ops).WellFormed :=
  run_invariant (fun _ op hw => hw.step op) wellFormed_start ops

/-! ## Sound runs -/

/-- A sound step that drops a subject's facts changes no fact of another cell. -/
theorem DropsSubject.advances {g : UnifiedSemanticGraph} (hd : h.DropsSubject op g)
    (hs : h.SoundStep op) : h.Advances op g := by
  obtain ⟨s, f, rfl, hf, hpend, hb, hnf⟩ := hd
  refine ⟨_, hpend, hb, fun s' p hne => ?_⟩
  refine getFact_rollbackSubject hf hnf ?_
  intro hss
  subst hss
  exact hs.1 s rfl p (fun hp => hne (by rw [hp]))

/-- What a sound run keeps. -/
structure Invariant (h : GraphHistory) : Prop where
  wellFormed : h.WellFormed
  sound : h.CountersSound

/-- Against every moment so far, the graph after a sound step is sound. -/
theorem sound_next (hI : h.Invariant) (hs : h.SoundStep op) {m : UnifiedSemanticGraph}
    (hm : m ∈ h.moments) (heq : m.cellGeneration s p = (h.next op).cellGeneration s p) :
    m.getFact s p = (h.next op).getFact s p := by
  have hcases : h.Revisits (h.next op) ∨ h.Advances op (h.next op) := by
    rcases (next_cases hI.wellFormed).2 with hrev | hadv | hdrop
    · exact .inl hrev
    · exact .inr hadv
    · exact .inr (hdrop.advances hs)
  rcases hcases with ⟨m', hm', hgens, hfacts⟩ | ⟨K, hpend, hb, hframe⟩
  · rw [hfacts]
    refine hI.sound m hm m' hm' s p ?_
    rw [heq, cellGeneration, cellGeneration, hgens]
  · rw [cellGeneration, cellGeneration, hb,
      OrdMap.lookup_insert] at heq
    by_cases hk : K = cellKey s p
    · -- the generation is new to the cell, so no earlier moment carries it
      rw [if_pos hk, ← hk] at heq
      exact absurd heq (hs.2 K hpend m hm)
    · rw [if_neg hk] at heq
      rw [hframe s p (Ne.symm hk)]
      exact hI.sound m hm h.graph hI.wellFormed.current s p heq

theorem Invariant.step (hI : h.Invariant) (hs : h.SoundStep op) : (h.step op).Invariant where
  wellFormed := hI.wellFormed.step op
  sound := by
    intro m₁ h₁ m₂ h₂ s p heq
    rcases mem_append.mp h₁ with h₁ | h₁ <;> rcases mem_append.mp h₂ with h₂ | h₂
    · exact hI.sound m₁ h₁ m₂ h₂ s p heq
    · rw [mem_singleton.mp h₂] at heq ⊢
      exact sound_next hI hs h₁ heq
    · rw [mem_singleton.mp h₁] at heq ⊢
      exact (sound_next hI hs h₂ heq.symm).symm
    · rw [mem_singleton.mp h₁, mem_singleton.mp h₂]

theorem invariant_start : (start includeFacts).Invariant where
  wellFormed := wellFormed_start
  sound := by
    intro m₁ h₁ m₂ h₂ s p _
    rw [mem_singleton.mp h₁, mem_singleton.mp h₂]

/-- The moments of a run include those of its prefixes. -/
theorem moments_subset {pre post : List GraphOp} : (run step (start includeFacts) pre).moments
      ⊆ (run step (start includeFacts) (pre ++ post)).moments := by
  intro m hm
  rw [run_append]
  refine run_invariant (P := fun h : GraphHistory => m ∈ h.moments) ?_ hm post
  exact fun h op hm => mem_append_left _ hm

/-- Sound counters compare the graph after a prefix of the run with the graph at its
    end. -/
theorem CountersSound.at_end {pre post : List GraphOp}
    (h : (run step (start includeFacts) (pre ++ post)).CountersSound) (s : SemanticSubjectId)
    (p : String) (heq : (run step (start includeFacts) pre).graph.cellGeneration s p
      = (run step (start includeFacts) (pre ++ post)).graph.cellGeneration s p) :
    (run step (start includeFacts) pre).graph.getFact s p
      = (run step (start includeFacts) (pre ++ post)).graph.getFact s p :=
  h _ (moments_subset (wellFormed_run includeFacts pre).current)
    _ (wellFormed_run includeFacts (pre ++ post)).current s p heq

/-- In every run whose steps are sound, a cell that carries the same generation at two
    moments holds the same fact at both. -/
theorem cellGeneration_sound (includeFacts : Bool) (ops : List GraphOp)
    (hops : Guarded SoundStep step (start includeFacts) ops) :
    (run step (start includeFacts) ops).CountersSound :=
  (hops.invariant (fun _ _ hI hs => hI.step hs) invariant_start).sound

/-- A transaction that writes one fact and is rolled back. -/
def rolledBackWrite : List GraphOp :=
  [.beginTransaction, .write (.setFact ⟨"node", "1"⟩ "type" (.int 7)), .rollbackTransaction 0]

theorem cellGeneration_sound_rolledBackWrite :
    (run step (start true) rolledBackWrite).CountersSound := by
  refine cellGeneration_sound true rolledBackWrite ⟨⟨?_, ?_⟩, ⟨?_, ?_⟩, ⟨?_, ?_⟩, trivial⟩
  · exact fun s hs => nomatch hs
  · exact fun K hK => nomatch hK
  · exact fun s hs => nomatch hs
  · intro K hK m hm
    -- the cell carried no generation before
    have hKey : "node:1:type" = K := Option.some.inj hK
    subst hKey
    have hm' : m = UnifiedSemanticGraph.withFacts true := by
      rcases List.mem_cons.mp hm with hm | hm
      · exact hm
      · exact List.mem_singleton.mp hm
    rw [hm']
    decide
  · exact fun s hs => nomatch hs
  · exact fun K hK => nomatch hK

/-- Deleting a subject's facts keeps their generations, and a generation handed out in a
    rolled-back transaction is handed out again. -/
theorem cellGeneration_unsound : ¬ (run step (start true)
    ([.write (.setFact ⟨"node", "1"⟩ "type" (.int 7))] ++
          [.rollbackFactsForSubject ⟨"node", "1"⟩])).CountersSound ∧ ¬ (run step (start true)
        ([.beginTransaction, .write (.setFact ⟨"node", "1"⟩ "type" (.int 7))] ++
          [.rollbackTransaction 0, .write (.setFact ⟨"node", "1"⟩ "type" (.int 8))])).CountersSound := by
  refine ⟨fun h => ?_, fun h => ?_⟩
  · have hread := h.at_end ⟨"node", "1"⟩ "type"
      (Eq.trans (b := some 1) (by decide) (by decide))
    exact absurd (Except.ok.inj (show Except.ok (some (SemanticValue.int 7)) = .ok none from hread))
      (by simp)
  · have hread := h.at_end ⟨"node", "1"⟩ "type"
      (Eq.trans (b := some 1) (by decide) (by decide))
    exact absurd
      (Except.ok.inj
        (show Except.ok (some (SemanticValue.int 7)) = .ok (some (.int 8)) from hread)) (by simp)

end GraphHistory

end Caap
