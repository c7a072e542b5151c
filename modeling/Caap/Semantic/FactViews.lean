/-
  Caap.Semantic.FactViews

  What a client of the fact store sees over whole runs of `add_fact`, `remove_fact`
  and `commit`:

    * the current view reads the last write, except for one kind of re-add
      (`readYourWrites_iff`);
    * versions below the current one are frozen, and `query` lists exactly the facts
      that `get_fact` finds (`committed_history_frozen`).
-/

import Caap.Semantic.FactGraph

namespace Caap

open Std Lib VersionedCell

/-- The calls that change a fact store. -/
inductive FactOp where
  | add (subject : SemanticSubjectId) (predicate : String) (value : SemanticValue)
  | remove (subject : SemanticSubjectId) (predicate : String)
  | commit

namespace SemanticGraph

/-- The store after one call, successful or not. -/
def step (g : SemanticGraph) : FactOp → SemanticGraph
  | .add s p v => settle g (g.addFact s p v)
  | .remove s p => settle g (g.removeFact s p)
  | .commit => settle g g.commit

variable {g : SemanticGraph}

/-- What one call can do to the store. -/
theorem step_cases (g : SemanticGraph) (op : FactOp) : g.step op = g ∨
    (∃ s p v, p ≠ "" ∧ v.Valid ∧ g.step op = (g.recordFact s p v).2) ∨
    (∃ s p x, (g.cell s p).visibleAt g.currentVersion = some x ∧
      g.step op = g.recordRetraction s p) ∨
    g.step op = { g with currentVersion := g.currentVersion + 1 } := by
  cases op with
  | add s p v =>
    rcases settle_cases g (g.addFact s p v) with hsame | ⟨r, hr, hnew⟩
    · exact .inl hsame
    · obtain ⟨hp, hv, rfl⟩ := addFact_eq_ok.mp hr
      exact .inr (.inl ⟨s, p, v, hp, hv, hnew⟩)
  | remove s p =>
    rcases settle_cases g (g.removeFact s p) with hsame | ⟨r, hr, hnew⟩
    · exact .inl hsame
    · rcases (removeFact_eq_ok.mp hr).2 with ⟨-, rfl⟩ | ⟨⟨x, hx⟩, rfl⟩
      · exact .inl hnew
      · exact .inr (.inr (.inl ⟨s, p, x, hx, hnew⟩))
  | commit =>
    rcases settle_cases g g.commit with hsame | ⟨r, hr, hnew⟩
    · exact .inl hsame
    · obtain ⟨-, rfl⟩ := commit_eq_ok.mp hr
      exact .inr (.inr (.inr hnew))

theorem WellFormed.step (h : g.WellFormed) (op : FactOp) : (g.step op).WellFormed := by
  rcases step_cases g op with heq | ⟨s, p, v, hp, hv, heq⟩ | ⟨s, p, x, hx, heq⟩ | heq
  · rw [heq]; exact h
  · rw [heq]; exact h.recordFact hp hv
  · rw [heq]; exact h.recordRetraction hx
  · rw [heq]; exact h.commit

/-- Every store reachable by calls is well formed. -/
theorem wellFormed_of_reachable (h : Reachable step new g) : g.WellFormed :=
  h.invariant wellFormed_new fun _ op hg => hg.step op

/-! ## Reading what was written -/

/-- Read-your-writes at one state and one (subject, predicate, value). -/
structure ReadYourWrites (g : SemanticGraph) (s : SemanticSubjectId) (p : String)
    (v : SemanticValue) : Prop where
  add_visible : ∀ r, g.addFact s p v = .ok r → r.2.getFact s p none = .ok (some v)
  add_frame : ∀ r, g.addFact s p v = .ok r → ∀ s' p', ¬ (s = s' ∧ p = p') →
    r.2.getFact s' p' none = g.getFact s' p' none
  remove_hidden : ∀ r, g.removeFact s p = .ok r → r.2.getFact s p none = .ok none
  remove_frame : ∀ r, g.removeFact s p = .ok r → ∀ s' p', ¬ (s = s' ∧ p = p') →
    r.2.getFact s' p' none = g.getFact s' p' none

/-- The re-add that the early-out of `add_fact` swallows: the last recorded value
    compares equal to `v`, the pair was not retracted in the current version, and yet
    `v` is not what is visible, because a tombstone of an earlier version still covers
    the last entry, or because the recorded value only compares equal to `v` (zeros of
    opposite sign). -/
def StaleReadd (g : SemanticGraph) (s : SemanticSubjectId) (p : String) (v : SemanticValue) :
    Prop :=
  ∃ ver w, (g.facts.listAt s p).getLast? = some (ver, w) ∧ (w == v) = true ∧
    (g.retractions.listAt s p).getLast? ≠ some g.currentVersion ∧
    (w ≠ v ∨ ∃ r, (g.retractions.listAt s p).getLast? = some r ∧ ver ≤ r)

section ReadBack

variable {s : SemanticSubjectId} {p : String} {v : SemanticValue}

variable {r : Bool × SemanticGraph}

theorem addFact_frame (hr : g.addFact s p v = .ok r)
    {s' : SemanticSubjectId} {p' : String} (hne : ¬ (s = s' ∧ p = p')) :
    r.2.getFact s' p' none = g.getFact s' p' none := by
  obtain ⟨-, -, rfl⟩ := addFact_eq_ok.mp hr
  exact getFact_none_congr (by rw [cell_recordFact, if_neg hne]) recordFact_currentVersion

theorem removeFact_frame (hr : g.removeFact s p = .ok r)
    {s' : SemanticSubjectId} {p' : String} (hne : ¬ (s = s' ∧ p = p')) :
    r.2.getFact s' p' none = g.getFact s' p' none := by
  rcases (removeFact_eq_ok.mp hr).2 with ⟨-, rfl⟩ | ⟨⟨x, hx⟩, rfl⟩
  · rfl
  · exact getFact_none_congr (by rw [cell_recordRetraction _ _ hx, if_neg hne]) rfl

theorem WellFormed.removeFact_hidden (h : g.WellFormed)
    (hr : g.removeFact s p = .ok r) : r.2.getFact s p none = .ok none := by
  obtain ⟨hp, hcases⟩ := removeFact_eq_ok.mp hr
  rw [getFact_eq hp, Option.getD_none]
  rcases hcases with ⟨hnone, rfl⟩ | ⟨⟨x, hx⟩, rfl⟩
  · rw [hnone]
  · rw [cell_recordRetraction _ _ hx, if_pos ⟨rfl, rfl⟩, recordRetraction_currentVersion,
      (h.cells s p).visibleAt_retract_now]

/-- A skipped write leaves its value visible unless the re-add is stale. -/
theorem WellFormed.visibleAt_of_skips (h : g.WellFormed)
    (hs : (g.cell s p).skipsPut g.currentVersion v = true) :
    (g.cell s p).visibleAt g.currentVersion = some v ↔ ¬ g.StaleReadd s p v := by
  simp only [skipsPut, Bool.and_eq_true, Bool.not_eq_true', Option.any_eq_true] at hs
  obtain ⟨hnr, ⟨ver, w⟩, hlast, hwv⟩ := hs
  have htomb : (g.retractions.listAt s p).getLast? ≠ some g.currentVersion := by
    intro heq
    exact Bool.noConfusion (hnr.symm.trans (retractedNow_iff.mpr heq))
  have hstale : g.StaleReadd s p v ↔
      (w ≠ v ∨ ∃ r, (g.retractions.listAt s p).getLast? = some r ∧ ver ≤ r) := by
    constructor
    · rintro ⟨ver', w', hlast', -, -, hcase⟩
      cases hlast.symm.trans hlast'
      exact hcase
    · exact fun hcase => ⟨ver, w, hlast, hwv, htomb, hcase⟩
  rw [hstale, (h.cells s p).visibleAt_now, hlast, Option.bind_some,
    uncovered_eq_some, not_or, not_not]
  simp only [not_exists, not_and, Nat.not_le]
  rfl

/-- After a successful `add_fact` the value is visible exactly when the re-add was
    not stale. -/
theorem WellFormed.addFact_visible_iff (h : g.WellFormed) (hp : p ≠ "") (hv : v.Valid) :
    (∀ r, g.addFact s p v = .ok r → r.2.getFact s p none = .ok (some v)) ↔
      ¬ g.StaleReadd s p v := by
  have hread : (∀ r, g.addFact s p v = .ok r → r.2.getFact s p none = .ok (some v)) ↔
      ((g.cell s p).put g.currentVersion v).2.visibleAt g.currentVersion = some v := by
    have hval : (g.recordFact s p v).2.getFact s p none
        = .ok (((g.cell s p).put g.currentVersion v).2.visibleAt g.currentVersion) := by
      rw [getFact_eq hp, cell_recordFact, if_pos ⟨rfl, rfl⟩, recordFact_currentVersion,
        Option.getD_none]
    constructor
    · intro hall
      have := hall _ (addFact_eq_ok.mpr ⟨hp, hv, rfl⟩)
      rw [hval] at this
      exact Except.ok.inj this
    · intro hvis r hr
      obtain ⟨-, -, rfl⟩ := addFact_eq_ok.mp hr
      rw [hval, hvis]
  rw [hread]
  cases hs : (g.cell s p).skipsPut g.currentVersion v with
  | true => rw [put_of_skips hs]; exact h.visibleAt_of_skips hs
  | false =>
    refine iff_of_true (visibleAt_put_now (h.cells s p) hs) ?_
    rintro ⟨ver, w, hlast, hwv, htomb, -⟩
    have hskip : (g.cell s p).skipsPut g.currentVersion v = true := by
      have hnr : (g.cell s p).retractedNow g.currentVersion = false := by
        rw [← Bool.not_eq_true, retractedNow_iff]
        exact htomb
      have hany : (g.cell s p).entries.getLast?.any (fun e => e.2 == v) = true := by
        rw [show (g.cell s p).entries.getLast? = some (ver, w) from hlast]
        exact hwv
      rw [skipsPut, hnr, hany]
      rfl
    exact Bool.noConfusion (hs.symm.trans hskip)

end ReadBack

/-- In every reachable store a write is read back, and touches nothing else, exactly
    when it is not a stale re-add. -/
theorem readYourWrites_iff {g : SemanticGraph} (hg : Reachable step new g)
    (s : SemanticSubjectId) (p : String) (v : SemanticValue) (hv : v.Valid) :
    g.ReadYourWrites s p v ↔ ¬ g.StaleReadd s p v := by
  have hwf := wellFormed_of_reachable hg
  by_cases hp : p = ""
  · subst hp
    -- every call with the empty predicate fails, and no history is stored under it
    have hstale : ¬ g.StaleReadd s "" v := by
      rintro ⟨ver, w, hlast, -⟩
      have hempty : g.facts.listAt s "" = [] := congrArg VersionedCell.entries (hwf.emptyPredicate s)
      rw [hempty] at hlast
      exact absurd hlast (by simp)
    refine iff_of_true ⟨?_, ?_, ?_, ?_⟩ hstale
    · exact fun r hr => absurd rfl (addFact_eq_ok.mp hr).1
    · exact fun r hr => absurd rfl (addFact_eq_ok.mp hr).1
    · exact fun r hr => absurd rfl (removeFact_eq_ok.mp hr).1
    · exact fun r hr => absurd rfl (removeFact_eq_ok.mp hr).1
  · rw [← hwf.addFact_visible_iff hp hv]
    constructor
    · exact fun h => h.add_visible
    · intro hadd
      exact
        { add_visible := hadd
          add_frame := fun r hr s' p' hne => addFact_frame hr hne
          remove_hidden := fun r hr => hwf.removeFact_hidden hr
          remove_frame := fun r hr s' p' hne => removeFact_frame hr hne }

/-- A fact retracted and re-added inside one version is read back. -/
theorem readYourWrites_same_version :
    (run step new [.add ⟨"node", "1"⟩ "type" (.int 7), .remove ⟨"node", "1"⟩ "type"]).ReadYourWrites
      ⟨"node", "1"⟩ "type" (.int 7) := by
  refine (readYourWrites_iff ⟨_, rfl⟩ ⟨"node", "1"⟩ "type" (.int 7) (by decide)).mpr ?_
  rintro ⟨ver, w, -, -, htomb, -⟩
  exact htomb rfl

/-- A fact retracted in a committed version and re-added with the same value stays
    invisible. -/
theorem readd_after_committed_retraction :
    ¬ (run step new [.add ⟨"node", "1"⟩ "type" (.int 7), .remove ⟨"node", "1"⟩ "type",
        .commit]).ReadYourWrites ⟨"node", "1"⟩ "type" (.int 7) := by
  intro h
  have hread := h.add_visible _ rfl
  have hnone : (run step new [.add ⟨"node", "1"⟩ "type" (.int 7), .remove ⟨"node", "1"⟩ "type",
      .commit]).getFact ⟨"node", "1"⟩ "type" none = .ok none := rfl
  exact absurd (Except.ok.inj (hnone.symm.trans hread)) (by simp)

/-! ## Frozen history -/

theorem currentVersion_le_step (g : SemanticGraph) (op : FactOp) :
    g.currentVersion ≤ (g.step op).currentVersion := by
  rcases step_cases g op with heq | ⟨s, p, v, -, -, heq⟩ | ⟨s, p, x, -, heq⟩ | heq
  · rw [heq]
  · rw [heq, recordFact_currentVersion]
  · rw [heq, recordRetraction_currentVersion]
  · rw [heq]; exact Nat.le_succ _

/-- One call changes no cell's answer at a version below the current one. -/
theorem WellFormed.visibleAt_step_of_lt (h : g.WellFormed) (op : FactOp) {V : Nat}
    (hV : V < g.currentVersion) (s' : SemanticSubjectId) (p' : String) :
    ((g.step op).cell s' p').visibleAt V = (g.cell s' p').visibleAt V := by
  rcases step_cases g op with heq | ⟨s, p, v, -, -, heq⟩ | ⟨s, p, x, hx, heq⟩ | heq
  · rw [heq]
  · rw [heq, cell_recordFact]
    split
    · next hk =>
        rw [visibleAt_put_of_lt hV, hk.1, hk.2]
    · rfl
  · rw [heq, cell_recordRetraction _ _ hx]
    split
    · next hk =>
        rw [(h.cells s p).visibleAt_retract_of_lt hV, hk.1, hk.2]
    · rfl
  · rw [heq]; rfl

theorem WellFormed.visibleAt_run_of_lt (h : g.WellFormed) (ops : List FactOp) {V : Nat}
    (hV : V < g.currentVersion) (s : SemanticSubjectId) (p : String) :
    ((run SemanticGraph.step g ops).cell s p).visibleAt V = (g.cell s p).visibleAt V := by
  induction ops generalizing g with
  | nil => rfl
  | cons op ops ih =>
    rw [run_cons, ih (h.step op) (hV.trans_le (currentVersion_le_step g op)),
      h.visibleAt_step_of_lt op hV]

/-! ## Queries -/

/-- `query` returns one triple for each matching pair visible at `V`, and no other. -/
def QueryExact (g : SemanticGraph) (subject : Option SemanticSubjectId) (predicate : Option String)
    (V : Nat) : Prop :=
  ∃ l, g.query subject predicate (some V) = .ok l ∧ (l.map fun t => (t.1, t.2.1)).Nodup ∧
    ∀ s p v, (s, p, v) ∈ l ↔
      (subject = none ∨ subject = some s) ∧ (predicate = none ∨ predicate = some p) ∧
        g.getFact s p (some V) = .ok (some v)

/-- The row `query` emits for one stored history. -/
def queryRow (g : SemanticGraph) (subject : Option SemanticSubjectId) (predicate : Option String)
    (V : Nat) (e : (SemanticSubjectId × String) × FactHistory) :
    Option (SemanticSubjectId × String × SemanticValue) :=
  if subject.any (fun wanted => wanted != e.1.1) ∨ predicate.any (fun wanted => wanted != e.1.2)
  then none
  else ((g.cell e.1.1 e.1.2).visibleAt V).map fun v => (e.1.1, e.1.2, v)

variable {subject : Option SemanticSubjectId} {predicate : Option String}

theorem queryRow_eq_some {V : Nat} {e : (SemanticSubjectId × String) × FactHistory}
    {t : SemanticSubjectId × String × SemanticValue} : g.queryRow subject predicate V e = some t ↔
      (subject = none ∨ subject = some e.1.1) ∧ (predicate = none ∨ predicate = some e.1.2) ∧
        ∃ v, (g.cell e.1.1 e.1.2).visibleAt V = some v ∧ t = (e.1.1, e.1.2, v) := by
  have hany : ∀ {α : Type} [DecidableEq α] (o : Option α) (a : α),
      o.any (fun wanted => wanted != a) = true ↔ ¬ (o = none ∨ o = some a) := by
    intro α _ o a
    cases o <;> simp
  simp only [queryRow, hany]
  by_cases hs : subject = none ∨ subject = some e.1.1
  · by_cases hpr : predicate = none ∨ predicate = some e.1.2
    · simp only [hs, hpr, not_true, or_self, if_false, true_and, Option.map_eq_some_iff,
        @eq_comm _ t]
    · simp only [hpr, not_false_eq_true, or_true, if_true, false_and, and_false, reduceCtorEq]
  · simp only [hs, not_false_eq_true, true_or, if_true, false_and, reduceCtorEq]

/-- `query` filters the stored histories row by row. -/
theorem query_eq (hp : predicate ≠ some "") (V : Nat) : g.query subject predicate (some V)
      = .ok (g.facts.entries.filterMap (g.queryRow subject predicate V)) := by
  simp only [query, if_neg hp, Option.getD_some, NestedMap.entries, List.filterMap_flatMap,
    List.filterMap_map]
  congr 1
  refine List.flatMap_congr ?_
  rintro ⟨s, inner⟩ hmem
  have hinner := OrdMap.mem_toList.mp hmem
  cases hs : subject.any (fun wanted => wanted != s) with
  | true =>
    simp only [if_true]
    symm
    rw [List.filterMap_eq_nil_iff]
    simp [queryRow, hs]
  | false =>
    refine List.filterMap_congr ?_
    rintro ⟨p, history⟩ hmem'
    -- the row's history is the one the cell view reads
    have hcell : (g.cell s p).entries = history := by
      show (g.facts.get2 s p).getD [] = history
      rw [NestedMap.get2, hinner, Option.bind_some, OrdMap.mem_toList.mp hmem']
      rfl
    cases hpr : predicate.any (fun wanted => wanted != p) with
    | true => simp [queryRow, hpr]
    | false =>
      simp only [queryRow, hs, hpr, Function.comp, Bool.false_eq_true, or_self, if_false,
        latestRetractionAtOrBefore_eq, latestEntryAtOrBefore, visibleAt, hcell]
      cases latestAtOrBefore Prod.fst history V with
      | none => rfl
      | some e =>
        cases latestAtOrBefore id (g.cell s p).tombs V with
        | none => rfl
        | some r => by_cases hle : e.1 ≤ r <;> simp [uncovered, hle]

theorem WellFormed.queryExact (h : g.WellFormed) (hp : predicate ≠ some "") (V : Nat) :
    g.QueryExact subject predicate V := by
  refine ⟨_, query_eq hp V, ?_, ?_⟩
  · -- a row carries the pair of keys of its entry
    have hsub : ((g.facts.entries.filterMap (g.queryRow subject predicate V)).map
        fun t => (t.1, t.2.1)).Sublist (g.facts.entries.map Prod.fst) := by
      induction g.facts.entries with
      | nil => exact List.Sublist.slnil
      | cons e l ih =>
        rw [List.filterMap_cons, List.map_cons]
        cases hrow : g.queryRow subject predicate V e with
        | none => exact ih.cons _
        | some t =>
          obtain ⟨-, -, v, -, rfl⟩ := queryRow_eq_some.mp hrow
          exact ih.cons_cons _
    exact hsub.nodup g.facts.nodup_entries_keys
  · intro s p v
    rw [List.mem_filterMap]
    constructor
    · rintro ⟨e, -, hrow⟩
      obtain ⟨hs, hpr, w, hw, heq⟩ := queryRow_eq_some.mp hrow
      obtain ⟨rfl, rfl, rfl⟩ := by simpa using heq
      refine ⟨hs, hpr, ?_⟩
      have hne : e.1.2 ≠ "" := by
        intro hempty
        rw [hempty, h.emptyPredicate, visibleAt_empty] at hw
        exact absurd hw (by simp)
      rw [getFact_eq hne, Option.getD_some, hw]
    · rintro ⟨hs, hpr, hget⟩
      have hne : p ≠ "" := by
        rintro rfl
        exact absurd hget (by simp)
      rw [getFact_eq hne, Option.getD_some] at hget
      have hvis := Except.ok.inj hget
      -- a visible fact has a stored history
      cases hst : g.facts.get2 s p with
      | none =>
        have hempty : (g.cell s p).entries = [] := by
          show (g.facts.get2 s p).getD [] = []
          rw [hst]
          rfl
        rw [visibleAt, hempty] at hvis
        exact absurd hvis (by simp [latestAtOrBefore, partitionPoint])
      | some history =>
        exact ⟨((s, p), history), NestedMap.mem_entries.mpr hst,
          queryRow_eq_some.mpr ⟨hs, hpr, v, hvis, rfl⟩⟩

/-- In every run, the answers at versions below the current one never change again,
    and at every version `query` lists exactly what `get_fact` finds (both refuse the
    empty predicate). -/
theorem committed_history_frozen (before after : List FactOp) :
    (∀ V, V < (run step new before).currentVersion → ∀ s p,
      (run step (run step new before) after).getFact s p (some V)
        = (run step new before).getFact s p (some V)) ∧
    (∀ subject predicate V, predicate ≠ some "" →
      (run step new before).QueryExact subject predicate V) ∧ (∀ subject V s,
      (run step new before).query subject (some "") (some V) = .error emptyPredicateError ∧
      (run step new before).getFact s "" (some V) = .error emptyPredicateError) := by
  have hwf : (run step new before).WellFormed := wellFormed_of_reachable ⟨before, rfl⟩
  refine ⟨?_, fun subject predicate V hp => hwf.queryExact hp V, fun _ _ _ => ⟨rfl, rfl⟩⟩
  intro V hV s p
  by_cases hp : p = ""
  · subst hp; rfl
  · rw [getFact_eq hp, getFact_eq hp, Option.getD_some, Option.getD_some,
      hwf.visibleAt_run_of_lt after hV]

/-- The answers at version 0 of a committed store outlive an overwrite and a
    retraction. -/
theorem committed_history_frozen_overwrite :
    (run step (run step new [.add ⟨"node", "1"⟩ "type" (.int 7), .commit])
      [.add ⟨"node", "1"⟩ "type" (.int 8), .remove ⟨"node", "1"⟩ "type"]).getFact
        ⟨"node", "1"⟩ "type" (some 0) = .ok (some (.int 7)) :=
  ((committed_history_frozen [.add ⟨"node", "1"⟩ "type" (.int 7), .commit]
    [.add ⟨"node", "1"⟩ "type" (.int 8), .remove ⟨"node", "1"⟩ "type"]).1 0 (by decide)
      ⟨"node", "1"⟩ "type").trans rfl

end SemanticGraph

end Caap
