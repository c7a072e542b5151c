/-
  Caap.Semantic.FactGraph

  The versioned fact store (`SemanticGraph` of `semantic/graph.rs`).

  Facts and retraction tombstones live in two two-level maps, subject → predicate →
  history.  Seen from one (subject, predicate) pair the store is a `VersionedCell`;
  `cell` is that view, each operation is characterised once by what it does to the
  cells (`cell_recordFact`, `cell_recordRetraction`, …), and everything else about
  the store is derived from those lemmas and the cell library.

  Operations that check before they write return the new graph inside the result, so
  a failed call leaves the caller's graph as it was.
-/

import Caap.Lib.VersionedCell
import Caap.Semantic.Value

namespace Caap

open Std Lib VersionedCell NestedMap

/-- `checked_generation_increment`. -/
def checkedGenerationIncrement (value : Nat) (label : String) : CaapResult Nat :=
  if value + 1 < u64Size then .ok (value + 1) else .error (.semantic (label ++ " overflow"))

theorem checkedGenerationIncrement_eq_ok {value n : Nat} {label : String} :
    checkedGenerationIncrement value label = .ok n ↔ value + 1 < u64Size ∧ n = value + 1 := by
  unfold checkedGenerationIncrement
  by_cases h : value + 1 < u64Size
  · rw [if_pos h]
    exact ⟨fun he => ⟨h, (Except.ok.inj he).symm⟩, fun he => by rw [he.2]⟩
  · rw [if_neg h]
    exact ⟨fun he => (nomatch he), fun he => absurd he.1 h⟩

/-- A fact history: versions with the value recorded at them. -/
abbrev FactHistory := List (Nat × SemanticValue)

/-- `SemanticGraph`. -/
@[ext] structure SemanticGraph where
  currentVersion : Nat
  facts : NestedMap SemanticSubjectId String FactHistory
  retractions : NestedMap SemanticSubjectId String (List Nat)

/-- `SemanticGraphSnapshot`. -/
structure SemanticGraphSnapshot where
  triples : List (Nat × SemanticSubjectId × String × SemanticValue)
  retractions : List (Nat × SemanticSubjectId × String)
  currentVersion : Nat

/-- The error every operation raises for an empty predicate. -/
def emptyPredicateError : CaapError := .semantic "semantic graph predicate must be non-empty"

/-- `latest_entry_at_or_before`. -/
def latestEntryAtOrBefore (history : FactHistory) (version : Nat) : Option (Nat × SemanticValue) :=
  latestAtOrBefore Prod.fst history version

namespace SemanticGraph

/-- `SemanticGraph::new`. -/
def new : SemanticGraph := { currentVersion := 0, facts := ∅, retractions := ∅ }

/-! ## Reads -/

/-- `latest_retraction_at_or_before`. -/
def latestRetractionAtOrBefore (g : SemanticGraph) (subject : SemanticSubjectId)
    (predicate : String) (version : Nat) : Option Nat :=
  (g.retractions.get2 subject predicate).bind fun versions => latestAtOrBefore id versions version

/-- `get_fact`. -/
def getFact (g : SemanticGraph) (subject : SemanticSubjectId) (predicate : String)
    (version : Option Nat) : CaapResult (Option SemanticValue) :=
  if predicate = "" then .error emptyPredicateError
  else
    let version := version.getD g.currentVersion
    let latest := (g.facts.get2 subject predicate).bind fun history =>
      latestEntryAtOrBefore history version
    .ok (latest.bind fun (factVersion, value) =>
      match g.latestRetractionAtOrBefore subject predicate version with
      | some retractedAt => if factVersion ≤ retractedAt then none else some value
      | none => some value)

/-- `query`. -/
def query (g : SemanticGraph) (subject : Option SemanticSubjectId) (predicate : Option String)
    (version : Option Nat) : CaapResult (List (SemanticSubjectId × String × SemanticValue)) :=
  if predicate = some "" then .error emptyPredicateError
  else
    let version := version.getD g.currentVersion
    .ok (g.facts.toList.flatMap fun (factSubject, inner) =>
      if subject.any (fun wanted => wanted != factSubject) then []
      else inner.toList.filterMap fun (factPredicate, history) =>
        if predicate.any (fun wanted => wanted != factPredicate) then none
        else (latestEntryAtOrBefore history version).bind fun (factVersion, value) =>
          let retracted := (g.latestRetractionAtOrBefore factSubject factPredicate version).any
            fun retractedAt => factVersion ≤ retractedAt
          if retracted then none else some (factSubject, factPredicate, value))

/-! ## Writes -/

/-- `add_fact` after its checks. -/
def recordFact (g : SemanticGraph) (subject : SemanticSubjectId) (predicate : String)
    (value : SemanticValue) : Bool × SemanticGraph :=
  let history := g.facts.listAt subject predicate
  let versions := g.retractions.listAt subject predicate
  let retractedNow := versions.getLast? == some g.currentVersion
  if !retractedNow && history.getLast?.any (fun previous => previous.2 == value) then (false, g)
  else
    (true,
      { g with
        facts := g.facts.insert2 subject predicate (history ++ [(g.currentVersion, value)])
        -- the add supersedes a retraction made in the same uncommitted batch
        retractions :=
          if retractedNow then g.retractions.insert2 subject predicate versions.dropLast
          else g.retractions })

/-- `add_fact`. -/
def addFact (g : SemanticGraph) (subject : SemanticSubjectId) (predicate : String)
    (value : SemanticValue) : CaapResult (Bool × SemanticGraph) :=
  if predicate = "" then .error emptyPredicateError
  else do
    value.validate
    .ok (g.recordFact subject predicate value)

/-- `remove_fact` once a fact is known to be visible. -/
def recordRetraction (g : SemanticGraph) (subject : SemanticSubjectId) (predicate : String) :
    SemanticGraph :=
  let versions := g.retractions.listAt subject predicate
  { g with
    retractions := g.retractions.insert2 subject predicate
      (if versions.getLast? = some g.currentVersion then versions
       else versions ++ [g.currentVersion]) }

/-- `remove_fact`. -/
def removeFact (g : SemanticGraph) (subject : SemanticSubjectId) (predicate : String) :
    CaapResult (Bool × SemanticGraph) :=
  if predicate = "" then .error emptyPredicateError
  else do
    let visible ← g.getFact subject predicate none
    if visible.isNone then .ok (false, g) else .ok (true, g.recordRetraction subject predicate)

/-- `commit`. -/
def commit (g : SemanticGraph) : CaapResult (Nat × SemanticGraph) := do
  let version ← checkedGenerationIncrement g.currentVersion "semantic fact graph version"
  .ok (version, { g with currentVersion := version })

/-- `rollback_subject`: forgets the subject's fact histories; its tombstones stay. -/
def rollbackSubject (g : SemanticGraph) (subject : SemanticSubjectId) : Bool × SemanticGraph :=
  ((g.facts[subject]?).isSome, { g with facts := g.facts.erase subject })

/-! ## Snapshots -/

/-- `snapshot`. -/
def snapshot (g : SemanticGraph) : SemanticGraphSnapshot :=
  { triples := g.facts.flatten2.map fun ((subject, predicate), (version, value)) =>
      (version, subject, predicate, value)
    retractions := g.retractions.flatten2.map fun ((subject, predicate), version) =>
      (version, subject, predicate)
    currentVersion := g.currentVersion }

/-- One iteration of the loop of `restore_snapshot` over the fact triples. -/
def restoreTriple (currentVersion : Nat) (facts : NestedMap SemanticSubjectId String FactHistory)
    (triple : Nat × SemanticSubjectId × String × SemanticValue) :
    CaapResult (NestedMap SemanticSubjectId String FactHistory) :=
  let (version, subject, predicate, value) := triple
  if version > currentVersion then
    .error (.semantic "semantic graph triple version must not exceed current version")
  else if predicate = "" then .error emptyPredicateError
  else do
    value.validate
    .ok (facts.push2 ((subject, predicate), (version, value)))

/-- One iteration of the loop of `restore_snapshot` over the retractions. -/
def restoreRetraction (currentVersion : Nat)
    (retractions : NestedMap SemanticSubjectId String (List Nat))
    (retraction : Nat × SemanticSubjectId × String) :
    CaapResult (NestedMap SemanticSubjectId String (List Nat)) :=
  let (version, subject, predicate) := retraction
  if version > currentVersion then
    .error (.semantic "semantic graph retraction version must not exceed current version")
  else if predicate = "" then .error emptyPredicateError
  else .ok (retractions.push2 ((subject, predicate), version))

/-- `restore_snapshot`: the graph that replaces the receiver. -/
def restoreSnapshot (snapshot : SemanticGraphSnapshot) : CaapResult SemanticGraph := do
  let facts ← foldOk (restoreTriple snapshot.currentVersion) ∅ snapshot.triples
  let retractions ← foldOk (restoreRetraction snapshot.currentVersion) ∅ snapshot.retractions
  .ok
    { currentVersion := snapshot.currentVersion
      facts := facts.map fun _ inner =>
        inner.map fun _ history => history.insertionSort fun a b => a.1 ≤ b.1
      retractions := retractions.map fun _ inner =>
        inner.map fun _ versions => versions.insertionSort fun a b => a ≤ b }

/-! ## The store as a family of versioned cells -/

/-- The two histories of one (subject, predicate) pair. -/
def cell (g : SemanticGraph) (s : SemanticSubjectId) (p : String) : VersionedCell SemanticValue :=
  { entries := g.facts.listAt s p, tombs := g.retractions.listAt s p }

section Cells

variable {g g' : SemanticGraph} {s : SemanticSubjectId} {p : String} {v : SemanticValue}

@[simp] theorem cell_new (s : SemanticSubjectId) (p : String) : new.cell s p = empty := by
  simp [cell, new, listAt, empty]

/-- A lookup in a missing history finds nothing. -/
theorem bind_latestAtOrBefore {γ : Type} (version : γ → Nat)
    (m : NestedMap SemanticSubjectId String (List γ)) (a : SemanticSubjectId) (b : String)
    (n : Nat) : ((m.get2 a b).bind fun l => latestAtOrBefore version l n)
      = latestAtOrBefore version (m.listAt a b) n := by
  unfold listAt
  cases m.get2 a b with
  | none => rfl
  | some l => rfl

theorem latestRetractionAtOrBefore_eq (n : Nat) :
    g.latestRetractionAtOrBefore s p n = latestAtOrBefore id (g.cell s p).tombs n :=
  bind_latestAtOrBefore id g.retractions s p n

/-- `get_fact` reads the pair's cell. -/
theorem getFact_eq (hp : p ≠ "") (version : Option Nat) :
    g.getFact s p version = .ok ((g.cell s p).visibleAt (version.getD g.currentVersion)) := by
  simp only [getFact, if_neg hp, latestRetractionAtOrBefore_eq, latestEntryAtOrBefore,
    visibleAt]
  rw [bind_latestAtOrBefore Prod.fst]
  rfl

@[simp] theorem getFact_empty_predicate (version : Option Nat) :
    g.getFact s "" version = .error emptyPredicateError := rfl

/-- Reads of the current version compare the cells at that version. -/
theorem getFact_none_congr (hcell : g'.cell s p = g.cell s p)
    (hver : g'.currentVersion = g.currentVersion) : g'.getFact s p none = g.getFact s p none := by
  by_cases hp : p = ""
  · subst hp; rfl
  · rw [getFact_eq hp, getFact_eq hp, hcell, Option.getD_none, Option.getD_none, hver]

/-! ### What each write does to the cells -/

theorem recordFact_of_skips (h : (g.cell s p).skipsPut g.currentVersion v = true) :
    g.recordFact s p v = (false, g) := if_pos h

theorem recordFact_of_not_skips (h : (g.cell s p).skipsPut g.currentVersion v = false) :
    g.recordFact s p v = (true, { g with
        facts := g.facts.insert2 s p ((g.cell s p).entries ++ [(g.currentVersion, v)])
        retractions :=
          if (g.cell s p).retractedNow g.currentVersion
          then g.retractions.insert2 s p (g.cell s p).tombs.dropLast
          else g.retractions }) :=
  if_neg (by rw [Bool.not_eq_true]; exact h)

@[simp] theorem recordFact_currentVersion :
    (g.recordFact s p v).2.currentVersion = g.currentVersion := by
  cases h : (g.cell s p).skipsPut g.currentVersion v with
  | true => rw [recordFact_of_skips h]
  | false => rw [recordFact_of_not_skips h]

/-- `add_fact` puts the value into the pair's cell and touches no other. -/
theorem cell_recordFact (s' : SemanticSubjectId) (p' : String) : (g.recordFact s p v).2.cell s' p'
      = if s = s' ∧ p = p' then ((g.cell s p).put g.currentVersion v).2 else g.cell s' p' := by
  cases h : (g.cell s p).skipsPut g.currentVersion v with
  | true =>
    rw [recordFact_of_skips h, put_of_skips h]
    by_cases hk : s = s' ∧ p = p'
    · rw [if_pos hk, hk.1, hk.2]
    · rw [if_neg hk]
  | false =>
    rw [recordFact_of_not_skips h, put_of_not_skips h]
    by_cases hk : s = s' ∧ p = p'
    · obtain ⟨rfl, rfl⟩ := hk
      simp only [and_self, if_true]
      refine VersionedCell.ext (listAt_insert2_self ..) ?_
      show listAt (if _ then _ else _) s p = if _ then _ else _
      split
      · exact listAt_insert2_self ..
      · rfl
    · rw [if_neg hk]
      refine VersionedCell.ext (listAt_insert2_of_ne _ hk _) ?_
      show listAt (if _ then _ else _) s' p' = _
      split
      · exact listAt_insert2_of_ne _ hk _
      · rfl

theorem addFact_eq_ok {r : Bool × SemanticGraph} :
    g.addFact s p v = .ok r ↔ p ≠ "" ∧ v.Valid ∧ r = g.recordFact s p v := by
  unfold addFact
  rw [ite_error_eq_ok, bind_eq_ok]
  constructor
  · rintro ⟨hp, _, hv, hr⟩
    exact ⟨hp, hv, (Except.ok.inj hr).symm⟩
  · rintro ⟨hp, hv, rfl⟩
    exact ⟨hp, (), hv, rfl⟩

@[simp] theorem recordRetraction_currentVersion :
    (g.recordRetraction s p).currentVersion = g.currentVersion := rfl

theorem cell_recordRetraction (s' : SemanticSubjectId) (p' : String) {x : SemanticValue}
    (hx : (g.cell s p).visibleAt g.currentVersion = some x) : (g.recordRetraction s p).cell s' p'
      = if s = s' ∧ p = p' then ((g.cell s p).retract g.currentVersion).2 else g.cell s' p' := by
  by_cases hk : s = s' ∧ p = p'
  · obtain ⟨rfl, rfl⟩ := hk
    simp only [and_self, if_true, retract, hx, Option.isNone_some,
      Bool.false_eq_true, if_false, retractedNow, beq_iff_eq]
    exact VersionedCell.ext rfl (listAt_insert2_self ..)
  · rw [if_neg hk]
    exact VersionedCell.ext rfl (listAt_insert2_of_ne _ hk _)

/-- A successful `remove_fact` retracts the pair's cell. -/
theorem removeFact_eq_ok {r : Bool × SemanticGraph} : g.removeFact s p = .ok r ↔ p ≠ "" ∧
      ((g.cell s p).visibleAt g.currentVersion = none ∧ r = (false, g) ∨
       (∃ x, (g.cell s p).visibleAt g.currentVersion = some x) ∧
         r = (true, g.recordRetraction s p)) := by
  unfold removeFact
  rw [ite_error_eq_ok]
  refine and_congr_right fun hp => ?_
  rw [getFact_eq hp, ok_bind, Option.getD_none]
  cases (g.cell s p).visibleAt g.currentVersion with
  | none => simp [eq_comm]
  | some x => simp [eq_comm]

theorem commit_eq_ok {r : Nat × SemanticGraph} : g.commit = .ok r ↔ g.currentVersion + 1 < u64Size ∧
      r = (g.currentVersion + 1, { g with currentVersion := g.currentVersion + 1 }) := by
  unfold commit
  rw [bind_eq_ok]
  constructor
  · rintro ⟨n, hn, hr⟩
    obtain ⟨hlt, rfl⟩ := checkedGenerationIncrement_eq_ok.mp hn
    exact ⟨hlt, (Except.ok.inj hr).symm⟩
  · rintro ⟨hlt, rfl⟩
    exact ⟨_, checkedGenerationIncrement_eq_ok.mpr ⟨hlt, rfl⟩, rfl⟩

theorem cell_rollbackSubject (s' : SemanticSubjectId) (p' : String) :
    (g.rollbackSubject s).2.cell s' p'
      = if s = s' then { g.cell s' p' with entries := [] } else g.cell s' p' := by
  simp only [rollbackSubject, cell, listAt, get2_erase]
  by_cases h : s = s'
  · simp only [if_pos h, Option.getD_none]
  · simp only [if_neg h]

end Cells

/-! ## Well-formedness -/

/-- What every operation of the store keeps: each cell's histories are sorted and
    not newer than the current version, nothing is stored under the empty
    predicate, and every recorded value is valid. -/
structure WellFormed (g : SemanticGraph) : Prop where
  cells : ∀ s p, (g.cell s p).WellFormed g.currentVersion
  emptyPredicate : ∀ s, g.cell s "" = VersionedCell.empty
  valid : ∀ s p, ∀ e ∈ (g.cell s p).entries, e.2.Valid

theorem wellFormed_new : new.WellFormed where
  cells s p := by rw [cell_new]; exact wellFormed_empty _
  emptyPredicate s := cell_new s ""
  valid s p e he := by rw [cell_new] at he; exact absurd he (by simp [empty])

namespace WellFormed

variable {g : SemanticGraph} {s : SemanticSubjectId} {p : String}

theorem recordFact {v : SemanticValue} (h : g.WellFormed) (hp : p ≠ "") (hv : v.Valid) :
    (g.recordFact s p v).2.WellFormed where
  cells s' p' := by
    rw [cell_recordFact, recordFact_currentVersion]
    split
    · exact (h.cells s p).put v
    · exact h.cells s' p'
  emptyPredicate s' := by
    rw [cell_recordFact, if_neg (fun hk => hp hk.2)]
    exact h.emptyPredicate s'
  valid s' p' e he := by
    rw [cell_recordFact] at he
    split at he
    · rw [put] at he
      split at he
      · exact h.valid s p e he
      · rcases List.mem_append.mp he with he | he
        · exact h.valid s p e he
        · rw [List.mem_singleton.mp he]; exact hv
    · exact h.valid s' p' e he

theorem recordRetraction {x : SemanticValue} (h : g.WellFormed)
    (hx : (g.cell s p).visibleAt g.currentVersion = some x) :
    (g.recordRetraction s p).WellFormed where
  cells s' p' := by
    rw [cell_recordRetraction _ _ hx, recordRetraction_currentVersion]
    split
    · exact (h.cells s p).retract
    · exact h.cells s' p'
  emptyPredicate s' := by
    have hp : p ≠ "" := by
      rintro rfl
      rw [h.emptyPredicate, visibleAt_empty] at hx
      exact absurd hx (by simp)
    rw [cell_recordRetraction _ _ hx, if_neg (fun hk => hp hk.2)]
    exact h.emptyPredicate s'
  valid s' p' e he := by
    rw [cell_recordRetraction _ _ hx] at he
    split at he
    · rw [(h.cells s p).retract_of_some hx] at he
      exact h.valid s p e he
    · exact h.valid s' p' e he

theorem commit (h : g.WellFormed) :
    { g with currentVersion := g.currentVersion + 1 : SemanticGraph }.WellFormed where
  cells s p := (h.cells s p).mono (Nat.le_succ _)
  emptyPredicate s := h.emptyPredicate s
  valid s p := h.valid s p

theorem rollbackSubject (h : g.WellFormed) (s : SemanticSubjectId) :
    (g.rollbackSubject s).2.WellFormed where
  cells s' p' := by
    rw [cell_rollbackSubject]
    split
    · exact ⟨List.Pairwise.nil, fun _ hm => (List.not_mem_nil hm).elim,
        (h.cells s' p').tombs_sorted, (h.cells s' p').tombs_le⟩
    · exact h.cells s' p'
  emptyPredicate s' := by
    rw [cell_rollbackSubject, h.emptyPredicate]
    split <;> rfl
  valid s' p' e he := by
    rw [cell_rollbackSubject] at he
    split at he
    · exact (List.not_mem_nil he).elim
    · exact h.valid s' p' e he

end WellFormed

end SemanticGraph

end Caap
