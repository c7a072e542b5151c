/-
  Caap.Unit.RewriteChain

  The records that `live_rewrite_chain` reads: a `Trail` from a node to the first source of
  its record that was not gone to before.  It ends on every fact store
  (`endsIf_followRewriteChain`), but the node it starts from is not marked.
-/

import Caap.Ir.Readback
import Caap.Lib.Trail
import Caap.Unit.Ops

namespace Caap

open Lib List Bounded UnifiedSemanticGraph

namespace CaapUnit

variable {u : CaapUnit} {fuel : Nat} {seen : List Nat} {current : Option Nat}
  {chain : List RewriteRecord}

/-- The record in the provenance fact of a node. -/
def provenanceOf (u : CaapUnit) (id : Nat) : CaapResult (Option RewriteRecord) := do
  match ← u.semantics.getFact (nodeSubjectId id) rewriteProvenanceFact with
  | none => .ok none
  | some value => some <$> rewriteRecordFromSemanticValue value

/-- The sources of the record of a node. -/
def sourcesOf (u : CaapUnit) (id : Nat) : Option (List Nat) :=
  match u.provenanceOf id with
  | .ok (some record) => some record.sources
  | _ => none

/-- The ids that provenance facts mention as sources. -/
def mentionedSources (u : CaapUnit) : Set Nat :=
  { s | ∃ id record, u.provenanceOf id = .ok (some record) ∧ s ∈ record.sources }

/-- Every provenance fact is a rewrite record. -/
def Readable (u : CaapUnit) : Prop := ∀ id, ∃ found, u.provenanceOf id = .ok found

/-- The nodes whose records a chain has, in its order. -/
def Visits (u : CaapUnit) (nodeId : Nat) (ids : List Nat) (chain : List RewriteRecord) : Prop :=
  Trail u.sourcesOf [] (some nodeId) ids ∧
    Forall₂ (fun id record => u.provenanceOf id = .ok (some record)) ids chain

theorem followRewriteChain_some (id : Nat) : u.followRewriteChain (fuel + 1) seen (some id) =
    (do
      match ← ofResult (u.provenanceOf id) with
      | none => return []
      | some record => do
        let following := firstUnseen seen record.sources
        let rest ← u.followRewriteChain fuel (following.toList ++ seen) following
        return record :: rest) := by
  rw [followRewriteChain, provenanceOf]
  cases u.semantics.getFact (nodeSubjectId id) rewriteProvenanceFact with
  | error e => rfl
  | ok value =>
    cases value with
    | none => rfl
    | some value =>
      change ofResult (rewriteRecordFromSemanticValue value) >>= _ =
        ofResult (some <$> rewriteRecordFromSemanticValue value) >>= _
      cases rewriteRecordFromSemanticValue value with
      | error | ok => rfl

/-- A chain that is returned belongs to a walk. -/
theorem exists_trail (h : u.followRewriteChain fuel seen current = pure chain) :
    ∃ ids, Trail u.sourcesOf seen current ids ∧
      Forall₂ (fun id record => u.provenanceOf id = .ok (some record)) ids chain := by
  induction fuel generalizing seen current chain with
  | zero => exact absurd h (by rintro ⟨⟩)
  | succ fuel ih =>
    cases current with
    | none =>
      obtain rfl := pure_inj.mp h
      exact ⟨[], .stop, .nil⟩
    | some id =>
      rw [followRewriteChain_some] at h
      obtain ⟨found, hfound, h⟩ := bind_eq_pure.mp h
      have hfound : u.provenanceOf id = .ok found := Option.some.inj hfound
      cases found with
      | none =>
        obtain rfl := pure_inj.mp h
        exact ⟨[], .missing (by rw [sourcesOf, hfound]), .nil⟩
      | some record =>
        obtain ⟨rest, hrest, h⟩ := bind_eq_pure.mp h
        obtain rfl := pure_inj.mp h
        obtain ⟨ids, htrail, hrecords⟩ := ih hrest
        exact ⟨id :: ids, .step (by rw [sourcesOf, hfound]) htrail, .cons hfound hrecords⟩

/-- There are finitely many facts, so that they mention finitely many sources. -/
theorem finite_mentionedSources (u : CaapUnit) : u.mentionedSources.Finite := by
  cases hfacts : u.semantics.facts with
  | none =>
    refine Set.finite_empty.subset ?_
    rintro s ⟨id, record, h, -⟩
    rw [provenanceOf, getFact, factStore, hfacts] at h
    exact absurd h (by rintro ⟨⟩)
  | some facts =>
    let decoded := facts.facts.flatten2.flatMap fun e =>
      ((rewriteRecordFromSemanticValue e.2.2).toOption.map RewriteRecord.sources).getD []
    refine decoded.finite_toSet.subset ?_
    rintro s ⟨id, record, h, hs⟩
    rw [provenanceOf, getFact, factStore, hfacts] at h
    obtain ⟨found, hfound, h⟩ := Lib.bind_eq_ok.mp h
    rw [ok_bind, SemanticGraph.getFact_eq (by decide)] at hfound
    cases found with
    | none => exact absurd h (by rintro ⟨⟩)
    | some value =>
      obtain ⟨n, hn⟩ := VersionedCell.exists_entry_of_visibleAt (Except.ok.inj hfound)
      refine mem_flatMap.mpr ⟨_, NestedMap.mem_flatten2.mpr hn, ?_⟩
      cases hrecord : rewriteRecordFromSemanticValue value with
      | error e =>
        simp only [hrecord] at h
        exact absurd h (by rintro ⟨⟩)
      | ok found =>
        simp only [hrecord] at h
        obtain ⟨⟩ := h
        exact hs

variable {α β : Type} {P : Prop}

/-- The call ends, and it succeeds if `P` holds. -/
def EndsIf (P : Prop) (x : Bounded α) : Prop :=
  ∃ r, x = ofResult r ∧ (P → ∃ a, r = .ok a)

theorem EndsIf.of_pure (a : α) : EndsIf P (pure a) :=
  ⟨.ok a, rfl, fun _ => ⟨a, rfl⟩⟩

theorem EndsIf.bind {x : Bounded α} {f : α → Bounded β} (hx : EndsIf P x)
    (hf : ∀ a, x = pure a → EndsIf P (f a)) : EndsIf P (x >>= f) := by
  obtain ⟨r, rfl, hok⟩ := hx
  cases r with
  | error e => exact ⟨.error e, rfl, fun h => absurd (hok h) (by simp)⟩
  | ok a => exact hf a rfl

/-- The loop ends after one iteration more than there are sources not seen, with a chain if
    every provenance fact can be read. -/
theorem endsIf_followRewriteChain
    (hfuel : (u.mentionedSources \ { s | s ∈ seen }).ncard + 2 ≤ fuel) :
    EndsIf u.Readable (u.followRewriteChain fuel seen current) := by
  induction fuel generalizing seen current with
  | zero => omega
  | succ fuel ih =>
    cases current with
    | none => exact .of_pure []
    | some id =>
      rw [followRewriteChain_some]
      refine .bind ⟨_, rfl, fun hread => hread id⟩ fun found hfound => ?_
      cases found with
      | none => exact .of_pure []
      | some record =>
        refine .bind ?_ fun rest _ => .of_pure (record :: rest)
        cases hnext : firstUnseen seen record.sources with
        | none =>
          obtain ⟨fuel, rfl⟩ := Nat.exists_eq_add_of_le' (show 1 ≤ fuel by omega)
          exact .of_pure []
        | some n =>
          -- the source that is marked now was mentioned and not seen
          have hn : n ∈ u.mentionedSources \ { s | s ∈ seen } :=
            ⟨⟨id, record, Option.some.inj hfound, mem_of_find?_eq_some hnext⟩,
              not_mem_of_firstUnseen hnext⟩
          have hlt := Set.ncard_sdiff_singleton_lt_of_mem hn
            (u.finite_mentionedSources.subset Set.sdiff_subset)
          have hset : u.mentionedSources \ { s | s ∈ (some n).toList ++ seen } =
              (u.mentionedSources \ { s | s ∈ seen }) \ {n} := by
            ext s
            simp [and_assoc, and_comm]
          exact ih (by rw [hset]; omega)

/-- No returned chain has the record of a node twice. -/
def RepeatsNone (u : CaapUnit) : Prop :=
  ∀ fuel nodeId chain, u.liveRewriteChain fuel nodeId = pure chain →
    ∃ ids, u.Visits nodeId ids chain ∧ ids.Nodup

/-- `live_rewrite_chain` ends within one iteration more than there are mentioned sources.
    It returns no record twice where the first sources form no cycle, and where every
    provenance fact can be read, only there. -/
theorem liveRewriteChain_repeats (u : CaapUnit) : u.mentionedSources.Finite ∧
    (∀ fuel nodeId, u.mentionedSources.ncard + 2 ≤ fuel →
      ∃ r, u.liveRewriteChain fuel nodeId = ofResult r) ∧
    (Acyclic (FirstTarget u.sourcesOf) → u.RepeatsNone) ∧
    (u.Readable → u.RepeatsNone → Acyclic (FirstTarget u.sourcesOf)) := by
  have hends : ∀ fuel nodeId, u.mentionedSources.ncard + 2 ≤ fuel →
      EndsIf u.Readable (u.liveRewriteChain fuel nodeId) :=
    fun fuel nodeId hfuel => endsIf_followRewriteChain (by simpa using hfuel)
  refine ⟨u.finite_mentionedSources, fun fuel nodeId hfuel => ?_, fun hacyclic => ?_, ?_⟩
  · obtain ⟨r, hr, -⟩ := hends fuel nodeId hfuel
    exact ⟨r, hr⟩
  · intro fuel nodeId chain h
    obtain ⟨ids, htrail, hrecords⟩ := exists_trail h
    exact ⟨ids, ⟨htrail, hrecords⟩, htrail.nodup_of_acyclic hacyclic⟩
  · intro hread hnone id hcycle
    obtain ⟨r, hr, hok⟩ := hends _ id le_rfl
    obtain ⟨chain, rfl⟩ := hok hread
    obtain ⟨ids, ⟨htrail, -⟩, hnodup⟩ := hnone _ id chain hr
    exact htrail.not_nodup_of_cycle hcycle hnodup

/-- A node recorded as its own source has its record in the chain twice. -/
theorem liveRewriteChain_own_source : ∃ u₀, fromGraph "main" IRGraph.new = .ok u₀ ∧
    ∃ u record, u = (recordRewriteProvenance "provider" "lower" none "wrap" [0] [0]
        (appendIrTopLevelWithSpec (.name "a" none) u₀).2).2 ∧
      u.liveRewriteChain 3 0 = pure [record, record] ∧ u.Visits 0 [0, 0] [record, record] := by
  refine ⟨_, rfl, _, ⟨"provider", "lower", none, "wrap", [0], 1⟩, rfl, ?_, ?_, ?_⟩
  · rfl
  · exact .step rfl (.step rfl .stop)
  · exact .cons (by decide) (.cons (by decide) .nil)

end CaapUnit

end Caap
