/-
  Caap.Lib.Trail

  Walks that go from each node to the first of its targets that was not gone to before.  The
  start is not marked, so that a walk can come back to it.  Some walk does so exactly if the
  first targets form a cycle.
-/

import Caap.Lib.DepGraph

namespace Caap.Lib

open List Relation

variable {κ : Type} {next : κ → Option (List κ)} {seen targets ids : List κ}
  {current : Option κ} {a b : κ}

/-- The first target of a node, seen or not. -/
def FirstTarget (next : κ → Option (List κ)) (a b : κ) : Prop :=
  ∃ targets, next a = some (b :: targets)

theorem FirstTarget.ne_none (h : FirstTarget next a b) : next a ≠ none := by
  obtain ⟨targets, h⟩ := h
  simp [h]

variable [DecidableEq κ]

/-- The first target that is not seen. -/
def firstUnseen (seen targets : List κ) : Option κ := targets.find? fun b => decide (b ∉ seen)

/-- The nodes of a walk.  It ends at a node without targets of its own, which is not part of
    it, and where every target was seen. -/
inductive Trail (next : κ → Option (List κ)) : List κ → Option κ → List κ → Prop
  | stop {seen : List κ} : Trail next seen none []
  | missing {seen : List κ} {a : κ} (h : next a = none) : Trail next seen (some a) []
  | step {seen targets ids : List κ} {a : κ} (h : next a = some targets)
      (rest : Trail next ((firstUnseen seen targets).toList ++ seen) (firstUnseen seen targets)
        ids) : Trail next seen (some a) (a :: ids)

theorem not_mem_of_firstUnseen (h : firstUnseen seen targets = some b) : b ∉ seen := by
  have hb := find?_some h
  exact of_decide_eq_true hb

/-- Where the walk goes on, the first target is seen or it is the one it goes to. -/
theorem first_of_firstUnseen (h : firstUnseen seen targets = some b) :
    ∃ c rest, targets = c :: rest ∧ (c ∈ seen ∨ c = b) := by
  cases targets with
  | nil => exact absurd h (by simp [firstUnseen])
  | cons c rest =>
    refine ⟨c, rest, rfl, ?_⟩
    by_cases hc : c ∈ seen
    · exact .inl hc
    · rw [firstUnseen, find?_cons_of_pos (by simpa using hc)] at h
      exact .inr (Option.some.inj h)

namespace Trail

theorem head (h : Trail next seen current (b :: ids)) : current = some b := by
  cases h
  rfl

/-- Past its start a walk visits no node twice, and none that was seen. -/
theorem fresh (h : Trail next seen current ids) : ids.tail.Nodup ∧ ∀ b ∈ ids.tail, b ∉ seen := by
  induction h with
  | stop | missing => exact ⟨nodup_nil, fun _ hb => absurd hb not_mem_nil⟩
  | @step seen targets ids a _ rest ih =>
    cases ids with
    | nil => exact ⟨nodup_nil, fun _ hb => absurd hb not_mem_nil⟩
    | cons b ids =>
      have hb := rest.head
      obtain ⟨hnodup, hunseen⟩ := ih
      simp only [hb, Option.toList_some, tail_cons, singleton_append, mem_cons, not_or] at hunseen
      refine ⟨nodup_cons.mpr ⟨fun hmem => (hunseen b hmem).1 rfl, hnodup⟩, ?_⟩
      exact forall_mem_cons.mpr ⟨not_mem_of_firstUnseen hb, fun c hc => (hunseen c hc).2⟩

/-- Up to any node of a walk, the first targets were seen or lie on the way there. -/
theorem first_on_way (h : Trail next seen current ids) {front back : List κ}
    (hids : ids = front ++ b :: back) : ∀ a ∈ front, ∃ c, FirstTarget next a c ∧
      (c ∈ seen ∨ c ∈ (front ++ [b]).tail) := by
  induction h generalizing front with
  | stop | missing => exact absurd hids (by simp)
  | @step seen targets ids start hnext rest ih =>
    cases front with
    | nil => exact fun _ ha => absurd ha not_mem_nil
    | cons first front =>
      obtain ⟨rfl, rfl⟩ := cons.inj hids
      -- the walk goes on to a node of `front ++ [b]`
      obtain ⟨n, hn, hmem⟩ : ∃ n, firstUnseen seen targets = some n ∧ n ∈ front ++ [b] := by
        cases front with
        | nil => exact ⟨b, rest.head, mem_singleton_self b⟩
        | cons n front => exact ⟨n, rest.head, mem_cons_self⟩
      refine forall_mem_cons.mpr ⟨?_, fun a ha => ?_⟩
      · obtain ⟨c, others, rfl, hc | rfl⟩ := first_of_firstUnseen hn
        · exact ⟨c, ⟨others, hnext⟩, .inl hc⟩
        · exact ⟨c, ⟨others, hnext⟩, .inr hmem⟩
      · obtain ⟨c, hfirst, hc | hc⟩ := ih rfl a ha
        · rw [hn, Option.toList_some, singleton_append, mem_cons] at hc
          rcases hc with rfl | hc
          · exact ⟨c, hfirst, .inr hmem⟩
          · exact ⟨c, hfirst, .inl hc⟩
        · exact ⟨c, hfirst, .inr (mem_of_mem_tail hc)⟩

/-- The first target of a visited node is visited as well, unless it has no targets of its
    own. -/
theorem closed (h : Trail next seen current ids) :
    ∀ a ∈ ids, ∀ b, FirstTarget next a b → b ∈ seen ∨ b ∈ ids.tail ∨ next b = none := by
  induction h with
  | stop | missing => exact fun _ ha => absurd ha not_mem_nil
  | @step seen targets ids start hnext rest ih =>
    have hgone : ∀ n, firstUnseen seen targets = some n → n ∈ ids ∨ next n = none := by
      intro n hn
      rw [hn] at rest
      cases rest with
      | missing h => exact .inr h
      | step h rest => exact .inl mem_cons_self
    intro a ha b hfirst
    rcases mem_cons.mp ha with rfl | ha
    · obtain ⟨others, hothers⟩ := hfirst
      obtain rfl := Option.some.inj (hnext.symm.trans hothers)
      by_cases hb : b ∈ seen
      · exact .inl hb
      · exact .inr (hgone b (find?_cons_of_pos (by simpa using hb)))
    · rcases ih a ha b hfirst with hb | hb | hb
      · rcases mem_append.mp hb with hb | hb
        · exact .inr (hgone b (Option.mem_toList.mp hb))
        · exact .inl hb
      · exact .inr (.inl (mem_of_mem_tail hb))
      · exact .inr (.inr hb)

/-- Without a cycle of first targets a walk does not come back to its start. -/
theorem nodup_of_acyclic (hacyclic : Acyclic (FirstTarget next))
    (h : Trail next [] (some a) ids) : ids.Nodup := by
  cases ids with
  | nil => exact nodup_nil
  | cons b rest =>
    obtain rfl := Option.some.inj h.head
    refine nodup_cons.mpr ⟨fun hback => ?_, h.fresh.1⟩
    -- the way back to the start is closed under first targets
    obtain ⟨way, after, rfl⟩ := append_of_mem hback
    have hswap : Acyclic (Function.swap (FirstTarget next)) :=
      fun x hx => hacyclic x (transGen_swap.mp hx)
    obtain ⟨x, hx, hlast⟩ := hswap.exists_first (a :: way).finite_toSet ⟨a, mem_cons_self⟩
    have hids : a :: (way ++ a :: after) = (a :: way) ++ a :: after := rfl
    obtain ⟨c, hfirst, hc⟩ := h.first_on_way hids x hx
    exact hlast c (by simpa [or_comm] using hc) hfirst

/-- A walk from a node on a cycle of first targets comes back to it. -/
theorem not_nodup_of_cycle (hcycle : TransGen (FirstTarget next) a a)
    (h : Trail next [] (some a) ids) : ¬ ids.Nodup := by
  obtain ⟨c, hfirst, -⟩ := TransGen.head'_iff.mp hcycle
  cases h with
  | missing hnone => exact absurd hnone hfirst.ne_none
  | @step _ _ rest _ hnext htail =>
    have hclosed := (Trail.step hnext htail).closed
    have hvisits : ∀ b, TransGen (FirstTarget next) a b → next b ≠ none → b ∈ rest := by
      intro b hab
      induction hab with
      | single hfirst =>
        intro hb
        simpa [hb] using hclosed a mem_cons_self _ hfirst
      | @tail b c _ hfirst ih =>
        intro hc
        have hb : b ∈ rest := ih hfirst.ne_none
        simpa [hc] using hclosed b (mem_cons_of_mem a hb) c hfirst
    exact fun hnodup => (nodup_cons.mp hnodup).1 (hvisits a hcycle hfirst.ne_none)

end Trail

end Caap.Lib
