/-
  Caap.Ir.Removal

  What removing nodes does to a graph: `Pruned g g' gone` says that the tables of `g'` are
  those of `g` without the ids in `gone`.  Removing a subtree takes out everything below
  its root (`removeSubtreeStorage_pruned`), and a graph whose tables agree loses one tree
  (`Pruned.sound`).
-/

import Caap.Ir.Integrity

namespace Caap

open Std Lib OrdMap List

namespace IRGraph

/-- `g'` is `g` without the ids in `gone`. -/
structure Pruned (g g' : IRGraph) (gone : Nat → Prop) : Prop where
  nodesGone : ∀ a, gone a → g'.nodes[a]? = none
  nodesKept : ∀ a, ¬ gone a → g'.nodes[a]? = g.nodes[a]?
  parentsGone : ∀ a, gone a → g'.parents[a]? = none
  parentsKept : ∀ a, ¬ gone a → g'.parents[a]? = g.parents[a]?
  spansGone : ∀ a, gone a → g'.sourceSpans[a]? = none
  spansKept : ∀ a, ¬ gone a → g'.sourceSpans[a]? = g.sourceSpans[a]?
  internalGone : ∀ a, gone a → g'.internalNodes[a]? = none
  internalKept : ∀ a, ¬ gone a → g'.internalNodes[a]? = g.internalNodes[a]?
  formsSublist : g'.topLevelForms.Sublist g.topLevelForms
  mem_forms : ∀ a, a ∈ g'.topLevelForms ↔ a ∈ g.topLevelForms ∧ ¬ gone a
  formsSet : ∀ a, a ∈ g'.topLevelSet ↔ a ∈ g'.topLevelForms
  nextId : g'.nextId = g.nextId
  rootMem : (g.nodes ≠ ∅ → g.rootId ∈ g.nodes) → g'.nodes ≠ ∅ → g'.rootId ∈ g'.nodes

namespace Pruned

variable {g g₁ g' : IRGraph} {gone gone' : Nat → Prop}

theorem refl (h : g.Stored) : Pruned g g (fun _ => False) where
  nodesGone _ h := h.elim
  nodesKept _ _ := rfl
  parentsGone _ h := h.elim
  parentsKept _ _ := rfl
  spansGone _ h := h.elim
  spansKept _ _ := rfl
  internalGone _ h := h.elim
  internalKept _ _ := rfl
  formsSublist := List.Sublist.refl _
  mem_forms a := by simp
  formsSet := h.formsSet
  nextId := rfl
  rootMem h := h

theorem congr (h : Pruned g g' gone) (hgone : ∀ a, gone a ↔ gone' a) : Pruned g g' gone' := by
  obtain rfl : gone = gone' := funext fun a => propext (hgone a)
  exact h

theorem trans (h : Pruned g g₁ gone) (h' : Pruned g₁ g' gone') :
    Pruned g g' (fun a => gone a ∨ gone' a) := by
  -- an entry that is gone after the first removal is gone after both
  have hlookup : ∀ {ν : Type} (m m₁ m' : OrdMap Nat ν),
      (∀ a, gone a → m₁[a]? = none) → (∀ a, ¬ gone a → m₁[a]? = m[a]?) →
      (∀ a, gone' a → m'[a]? = none) → (∀ a, ¬ gone' a → m'[a]? = m₁[a]?) →
      (∀ a, gone a ∨ gone' a → m'[a]? = none) ∧ (∀ a, ¬ (gone a ∨ gone' a) → m'[a]? = m[a]?) := by
    intro ν m m₁ m' hg hk hg' hk'
    constructor
    · intro a ha
      by_cases hb : gone' a
      · exact hg' a hb
      · rw [hk' a hb]
        exact hg a (ha.resolve_right hb)
    · intro a ha
      rw [not_or] at ha
      rw [hk' a ha.2, hk a ha.1]
  have hnodes := hlookup _ _ _ h.nodesGone h.nodesKept h'.nodesGone h'.nodesKept
  have hparents := hlookup _ _ _ h.parentsGone h.parentsKept h'.parentsGone h'.parentsKept
  have hspans := hlookup _ _ _ h.spansGone h.spansKept h'.spansGone h'.spansKept
  have hinternal := hlookup _ _ _ h.internalGone h.internalKept h'.internalGone h'.internalKept
  exact
    { nodesGone := hnodes.1, nodesKept := hnodes.2
      parentsGone := hparents.1, parentsKept := hparents.2
      spansGone := hspans.1, spansKept := hspans.2
      internalGone := hinternal.1, internalKept := hinternal.2
      formsSublist := h'.formsSublist.trans h.formsSublist
      mem_forms := by
        intro a
        rw [h'.mem_forms, h.mem_forms, not_or, and_assoc]
      formsSet := h'.formsSet
      nextId := h'.nextId.trans h.nextId
      rootMem := fun hroot => h'.rootMem (h.rootMem hroot) }

theorem mem_nodes (h : Pruned g g' gone) {a : Nat} : a ∈ g'.nodes ↔ a ∈ g.nodes ∧ ¬ gone a := by
  rw [mem_iff_exists, mem_iff_exists]
  by_cases ha : gone a
  · simp [h.nodesGone a ha, ha]
  · simp [h.nodesKept a ha, ha]

theorem stored (h : Pruned g g' gone) (hg : g.Stored) : g'.Stored where
  keyed := by
    intro id node hn
    by_cases hid : gone id
    · rw [h.nodesGone id hid] at hn
      exact absurd hn (by simp)
    · exact hg.keyed ((h.nodesKept id hid).symm.trans hn)
  formsNodup := hg.formsNodup.sublist h.formsSublist
  formsMem id hid := by
    obtain ⟨hmem, hkept⟩ := (h.mem_forms id).mp hid
    exact h.mem_nodes.mpr ⟨hg.formsMem id hmem, hkept⟩
  formsSet := h.formsSet
  below id hid := by
    rw [h.nextId]
    exact hg.below id (h.mem_nodes.mp hid).1

end Pruned

/-! ## Removing one node -/

theorem mem_of_idxOf? {l : List Nat} {old index : Nat} (h : l.idxOf? old = some index) :
    old ∈ l := by
  by_contra hnot
  rw [idxOf?_eq_none_iff.mpr hnot] at h
  exact absurd h (by simp)

/-- The tables after the removal of one node, apart from the root. -/
theorem removeNodeStorage_tables (g : IRGraph) (id : Nat) :
    (g.removeNodeStorage id).2.nodes = g.nodes.erase id ∧
    (g.removeNodeStorage id).2.parents = g.parents.erase id ∧
    (g.removeNodeStorage id).2.sourceSpans = g.sourceSpans.erase id ∧
    (g.removeNodeStorage id).2.internalNodes = g.internalNodes.erase id ∧
    (g.removeNodeStorage id).2.topLevelForms = g.topLevelForms.erase id ∧
    (g.removeNodeStorage id).2.topLevelSet =
      (if id ∈ g.topLevelForms then g.topLevelSet.erase id else g.topLevelSet) ∧
    (g.removeNodeStorage id).2.nextId = g.nextId := by
  rw [erase_eq_eraseIdx]
  cases hidx : g.topLevelForms.idxOf? id with
  | none =>
    have hnot : id ∉ g.topLevelForms := idxOf?_eq_none_iff.mp hidx
    simp only [removeNodeStorage, removeTopLevelForm, hidx, if_neg hnot]
    by_cases hroot : g.rootId = id <;> simp [hroot]
  | some index =>
    simp only [removeNodeStorage, removeTopLevelForm, hidx, if_pos (mem_of_idxOf? hidx)]
    by_cases hroot : g.rootId = id <;> simp [hroot]

/-- The root afterwards: the old one, or a fallback when it was removed. -/
theorem removeNodeStorage_rootId (g : IRGraph) (id : Nat) : (g.removeNodeStorage id).2.rootId =
      if g.rootId = id then
        (((g.topLevelForms.erase id).head?).or (g.nodes.erase id).minKey?).getD 0
      else g.rootId := by
  rw [erase_eq_eraseIdx]
  cases hidx : g.topLevelForms.idxOf? id with
  | none | some _ =>
    simp only [removeNodeStorage, removeTopLevelForm, hidx]
    by_cases hroot : g.rootId = id <;> simp [hroot]

/-- The fallback is a node of the remaining graph, if there is one. -/
theorem fallback_mem {forms : List Nat} {nodes : OrdMap Nat Node}
    (hforms : ∀ a ∈ forms, a ∈ nodes) (hne : nodes ≠ ∅) :
    (forms.head?.or nodes.minKey?).getD 0 ∈ nodes := by
  cases forms with
  | cons f fs => exact hforms f (mem_cons_self ..)
  | nil =>
    cases hmin : nodes.minKey? with
    | some k => exact ExtTreeMap.minKey?_mem hmin
    | none => exact absurd (ExtTreeMap.minKey?_eq_none_iff.mp hmin) hne

variable {g : IRGraph}

theorem removeNodeStorage_pruned (h : g.Stored) (id : Nat) :
    Pruned g (g.removeNodeStorage id).2 (· = id) := by
  obtain ⟨hnodes, hparents, hspans, hinternal, hforms, hset, hnext⟩ := removeNodeStorage_tables g id
  have hroot := removeNodeStorage_rootId g id
  have hmem : ∀ a, a ∈ g.topLevelForms.erase id ↔ a ∈ g.topLevelForms ∧ ¬ a = id := by
    intro a
    rw [h.formsNodup.mem_erase_iff, and_comm]
  have herase : ∀ {ν : Type} (m : OrdMap Nat ν),
      (∀ a, a = id → (m.erase id)[a]? = none) ∧ (∀ a, ¬ a = id → (m.erase id)[a]? = m[a]?) := by
    intro ν m
    constructor
    · rintro a rfl
      rw [lookup_erase, if_pos rfl]
    · intro a ha
      rw [lookup_erase, if_neg (Ne.symm ha)]
  refine
    { nodesGone := hnodes ▸ (herase _).1, nodesKept := hnodes ▸ (herase _).2
      parentsGone := hparents ▸ (herase _).1, parentsKept := hparents ▸ (herase _).2
      spansGone := hspans ▸ (herase _).1, spansKept := hspans ▸ (herase _).2
      internalGone := hinternal ▸ (herase _).1, internalKept := hinternal ▸ (herase _).2
      formsSublist := hforms ▸ erase_sublist
      mem_forms := hforms ▸ hmem
      formsSet := ?_
      nextId := hnext
      rootMem := ?_ }
  · intro a
    rw [hforms, hset, hmem]
    by_cases hid : id ∈ g.topLevelForms
    · rw [if_pos hid, mem_erase, h.formsSet]
    · rw [if_neg hid, h.formsSet]
      refine ⟨fun ha => ⟨ha, ?_⟩, And.left⟩
      rintro rfl
      exact hid ha
  · intro hin hne
    rw [hnodes] at hne ⊢
    have hne' : g.nodes ≠ ∅ := by
      intro hempty
      exact hne (by rw [hempty]; rfl)
    rw [hroot]
    by_cases hrid : g.rootId = id
    · rw [if_pos hrid]
      refine fallback_mem ?_ hne
      intro a ha
      obtain ⟨hf, hne⟩ := (hmem a).mp ha
      exact mem_erase.mpr ⟨h.formsMem a hf, hne⟩
    · rw [if_neg hrid]
      exact mem_erase.mpr ⟨hin hne', hrid⟩

/-! ## Removing a subtree -/

/-- Between two iterations: the ids visited so far are gone, they and the ids on the stack
    are below the root, and the children of a visited node are visited or on the stack. -/
structure Draining (g : IRGraph) (r : Nat) (state : IRGraph × List Nat) (stack : List Nat)
    (visited : Nat → Prop) : Prop where
  pruned : Pruned g state.1 visited
  visitedBelow : ∀ a, visited a → Below g.kids r a
  stackBelow : ∀ a ∈ stack, Below g.kids r a
  start : visited r ∨ r ∈ stack
  closed : ∀ {a cs c}, visited a → g.kids a = some cs → c ∈ cs → visited c ∨ c ∈ stack

theorem kids_eq_some_childrenOf {id : Nat} {cs : List Nat}
    (h : g.kids id = some cs) : g.childrenOf id = cs := by
  rw [childrenOf]
  exact (congrArg (fun o => o.getD []) h)

theorem dropNode_fst (state : IRGraph × List Nat) (current : Nat) :
    (dropNode state current).1 = (state.1.removeNodeStorage current).2 := rfl

/-- One iteration. -/
theorem Draining.step (hg : g.Stored) {r current : Nat}
    {state : IRGraph × List Nat} {stack : List Nat} {visited : Nat → Prop}
    (h : Draining g r state (current :: stack) visited) :
    Draining g r (dropNode state current) ((state.1.childrenOf current).reverse ++ stack)
      (fun a => visited a ∨ a = current) := by
  have hcurrent : Below g.kids r current := h.stackBelow current (mem_cons_self ..)
  -- a node that is visited again has no children left
  have hchildren : ∀ c ∈ state.1.childrenOf current, ∃ cs, g.kids current = some cs ∧ c ∈ cs := by
    intro c hc
    by_cases hv : visited current
    · simp [childrenOf, h.pruned.nodesGone current hv] at hc
    · cases hk : g.kids current with
      | none =>
        rw [kids, ← h.pruned.nodesKept current hv] at hk
        simp [childrenOf, Option.map_eq_none_iff.mp hk] at hc
      | some cs =>
        have hk' : state.1.kids current = some cs := by
          rw [kids, h.pruned.nodesKept current hv]
          exact hk
        exact ⟨cs, rfl, kids_eq_some_childrenOf hk' ▸ hc⟩
  refine
    { pruned := h.pruned.trans (removeNodeStorage_pruned (h.pruned.stored hg) current)
      visitedBelow := ?_, stackBelow := ?_, start := ?_, closed := ?_ }
  · rintro a (ha | rfl)
    · exact h.visitedBelow a ha
    · exact hcurrent
  · intro a ha
    rcases mem_append.mp ha with ha | ha
    · obtain ⟨cs, hk, hmem⟩ := hchildren a (mem_reverse.mp ha)
      exact .step hcurrent hk hmem
    · exact h.stackBelow a (mem_cons_of_mem _ ha)
  · rcases h.start with hv | hs
    · exact .inl (.inl hv)
    · rcases mem_cons.mp hs with heq | hmem
      · exact .inl (.inr heq)
      · exact .inr (mem_append_right _ hmem)
  · intro a cs c ha hk hc
    by_cases hv : visited a
    · rcases h.closed hv hk hc with hvc | hs
      · exact .inl (.inl hvc)
      · rcases mem_cons.mp hs with heq | hmem
        · exact .inl (.inr heq)
        · exact .inr (mem_append_right _ hmem)
    · obtain rfl : a = current := ha.resolve_left hv
      have hk' : state.1.kids a = some cs := by
        rw [kids, h.pruned.nodesKept a hv]
        exact hk
      refine .inr (mem_append_left _ (mem_reverse.mpr ?_))
      rw [kids_eq_some_childrenOf hk']
      exact hc

/-- The children of a visited node are no longer counted. -/
theorem dropNode_weight (state : IRGraph × List Nat) (current : Nat) :
    (state.1.childrenOf current).length
      + weight (fun node : Node => node.children.length) (dropNode state current).1.nodes
      ≤ weight (fun node : Node => node.children.length) state.1.nodes := by
  rw [dropNode_fst, (removeNodeStorage_tables state.1 current).1]
  cases hn : state.1.nodes[current]? with
  | none =>
    rw [erase_eq_self hn]
    simp [childrenOf, hn]
  | some node =>
    have hw := weight_erase (f := fun node : Node => node.children.length) hn
    have hc : state.1.childrenOf current = node.children := by simp [childrenOf, hn]
    rw [hc]
    omega

/-- Removing a subtree takes out exactly what is below its root. -/
theorem removeSubtreeStorage_pruned (h : g.Stored) (r : Nat) :
    Pruned g (g.removeSubtreeStorage r).2 (Below g.kids r) := by
  have hstart : ∃ visited, Draining g r (g, []) [r] visited :=
    ⟨fun _ => False,
      { pruned := Pruned.refl h
        visitedBelow := fun _ ha => ha.elim
        stackBelow := fun a ha => mem_singleton.mp ha ▸ .refl
        start := .inr (mem_singleton_self r)
        closed := fun ha => ha.elim }⟩
  have hfuel : [r].length + weight (fun node : Node => node.children.length) g.nodes
      ≤ weight (fun node : Node => node.children.length) g.nodes + 1 := by
    rw [length_singleton]
    omega
  obtain ⟨visited, hend⟩ := drain_invariant
    (fun state => weight (fun node : Node => node.children.length) state.1.nodes)
    (I := fun state stack => ∃ visited, Draining g r state stack visited)
    dropNode_weight (fun state current stack ⟨visited, hd⟩ => ⟨_, hd.step h⟩) hfuel hstart
  refine hend.pruned.congr fun a => ⟨hend.visitedBelow a, ?_⟩
  intro ha
  induction ha with
  | refl => exact hend.start.resolve_right not_mem_nil
  | step _ hk hc ih => exact (hend.closed ih hk hc).resolve_right not_mem_nil

/-- Removing a tree of a graph whose tables agree. -/
theorem Sound.removeSubtreeStorage {root : Nat → Prop} (h : g.Sound root) {r : Nat}
    (hr : root r) : (g.removeSubtreeStorage r).2.Sound (fun a => root a ∧ a ≠ r) := by
  have hp := removeSubtreeStorage_pruned h.toStored r
  refine
    { hp.stored h.toStored with
      forest := h.forest.prune hr ?_ ?_
      spans := ?_
      internal := ?_ }
  · intro a ha
    exact ⟨by rw [kids, hp.nodesGone a ha]; rfl, hp.parentsGone a ha⟩
  · intro a ha
    exact ⟨by rw [kids, kids, hp.nodesKept a ha], hp.parentsKept a ha⟩
  · intro id hid
    obtain ⟨span, hs⟩ := mem_iff_exists.mp hid
    by_cases hb : Below g.kids r id
    · rw [hp.spansGone id hb] at hs
      exact absurd hs (by simp)
    · rw [hp.spansKept id hb] at hs
      exact hp.mem_nodes.mpr ⟨h.spans id (mem_of_lookup hs), hb⟩
  · intro id hid
    obtain ⟨u, hi⟩ := mem_iff_exists.mp hid
    by_cases hb : Below g.kids r id
    · rw [hp.internalGone id hb] at hi
      exact absurd hi (by simp)
    · rw [hp.internalKept id hb] at hi
      obtain ⟨node, hn, hname⟩ := h.internal id (mem_of_lookup hi)
      exact ⟨node, (hp.nodesKept id hb).trans hn, hname⟩

end IRGraph

end Caap
