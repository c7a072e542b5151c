/-
  Caap.Ir.Insertion

  What inserting an expression tree does to a graph: it fills the next ids with a block
  of nodes that is a tree of its own (`insertExprSpecInto_block`), so that a graph with
  integrity becomes one with one tree more (`Block.sound`).
-/

import Caap.Ir.Integrity

namespace Caap

open Std Lib Action OrdMap Option

namespace IRGraph

/-- `g'` is `g` with the ids from `g.nextId` up to `g'.nextId` filled by trees with the
    given roots, whose parent entry is `parent`; a parent has a smaller id than its
    children. -/
structure Block (g g' : IRGraph) (roots : List Nat) (parent : Option Nat) : Prop where
  le : g.nextId ≤ g'.nextId
  nodes : ∀ a : Nat, a < g.nextId ∨ g'.nextId ≤ a → g'.nodes[a]? = g.nodes[a]?
  parents : ∀ a : Nat, a < g.nextId ∨ g'.nextId ≤ a → g'.parents[a]? = g.parents[a]?
  spans : ∀ a : Nat, a < g.nextId ∨ g'.nextId ≤ a → g'.sourceSpans[a]? = g.sourceSpans[a]?
  rootId : g'.rootId = g.rootId
  internalNodes : g'.internalNodes = g.internalNodes
  topLevelForms : g'.topLevelForms = g.topLevelForms
  topLevelSet : g'.topLevelSet = g.topLevelSet
  node : ∀ a : Nat, g.nextId ≤ a → a < g'.nextId →
    ∃ node : Node, g'.nodes[a]? = some node ∧ node.id = a ∧ node.children.Nodup ∧
      ∀ c ∈ node.children, a < c ∧ c < g'.nextId ∧ g'.parents[c]? = some (some a)
  rootsNodup : roots.Nodup
  root : ∀ r ∈ roots, g.nextId ≤ r ∧ r < g'.nextId ∧ g'.parents[r]? = some parent
  link : ∀ a : Nat, g.nextId ≤ a → a < g'.nextId → a ∈ roots ∨
    ∃ (p : Nat) (node : Node), g.nextId ≤ p ∧ p < a ∧ g'.parents[a]? = some (some p) ∧
      g'.nodes[p]? = some node ∧ a ∈ node.children

namespace Block

theorem refl (g : IRGraph) (parent : Option Nat) : Block g g [] parent where
  le := Nat.le_refl _
  nodes _ _ := rfl
  parents _ _ := rfl
  spans _ _ := rfl
  rootId := rfl
  internalNodes := rfl
  topLevelForms := rfl
  topLevelSet := rfl
  node a h1 h2 := absurd h2 (Nat.not_lt.mpr h1)
  rootsNodup := List.nodup_nil
  root r hr := absurd hr List.not_mem_nil
  link a h1 h2 := absurd h2 (Nat.not_lt.mpr h1)

/-- Two blocks in a row. -/
theorem trans {g g₁ g₂ : IRGraph} {rs rs' : List Nat} {parent : Option Nat}
    (h : Block g g₁ rs parent) (h' : Block g₁ g₂ rs' parent) : Block g g₂ (rs ++ rs') parent := by
  have hle := h.le
  have hle' := h'.le
  have hout : ∀ a, a < g.nextId ∨ g₂.nextId ≤ a →
      (a < g₁.nextId ∨ g₂.nextId ≤ a) ∧ (a < g.nextId ∨ g₁.nextId ≤ a) := by
    omega
  refine
    { le := by omega
      nodes := fun a ha => (h'.nodes a (hout a ha).1).trans (h.nodes a (hout a ha).2)
      parents := fun a ha => (h'.parents a (hout a ha).1).trans (h.parents a (hout a ha).2)
      spans := fun a ha => (h'.spans a (hout a ha).1).trans (h.spans a (hout a ha).2)
      rootId := h'.rootId.trans h.rootId
      internalNodes := h'.internalNodes.trans h.internalNodes
      topLevelForms := h'.topLevelForms.trans h.topLevelForms
      topLevelSet := h'.topLevelSet.trans h.topLevelSet
      node := ?_, rootsNodup := ?_, root := ?_, link := ?_ }
  · intro a h1 h2
    by_cases ha : a < g₁.nextId
    · obtain ⟨node, hn, hid, hnd, hch⟩ := h.node a h1 ha
      refine ⟨node, (h'.nodes a (.inl ha)).trans hn, hid, hnd, ?_⟩
      intro c hc
      obtain ⟨hlt, hlt', hp⟩ := hch c hc
      exact ⟨hlt, by omega, (h'.parents c (.inl hlt')).trans hp⟩
    · exact h'.node a (by omega) h2
  · refine List.nodup_append.mpr ⟨h.rootsNodup, h'.rootsNodup, ?_⟩
    intro a ha b hb heq
    have h1 := (h.root a ha).2.1
    have h2 := (h'.root b hb).1
    omega
  · intro r hr
    rcases List.mem_append.mp hr with hr | hr
    · obtain ⟨h1, h2, hp⟩ := h.root r hr
      exact ⟨h1, by omega, (h'.parents r (.inl h2)).trans hp⟩
    · obtain ⟨h1, h2, hp⟩ := h'.root r hr
      exact ⟨by omega, h2, hp⟩
  · intro a h1 h2
    by_cases ha : a < g₁.nextId
    · rcases h.link a h1 ha with hr | ⟨p, node, hp1, hp2, hup, hn, hmem⟩
      · exact .inl (List.mem_append_left _ hr)
      · refine .inr ⟨p, node, hp1, hp2, (h'.parents a (.inl ha)).trans hup, ?_, hmem⟩
        exact (h'.nodes p (.inl (by omega))).trans hn
    · rcases h'.link a (by omega) h2 with hr | ⟨p, node, hp1, hp2, hup, hn, hmem⟩
      · exact .inl (List.mem_append_right _ hr)
      · exact .inr ⟨p, node, by omega, hp2, hup, hn, hmem⟩

end Block

/-! ## The steps of an insertion -/

theorem allocateId_eq_ok {g g' : IRGraph} {id : Nat} (h : g.allocateId = .ok (id, g')) :
    id = g.nextId ∧ g' = { g with nextId := g.nextId + 1 } := by
  rw [allocateId] at h
  by_cases hlt : g.nextId + 1 < u32Size
  · rw [if_pos hlt, Except.ok.injEq, Prod.mk.injEq] at h
    exact ⟨h.1.symm, h.2.symm⟩
  · rw [if_neg hlt] at h
    exact absurd h (by simp)

theorem setNode_eq_ok {g g' : IRGraph} {node : Node} {parentId : Option Nat}
    (h : g.setNode node parentId = .ok g') : g' = { g with
      nodes := g.nodes.insert node.id node
      parents := g.parents.insert node.id parentId
      nextId := if g.nextId ≤ node.id then node.id + 1 else g.nextId } := by
  rw [setNode, ite_error_eq_ok] at h
  exact (Except.ok.inj h.2).symm

theorem setSourceSpan_eq_ok {g g' : IRGraph} {id : Nat} {span : SourceSpan}
    (h : g.setSourceSpan id span = .ok g') :
    id ∈ g.nodes ∧ g' = { g with sourceSpans := g.sourceSpans.insert id span } := by
  rw [setSourceSpan] at h
  by_cases hid : id ∈ g.nodes
  · rw [if_pos hid] at h
    exact ⟨hid, (Except.ok.inj h).symm⟩
  · rw [if_neg hid] at h
    exact absurd h (by simp)

theorem attachSpan_eq_ok {g g' : IRGraph} {id id' : Nat} {span : Option SourceSpan}
    (h : attachSpan id span g = (.ok id', g')) :
    id' = id ∧ ∃ spans : OrdMap Nat SourceSpan, g' = { g with sourceSpans := spans } ∧
      (∀ a : Nat, a ≠ id → spans[a]? = g.sourceSpans[a]?) ∧
      (g.sourceSpans[id]? = none → spans[id]? = span) := by
  cases span with
  | none =>
    obtain ⟨hid, hg⟩ := pure_eq_ok.mp h
    exact ⟨hid.symm, g.sourceSpans, hg.symm, fun _ _ => rfl, fun hnone => hnone⟩
  | some span =>
    obtain ⟨_, g₁, hset, hpure⟩ := bind_eq_ok.mp h
    obtain ⟨hid, hg⟩ := pure_eq_ok.mp hpure
    obtain ⟨-, hg₁⟩ := setSourceSpan_eq_ok (update_eq_ok.mp hset)
    refine ⟨hid.symm, g.sourceSpans.insert id span, hg.symm.trans hg₁, ?_, fun _ => ?_⟩
    · intro a ha
      rw [lookup_insert, if_neg (Ne.symm ha)]
    · rw [lookup_insert, if_pos rfl]

/-- A node put at the first id of a block, with the roots of the rest as its children. -/
theorem Block.root_above {g g₀ g₁ g₂ g' : IRGraph} {node : Node} {parentId : Option Nat}
    {span : Option SourceSpan} {id' : Nat} (hg₀ : g₀ = { g with nextId := g.nextId + 1 })
    (hb : Block g₀ g₁ node.children (some g.nextId)) (hid : node.id = g.nextId)
    (hset : g₁.setNode node parentId = .ok g₂)
    (hspan : attachSpan g.nextId span g₂ = (.ok id', g')) :
    id' = g.nextId ∧ Block g g' [g.nextId] parentId := by
  obtain ⟨hid', spans, hg', hspans, -⟩ := attachSpan_eq_ok hspan
  refine ⟨hid', ?_⟩
  have hg₂ := setNode_eq_ok hset
  have hle := hb.le
  have hnext₀ : g₀.nextId = g.nextId + 1 := by rw [hg₀]
  have hnext₂ : g₂.nextId = g₁.nextId := by
    rw [hg₂, hid]
    exact if_neg (by omega)
  have hnext : g'.nextId = g₁.nextId := by rw [hg', hnext₂]
  -- outside the first id the tables are those of the rest
  have hnodes : ∀ a, a ≠ g.nextId → g'.nodes[a]? = g₁.nodes[a]? := by
    intro a ha
    rw [hg', hg₂, hid, lookup_insert, if_neg (Ne.symm ha)]
  have hparents : ∀ a, a ≠ g.nextId → g'.parents[a]? = g₁.parents[a]? := by
    intro a ha
    rw [hg', hg₂, hid, lookup_insert, if_neg (Ne.symm ha)]
  have hspans' : ∀ a, a ≠ g.nextId → g'.sourceSpans[a]? = g₁.sourceSpans[a]? := by
    intro a ha
    rw [hg', hspans a ha, hg₂]
  have hfirst : g'.nodes[g.nextId]? = some node := by
    rw [hg', hg₂, hid, lookup_insert, if_pos rfl]
  have hfirstParent : g'.parents[g.nextId]? = some parentId := by
    rw [hg', hg₂, hid, lookup_insert, if_pos rfl]
  refine
    { le := by omega
      nodes := fun a ha => (hnodes a (by omega)).trans ((hb.nodes a (by omega)).trans (by rw [hg₀]))
      parents := fun a ha =>
        (hparents a (by omega)).trans ((hb.parents a (by omega)).trans (by rw [hg₀]))
      spans := fun a ha =>
        (hspans' a (by omega)).trans ((hb.spans a (by omega)).trans (by rw [hg₀]))
      rootId := by rw [hg', hg₂, hb.rootId, hg₀]
      internalNodes := by rw [hg', hg₂, hb.internalNodes, hg₀]
      topLevelForms := by rw [hg', hg₂, hb.topLevelForms, hg₀]
      topLevelSet := by rw [hg', hg₂, hb.topLevelSet, hg₀]
      node := ?_, rootsNodup := List.nodup_singleton _, root := ?_, link := ?_ }
  · intro a h1 h2
    by_cases ha : a = g.nextId
    · rw [ha]
      refine ⟨node, hfirst, hid, hb.rootsNodup, ?_⟩
      intro c hc
      obtain ⟨hc1, hc2, hp⟩ := hb.root c hc
      exact ⟨by omega, by omega, (hparents c (by omega)).trans hp⟩
    · obtain ⟨n, hn, hnid, hnd, hch⟩ := hb.node a (by omega) (by omega)
      refine ⟨n, (hnodes a ha).trans hn, hnid, hnd, ?_⟩
      intro c hc
      obtain ⟨hlt, hlt', hp⟩ := hch c hc
      exact ⟨hlt, by omega, (hparents c (by omega)).trans hp⟩
  · intro r hr
    rw [List.mem_singleton.mp hr]
    exact ⟨Nat.le_refl _, by omega, hfirstParent⟩
  · intro a h1 h2
    by_cases ha : a = g.nextId
    · exact .inl (List.mem_singleton.mpr ha)
    · rcases hb.link a (by omega) (by omega) with hr | ⟨p, n, hp1, hp2, hup, hn, hmem⟩
      · refine .inr ⟨g.nextId, node, Nat.le_refl _, by omega, ?_, hfirst, hr⟩
        exact (hparents a ha).trans (hb.root a hr).2.2
      · exact .inr ⟨p, n, by omega, hp2, (hparents a ha).trans hup,
          (hnodes p (by omega)).trans hn, hmem⟩

mutual

/-- A successful insertion fills a block whose root is the first id. -/
theorem insertExprSpecInto_block (spec : ExprSpec) {parentId : Option Nat} {g g' : IRGraph}
    {id : Nat} (h : insertExprSpecInto spec parentId g = (.ok id, g')) :
    id = g.nextId ∧ Block g g' [id] parentId := by
  match spec with
  | .name identifier span =>
    rw [insertExprSpecInto] at h
    obtain ⟨id₁, g₁, halloc, h⟩ := bind_eq_ok.mp h
    obtain ⟨rfl, hg₁⟩ := allocateId_eq_ok (call_eq_ok.mp halloc)
    obtain ⟨node, g₂, hcheck, h⟩ := bind_eq_ok.mp h
    obtain ⟨hname, rfl⟩ := check_eq_ok.mp hcheck
    obtain ⟨_, g₃, hset, hspan⟩ := bind_eq_ok.mp h
    obtain ⟨-, hnode⟩ := ite_error_eq_ok.mp hname
    have hnode : Node.name g.nextId identifier = node := Except.ok.inj hnode
    subst hnode
    obtain ⟨rfl, hb⟩ := Block.root_above hg₁ (Block.refl _ _) rfl
      (update_eq_ok.mp hset) hspan
    exact ⟨rfl, hb⟩
  | .literal value span =>
    rw [insertExprSpecInto] at h
    obtain ⟨id₁, g₁, halloc, h⟩ := bind_eq_ok.mp h
    obtain ⟨rfl, hg₁⟩ := allocateId_eq_ok (call_eq_ok.mp halloc)
    obtain ⟨_, g₂, hset, hspan⟩ := bind_eq_ok.mp h
    obtain ⟨rfl, hb⟩ := Block.root_above hg₁ (Block.refl _ _) rfl
      (update_eq_ok.mp hset) hspan
    exact ⟨rfl, hb⟩
  | .call callee args span =>
    rw [insertExprSpecInto] at h
    obtain ⟨id₁, g₁, halloc, h⟩ := bind_eq_ok.mp h
    obtain ⟨rfl, hg₁⟩ := allocateId_eq_ok (call_eq_ok.mp halloc)
    obtain ⟨calleeId, g₂, hcallee, h⟩ := bind_eq_ok.mp h
    obtain ⟨argIds, g₃, hargs, h⟩ := bind_eq_ok.mp h
    obtain ⟨_, g₄, hcheck, h⟩ := bind_eq_ok.mp h
    obtain ⟨-, rfl⟩ := check_eq_ok.mp hcheck
    obtain ⟨_, g₅, hset, hspan⟩ := bind_eq_ok.mp h
    have hb₁ := (insertExprSpecInto_block callee hcallee).2
    have hb₂ := insertArgs_block args hargs
    obtain ⟨rfl, hb⟩ := Block.root_above hg₁ (hb₁.trans hb₂) rfl (update_eq_ok.mp hset)
      hspan
    exact ⟨rfl, hb⟩

/-- Inserting a list of expressions fills one block with their roots. -/
theorem insertArgs_block (specs : List ExprSpec) {parentId : Option Nat} {g g' : IRGraph}
    {ids : List Nat} (h : insertArgs specs parentId g = (.ok ids, g')) :
    Block g g' ids parentId := by
  match specs with
  | [] =>
    rw [insertArgs] at h
    obtain ⟨rfl, rfl⟩ := pure_eq_ok.mp h
    exact Block.refl g parentId
  | spec :: rest =>
    rw [insertArgs] at h
    obtain ⟨id, g₁, hspec, h⟩ := bind_eq_ok.mp h
    obtain ⟨ids', g₂, hrest, h⟩ := bind_eq_ok.mp h
    obtain ⟨rfl, rfl⟩ := pure_eq_ok.mp h
    exact (insertExprSpecInto_block spec hspec).2.trans (insertArgs_block rest hrest)

end

/-! ## The graph with the block -/

namespace Block

variable {g g' : IRGraph} {r : Nat} {root : Nat → Prop}

/-- Every parent chain of the block stops at its root. -/
theorem ends (hb : Block g g' [r] none) {a : Nat} (h1 : g.nextId ≤ a) (h2 : a < g'.nextId) :
    Ends (fun a => (g'.up a).join) a := by
  induction a using Nat.strong_induction_on with
  | _ a ih =>
    rcases hb.link a h1 h2 with hr | ⟨p, node, hp1, hp2, hup, -, -⟩
    · refine .stop ?_
      rw [up, (hb.root a hr).2.2]
      rfl
    · refine .step (b := p) ?_ (ih p hp2 hp1 (by omega))
      rw [up, hup]
      rfl

theorem forest (hb : Block g g' [r] none) (h : g.Sound root) :
    Forest g'.kids g'.up (fun a => root a ∨ a = r) := by
  have hout : ∀ a, ¬ (g.nextId ≤ a ∧ a < g'.nextId) → a < g.nextId ∨ g'.nextId ≤ a := by
    omega
  refine h.forest.extend (fun a => g.nextId ≤ a ∧ a < g'.nextId) ?_ ?_ ?_ ?_ ?_ ?_ ?_ ?_ ?_
  · intro a ha
    exact ⟨by rw [kids, kids, hb.nodes a (hout a ha)], hb.parents a (hout a ha)⟩
  · rintro a ⟨h1, h2⟩
    by_contra hne
    have hlt := h.below a (isSome_kids.mp (isSome_iff_ne_none.mpr hne))
    omega
  · rintro a ⟨h1, h2⟩
    obtain ⟨node, hn, -⟩ := hb.node a h1 h2
    have hk : (g'.kids a).isSome = true := isSome_kids.mpr (mem_of_lookup hn)
    refine ⟨fun _ => hk, fun _ => ?_⟩
    rcases hb.link a h1 h2 with hr | ⟨p, n, -, -, hup, -⟩
    · rw [up, (hb.root a hr).2.2]
      rfl
    · rw [up, hup]
      rfl
  · rintro a cs ⟨h1, h2⟩ hk
    obtain ⟨node, hn, -, hnd, -⟩ := hb.node a h1 h2
    obtain ⟨node', hn', rfl⟩ := kids_eq_some.mp hk
    rw [hn, some.injEq] at hn'
    exact hn' ▸ hnd
  · rintro a cs c ⟨h1, h2⟩ hk hc
    obtain ⟨node, hn, -, -, hch⟩ := hb.node a h1 h2
    obtain ⟨node', hn', rfl⟩ := kids_eq_some.mp hk
    rw [hn, some.injEq] at hn'
    obtain ⟨hlt, hlt', hup⟩ := hch c (hn' ▸ hc)
    exact ⟨⟨by omega, hlt'⟩, hup⟩
  · rintro a p ⟨h1, h2⟩ hup
    rcases hb.link a h1 h2 with hr | ⟨q, node, hq1, hq2, hup', hn, hmem⟩
    · rw [up, (hb.root a hr).2.2] at hup
      exact absurd hup (by simp)
    · rw [up, hup', some.injEq, some.injEq] at hup
      rw [← hup]
      exact ⟨⟨hq1, by omega⟩, node.children, kids_eq_some.mpr ⟨node, hn, rfl⟩, hmem⟩
  · rintro a ⟨h1, h2⟩
    rcases hb.link a h1 h2 with hr | ⟨q, node, hq1, hq2, hup, -, -⟩
    · rw [up, (hb.root a hr).2.2]
      simpa using hr
    · rw [up, hup]
      simp only [some.injEq, reduceCtorEq, false_iff]
      rintro rfl
      rw [(hb.root a (List.mem_singleton_self _)).2.2] at hup
      exact absurd hup (by simp)
  · rintro a rfl
    obtain ⟨h1, h2, -⟩ := hb.root a (List.mem_singleton_self _)
    exact ⟨h1, h2⟩
  · rintro a ⟨h1, h2⟩
    exact hb.ends h1 h2

/-- A node outside the block is one before, and one in it is new. -/
theorem mem_nodes (hb : Block g g' [r] none) {a : Nat} :
    a ∈ g'.nodes ↔ (g.nextId ≤ a ∧ a < g'.nextId) ∨
      ((a < g.nextId ∨ g'.nextId ≤ a) ∧ a ∈ g.nodes) := by
  by_cases hin : g.nextId ≤ a ∧ a < g'.nextId
  · obtain ⟨node, hn, -⟩ := hb.node a hin.1 hin.2
    exact ⟨fun _ => .inl hin, fun _ => mem_of_lookup hn⟩
  · have hout : a < g.nextId ∨ g'.nextId ≤ a := by omega
    rw [mem_congr (n := g.nodes) (by rw [hb.nodes a hout])]
    exact ⟨fun ha => .inr ⟨hout, ha⟩, fun ha => (ha.resolve_left hin).2⟩

/-- A node of the graph before stays one. -/
theorem mem_of_mem (hb : Block g g' [r] none) (h : g.Stored) {a : Nat} (ha : a ∈ g.nodes) :
    a ∈ g'.nodes := hb.mem_nodes.mpr (.inr ⟨.inl (h.below a ha), ha⟩)

theorem stored (hb : Block g g' [r] none) (h : g.Stored) : g'.Stored where
  keyed := by
    intro id node hn
    by_cases hid : g.nextId ≤ id ∧ id < g'.nextId
    · obtain ⟨node', hn', hkey, -⟩ := hb.node id hid.1 hid.2
      rw [hn, some.injEq] at hn'
      exact hn' ▸ hkey
    · rw [hb.nodes id (by omega)] at hn
      exact h.keyed hn
  formsNodup := hb.topLevelForms ▸ h.formsNodup
  formsMem id hid := hb.mem_of_mem h (h.formsMem id (hb.topLevelForms ▸ hid))
  formsSet id := by
    rw [hb.topLevelForms, hb.topLevelSet]
    exact h.formsSet id
  below id hid := by
    have hle := hb.le
    rcases hb.mem_nodes.mp hid with hin | ⟨-, hid⟩
    · omega
    · have hlt := h.below id hid
      omega

/-- Inserting a tree keeps the tables in agreement, with one root more. -/
theorem sound (hb : Block g g' [r] none) (h : g.Sound root) : g'.Sound (fun a => root a ∨ a = r) :=
  { hb.stored h.toStored with
    forest := hb.forest h
    spans := by
      intro id hid
      by_cases hin : g.nextId ≤ id ∧ id < g'.nextId
      · exact hb.mem_nodes.mpr (.inl hin)
      · have hout : id < g.nextId ∨ g'.nextId ≤ id := by omega
        rw [mem_congr (n := g.sourceSpans) (by rw [hb.spans id hout])] at hid
        exact hb.mem_of_mem h.toStored (h.spans id hid)
    internal := by
      intro id hid
      rw [hb.internalNodes] at hid
      obtain ⟨node, hn, hname⟩ := h.internal id hid
      have hlt := h.below id (mem_of_lookup hn)
      exact ⟨node, (hb.nodes id (.inl hlt)).trans hn, hname⟩ }

end Block

end IRGraph

end Caap
