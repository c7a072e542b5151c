/-
  Caap.Ir.Mutators

  The graph operations behind the IR mutators of a unit keep a rooted graph rooted:
  appending a top-level expression, erasing a subtree, replacing a subtree, choosing
  another root and reordering the top-level forms.
-/

import Caap.Ir.Insertion
import Caap.Ir.Removal

namespace Caap

open Std Lib OrdMap List

namespace IRGraph

/-! ## What the requirements establish -/

variable {id : Nat}

variable {g : IRGraph}

theorem requireNode_eq_ok {label : String} :
    g.requireNode id label = .ok () ↔ id ∈ g.nodes := ite_ok_eq_ok

theorem requireDetachedTopLevelForm_eq_ok :
    g.requireDetachedTopLevelForm id = .ok () ↔ id ∈ g.nodes ∧ g.parentOf id = none := by
  simp only [requireDetachedTopLevelForm, check_bind_eq_ok, requireNode_eq_ok, ite_error_eq_ok,
    and_true, Option.not_isSome_iff_eq_none]

theorem hasTopLevelForm_iff : g.hasTopLevelForm id = true ↔ id ∈ g.topLevelSet := decide_eq_true_iff

theorem requireNewSubtreeRoot_eq_ok : g.requireNewSubtreeRoot id = .ok () ↔
      id ∈ g.nodes ∧ g.parentOf id = none ∧ id ∉ g.topLevelSet := by
  simp only [requireNewSubtreeRoot, check_bind_eq_ok, requireNode_eq_ok, ite_error_eq_ok,
    and_true, Option.not_isSome_iff_eq_none, hasTopLevelForm_iff]

theorem requireNewTopLevelForm_eq_ok : g.requireNewTopLevelForm id = .ok () ↔
      (id ∈ g.nodes ∧ g.parentOf id = none) ∧ id ∉ g.topLevelSet := by
  simp only [requireNewTopLevelForm, check_bind_eq_ok, requireDetachedTopLevelForm_eq_ok,
    ite_error_eq_ok, and_true, hasTopLevelForm_iff]

variable {g' : IRGraph}

theorem addTopLevelForm_eq_ok (h : g.addTopLevelForm id = .ok g') :
    (id ∈ g.nodes ∧ g.parentOf id = none) ∧ g' = if id ∈ g.topLevelSet then g else
        { g with
          topLevelSet := g.topLevelSet.insert id ()
          rootId := if g.topLevelForms.isEmpty then id else g.rootId
          topLevelForms := g.topLevelForms ++ [id] } := by
  simp only [addTopLevelForm, check_bind_eq_ok, requireDetachedTopLevelForm_eq_ok] at h
  refine ⟨h.1, ?_⟩
  by_cases hid : id ∈ g.topLevelSet
  · simp only [if_pos hid] at h ⊢
    exact (Except.ok.inj h.2).symm
  · simp only [if_neg hid] at h ⊢
    exact (Except.ok.inj h.2).symm

theorem setTopLevelFormIds_eq_ok {formIds : List Nat} : g.setTopLevelFormIds formIds = .ok g' ↔
      ((∀ id ∈ formIds, id ∈ g.nodes ∧ g.parentOf id = none) ∧ formIds.Nodup) ∧
      { g with topLevelSet := OrdSet.ofList formIds, topLevelForms := formIds } = g' := by
  simp only [setTopLevelFormIds, check_bind_eq_ok, checkDistinct_eq_ok,
    requireDetachedTopLevelForm_eq_ok, map_id, not_mem_nil, not_false_eq_true,
    implies_true, and_true, Except.ok.injEq]

theorem eraseDetachedSubtree_eq_ok {r : List Nat × IRGraph} : g.eraseDetachedSubtree id = .ok r ↔
      id ∈ g.nodes ∧ g.parentOf id = none ∧ g.removeSubtreeStorage id = r := by
  simp only [eraseDetachedSubtree, check_bind_eq_ok, requireNode_eq_ok, ite_error_eq_ok,
    Option.not_isSome_iff_eq_none, Except.ok.injEq]

theorem topLevelIndex_eq_ok {index : Nat} (h : g.topLevelIndex id = .ok index) :
    g.topLevelForms.idxOf? id = some index := by
  rw [topLevelIndex] at h
  cases hidx : g.topLevelForms.idxOf? id with
  | none =>
    rw [hidx] at h
    exact absurd h (by simp)
  | some i =>
    rw [hidx] at h
    rw [Except.ok.inj h]

variable {oldId newId : Nat}

theorem replaceTopLevelForm_eq_ok (hne : oldId ≠ newId)
    (h : g.replaceTopLevelForm oldId newId = .ok g') :
    ∃ index, g.topLevelForms.idxOf? oldId = some index ∧ g' = { g with
        topLevelForms := g.topLevelForms.set index newId
        topLevelSet := (g.topLevelSet.erase oldId).insert newId () } := by
  simp only [replaceTopLevelForm, bind_eq_ok] at h
  obtain ⟨index, hidx, h⟩ := h
  rw [if_neg hne, check_bind_eq_ok] at h
  exact ⟨index, topLevelIndex_eq_ok hidx, (Except.ok.inj h.2).symm⟩

/-! ## Rooted graphs -/

/-- In a graph whose tables agree, a node without a parent is a root. -/
theorem Sound.root_of_parentOf {root : Nat → Prop} (h : g.Sound root)
    (hid : id ∈ g.nodes) (hp : g.parentOf id = none) : root id := by
  obtain ⟨o, ho⟩ := Option.isSome_iff_exists.mp ((h.forest.dom id).mpr (isSome_kids.mpr hid))
  have hnone : o = none := by
    rw [parentOf, show g.parents[id]? = some o from ho] at hp
    exact hp
  exact (h.forest.roots id).mp (hnone ▸ ho)

theorem Rooted.setRootId (h : g.Rooted) (hid : id ∈ g.nodes) :
    ({ g with rootId := id } : IRGraph).Rooted :=
  { h with rootMem := fun _ => hid }

/-- Reordering the top-level forms: a list of detached nodes that leaves no form out. -/
theorem Rooted.setTopLevelFormIds (h : g.Rooted) {formIds : List Nat}
    (hset : g.setTopLevelFormIds formIds = .ok g') (hall : ∀ id ∈ g.topLevelForms, id ∈ formIds) :
    g'.Rooted := by
  obtain ⟨⟨hdetached, hnodup⟩, hg'⟩ := setTopLevelFormIds_eq_ok.mp hset
  have hforms : ∀ id, id ∈ g.topLevelForms ↔ id ∈ formIds := by
    intro id
    refine ⟨hall id, fun hid => ?_⟩
    exact h.root_of_parentOf (hdetached id hid).1 (hdetached id hid).2
  subst hg'
  exact
    { h with
      formsNodup := hnodup
      formsMem := fun id hid => (hdetached id hid).1
      formsSet := fun id => by rw [ExtTreeMap.mem_iff_isSome_getElem?, OrdSet.isSome_ofList]
      forest := h.forest.congr_root hforms }

variable {dropped : List Nat}

/-- Erasing a subtree. -/
theorem Rooted.eraseDetachedSubtree (h : g.Rooted)
    (herase : g.eraseDetachedSubtree id = .ok (dropped, g')) : g'.Rooted := by
  obtain ⟨hid, hp, hg'⟩ := eraseDetachedSubtree_eq_ok.mp herase
  have hform : id ∈ g.topLevelForms := h.root_of_parentOf hid hp
  have hpruned := removeSubtreeStorage_pruned h.toStored id
  rw [hg'] at hpruned
  have hroots : ∀ a, (a ∈ g.topLevelForms ∧ a ≠ id) ↔ a ∈ g'.topLevelForms := by
    intro a
    rw [hpruned.mem_forms]
    refine and_congr_right fun ha => not_congr ⟨?_, ?_⟩
    · rintro rfl
      exact .refl
    · intro hb
      exact h.forest.eq_of_below_of_root hb ha
  have hsound := h.toSound.removeSubtreeStorage hform
  rw [hg'] at hsound
  exact { hsound.congr_root hroots with rootMem := hpruned.rootMem h.rootMem }

/-- Appending a top-level expression. -/
theorem Rooted.append {g₁ : IRGraph} (h : g.Rooted) {spec : ExprSpec}
    (hinsert : insertExprSpec spec g = (.ok id, g₁)) (hadd : g₁.addTopLevelForm id = .ok g') :
    g'.Rooted := by
  obtain ⟨rfl, hb⟩ := insertExprSpecInto_block spec hinsert
  have hsound := hb.sound h.toSound
  have hnew : g.nextId ∉ g₁.topLevelSet := by
    rw [hb.topLevelSet, h.formsSet]
    intro hmem
    have hlt := h.below _ (h.formsMem _ hmem)
    omega
  have hnode : g.nextId ∈ g₁.nodes := by
    obtain ⟨h1, h2, -⟩ := hb.root _ (mem_singleton_self _)
    exact hb.mem_nodes.mpr (.inl ⟨h1, h2⟩)
  obtain ⟨-, hg'⟩ := addTopLevelForm_eq_ok hadd
  rw [if_neg hnew] at hg'
  subst hg'
  have hmem (a : Nat) : (a ∈ g.topLevelForms ∨ a = g.nextId) ↔ a ∈ g₁.topLevelForms ++ [g.nextId] := by
    rw [hb.topLevelForms, mem_append, mem_singleton]
  refine
    { hsound with
      formsNodup := ?_
      formsMem := ?_
      formsSet := ?_
      forest := hsound.forest.congr_root hmem
      rootMem := fun _ => ?_ }
  · show (g₁.topLevelForms ++ [g.nextId]).Nodup
    rw [hb.topLevelForms, nodup_append]
    refine ⟨h.formsNodup, nodup_singleton _, ?_⟩
    rintro a ha b hb' rfl
    rw [mem_singleton.mp hb'] at ha
    exact absurd (h.below _ (h.formsMem _ ha)) (Nat.lt_irrefl _)
  · intro a ha
    rcases (hmem a).mpr ha with ha | ha
    · exact hb.mem_of_mem h.toStored (h.formsMem a ha)
    · exact ha ▸ hnode
  · intro a
    rw [← hmem, mem_insert, hb.topLevelSet, h.formsSet, or_comm]
  · show (if g₁.topLevelForms.isEmpty then g.nextId else g₁.rootId) ∈ g₁.nodes
    by_cases hempty : g₁.topLevelForms.isEmpty = true
    · rw [if_pos hempty]
      exact hnode
    · rw [if_neg hempty, hb.rootId]
      refine hb.mem_of_mem h.toStored (h.rootMem ?_)
      intro hnil
      rw [hb.topLevelForms, List.isEmpty_iff] at hempty
      refine hempty (eq_nil_iff_forall_not_mem.mpr fun a ha => ?_)
      have hmem := h.formsMem a ha
      rw [hnil] at hmem
      exact ExtTreeMap.not_mem_empty hmem

/-! ## Replacing a subtree -/

/-- A rooted graph with one tree beside its top-level forms, whose root has an id that was
    free before. -/
structure Pending (g : IRGraph) (newId : Nat) : Prop extends
    Sound g (fun a => a ∈ g.topLevelForms ∨ a = newId) where
  newForm : newId ∉ g.topLevelForms
  rootMem : g.rootId ∈ g.nodes

/-- A chain of parents that starts at an old node stays among them. -/
theorem Block.not_leads {r : Nat} (hb : Block g g' [r] none) (h : g.Rooted)
    {a : Nat} (ha : a ∈ g.nodes) : ¬ Leads (fun a => (g'.up a).join) a r := by
  have hold : ∀ {a b}, Leads (fun a => (g'.up a).join) a b → a ∈ g.nodes → b ∈ g.nodes := by
    intro a b hl
    induction hl with
    | here => exact id
    | @step a p b hs _ ih =>
      intro ha
      refine ih ?_
      have hup : g.up a = some (some p) := by
        rw [up, ← hb.parents a (.inl (h.below a ha))]
        exact Option.join_eq_some_iff.mp hs
      obtain ⟨cs, hk, -⟩ := h.forest.parent hup
      exact isSome_kids.mp (by rw [hk]; rfl)
  intro hl
  have hlt := h.below r (hold hl ha)
  have hge := (hb.root r (mem_singleton_self _)).1
  omega

theorem Block.pending {r : Nat} (hb : Block g g' [r] none) (h : g.Rooted)
    (hne : g.nodes ≠ ∅) : g'.Pending r := by
  have hsound := hb.sound h.toSound
  rw [← hb.topLevelForms] at hsound
  refine { hsound with newForm := ?_, rootMem := ?_ }
  · rw [hb.topLevelForms]
    intro hmem
    have hlt := h.below r (h.formsMem r hmem)
    have hge := (hb.root r (mem_singleton_self _)).1
    omega
  · rw [hb.rootId]
    exact hb.mem_of_mem h.toStored (h.rootMem hne)

/-- Exchanging the first occurrence is exchanging every one, where there is only one. -/
theorem set_idxOf_eq_map {l : List Nat} (hnd : l.Nodup) {old index : Nat}
    (hidx : l.idxOf? old = some index) (new : Nat) :
    l.set index new = l.map fun a => if a = old then new else a := by
  obtain ⟨hlt, hget, -⟩ := idxOf?_eq_some_iff.mp hidx
  have hold : l[index] = old := by simpa using hget
  refine ext_getElem (by simp) ?_
  intro i hi hi'
  rw [getElem_set, getElem_map]
  by_cases hii : index = i
  · subst hii
    rw [if_pos rfl, if_pos hold]
  · rw [if_neg hii, if_neg]
    intro heq
    exact hii (hnd.getElem_inj_iff.mp (hold.trans heq.symm))

theorem mem_set_idxOf {l : List Nat} (hnd : l.Nodup) {old new index : Nat}
    (hidx : l.idxOf? old = some index) (a : Nat) :
    a ∈ l.set index new ↔ (a ∈ l ∧ a ≠ old) ∨ a = new := by
  rw [set_idxOf_eq_map hnd hidx, mem_map]
  constructor
  · rintro ⟨x, hx, rfl⟩
    by_cases hxo : x = old
    · exact .inr (if_pos hxo)
    · rw [if_neg hxo]
      exact .inl ⟨hx, hxo⟩
  · rintro (⟨ha, hne⟩ | rfl)
    · exact ⟨a, ha, if_neg hne⟩
    · exact ⟨old, mem_of_idxOf? hidx, if_pos rfl⟩

/-- The branch for a top-level form. -/
theorem Pending.replaceTopLevelSubtree (h : g.Pending newId) (hne : oldId ≠ newId)
    (hrun : replaceTopLevelSubtree oldId newId g = (.ok dropped, g')) : g'.Rooted := by
  rw [IRGraph.replaceTopLevelSubtree] at hrun
  obtain ⟨_, g₁, hreplace, hrun⟩ := Action.bind_eq_ok.mp hrun
  obtain ⟨_, g₂, hroot, hrun⟩ := Action.bind_eq_ok.mp hrun
  obtain ⟨index, hidx, hg₁⟩ := replaceTopLevelForm_eq_ok hne (Action.update_eq_ok.mp hreplace)
  have hrun := Except.ok.inj (Action.call_eq_ok.mp hrun)
  have hg' : (g₂.removeSubtreeStorage oldId).2 = g' := by rw [hrun]
  -- only the forms, their set and the root differ before the removal
  have hg₂ : g₂ = { g with
      topLevelForms := g.topLevelForms.set index newId
      topLevelSet := (g.topLevelSet.erase oldId).insert newId ()
      rootId := if g.rootId = oldId then newId else g.rootId } := by
    rw [← Action.modify_eq_ok.mp hroot, hg₁]
    by_cases hr : g.rootId = oldId <;> simp [hr]
  subst hg₂
  have hmem (a : Nat) : a ∈ g.topLevelForms.set index newId ↔
      (a ∈ g.topLevelForms ∧ a ≠ oldId) ∨ a = newId :=
    mem_set_idxOf h.formsNodup hidx a
  have hold : oldId ∈ g.topLevelForms := mem_of_idxOf? hidx
  have hnew : newId ∈ g.nodes := by
    have hup := (h.forest.roots newId).mpr (.inr rfl)
    exact isSome_kids.mp ((h.forest.dom newId).mp (by rw [hup]; rfl))
  have hsound : IRGraph.Sound { g with
      topLevelForms := g.topLevelForms.set index newId
      topLevelSet := (g.topLevelSet.erase oldId).insert newId ()
      rootId := if g.rootId = oldId then newId else g.rootId }
      (fun a => a ∈ g.topLevelForms ∨ a = newId) :=
    { h.toSound with
      formsNodup := h.formsNodup.set h.newForm
      formsMem := by
        intro a ha
        rcases (hmem a).mp ha with ⟨ha, -⟩ | ha
        · exact h.formsMem a ha
        · exact ha ▸ hnew
      formsSet := by
        intro a
        rw [mem_insert, mem_erase, h.formsSet, hmem, or_comm] }
  have hpruned := removeSubtreeStorage_pruned hsound.toStored oldId
  have hfinal := hsound.removeSubtreeStorage (r := oldId) (.inl hold)
  rw [hg'] at hpruned hfinal
  have hroots : ∀ a, ((a ∈ g.topLevelForms ∨ a = newId) ∧ a ≠ oldId) ↔ a ∈ g'.topLevelForms := by
    intro a
    rw [hpruned.mem_forms, hmem]
    constructor
    · rintro ⟨hroot, hne⟩
      refine ⟨hroot.imp_left fun ha => ⟨ha, hne⟩, ?_⟩
      intro hb
      exact hne (hsound.forest.eq_of_below_of_root hb hroot)
    · rintro ⟨ha, hb⟩
      refine ⟨ha.imp_left And.left, ?_⟩
      rintro rfl
      exact hb .refl
  refine { hfinal.congr_root hroots with rootMem := hpruned.rootMem fun _ => ?_ }
  show (if g.rootId = oldId then newId else g.rootId) ∈ g.nodes
  by_cases hr : g.rootId = oldId
  · rw [if_pos hr]
    exact hnew
  · rw [if_neg hr]
    exact h.rootMem

theorem rewriteParentChild_eq_ok {parent rewritten : Node}
    (h : rewriteParentChild parent oldId newId = .ok rewritten) :
    parent.isName = false ∧ rewritten.id = parent.id ∧
      rewritten.children = parent.children.map fun c => if c = oldId then newId else c := by
  cases parent with
  | name | literal => exact absurd h (by simp [rewriteParentChild])
  | call id callee args =>
    rw [rewriteParentChild] at h
    by_cases hc : callee = oldId ∨ oldId ∈ args
    · rw [if_pos hc] at h
      rw [← Except.ok.inj h]
      exact ⟨rfl, rfl, rfl⟩
    · rw [if_neg hc] at h
      exact absurd h (by simp)

theorem rewrittenParent_eq_ok {r : Nat × Node} (h : g.rewrittenParent oldId newId = .ok r) :
    g.parentOf oldId = some r.1 ∧ ∃ parent, g.nodes[r.1]? = some parent ∧
      rewriteParentChild parent oldId newId = .ok r.2 := by
  rw [rewrittenParent] at h
  cases hp : g.parentOf oldId with
  | none =>
    rw [hp] at h
    exact absurd h (by simp)
  | some parentId =>
    rw [hp] at h
    simp only at h
    cases hn : g.nodes[parentId]? with
    | none =>
      rw [hn] at h
      exact absurd h (by simp)
    | some parent =>
      rw [hn, bind_eq_ok] at h
      obtain ⟨rewritten, hrw, hr⟩ := h
      rw [← Except.ok.inj hr]
      exact ⟨rfl, parent, hn, hrw⟩

theorem replaceNode_eq_ok {nodeId : Nat} {node : Node} (h : g.replaceNode nodeId node = .ok g') :
    node.id = nodeId ∧ g' = { g with nodes := g.nodes.insert nodeId node } := by
  simp only [replaceNode, check_bind_eq_ok, ite_error_eq_ok, ne_eq, Decidable.not_not] at h
  exact ⟨h.2.1, (Except.ok.inj h.2.2.2).symm⟩

/-- `g'` is `g` with the tree at `newId` hung below `parentId` in the place of `oldId`, which
    still has its parent entry. -/
structure Relinked (g g' : IRGraph) (oldId newId parentId : Nat) : Prop where
  parentOf : g.parentOf oldId = some parentId
  node : ∃ parent rewritten : Node, g.nodes[parentId]? = some parent ∧ parent.isName = false ∧
    rewritten.id = parentId ∧
    (rewritten.children = parent.children.map fun c => if c = oldId then newId else c) ∧
    g'.nodes = g.nodes.insert parentId rewritten
  parents : g'.parents = g.parents.insert newId (some parentId)
  sourceSpans : g'.sourceSpans = g.sourceSpans
  internalNodes : g'.internalNodes = g.internalNodes
  topLevelForms : g'.topLevelForms = g.topLevelForms
  topLevelSet : g'.topLevelSet = g.topLevelSet
  nextId : g'.nextId = g.nextId
  rootId : g'.rootId = g.rootId

/-- The branch for a subtree below a call links the new tree and then removes the old one. -/
theorem replaceChildSubtree_eq_ok (h : replaceChildSubtree oldId newId g = (.ok dropped, g')) :
    ∃ parentId g₁, Relinked g g₁ oldId newId parentId ∧ (g₁.removeSubtreeStorage oldId).2 = g' := by
  rw [replaceChildSubtree] at h
  obtain ⟨⟨parentId, rewritten⟩, g₁, hcheck, h⟩ := Action.bind_eq_ok.mp h
  obtain ⟨hparent, rfl⟩ := Action.check_eq_ok.mp hcheck
  obtain ⟨_, g₂, hlink, h⟩ := Action.bind_eq_ok.mp h
  obtain ⟨_, g₃, hreplace, h⟩ := Action.bind_eq_ok.mp h
  have hremove := Except.ok.inj (Action.call_eq_ok.mp h)
  obtain ⟨hp, parent, hn, hrw⟩ := rewrittenParent_eq_ok hparent
  obtain ⟨hname, -, hchildren⟩ := rewriteParentChild_eq_ok hrw
  have hg₂ := Action.modify_eq_ok.mp hlink
  obtain ⟨hkey, hg₃⟩ := replaceNode_eq_ok (Action.update_eq_ok.mp hreplace)
  rw [← hg₂] at hg₃
  refine ⟨parentId, g₃, ?_, by rw [hremove]⟩
  exact
    { parentOf := hp
      node := ⟨parent, rewritten, hn, hname, hkey, hchildren, by rw [hg₃]⟩
      parents := by rw [hg₃]
      sourceSpans := by rw [hg₃]
      internalNodes := by rw [hg₃]
      topLevelForms := by rw [hg₃]
      topLevelSet := by rw [hg₃]
      nextId := by rw [hg₃]
      rootId := by rw [hg₃] }

namespace Relinked

variable {g g' : IRGraph} {oldId newId parentId : Nat}

section

variable (hr : Relinked g g' oldId newId parentId)

include hr

theorem mem_nodes {a : Nat} :
    a ∈ g'.nodes ↔ a ∈ g.nodes := by
  obtain ⟨parent, rewritten, hn, -, -, -, hnodes⟩ := hr.node
  rw [hnodes, mem_insert]
  refine ⟨?_, .inr⟩
  rintro (rfl | ha)
  · exact mem_of_lookup hn
  · exact ha

theorem stored (h : g.Stored) : g'.Stored where
  keyed := by
    obtain ⟨parent, rewritten, hn, -, hkey, -, hnodes⟩ := hr.node
    intro id node hnode
    rw [hnodes, lookup_insert] at hnode
    by_cases hpid : parentId = id
    · rw [if_pos hpid, Option.some.injEq] at hnode
      rw [← hnode, hkey, hpid]
    · rw [if_neg hpid] at hnode
      exact h.keyed hnode
  formsNodup := hr.topLevelForms ▸ h.formsNodup
  formsMem a ha := hr.mem_nodes.mpr (h.formsMem a (hr.topLevelForms ▸ ha))
  formsSet := by
    rw [hr.topLevelForms, hr.topLevelSet]
    exact h.formsSet
  below a ha := by
    rw [hr.nextId]
    exact h.below a (hr.mem_nodes.mp ha)

/-- A name node is not the parent that was rewritten. -/
theorem internal {node : Node}
    (hn : g.nodes[id]? = some node) (hname : node.isName = true) : g'.nodes[id]? = some node := by
  obtain ⟨parent, rewritten, hp, hcall, -, -, hnodes⟩ := hr.node
  rw [hnodes, lookup_insert, if_neg]
  · exact hn
  · rintro rfl
    rw [hp, Option.some.injEq] at hn
    rw [hn, hname] at hcall
    exact absurd hcall (by simp)

theorem kids_eq {cs : List Nat}
    (hk : g.kids parentId = some cs) (a : Nat) :
    g'.kids a = if a = parentId then some (cs.map fun c => if c = oldId then newId else c)
      else g.kids a := by
  obtain ⟨parent, rewritten, hp, -, -, hchildren, hnodes⟩ := hr.node
  obtain ⟨node, hn, rfl⟩ := kids_eq_some.mp hk
  rw [hp, Option.some.injEq] at hn
  rw [kids, hnodes, lookup_insert]
  by_cases ha : parentId = a
  · rw [if_pos ha, if_pos ha.symm, Option.map_some, hchildren, hn]
  · rw [if_neg ha, if_neg (Ne.symm ha), kids]

theorem up_eq (a : Nat) :
    g'.up a = if a = newId then some (some parentId) else g.up a := by
  rw [up, hr.parents, lookup_insert]
  by_cases hn : newId = a
  · rw [if_pos hn, if_pos hn.symm]
  · rw [if_neg hn, if_neg (Ne.symm hn), up]

/-- With the old tree cut off, the linked graph is a forest. -/
theorem forest (h : g.Pending newId)
    (hfree : ¬ Leads (fun a => (g.up a).join) parentId newId) :
    Forest g'.kids (fun a => if a = oldId then some none else g'.up a)
      (fun a => ((a ∈ g.topLevelForms ∨ a = newId) ∧ a ≠ newId) ∨ a = oldId) := by
  have hold : g.up oldId = some (some parentId) := Option.join_eq_some_iff.mp hr.parentOf
  obtain ⟨cs, hk, -⟩ := h.forest.parent hold
  refine h.forest.graft hold (.inr rfl) hk (hr.kids_eq hk) ?_ hfree
  intro a
  by_cases ha : a = oldId
  · rw [if_pos ha, if_pos ha]
  · rw [if_neg ha, if_neg ha]
    exact hr.up_eq a

end

end Relinked

/-- The branch for a subtree below a call. -/
theorem Pending.replaceChildSubtree (h : g.Pending newId)
    (hfree : ∀ p, g.parentOf oldId = some p → ¬ Leads (fun a => (g.up a).join) p newId)
    (hrun : replaceChildSubtree oldId newId g = (.ok dropped, g')) : g'.Rooted := by
  obtain ⟨parentId, g₁, hr, hg'⟩ := replaceChildSubtree_eq_ok hrun
  have hstored := hr.stored h.toStored
  have hpruned := removeSubtreeStorage_pruned hstored oldId
  rw [hg'] at hpruned
  have hgraft := hr.forest h (hfree parentId hr.parentOf)
  have hforest : Forest g'.kids g'.up _ := hgraft.prune (r := oldId) (.inr rfl)
    (fun a ha => ⟨by rw [kids, hpruned.nodesGone a ha]; rfl, hpruned.parentsGone a ha⟩)
    (fun a ha => by
      have hne : a ≠ oldId := fun heq => ha (heq ▸ .refl)
      refine ⟨by rw [kids, kids, hpruned.nodesKept a ha], ?_⟩
      rw [if_neg hne]
      exact hpruned.parentsKept a ha)
  have holdForm : oldId ∉ g.topLevelForms := by
    intro hmem
    have hold : g.up oldId = some (some parentId) := Option.join_eq_some_iff.mp hr.parentOf
    rw [(h.forest.roots oldId).mpr (.inl hmem)] at hold
    exact absurd hold (by simp)
  have hroots : ∀ a, ((((a ∈ g.topLevelForms ∨ a = newId) ∧ a ≠ newId) ∨ a = oldId) ∧ a ≠ oldId)
      ↔ a ∈ g'.topLevelForms := by
    intro a
    rw [hpruned.mem_forms, hr.topLevelForms]
    constructor
    · rintro ⟨hroot, hne⟩
      obtain ⟨hroot, hnew⟩ := hroot.resolve_right hne
      refine ⟨hroot.resolve_right hnew, ?_⟩
      intro hb
      exact hne (hgraft.eq_of_below_of_root hb (.inl ⟨hroot, hnew⟩))
    · rintro ⟨ha, -⟩
      refine ⟨.inl ⟨.inl ha, ?_⟩, ?_⟩
      · rintro rfl
        exact h.newForm ha
      · rintro rfl
        exact holdForm ha
  refine
    { hpruned.stored hstored with
      forest := hforest.congr_root hroots
      spans := ?_
      internal := ?_
      rootMem := hpruned.rootMem fun _ => ?_ }
  · intro id hid
    obtain ⟨span, hs⟩ := mem_iff_exists.mp hid
    by_cases hb : Below g₁.kids oldId id
    · rw [hpruned.spansGone id hb] at hs
      exact absurd hs (by simp)
    · rw [hpruned.spansKept id hb, hr.sourceSpans] at hs
      exact hpruned.mem_nodes.mpr ⟨hr.mem_nodes.mpr (h.spans id (mem_of_lookup hs)), hb⟩
  · intro id hid
    obtain ⟨u, hi⟩ := mem_iff_exists.mp hid
    by_cases hb : Below g₁.kids oldId id
    · rw [hpruned.internalGone id hb] at hi
      exact absurd hi (by simp)
    · rw [hpruned.internalKept id hb, hr.internalNodes] at hi
      obtain ⟨node, hn, hname⟩ := h.internal id (mem_of_lookup hi)
      exact ⟨node, (hpruned.nodesKept id hb).trans (hr.internal hn hname), hname⟩
  · rw [hr.mem_nodes, hr.rootId]
    exact h.rootMem

/-- Replacing the subtree at `oldId` by a new expression, where `oldId` is not an id that
    the expression itself receives. -/
theorem Rooted.replace {g₁ : IRGraph} (h : g.Rooted) {spec : ExprSpec}
    (hinsert : insertExprSpec spec g = (.ok newId, g₁))
    (hrun : replaceSubtree oldId newId g₁ = (.ok dropped, g')) (hold : oldId < g.nextId) :
    g'.Rooted := by
  obtain ⟨rfl, hb⟩ := insertExprSpecInto_block spec hinsert
  have hne : oldId ≠ g.nextId := by omega
  rw [replaceSubtree] at hrun
  obtain ⟨_, g₂, hcheck, hrun⟩ := Action.bind_eq_ok.mp hrun
  obtain ⟨hnode, rfl⟩ := Action.check_eq_ok.mp hcheck
  rw [if_neg hne] at hrun
  obtain ⟨_, g₃, hcheck, hrun⟩ := Action.bind_eq_ok.mp hrun
  obtain ⟨-, rfl⟩ := Action.check_eq_ok.mp hcheck
  obtain ⟨topLevel, g₄, hcheck, hrun⟩ := Action.bind_eq_ok.mp hrun
  obtain ⟨-, rfl⟩ := Action.check_eq_ok.mp hcheck
  have holdNode : oldId ∈ g.nodes := by
    rcases hb.mem_nodes.mp (requireNode_eq_ok.mp hnode) with hin | hout
    · omega
    · exact hout.2
  have hpending := hb.pending h (fun hempty => by
    rw [hempty] at holdNode
    exact ExtTreeMap.not_mem_empty holdNode)
  cases topLevel with
  | true => exact hpending.replaceTopLevelSubtree hne hrun
  | false =>
    refine hpending.replaceChildSubtree ?_ hrun
    intro p hp
    -- the parent of an old node is an old node
    have hup : g.up oldId = some (some p) := by
      rw [up, ← hb.parents oldId (.inl hold)]
      exact Option.join_eq_some_iff.mp hp
    obtain ⟨cs, hk, -⟩ := h.forest.parent hup
    exact hb.not_leads h (isSome_kids.mp (by rw [hk]; rfl))

end IRGraph

end Caap
