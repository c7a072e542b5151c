/-
  Caap.Ir.Replacement

  `replace_subtree` on graphs whose child and parent links are inverse to each other and
  acyclic, with detached trees beside the top-level forms.  The call fails without a
  change or exchanges the two subtrees (`Replaced`), unless the new root is accepted
  although the old one lies in its tree, the old one is a top-level form below a call, or
  the parent of the old one lists a child twice (`Hazardous`).
-/

import Caap.Ir.Forms

namespace Caap

open Std Lib Action List

namespace IRGraph

/-- Child and parent links are inverse to each other and acyclic, and children are nodes. -/
structure LinksAgree (g : IRGraph) : Prop extends Linked g.kids g.parentOf where
  nodes : ∀ {a cs c}, g.kids a = some cs → c ∈ cs → c ∈ g.nodes

/-- `g'` is `g` with `newId` in the place of `oldId`: below its parent and among the forms,
    with the nodes of the old subtree and no others gone. -/
structure Replaced (g g' : IRGraph) (oldId newId : Nat) : Prop where
  links : g'.LinksAgree
  parent : g'.parentOf newId = g.parentOf oldId
  children : ∀ p, g.parentOf oldId = some p →
    g'.kids p = (g.kids p).map (List.map fun c => if c = oldId then newId else c)
  forms : g'.topLevelForms =
    (g.topLevelForms.map fun a => if a = oldId then newId else a).filter (· ∈ g'.nodes)
  gone : ∀ a, a ∈ g'.nodes ↔ a ∈ g.nodes ∧ ¬ (oldId ≠ newId ∧ Below g.kids oldId a)
  rest : ∀ a, a ∈ g'.nodes → g.parentOf oldId ≠ some a → g'.nodes[a]? = g.nodes[a]?
  spans : ∀ a, a ∈ g'.nodes → g'.sourceSpans[a]? = g.sourceSpans[a]?
  markers : ∀ a, a ∈ g'.nodes → (a ∈ g'.internalNodes ↔ a ∈ g.internalNodes)

/-- The call fails and leaves the graph as it was, or it exchanges the subtrees. -/
def Replaces (g : IRGraph) (oldId newId : Nat) : Prop :=
  (∃ e, replaceSubtree oldId newId g = (.error e, g)) ∨
    ∃ dropped g', replaceSubtree oldId newId g = (.ok dropped, g') ∧ Replaced g g' oldId newId

/-- The new root passes its checks, and the old one has a parent although it is a
    top-level form, or its parent lists a child twice, or it lies below the new root. -/
def Hazardous (g : IRGraph) (oldId newId : Nat) : Prop :=
  oldId ≠ newId ∧ g.parentOf newId = none ∧ newId ∉ g.topLevelForms ∧
    ∃ p, g.parentOf oldId = some p ∧
      (oldId ∈ g.topLevelForms ∨ ¬ (g.childrenOf p).Nodup ∨ Below g.kids newId oldId)

/-! ## What the call does -/

theorem validateNodeChildren_eq_ok {g : IRGraph} {node : Node} :
    g.validateNodeChildren node = .ok () ↔
      node.children.Nodup ∧ ∀ c ∈ node.children, c ∈ g.nodes ∧ g.parentOf c = some node.id := by
  have hunique : validateUniqueNodeChildren node = .ok () ↔ node.children.Nodup := by
    cases node with
    | name | literal => simp [validateUniqueNodeChildren, Node.children]
    | call id callee args => exact validateUniqueCallChildren_eq_ok
  simp only [validateNodeChildren, check_bind_eq_ok, hunique, checkAll_eq_ok, requireNode_eq_ok,
    ite_ok_eq_ok]

/-- A node that lists `oldId` can be rewritten. -/
theorem rewriteParentChild_of_mem {parent : Node} {oldId : Nat} (h : oldId ∈ parent.children)
    (newId : Nat) : ∃ rewritten, rewriteParentChild parent oldId newId = .ok rewritten := by
  cases parent with
  | name | literal => exact absurd h not_mem_nil
  | call id callee args =>
    rw [rewriteParentChild, if_pos ((mem_cons.mp h).imp_left Eq.symm)]
    exact ⟨_, rfl⟩

variable {index : Nat}

section Call

variable {g : IRGraph} {oldId newId p : Nat}

/-- The new root passes its checks. -/
def NewRoot (g : IRGraph) (newId : Nat) : Prop :=
  newId ∈ g.nodes ∧ g.parentOf newId = none ∧ newId ∉ g.topLevelSet

/-- The checks on the two ids pass: what is left is one of the two branches. -/
theorem replaceSubtree_of_new (hold : oldId ∈ g.nodes) (hne : oldId ≠ newId)
    (hnew : g.NewRoot newId) :
    replaceSubtree oldId newId g =
      if oldId ∈ g.topLevelSet then replaceTopLevelSubtree oldId newId g
      else replaceChildSubtree oldId newId g := by
  rw [replaceSubtree, bind_check_of_ok (f := fun g : IRGraph =>
    g.requireNode oldId "subtree replacement target") _ (requireNode_eq_ok.mpr hold), if_neg hne,
    bind_check_of_ok (f := fun g : IRGraph => g.requireNewSubtreeRoot newId) _
      (requireNewSubtreeRoot_eq_ok.mpr hnew),
    bind_check_of_ok (f := fun g : IRGraph => .ok (g.hasTopLevelForm oldId)) _ rfl]
  by_cases hform : oldId ∈ g.topLevelSet
  · rw [if_pos hform, if_pos (hasTopLevelForm_iff.mpr hform)]
  · rw [if_neg hform, if_neg (fun h => hform (hasTopLevelForm_iff.mp h))]

theorem replaceSubtree_self (hold : oldId ∈ g.nodes) :
    replaceSubtree oldId oldId g = (.ok [], g) := by
  rw [replaceSubtree, bind_check_of_ok (f := fun g : IRGraph =>
    g.requireNode oldId "subtree replacement target") _ (requireNode_eq_ok.mpr hold), if_pos rfl]
  rfl

/-- A new root that fails its checks. -/
theorem replaceSubtree_of_not_new (hold : oldId ∈ g.nodes) (hne : oldId ≠ newId)
    (hnew : ¬ g.NewRoot newId) :
    ∃ e, replaceSubtree oldId newId g = (.error e, g) := by
  cases hcheck : g.requireNewSubtreeRoot newId with
  | ok u => exact absurd (requireNewSubtreeRoot_eq_ok.mp hcheck) hnew
  | error e =>
    refine ⟨e, ?_⟩
    rw [replaceSubtree, bind_check_of_ok (f := fun g : IRGraph =>
      g.requireNode oldId "subtree replacement target") _ (requireNode_eq_ok.mpr hold),
      if_neg hne]
    exact bind_check_of_error _ hcheck

/-- The graph of the first branch before the old subtree is removed. -/
def formReplaced (g : IRGraph) (index oldId newId : Nat) : IRGraph :=
  { g with
    rootId := if g.rootId = oldId then newId else g.rootId
    topLevelForms := g.topLevelForms.set index newId
    topLevelSet := (g.topLevelSet.erase oldId).insert newId () }

theorem replaceTopLevelForm_of_new (hidx : g.topLevelForms.idxOf? oldId = some index)
    (hne : oldId ≠ newId) (hnew : g.NewRoot newId) :
    g.replaceTopLevelForm oldId newId = .ok { g with
      topLevelForms := g.topLevelForms.set index newId
      topLevelSet := (g.topLevelSet.erase oldId).insert newId () } := by
  have hrequire : g.requireNewTopLevelForm newId = .ok () :=
    requireNewTopLevelForm_eq_ok.mpr ⟨⟨hnew.1, hnew.2.1⟩, hnew.2.2⟩
  simp only [replaceTopLevelForm, topLevelIndex, hidx, ok_bind, if_neg hne, hrequire]

/-- A top-level form is exchanged in the list, and its subtree is removed. -/
theorem replaceTopLevelSubtree_eq (hidx : g.topLevelForms.idxOf? oldId = some index)
    (hne : oldId ≠ newId) (hnew : g.NewRoot newId) :
    replaceTopLevelSubtree oldId newId g =
      (.ok ((g.formReplaced index oldId newId).removeSubtreeStorage oldId).1,
        ((g.formReplaced index oldId newId).removeSubtreeStorage oldId).2) := by
  have hreplace := replaceTopLevelForm_of_new hidx hne hnew
  rw [replaceTopLevelSubtree, bind_of_ok _ (update_eq_ok (u := ()).mpr hreplace),
    bind_modify, formReplaced]
  by_cases hr : g.rootId = oldId
  · simp only [if_pos hr]
    rfl
  · simp only [if_neg hr]
    rfl

/-- The graph of the second branch before the old subtree is removed. -/
def childReplaced (g : IRGraph) (parentId newId : Nat) (rewritten : Node) : IRGraph :=
  { g with
    nodes := g.nodes.insert parentId rewritten
    parents := g.parents.insert newId (some parentId) }

/-- A child is exchanged in its parent, and its subtree is removed; a parent that lists a
    child twice is noticed only after the new parent entry is written. -/
theorem replaceChildSubtree_eq (hs : g.Stored) (hl : g.LinksAgree) (hp : g.parentOf oldId = some p)
    (hnew : newId ∈ g.nodes ∧ g.parentOf newId = none) :
    ((g.childrenOf p).Nodup ∧ ∃ g₁, Relinked g g₁ oldId newId p ∧
      replaceChildSubtree oldId newId g =
        (.ok (g₁.removeSubtreeStorage oldId).1, (g₁.removeSubtreeStorage oldId).2)) ∨
    (¬ (g.childrenOf p).Nodup ∧ ∃ e, replaceChildSubtree oldId newId g =
      (.error e, { g with parents := g.parents.insert newId (some p) })) := by
  obtain ⟨cs, hk, hmem⟩ := hl.up hp
  obtain ⟨parent, hn, rfl⟩ := kids_eq_some.mp hk
  obtain ⟨rewritten, hrw⟩ := rewriteParentChild_of_mem hmem newId
  obtain ⟨hname, hid, hchildren⟩ := rewriteParentChild_eq_ok hrw
  have hpid : rewritten.id = p := hid.trans (hs.keyed hn)
  have hnewMem : newId ∉ parent.children := by
    intro hin
    have hup := hl.down hk hin
    rw [hnew.2] at hup
    exact absurd hup (by simp)
  have hrewritten : g.rewrittenParent oldId newId = .ok (p, rewritten) := by
    simp only [rewrittenParent, hp, hn, hrw, ok_bind]
  have hstart : replaceChildSubtree oldId newId g =
      ((.update fun g : IRGraph => g.replaceNode p rewritten) >>= fun _ =>
        .call fun g : IRGraph => .ok (g.removeSubtreeStorage oldId) : GraphAction (List Nat))
        { g with parents := g.parents.insert newId (some p) } := by
    rw [replaceChildSubtree, bind_check_of_ok (f := fun g : IRGraph =>
      g.rewrittenParent oldId newId) _ hrewritten]
    exact bind_modify _ _ g
  rw [hstart, kids_eq_some_childrenOf hk]
  have hvalid : ({ g with parents := g.parents.insert newId (some p) } : IRGraph).validateNodeChildren
      rewritten = .ok () ↔ parent.children.Nodup := by
    rw [validateNodeChildren_eq_ok, hchildren, Forest.nodup_map_exchange hnewMem]
    refine and_iff_left_of_imp fun _ c hc => ?_
    obtain ⟨x, hx, rfl⟩ := mem_map.mp hc
    rw [hpid]
    by_cases hxo : x = oldId
    · rw [if_pos hxo]
      refine ⟨hnew.1, ?_⟩
      rw [parentOf, OrdMap.lookup_insert, if_pos rfl]
      rfl
    · rw [if_neg hxo]
      have hxn : newId ≠ x := fun heq => hnewMem (heq ▸ hx)
      refine ⟨hl.nodes hk hx, ?_⟩
      rw [parentOf, OrdMap.lookup_insert, if_neg hxn]
      exact hl.down hk hx
  by_cases hnd : parent.children.Nodup
  · refine .inl ⟨hnd, g.childReplaced p newId rewritten, ?_, ?_⟩
    · exact
        { parentOf := hp
          node := ⟨parent, rewritten, hn, hname, hpid, hchildren, rfl⟩
          parents := rfl, sourceSpans := rfl, internalNodes := rfl, topLevelForms := rfl
          topLevelSet := rfl, nextId := rfl, rootId := rfl }
    · have hreplace : ({ g with parents := g.parents.insert newId (some p) } : IRGraph).replaceNode p
          rewritten = .ok (g.childReplaced p newId rewritten) := by
        have hmem : p ∈ ({ g with parents := g.parents.insert newId (some p) } : IRGraph).nodes :=
          OrdMap.mem_of_lookup hn
        simp only [replaceNode, requireNode_eq_ok.mpr hmem, ok_bind, hpid, ne_eq, not_true_eq_false,
          if_false, hvalid.mpr hnd]
        rfl
      rw [bind_of_ok _ (update_eq_ok (u := ()).mpr hreplace)]
      rfl
  · refine .inr ⟨hnd, ?_⟩
    cases hcheck : ({ g with parents := g.parents.insert newId (some p) } : IRGraph).replaceNode p
        rewritten with
    | ok g₂ =>
      simp only [replaceNode, check_bind_eq_ok, ite_error_eq_ok] at hcheck
      exact absurd (hvalid.mp hcheck.2.2.1) hnd
    | error e =>
      refine ⟨e, bind_of_error _ ?_⟩
      rw [update, call, hcheck]
      rfl

end Call

/-! ## The graph afterwards -/

variable {a : Nat}

namespace Pruned

variable {g g' : IRGraph} {gone : Nat → Prop}

section

variable (h : Pruned g g' gone)

include h

theorem kids_gone (ha : gone a) : g'.kids a = none := by
  rw [kids, h.nodesGone a ha]
  rfl

theorem kids_kept (ha : ¬ gone a) : g'.kids a = g.kids a := by
  rw [kids, kids, h.nodesKept a ha]

theorem parentOf_gone (ha : gone a) : g'.parentOf a = none := by
  rw [parentOf, h.parentsGone a ha]
  rfl

theorem parentOf_kept (ha : ¬ gone a) : g'.parentOf a = g.parentOf a := by
  rw [parentOf, parentOf, h.parentsKept a ha]

theorem mem_internalNodes (ha : ¬ gone a) :
    a ∈ g'.internalNodes ↔ a ∈ g.internalNodes := by
  refine OrdMap.mem_congr ?_
  rw [h.internalKept a ha]

/-- The forms that remain, in their order. -/
theorem forms_eq (hg : g.Stored) :
    g'.topLevelForms = g.topLevelForms.filter (· ∈ g'.nodes) := by
  have hmem : ∀ a, a ∈ g'.topLevelForms ↔ a ∈ g.topLevelForms.filter (· ∈ g'.nodes) := by
    intro a
    rw [h.mem_forms, mem_filter, decide_eq_true_iff, h.mem_nodes]
    exact and_congr_right fun ha => (and_iff_right (hg.formsMem a ha)).symm
  have hperm : g'.topLevelForms.Perm (g.topLevelForms.filter (· ∈ g'.nodes)) :=
    (perm_ext_iff_of_nodup (h.stored hg).formsNodup (hg.formsNodup.filter _)).mpr hmem
  have hself : g'.topLevelForms.filter (· ∈ g'.nodes) = g'.topLevelForms := by
    rw [filter_eq_self]
    intro a ha
    exact decide_eq_true ((h.stored hg).formsMem a ha)
  have hsub : g'.topLevelForms.Sublist (g.topLevelForms.filter (· ∈ g'.nodes)) := by
    have := h.formsSublist.filter fun a => decide (a ∈ g'.nodes)
    rwa [hself] at this
  exact hsub.eq_of_length hperm.length_eq

end

/-- Removing a subtree that has been cut off from its parent. -/
theorem linksAgree {r : Nat} (h : Pruned g g' (Below g.kids r))
    (hl : Linked g.kids (fun a => if a = r then none else g.parentOf a))
    (hn : ∀ {a cs c}, g.kids a = some cs → c ∈ cs → c ∈ g.nodes) : g'.LinksAgree := by
  have hlinked : Linked g'.kids g'.parentOf := by
    refine hl.prune (r := r) (if_pos rfl) ?_ ?_
    · intro a ha
      exact ⟨h.kids_gone ha, h.parentOf_gone ha⟩
    · intro a ha
      have hne : a ≠ r := fun heq => ha (heq ▸ .refl)
      rw [if_neg hne]
      exact ⟨h.kids_kept ha, h.parentOf_kept ha⟩
  refine { hlinked with nodes := ?_ }
  intro a cs c hk hc
  have hup := hlinked.down hk hc
  have hkept : ¬ Below g.kids r c := by
    intro hb
    rw [h.parentOf_gone hb] at hup
    exact absurd hup (by simp)
  have ha : ¬ Below g.kids r a := by
    intro hb
    rw [h.kids_gone hb] at hk
    exact absurd hk (by simp)
  exact h.mem_nodes.mpr ⟨hn (h.kids_kept ha ▸ hk) hc, hkept⟩

end Pruned

variable {l : List Nat}

theorem map_exchange_of_notMem {old : Nat} (h : old ∉ l) (new : Nat) :
    (l.map fun a => if a = old then new else a) = l := by
  refine (map_congr_left ?_).trans (map_id _)
  intro a ha
  have hne : a ≠ old := fun heq => h (heq ▸ ha)
  exact if_neg hne

section Outcome

variable {g : IRGraph} {oldId newId p : Nat}

theorem Stored.formReplaced (hs : g.Stored)
    (hidx : g.topLevelForms.idxOf? oldId = some index) (hne : oldId ≠ newId)
    (hnew : g.NewRoot newId) :
    (g.formReplaced index oldId newId).Stored := by
  have hreplace := replaceTopLevelForm_of_new hidx hne hnew
  have hsince := (hs.formsSince_new fun _ => False).replaceTopLevelForm hne (notMem_new newId) hreplace
  exact hsince.toStored.congr rfl rfl rfl rfl

/-- A root other than `oldId` is not below `oldId`. -/
theorem LinksAgree.not_below_root (hl : g.LinksAgree) (hne : oldId ≠ newId)
    (hnew : g.parentOf newId = none) : ¬ Below g.kids oldId newId := by
  intro hb
  obtain ⟨p, hp, -⟩ := hl.parent_of_below hb (Ne.symm hne)
  rw [hnew] at hp
  exact absurd hp (by simp)

/-- The branch for a top-level form without a parent. -/
theorem replaced_form (hs : g.Stored) (hl : g.LinksAgree)
    (hidx : g.topLevelForms.idxOf? oldId = some index) (hne : oldId ≠ newId)
    (hnew : g.NewRoot newId)
    (hold : g.parentOf oldId = none) :
    Replaced g ((g.formReplaced index oldId newId).removeSubtreeStorage oldId).2 oldId newId := by
  have hs₁ := hs.formReplaced hidx hne hnew
  have hpruned := removeSubtreeStorage_pruned hs₁ oldId
  refine
    { links := ?_, parent := ?_, children := ?_, forms := ?_, gone := ?_, rest := ?_, spans := ?_
      markers := ?_ }
  · refine hpruned.linksAgree ?_ hl.nodes
    have hcut : (fun a => if a = oldId then none else (g.formReplaced index oldId newId).parentOf a)
        = g.parentOf := by
      funext a
      by_cases ha : a = oldId
      · rw [if_pos ha, ha, hold]
      · rw [if_neg ha]
        rfl
    rw [hcut]
    exact hl.toLinked
  · rw [hpruned.parentOf_kept (hl.not_below_root hne hnew.2.1), hold]
    exact hnew.2.1
  · intro p hp
    rw [hold] at hp
    exact absurd hp (by simp)
  · rw [hpruned.forms_eq hs₁]
    exact congrArg _ (set_idxOf_eq_map hs.formsNodup hidx newId)
  · intro a
    rw [hpruned.mem_nodes]
    exact and_congr_right fun _ => not_congr (and_iff_right hne).symm
  · intro a ha _
    exact hpruned.nodesKept a (hpruned.mem_nodes.mp ha).2
  · intro a ha
    exact hpruned.spansKept a (hpruned.mem_nodes.mp ha).2
  · intro a ha
    exact hpruned.mem_internalNodes (hpruned.mem_nodes.mp ha).2

variable {g₁ : IRGraph}

theorem Relinked.parentOf_eq (hr : Relinked g g₁ oldId newId p) (a : Nat) :
    g₁.parentOf a = if a = newId then some p else g.parentOf a := by
  have hup := hr.up_eq a
  rw [up, up] at hup
  rw [IRGraph.parentOf, hup]
  by_cases ha : a = newId
  · rw [if_pos ha, if_pos ha]
    rfl
  · rw [if_neg ha, if_neg ha]
    rfl

/-- Below the old root nothing changes when the new one is linked. -/
theorem Relinked.below_iff (hr : Relinked g g₁ oldId newId p) (hl : g.LinksAgree)
    : Below g₁.kids oldId a ↔ Below g.kids oldId a := by
  obtain ⟨cs, hk, -⟩ := hl.up hr.parentOf
  refine Below.congr_except (p := p) ?_ (hl.not_below_of_parent hr.parentOf)
  intro x hx
  rw [hr.kids_eq hk, if_neg hx]

/-- What the removal leaves in the second branch. -/
theorem Relinked.pruned (hr : Relinked g g₁ oldId newId p) (hs : g.Stored) (hl : g.LinksAgree) :
    Pruned g₁ (g₁.removeSubtreeStorage oldId).2 (Below g.kids oldId) :=
  (removeSubtreeStorage_pruned (hr.stored hs) oldId).congr fun _ => hr.below_iff hl

/-- The branch for a child that does not lie below the new root. -/
theorem replaced_child (hs : g.Stored) (hl : g.LinksAgree)
    (hr : Relinked g g₁ oldId newId p) (hne : oldId ≠ newId)
    (hnew : newId ∈ g.nodes ∧ g.parentOf newId = none) (hform : oldId ∉ g.topLevelForms)
    (hfree : ¬ Below g.kids newId oldId) :
    Replaced g (g₁.removeSubtreeStorage oldId).2 oldId newId := by
  have hold := hr.parentOf
  obtain ⟨cs, hk, hmem⟩ := hl.up hold
  have hpruned := hr.pruned hs hl
  have hp : ¬ Below g.kids oldId p := hl.not_below_of_parent hold
  have hnotNew := hl.not_below_root hne hnew.2
  refine
    { links := ?_, parent := ?_, children := ?_, forms := ?_, gone := ?_, rest := ?_, spans := ?_
      markers := ?_ }
  · refine (removeSubtreeStorage_pruned (hr.stored hs) oldId).linksAgree ?_ ?_
    · refine hl.toLinked.graft hold hnew.2 hk (hr.kids_eq hk) ?_ ?_
      · intro a
        by_cases ha : a = oldId
        · rw [if_pos ha, if_pos ha]
        · rw [if_neg ha, if_neg ha]
          exact hr.parentOf_eq a
      · intro hlead
        exact hfree (.step (hl.below_of_leads hlead) hk hmem)
    · intro a cs' c hk' hc
      rw [hr.mem_nodes]
      rw [hr.kids_eq hk] at hk'
      by_cases ha : a = p
      · rw [if_pos ha, Option.some.injEq] at hk'
        rw [← hk'] at hc
        obtain ⟨x, hx, rfl⟩ := mem_map.mp hc
        by_cases hxo : x = oldId
        · rw [if_pos hxo]
          exact hnew.1
        · rw [if_neg hxo]
          exact hl.nodes hk hx
      · rw [if_neg ha] at hk'
        exact hl.nodes hk' hc
  · rw [hpruned.parentOf_kept hnotNew, hr.parentOf_eq, if_pos rfl, hold]
  · intro q hq
    obtain rfl : p = q := Option.some.inj (hold.symm.trans hq)
    rw [hpruned.kids_kept hp, hr.kids_eq hk, if_pos rfl, hk]
    rfl
  · rw [hpruned.forms_eq (hr.stored hs), hr.topLevelForms, map_exchange_of_notMem hform]
  · intro a
    rw [hpruned.mem_nodes, hr.mem_nodes]
    exact and_congr_right fun _ => not_congr (and_iff_right hne).symm
  · intro a ha hap
    obtain ⟨parent, rewritten, -, -, -, -, hnodes⟩ := hr.node
    have hpa : p ≠ a := fun heq => hap (hold.trans (congrArg some heq))
    rw [hpruned.nodesKept a (hpruned.mem_nodes.mp ha).2, hnodes, OrdMap.lookup_insert, if_neg hpa]
  · intro a ha
    rw [hpruned.spansKept a (hpruned.mem_nodes.mp ha).2, hr.sourceSpans]
  · intro a ha
    rw [hpruned.mem_internalNodes (hpruned.mem_nodes.mp ha).2, hr.internalNodes]

/-- Where the old root lies below the new one, its parent leads back to the new root. -/
theorem not_ends_of_below (hs : g.Stored) (hl : g.LinksAgree)
    (hr : Relinked g g₁ oldId newId p) (hne : oldId ≠ newId) (hnew : g.parentOf newId = none)
    (hbelow : Below g.kids newId oldId) :
    ¬ Ends (g₁.removeSubtreeStorage oldId).2.parentOf newId := by
  have hold := hr.parentOf
  have hpruned := hr.pruned hs hl
  have hparent : ∀ a, ¬ Below g.kids oldId a → (g₁.removeSubtreeStorage oldId).2.parentOf a
      = if a = newId then some p else g.parentOf a := by
    intro a ha
    rw [hpruned.parentOf_kept ha, hr.parentOf_eq]
  have hnotNew := hl.not_below_root hne hnew
  -- the chain from the parent to the new root is untouched by the removal
  have hchain : ∀ {a t}, Leads g.parentOf a t → t = newId → ¬ Below g.kids oldId a →
      Leads (g₁.removeSubtreeStorage oldId).2.parentOf a newId := by
    intro a t hlead ht
    induction hlead with
    | here a => exact fun _ => ht ▸ .here a
    | @step a b t hstep _ ih =>
      intro ha
      by_cases han : a = newId
      · rw [han]
        exact .here newId
      · refine .step (b := b) ?_ (ih ht (hl.not_below_parent ha hstep))
        rw [hparent a ha, if_neg han, hstep]
  have hlead : Leads g.parentOf p newId := by
    obtain ⟨q, hq, hbq⟩ := hl.parent_of_below hbelow hne
    obtain rfl : p = q := Option.some.inj (hold.symm.trans hq)
    exact hl.leads_of_below hbq
  intro hends
  refine hends.not_leads_back (b := p) ?_ (hchain hlead rfl (hl.not_below_of_parent hold))
  rw [hparent newId hnotNew, if_pos rfl]

end Outcome

/-! ## When the call exchanges the subtrees -/

section Exchange

variable {g : IRGraph} {oldId newId : Nat}

theorem Stored.new_iff (hs : g.Stored) (hnew : newId ∈ g.nodes) :
    g.NewRoot newId ↔ g.parentOf newId = none ∧ newId ∉ g.topLevelForms := by
  rw [NewRoot, hs.formsSet]
  exact and_iff_right hnew

theorem idxOf?_of_mem (h : a ∈ l) : ∃ index, l.idxOf? a = some index := by
  cases hidx : l.idxOf? a with
  | none => exact absurd h (idxOf?_eq_none_iff.mp hidx)
  | some index => exact ⟨index, rfl⟩

/-- Detached trees that are not forms are refused in the second branch. -/
theorem replaceChildSubtree_detached (hold : g.parentOf oldId = none) :
    ∃ e, replaceChildSubtree oldId newId g = (.error e, g) := by
  have hrewritten : g.rewrittenParent oldId newId =
      .error (.graph "cannot replace detached non-top-level subtree root") := by
    rw [rewrittenParent, hold]
  exact ⟨_, bind_check_of_error _ hrewritten⟩

theorem replaces_of_not_hazardous (hs : g.Stored) (hl : g.LinksAgree) (hold : oldId ∈ g.nodes)
    (hnewMem : newId ∈ g.nodes) (hsafe : ¬ g.Hazardous oldId newId) : g.Replaces oldId newId := by
  by_cases hne : oldId = newId
  · subst hne
    refine .inr ⟨[], g, replaceSubtree_self hold, ?_⟩
    have hforms : (g.topLevelForms.map fun a => if a = oldId then oldId else a) = g.topLevelForms := by
      refine (map_congr_left ?_).trans (map_id _)
      intro a _
      exact ite_eq_right_iff.mpr Eq.symm
    refine
      { links := hl, parent := rfl, children := ?_, forms := ?_, gone := ?_, rest := fun _ _ _ => rfl
        spans := fun _ _ => rfl, markers := fun _ _ => .rfl }
    · intro p _
      cases hk : g.kids p with
      | none => rfl
      | some cs =>
        refine congrArg some ((map_congr_left ?_).trans (map_id _)).symm
        intro a _
        exact ite_eq_right_iff.mpr Eq.symm
    · rw [hforms, eq_comm, filter_eq_self]
      intro a ha
      exact decide_eq_true (hs.formsMem a ha)
    · simp
  · by_cases hnew : g.NewRoot newId
    · rw [Replaces, replaceSubtree_of_new hold hne hnew]
      have hnewForm := ((hs.new_iff hnewMem).mp hnew).2
      by_cases hform : oldId ∈ g.topLevelSet
      · rw [if_pos hform]
        have hmem := (hs.formsSet oldId).mp hform
        obtain ⟨index, hidx⟩ := idxOf?_of_mem hmem
        have hroot : g.parentOf oldId = none := by
          cases hp : g.parentOf oldId with
          | none => rfl
          | some p => exact absurd ⟨hne, hnew.2.1, hnewForm, p, hp, .inl hmem⟩ hsafe
        exact .inr ⟨_, _, replaceTopLevelSubtree_eq hidx hne hnew,
          replaced_form hs hl hidx hne hnew hroot⟩
      · rw [if_neg hform]
        have hmem : oldId ∉ g.topLevelForms := fun h => hform ((hs.formsSet oldId).mpr h)
        cases hp : g.parentOf oldId with
        | none => exact .inl (replaceChildSubtree_detached hp)
        | some p =>
          rcases replaceChildSubtree_eq hs hl hp ⟨hnew.1, hnew.2.1⟩ with
            ⟨-, g₁, hr, hrun⟩ | ⟨hnd, -⟩
          · refine .inr ⟨_, _, hrun, replaced_child hs hl hr hne ⟨hnew.1, hnew.2.1⟩ hmem ?_⟩
            intro hbelow
            exact hsafe ⟨hne, hnew.2.1, hnewForm, p, hp, .inr (.inr hbelow)⟩
          · exact absurd ⟨hne, hnew.2.1, hnewForm, p, hp, .inr (.inl hnd)⟩ hsafe
    · exact .inl (replaceSubtree_of_not_new hold hne hnew)

theorem not_replaces_of_hazardous (hs : g.Stored) (hl : g.LinksAgree) (hold : oldId ∈ g.nodes)
    (hnewMem : newId ∈ g.nodes) (h : g.Hazardous oldId newId) : ¬ g.Replaces oldId newId := by
  obtain ⟨hne, hroot, hnewForm, p, hp, hcase⟩ := h
  have hnew := (hs.new_iff hnewMem).mpr ⟨hroot, hnewForm⟩
  rw [Replaces, replaceSubtree_of_new hold hne hnew]
  by_cases hform : oldId ∈ g.topLevelSet
  · -- the old root keeps its place below its parent, where nothing is linked
    rw [if_pos hform]
    obtain ⟨index, hidx⟩ := idxOf?_of_mem ((hs.formsSet oldId).mp hform)
    rw [replaceTopLevelSubtree_eq hidx hne hnew]
    rintro (⟨e, he⟩ | ⟨dropped, g', hrun, hreplaced⟩)
    · exact absurd (Prod.mk.inj he).1 (by simp)
    · have hpruned := removeSubtreeStorage_pruned (hs.formReplaced hidx hne hnew) oldId
      have hparent := hreplaced.parent
      rw [← (Prod.mk.inj hrun).2, hpruned.parentOf_kept (hl.not_below_root hne hroot), hp] at hparent
      exact absurd (hparent.symm.trans hroot) (by simp)
  · rw [if_neg hform]
    have hmem : oldId ∉ g.topLevelForms := fun h => hform ((hs.formsSet oldId).mpr h)
    rcases replaceChildSubtree_eq hs hl hp ⟨hnew.1, hroot⟩ with ⟨hnd, g₁, hr, hrun⟩ | ⟨-, e, hrun⟩
    · have hbelow : Below g.kids newId oldId := (hcase.resolve_left hmem).resolve_left (not_not.mpr hnd)
      rw [hrun]
      rintro (⟨e, he⟩ | ⟨dropped, g', hrun', hreplaced⟩)
      · exact absurd (Prod.mk.inj he).1 (by simp)
      · refine not_ends_of_below hs hl hr hne hroot hbelow ?_
        rw [(Prod.mk.inj hrun').2]
        exact hreplaced.links.ends newId
    · -- the call fails with the new parent entry written
      rw [hrun]
      rintro (⟨e', he⟩ | ⟨dropped, g', hrun', -⟩)
      · have hparents := congrArg (fun g : IRGraph => g.parentOf newId) (Prod.mk.inj he).2
        simp only [parentOf, OrdMap.lookup_insert, if_true] at hparents
        rw [parentOf, ← hparents] at hroot
        exact absurd hroot (by simp)
      · exact absurd (Prod.mk.inj hrun').1 (by simp)

/-- Replacing a subtree of a graph that can be built and whose links agree: the call fails
    without a change or exchanges the subtrees, exactly when it is not hazardous. -/
theorem replaceSubtree_replaces_iff (hb : g.Built) (hl : g.LinksAgree) (hold : oldId ∈ g.nodes)
    (hnew : newId ∈ g.nodes) : g.Replaces oldId newId ↔ ¬ g.Hazardous oldId newId := by
  have hs := stored_of_built hb
  constructor
  · intro hreplaces hhazard
    exact not_replaces_of_hazardous hs hl hold hnew hhazard hreplaces
  · exact replaces_of_not_hazardous hs hl hold hnew

end Exchange

theorem Sound.linksAgree {g : IRGraph} {root : Nat → Prop} (h : g.Sound root) : g.LinksAgree :=
  { h.forest.linked with
    nodes := fun hk hc => isSome_kids.mp (h.forest.isSome_of_child hk hc) }

/-- The graph that a list of operations builds. -/
def build (ops : List IrGraphOp) : IRGraph := run (fun g op => (IrGraphOp.perform op g).2) .new ops

theorem built_build (ops : List IrGraphOp) : (build ops).Built :=
  run_invariant (fun _ op h => .step h op) .new ops

/-- A call with two children, and a name beside it. -/
def callAndName : List IrGraphOp :=
  [.setNode (.name 1 "f") (some 0), .setNode (.literal 2 .null) (some 0),
    .setNode (.call 0 1 [2]) none, .addTopLevelForm 0, .setNode (.name 3 "x") none]

theorem linksAgree_callAndName : (build callAndName).LinksAgree := by
  have hvalid : (build (callAndName ++ [.addTopLevelForm 3])).validateIntegrity = .ok () := by
    decide
  have hl := (validateIntegrity_eq_ok.mp hvalid).linksAgree
  exact { hl.toLinked with nodes := hl.nodes }

/-- The name does not lie above the argument that it replaces. -/
theorem replaceSubtree_replaces_iff_name : (build callAndName).Replaces 2 3 := by
  refine (replaceSubtree_replaces_iff (built_build _) linksAgree_callAndName (by decide)
    (by decide)).mpr ?_
  rintro ⟨-, -, -, p, hp, hcase⟩
  have hparent : (build callAndName).parentOf 2 = some 0 := by decide
  have hroot : (build callAndName).parentOf 0 = none := by decide
  obtain rfl : 0 = p := Option.some.inj (hparent.symm.trans hp)
  rcases hcase with hform | hnodup | hbelow
  · exact absurd hform (by decide)
  · exact absurd (by decide) hnodup
  · cases linksAgree_callAndName.leads_of_below hbelow with
    | step hs hl =>
      rw [hparent, Option.some.injEq] at hs
      subst hs
      exact absurd (hl.eq_of_none hroot) (by decide)

/-- A detached call with two children. -/
def detachedCall : List IrGraphOp :=
  [.setNode (.name 1 "f") (some 0), .setNode (.literal 2 .null) (some 0),
    .setNode (.call 0 1 [2]) none]

/-- An argument is replaced by the detached call it belongs to: the call succeeds, and the
    detached call is its own parent afterwards. -/
theorem replaceSubtree_own_root : (build detachedCall).Built ∧ (build detachedCall).LinksAgree ∧
      2 ∈ (build detachedCall).nodes ∧ 0 ∈ (build detachedCall).nodes ∧
      (replaceSubtree 2 0 (build detachedCall)).1 = .ok [2] ∧
      (replaceSubtree 2 0 (build detachedCall)).2.parentOf 0 = some 0 ∧
      (replaceSubtree 2 0 (build detachedCall)).2.kids 0 = some [1, 0] ∧
      ¬ (build detachedCall).Replaces 2 0 := by
  have hvalid : (build detachedCall).validateIntegrity = .ok () := by decide
  have hl := (validateIntegrity_eq_ok.mp hvalid).linksAgree
  have hb := built_build detachedCall
  refine ⟨hb, hl, by decide, by decide, by decide, by decide,
    by decide, ?_⟩
  refine not_replaces_of_hazardous (stored_of_built hb) hl (by decide) (by decide) ?_
  refine ⟨by decide, by decide, by decide, 0, by decide, .inr (.inr ?_)⟩
  have hk : (build detachedCall).kids 0 = some [1, 2] := by decide
  exact .step .refl hk (by decide)

end IRGraph

end Caap
