/-
  Caap.Ir.Forms

  How the top-level forms of a graph change.  `FormsSince b stale g` compares a graph with
  an earlier one: the earlier nodes among the forms of `g` are forms of `b` in the same
  order, and a form of `b` that is still a node is still a form.  Every operation of
  `graph.rs` keeps this as long as it makes no node of `b` a form or moves one, also where
  it fails midway.  With nothing to compare with this says that all graphs built with the
  public operations store their tables consistently (`stored_of_built`).
-/

import Caap.Ir.Mutators
import Caap.Ir.Template

namespace Caap

open Std Lib IRGraph OrdMap List Except

variable {id : Nat}

namespace IRGraph

/-- The nodes of `b` among the top-level forms of `g` are forms of `b` in the same order,
    and the forms of `b` that are still nodes, but for stale ones, are still forms. -/
structure FormsSince (b : IRGraph) (stale : Nat → Prop) (g : IRGraph) : Prop extends Stored g where
  le : b.nextId ≤ g.nextId
  order : (g.topLevelForms.filter fun a => decide (a ∈ b.nodes)).Sublist b.topLevelForms
  kept : ∀ a ∈ b.topLevelForms, a ∈ g.nodes → ¬ stale a → a ∈ g.topLevelForms

namespace FormsSince

variable {b g g' : IRGraph} {stale : Nat → Prop}

theorem refl (h : b.Stored) : FormsSince b (fun _ => False) b :=
  { h with
    le := Nat.le_refl _
    order := filter_sublist
    kept := fun _ ha _ _ => ha }

/-- Only the nodes, the forms and the next id matter. -/
theorem congr (h : FormsSince b stale g) (hnodes : g'.nodes = g.nodes)
    (hforms : g'.topLevelForms = g.topLevelForms) (hset : g'.topLevelSet = g.topLevelSet)
    (hnext : g'.nextId = g.nextId) : FormsSince b stale g' where
  keyed := hnodes ▸ h.keyed
  formsNodup := hforms ▸ h.formsNodup
  formsMem := hforms ▸ hnodes ▸ h.formsMem
  formsSet := hset ▸ hforms ▸ h.formsSet
  below := hnodes ▸ hnext ▸ h.below
  le := hnext ▸ h.le
  order := hforms ▸ h.order
  kept := hnodes ▸ hforms ▸ h.kept

theorem pruned (h : FormsSince b stale g) {gone : Nat → Prop} (hp : Pruned g g' gone) :
    FormsSince b (fun a => stale a ∧ ¬ gone a) g' :=
  { hp.stored h.toStored with
    le := by rw [hp.nextId]; exact h.le
    order := (hp.formsSublist.filter _).trans h.order
    kept := by
      intro a ha hn hstale
      obtain ⟨hmem, hkept⟩ := hp.mem_nodes.mp hn
      refine (hp.mem_forms a).mpr ⟨h.kept a ha hmem fun hs => hstale ⟨hs, hkept⟩, hkept⟩ }

variable {node : Node}

theorem setNode (hb : b.Stored) (h : FormsSince b stale g) {parentId : Option Nat}
    (hid : node.id ∉ b.nodes) (hset : g.setNode node parentId = .ok g') :
    FormsSince b stale g' := by
  obtain rfl := setNode_eq_ok hset
  have hgrow : g.nextId ≤ (if g.nextId ≤ node.id then node.id + 1 else g.nextId) ∧
      node.id < if g.nextId ≤ node.id then node.id + 1 else g.nextId := by
    split_ifs <;> omega
  refine
    { keyed := ?_, formsNodup := h.formsNodup, formsSet := h.formsSet
      formsMem := fun a ha => mem_insert.mpr (.inr (h.formsMem a ha))
      below := ?_, le := h.le.trans hgrow.1, order := h.order, kept := ?_ }
  · intro a other ha
    rw [lookup_insert] at ha
    by_cases heq : node.id = a
    · rw [if_pos heq, Option.some.injEq] at ha
      rw [← ha, heq]
    · rw [if_neg heq] at ha
      exact h.keyed ha
  · intro a ha
    rcases mem_insert.mp ha with rfl | ha
    · exact hgrow.2
    · exact (h.below a ha).trans_le hgrow.1
  · intro a ha hn hstale
    refine h.kept a ha ((mem_insert.mp hn).resolve_left ?_) hstale
    rintro rfl
    exact hid (hb.formsMem _ ha)

section

variable (h : FormsSince b stale g)

include h

/-- Adding a form that is not a node of `b`. -/
theorem addForm {forms : List Nat} (hid : id ∉ b.nodes)
    (hmem : id ∈ g.nodes) (hfresh : id ∉ g.topLevelForms)
    (hforms : ∃ l r, g.topLevelForms = l ++ r ∧ forms = l ++ id :: r)
    (hnodes : g'.nodes = g.nodes) (hforms' : g'.topLevelForms = forms)
    (hset : g'.topLevelSet = g.topLevelSet.insert id ()) (hnext : g'.nextId = g.nextId) :
    FormsSince b stale g' := by
  obtain ⟨l, r, hg, rfl⟩ := hforms
  have hiff : ∀ a, a ∈ g'.topLevelForms ↔ a = id ∨ a ∈ g.topLevelForms := by
    rw [hforms', hg]
    simp only [mem_append, mem_cons]
    tauto
  refine
    { keyed := hnodes ▸ h.keyed, formsNodup := ?_, formsMem := ?_, formsSet := ?_
      below := hnodes ▸ hnext ▸ h.below, le := hnext ▸ h.le, order := ?_, kept := ?_ }
  · rw [hforms', nodup_middle]
    rw [← hg]
    exact nodup_cons.mpr ⟨hfresh, h.formsNodup⟩
  · intro a ha
    rw [hnodes]
    rcases (hiff a).mp ha with rfl | ha
    · exact hmem
    · exact h.formsMem a ha
  · intro a
    rw [hset, mem_insert, hiff, h.formsSet]
  · have horder := h.order
    rw [hg, filter_append] at horder
    rw [hforms', filter_append, filter_cons_of_neg (by simpa using hid)]
    exact horder
  · intro a ha hn hstale
    rw [hnodes] at hn
    exact (hiff a).mpr (.inr (h.kept a ha hn hstale))

theorem addTopLevelForm (hid : id ∉ b.nodes)
    (hadd : g.addTopLevelForm id = .ok g') : FormsSince b stale g' := by
  obtain ⟨⟨hmem, -⟩, hg'⟩ := addTopLevelForm_eq_ok hadd
  by_cases hset : id ∈ g.topLevelSet
  · rw [if_pos hset] at hg'
    rw [hg']
    exact h
  · rw [if_neg hset] at hg'
    refine h.addForm hid hmem (fun hf => hset ((h.formsSet id).mpr hf))
      ⟨g.topLevelForms, [], by simp, rfl⟩ ?_ ?_ ?_ ?_
    all_goals rw [hg']

/-- A new list of forms that has the nodes of `b` where they were. -/
theorem setTopLevelFormIds {formIds : List Nat}
    (hset : g.setTopLevelFormIds formIds = .ok g')
    (hsame : formIds.filter (fun a => decide (a ∈ b.nodes))
      = g.topLevelForms.filter fun a => decide (a ∈ b.nodes)) (hb : b.Stored) :
    FormsSince b stale g' := by
  obtain ⟨⟨hdetached, hnodup⟩, hg'⟩ := setTopLevelFormIds_eq_ok.mp hset
  subst hg'
  exact
    { h with
      formsNodup := hnodup
      formsMem := fun id hid => (hdetached id hid).1
      formsSet := fun id => by rw [ExtTreeMap.mem_iff_isSome_getElem?, OrdSet.isSome_ofList]
      order := by rw [hsame]; exact h.order
      kept := by
        intro a ha hn hstale
        have hin : a ∈ g.topLevelForms.filter fun a => decide (a ∈ b.nodes) :=
          mem_filter.mpr ⟨h.kept a ha hn hstale, decide_eq_true (hb.formsMem a ha)⟩
        rw [← hsame] at hin
        exact (mem_filter.mp hin).1 }

/-- The form that is replaced becomes stale. -/
theorem replaceTopLevelForm {oldId newId : Nat} (hne : oldId ≠ newId)
    (hid : newId ∉ b.nodes) (hreplace : g.replaceTopLevelForm oldId newId = .ok g') :
    FormsSince b (fun a => stale a ∨ a = oldId) g' := by
  obtain ⟨index, hidx, hg'⟩ := replaceTopLevelForm_eq_ok hne hreplace
  have hnew : (newId ∈ g.nodes ∧ g.parentOf newId = none) ∧ newId ∉ g.topLevelSet := by
    simp only [IRGraph.replaceTopLevelForm, bind_eq_ok, if_neg hne] at hreplace
    obtain ⟨_, _, _, hnew, _⟩ := hreplace
    exact requireNewTopLevelForm_eq_ok.mp hnew
  have hfresh : newId ∉ g.topLevelForms := fun hf => hnew.2 ((h.formsSet newId).mpr hf)
  have hmem : ∀ a, a ∈ g.topLevelForms.set index newId ↔
      (a ∈ g.topLevelForms ∧ a ≠ oldId) ∨ a = newId :=
    mem_set_idxOf h.formsNodup hidx
  subst hg'
  refine
    { h with
      formsNodup := h.formsNodup.set hfresh, formsMem := ?_, formsSet := ?_, order := ?_, kept := ?_ }
  · intro a ha
    rcases (hmem a).mp ha with ⟨ha, -⟩ | rfl
    · exact h.formsMem a ha
    · exact hnew.1.1
  · intro a
    show a ∈ (g.topLevelSet.erase oldId).insert newId () ↔ a ∈ g.topLevelForms.set index newId
    rw [mem_insert, mem_erase, h.formsSet, hmem, or_comm]
  · refine List.Sublist.trans ?_ h.order
    obtain ⟨hlt, -, -⟩ := idxOf?_eq_some_iff.mp hidx
    show ((g.topLevelForms.set index newId).filter _).Sublist _
    rw [set_eq_take_append_cons_drop, if_pos hlt, filter_append,
      filter_cons_of_neg (by simpa using hid), ← filter_append]
    refine List.Sublist.filter _ ?_
    calc (g.topLevelForms.take index ++ g.topLevelForms.drop (index + 1)).Sublist
          (g.topLevelForms.take index ++ g.topLevelForms.drop index) :=
          List.Sublist.append_left (drop_sublist_drop_left _ (Nat.le_succ index)) _
      _ = g.topLevelForms := take_append_drop index _
  · intro a ha hn hstale
    rw [not_or] at hstale
    exact (hmem a).mpr (.inl ⟨h.kept a ha hn hstale.1, hstale.2⟩)

theorem replaceNode {nodeId : Nat}
    (hreplace : g.replaceNode nodeId node = .ok g') : FormsSince b stale g' := by
  have hmem : nodeId ∈ g.nodes := by
    simp only [IRGraph.replaceNode, check_bind_eq_ok, requireNode_eq_ok] at hreplace
    exact hreplace.1
  obtain ⟨hkey, rfl⟩ := replaceNode_eq_ok hreplace
  have hiff (a : Nat) : a ∈ g.nodes.insert nodeId node ↔ a ∈ g.nodes := by
    rw [mem_insert]
    exact or_iff_right_of_imp fun heq => heq ▸ hmem
  refine
    { h with
      keyed := ?_
      formsMem := fun a ha => (hiff a).mpr (h.formsMem a ha)
      below := fun a ha => h.below a ((hiff a).mp ha)
      kept := fun a ha hn hstale => h.kept a ha ((hiff a).mp hn) hstale }
  intro a other ha
  rw [lookup_insert] at ha
  by_cases heq : nodeId = a
  · rw [if_pos heq, Option.some.injEq] at ha
    rw [← ha, hkey, heq]
  · rw [if_neg heq] at ha
    exact h.keyed ha

theorem removeSubtreeStorage (id : Nat) :
    FormsSince b (fun a => stale a ∧ a ≠ id) (g.removeSubtreeStorage id).2 := by
  have hpruned := h.pruned (removeSubtreeStorage_pruned h.toStored id)
  refine { hpruned with kept := ?_ }
  intro a ha hn hstale
  refine hpruned.kept a ha hn ?_
  rintro ⟨hs, hgone⟩
  refine hstale ⟨hs, ?_⟩
  rintro rfl
  exact hgone .refl

end

/-! ## Actions -/

/-- With nothing stale before, a removal leaves nothing stale. -/
theorem keeps_removeSubtree (id : Nat) : Action.Keeps (FormsSince b fun _ => False)
    (.call fun g : IRGraph => (.ok (g.removeSubtreeStorage id) : CaapResult _)) := by
  refine .call fun g dropped g' h hrun => ?_
  have hg' : (g.removeSubtreeStorage id).2 = g' := by rw [ok.inj hrun]
  rw [← hg']
  exact { h.removeSubtreeStorage id with
    kept := fun a ha hn _ => (h.removeSubtreeStorage id).kept a ha hn fun hs => hs.1 }

theorem keeps_replaceTopLevelSubtree {oldId newId : Nat} (hne : oldId ≠ newId)
    (hid : newId ∉ b.nodes) :
    Action.Keeps (FormsSince b fun _ => False) (replaceTopLevelSubtree oldId newId) := by
  intro g h
  rw [replaceTopLevelSubtree]
  cases hreplace : g.replaceTopLevelForm oldId newId with
  | error e =>
    rw [Action.bind_of_error _ (show Action.update (fun g : IRGraph =>
      g.replaceTopLevelForm oldId newId) g = (.error e, g) by
        rw [Action.update, Action.call, hreplace]; rfl)]
    exact h
  | ok g₁ =>
    rw [Action.bind_of_ok _ (Action.update_eq_ok (u := ()).mpr hreplace), Action.bind_modify]
    have h₁ := h.replaceTopLevelForm hne hid hreplace
    -- moving the root leaves the forms alone
    have h₂ : FormsSince b (fun a => False ∨ a = oldId)
        (if g₁.rootId = oldId then { g₁ with rootId := newId } else g₁) := by
      by_cases hroot : g₁.rootId = oldId
      · rw [if_pos hroot]
        exact h₁.congr rfl rfl rfl rfl
      · rw [if_neg hroot]
        exact h₁
    have h₃ := h₂.removeSubtreeStorage oldId
    exact { h₃ with
      kept := fun a ha hn _ => h₃.kept a ha hn fun hs => hs.2 (hs.1.resolve_left id) }

theorem keeps_replaceChildSubtree {oldId newId : Nat} :
    Action.Keeps (FormsSince b fun _ => False) (replaceChildSubtree oldId newId) := by
  refine .bind (.check _) fun ⟨parentId, rewritten⟩ => ?_
  refine .bind (.modify fun g h => h.congr rfl rfl rfl rfl) fun _ => ?_
  exact .bind (.update fun g g' h hreplace => h.replaceNode hreplace) fun _ =>
    keeps_removeSubtree oldId

theorem keeps_replaceSubtree (oldId : Nat) {newId : Nat} (hid : newId ∉ b.nodes) :
    Action.Keeps (FormsSince b fun _ => False) (replaceSubtree oldId newId) := by
  refine .bind (.check _) fun _ => ?_
  by_cases hne : oldId = newId
  · rw [if_pos hne]
    exact .pure _
  · rw [if_neg hne]
    refine .bind (.check _) fun _ => .bind (.check _) fun topLevel => ?_
    exact .ite (keeps_replaceTopLevelSubtree hne hid) keeps_replaceChildSubtree

/-- An allocated id is not a node of `b`. -/
theorem keepsAnd_allocateId (hb : b.Stored) :
    Action.KeepsAnd (FormsSince b stale) (fun id => id ∉ b.nodes) (.call allocateId) := by
  refine .call fun g id g' h hrun => ?_
  obtain ⟨hid, rfl⟩ := allocateId_eq_ok hrun
  have hle := h.le
  refine ⟨{ h with below := fun a ha => (h.below a ha).trans (Nat.lt_succ_self _)
                   le := hle.trans (Nat.le_succ _) }, fun hmem => ?_⟩
  have hlt := hb.below id hmem
  omega

theorem keepsAnd_attachSpan {Q : Nat → Prop} (hid : Q id) {span : Option SourceSpan} :
    Action.KeepsAnd (FormsSince b stale) Q (attachSpan id span) := by
  cases span with
  | none => exact .pure hid
  | some span =>
    refine .bind (Action.Keeps.and_true (.update fun g g' h hset => ?_)) fun _ _ => .pure hid
    obtain ⟨-, hg'⟩ := setSourceSpan_eq_ok hset
    rw [hg']
    exact h.congr rfl rfl rfl rfl

theorem keeps_setNode (hb : b.Stored) (hid : node.id ∉ b.nodes) {parentId : Option Nat} :
    Action.Keeps (FormsSince b stale) (.update fun g : IRGraph => g.setNode node parentId) :=
  .update fun _ _ h hset => h.setNode hb hid hset

mutual

/-- Inserting an expression, also where it fails midway. -/
theorem keepsAnd_insertExprSpecInto (hb : b.Stored) : ∀ (spec : ExprSpec) (parentId : Option Nat),
    Action.KeepsAnd (FormsSince b stale) (fun id => id ∉ b.nodes) (insertExprSpecInto spec parentId)
  | .name identifier span, parentId => by
    refine .bind (keepsAnd_allocateId hb) fun id hid => ?_
    refine .bind (Q := fun node : Node => node.id = id) (.check ?_) fun node hnode => ?_
    · intro g node hname
      rw [Node.newName, ite_error_eq_ok] at hname
      rw [← ok.inj hname.2]
      rfl
    · refine .bind (keeps_setNode hb (hnode ▸ hid)).and_true fun _ _ => ?_
      exact keepsAnd_attachSpan hid
  | .literal value span, parentId => by
    refine .bind (keepsAnd_allocateId hb) fun id hid => ?_
    refine .bind (keeps_setNode hb (show (Node.literal id value).id ∉ b.nodes from hid)).and_true fun _ _ => ?_
    exact keepsAnd_attachSpan hid
  | .call callee args span, parentId => by
    refine .bind (keepsAnd_allocateId hb) fun id hid => ?_
    refine .bind (keepsAnd_insertExprSpecInto hb callee (some id)) fun calleeId _ => ?_
    refine .bind (Action.Keeps.and_true (keeps_insertArgs hb args (some id))) fun argIds _ => ?_
    refine .bind (Action.Keeps.and_true (.check _)) fun _ _ => ?_
    refine .bind (keeps_setNode hb (show (Node.call id calleeId argIds).id ∉ b.nodes from hid)).and_true fun _ _ => ?_
    exact keepsAnd_attachSpan hid

/-- The loop over the arguments. -/
theorem keeps_insertArgs (hb : b.Stored) : ∀ (args : List ExprSpec) (parentId : Option Nat),
    Action.Keeps (FormsSince b stale) (insertArgs args parentId)
  | [], _ => .pure _
  | spec :: rest, parentId => by
    refine .bind (keepsAnd_insertExprSpecInto hb spec parentId).keeps fun id => ?_
    exact .bind (keeps_insertArgs hb rest parentId) fun ids => .pure _

end

end FormsSince

/-! ## Graphs built with the public operations -/

end IRGraph

/-- The public operations of `IRGraph` that change it; the root id is a public field. -/
inductive IrGraphOp where
  | allocateId
  | setNode (node : Node) (parentId : Option Nat)
  | setRootId (id : Nat)
  | setSourceSpan (id : Nat) (span : SourceSpan)
  | markInternalNode (id : Nat)
  | addTopLevelForm (id : Nat)
  | setTopLevelFormIds (formIds : List Nat)
  | insertTopLevelBefore (anchor newId : Nat)
  | insertTopLevelAfter (anchor newId : Nat)
  | replaceTopLevelForm (oldId newId : Nat)
  | removeTopLevelForm (id : Nat)
  | replaceNode (nodeId : Nat) (node : Node)
  | deleteNode (nodeId : Nat)
  | eraseDetachedSubtree (rootId : Nat)
  | replaceSubtree (oldId newId : Nat)
  | insertExprSpec (spec : ExprSpec)

/-- The operation as an action, without its result. -/
def IrGraphOp.perform : IrGraphOp → IRGraph.GraphAction Unit
  | .allocateId => (Action.call IRGraph.allocateId).ignore
  | .setNode node parentId => .update fun g => g.setNode node parentId
  | .setRootId id => .modify fun g => { g with rootId := id }
  | .setSourceSpan id span => .update fun g => g.setSourceSpan id span
  | .markInternalNode id => .update fun g => g.markInternalNode id
  | .addTopLevelForm id => .update fun g => g.addTopLevelForm id
  | .setTopLevelFormIds formIds => .update fun g => g.setTopLevelFormIds formIds
  | .insertTopLevelBefore anchor newId => .update fun g => g.insertTopLevelBefore anchor newId
  | .insertTopLevelAfter anchor newId => .update fun g => g.insertTopLevelAfter anchor newId
  | .replaceTopLevelForm oldId newId => .update fun g => g.replaceTopLevelForm oldId newId
  | .removeTopLevelForm id => .modify fun g => (g.removeTopLevelForm id).2
  | .replaceNode nodeId node => .update fun g => g.replaceNode nodeId node
  | .deleteNode nodeId => (Action.call fun g : IRGraph => g.deleteNode nodeId).ignore
  | .eraseDetachedSubtree rootId =>
    (Action.call fun g : IRGraph => g.eraseDetachedSubtree rootId).ignore
  | .replaceSubtree oldId newId => (IRGraph.replaceSubtree oldId newId).ignore
  | .insertExprSpec spec => (IRGraph.insertExprSpec spec).ignore

namespace IRGraph

/-- The graphs that can be built: new ones, those of a template, and what the operations
    make of them, also when they fail. -/
inductive Built : IRGraph → Prop
  | new : Built .new
  | template {t : IRGraphTemplate} {g : IRGraph} (h : fromTemplate t = .ok g) : Built g
  | step {g : IRGraph} (h : Built g) (op : IrGraphOp) : Built (op.perform g).2

theorem stored_new : new.Stored where
  keyed h := by simp [new] at h
  formsNodup := nodup_nil
  formsMem _ h := absurd h not_mem_nil
  formsSet id := by simp [new]
  below id h := by simp [new] at h

variable {g : IRGraph}

/-- Compared with the empty graph every graph is as before. -/
theorem Stored.formsSince_new (h : g.Stored) (stale : Nat → Prop) : FormsSince .new stale g :=
  { h with
    le := Nat.zero_le _
    order := by
      have hnone : (g.topLevelForms.filter fun a => decide (a ∈ new.nodes)) = [] := by
        rw [filter_eq_nil_iff]
        simp [new]
      rw [hnone]
      exact nil_sublist _
    kept := fun a ha => absurd ha not_mem_nil }

theorem notMem_new (id : Nat) : id ∉ new.nodes := by simp [new]

/-- Inserting at an index splits the list there. -/
theorem insertIdx_eq_append {l : List Nat} {index : Nat} (h : index ≤ l.length) :
    ∃ l₁ l₂, l = l₁ ++ l₂ ∧ l.insertIdx index id = l₁ ++ id :: l₂ := by
  induction index generalizing l with
  | zero => exact ⟨[], l, rfl, rfl⟩
  | succ index ih =>
    cases l with
    | nil => exact absurd h (by simp)
    | cons a l =>
      obtain ⟨l₁, l₂, hl, hinsert⟩ := ih (Nat.le_of_succ_le_succ h)
      refine ⟨a :: l₁, l₂, by rw [hl]; rfl, ?_⟩
      rw [insertIdx_succ_cons, hinsert]
      rfl

theorem Stored.insertForm (h : g.Stored) {index : Nat} (hid : id ∈ g.nodes)
    (hfresh : id ∉ g.topLevelSet) (hindex : index ≤ g.topLevelForms.length) : ({ g with
      topLevelForms := g.topLevelForms.insertIdx index id
      topLevelSet := g.topLevelSet.insert id () } : IRGraph).Stored := by
  have hsince : FormsSince .new (fun _ => False) { g with
      topLevelForms := g.topLevelForms.insertIdx index id
      topLevelSet := g.topLevelSet.insert id () } :=
    (h.formsSince_new _).addForm (notMem_new id) hid (fun hf => hfresh ((h.formsSet id).mpr hf))
      (insertIdx_eq_append hindex) rfl rfl rfl rfl
  exact hsince.toStored

theorem index_lt {anchor index : Nat} (h : g.topLevelIndex anchor = .ok index) :
    index < g.topLevelForms.length := by
  obtain ⟨hlt, -⟩ := idxOf?_eq_some_iff.mp (topLevelIndex_eq_ok h)
  exact hlt

theorem Stored.removeTopLevelForm (h : g.Stored) (id : Nat) :
    (g.removeTopLevelForm id).2.Stored := by
  rw [IRGraph.removeTopLevelForm]
  cases hidx : g.topLevelForms.idxOf? id with
  | none => exact h
  | some index =>
    have herase : g.topLevelForms.eraseIdx index = g.topLevelForms.erase id := by
      rw [erase_eq_eraseIdx, hidx]
    have hmem : ∀ a, a ∈ g.topLevelForms.erase id ↔ a ≠ id ∧ a ∈ g.topLevelForms :=
      fun a => h.formsNodup.mem_erase_iff
    show Stored { g with
      topLevelForms := g.topLevelForms.eraseIdx index
      topLevelSet := g.topLevelSet.erase id }
    rw [herase]
    exact
      { h with
        formsNodup := h.formsNodup.erase id
        formsMem := fun a ha => h.formsMem a ((hmem a).mp ha).2
        formsSet := fun a => by rw [mem_erase, hmem, h.formsSet, and_comm] }

/-- Parents, spans, markers and the root play no part. -/
theorem Stored.congr {g' : IRGraph} (h : g.Stored) (hnodes : g'.nodes = g.nodes)
    (hforms : g'.topLevelForms = g.topLevelForms) (hset : g'.topLevelSet = g.topLevelSet)
    (hnext : g'.nextId = g.nextId) : g'.Stored :=
  ((h.formsSince_new fun _ => False).congr hnodes hforms hset hnext).toStored

/-- Every operation keeps the tables consistent. -/
theorem Stored.perform (h : g.Stored) (op : IrGraphOp) : (op.perform g).2.Stored := by
  have hsince : FormsSince .new (fun _ => False) g := h.formsSince_new _
  cases op with
  | allocateId => exact ((FormsSince.keepsAnd_allocateId stored_new).keeps g hsince).toStored
  | setNode node parentId =>
    exact Action.of_update h fun g' hset => (hsince.setNode stored_new (notMem_new _) hset).toStored
  | setRootId id => exact h.congr rfl rfl rfl rfl
  | setSourceSpan id span =>
    refine Action.of_update h fun g' hset => ?_
    obtain ⟨-, rfl⟩ := setSourceSpan_eq_ok hset
    exact h.congr rfl rfl rfl rfl
  | markInternalNode id =>
    refine Action.of_update h fun g' hmark => ?_
    rw [markInternalNode] at hmark
    cases hn : g.nodes[id]? with
    | none => simp [hn] at hmark
    | some node =>
      simp only [hn] at hmark
      by_cases hname : node.isName = true
      · rw [if_pos hname, ok.injEq] at hmark
        rw [← hmark]
        exact h.congr rfl rfl rfl rfl
      · rw [if_neg hname] at hmark
        exact absurd hmark (by simp)
  | addTopLevelForm id =>
    exact Action.of_update h fun g' hadd => (hsince.addTopLevelForm (notMem_new id) hadd).toStored
  | setTopLevelFormIds formIds =>
    refine Action.of_update h fun g' hset => (hsince.setTopLevelFormIds hset ?_ stored_new).toStored
    simp [new]
  | insertTopLevelBefore anchor newId =>
    refine Action.of_update h fun g' hinsert => ?_
    simp only [insertTopLevelBefore, bind_eq_ok, ok.injEq] at hinsert
    obtain ⟨_, hnew, index, hindex, rfl⟩ := hinsert
    obtain ⟨⟨hid, -⟩, hfresh⟩ := requireNewTopLevelForm_eq_ok.mp hnew
    exact h.insertForm hid hfresh (index_lt hindex).le
  | insertTopLevelAfter anchor newId =>
    refine Action.of_update h fun g' hinsert => ?_
    simp only [insertTopLevelAfter, bind_eq_ok, ok.injEq] at hinsert
    obtain ⟨_, hnew, index, hindex, rfl⟩ := hinsert
    obtain ⟨⟨hid, -⟩, hfresh⟩ := requireNewTopLevelForm_eq_ok.mp hnew
    exact h.insertForm hid hfresh (index_lt hindex)
  | replaceTopLevelForm oldId newId =>
    refine Action.of_update h fun g' hreplace => ?_
    by_cases hne : oldId = newId
    · simp only [replaceTopLevelForm, bind_eq_ok, if_pos hne, ok.injEq] at hreplace
      obtain ⟨_, _, rfl⟩ := hreplace
      exact h
    · exact (hsince.replaceTopLevelForm hne (notMem_new newId) hreplace).toStored
  | removeTopLevelForm id => exact h.removeTopLevelForm id
  | replaceNode nodeId node =>
    exact Action.of_update h fun g' hreplace => (hsince.replaceNode hreplace).toStored
  | deleteNode nodeId =>
    show (Action.call (fun g : IRGraph => g.deleteNode nodeId) g).2.Stored
    refine Action.Keeps.call (P := Stored) (fun g existed g' h hdelete => ?_) g h
    rw [deleteNode] at hdelete
    cases hn : g.nodes[nodeId]? with
    | none =>
      simp only [hn, ok.injEq, Prod.mk.injEq] at hdelete
      rw [← hdelete.2]
      exact h
    | some node =>
      simp only [hn, ite_error_eq_ok, ok.injEq, Prod.mk.injEq] at hdelete
      rw [← hdelete.2.2.2]
      exact (removeNodeStorage_pruned h nodeId).stored h
  | eraseDetachedSubtree rootId =>
    show (Action.call (fun g : IRGraph => g.eraseDetachedSubtree rootId) g).2.Stored
    refine Action.Keeps.call (P := Stored) (fun g dropped g' h herase => ?_) g h
    obtain ⟨-, -, hremove⟩ := eraseDetachedSubtree_eq_ok.mp herase
    have hg' : (g.removeSubtreeStorage rootId).2 = g' := by rw [hremove]
    rw [← hg']
    exact (removeSubtreeStorage_pruned h rootId).stored h
  | replaceSubtree oldId newId =>
    exact (FormsSince.keeps_replaceSubtree oldId (notMem_new newId) g hsince).toStored
  | insertExprSpec spec =>
    exact ((FormsSince.keepsAnd_insertExprSpecInto stored_new spec none).keeps g hsince).toStored

/-- Every graph that can be built stores its tables consistently. -/
theorem stored_of_built (h : g.Built) : g.Stored := by
  induction h with
  | new => exact stored_new
  | template h => exact (validateIntegrity_eq_ok.mp (validateIntegrity_of_fromTemplate h)).toStored
  | step _ op ih => exact ih.perform op

end IRGraph

end Caap
