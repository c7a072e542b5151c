/-
  Caap.Unit.Substitution

  `replace_ir_subtree_with_spec` is substitution: the program of the unit, read back as
  expression trees, is the earlier one with the occurrence at the target replaced, the
  other nodes are as they were, and the new nodes have ids that no earlier state of the
  unit had, as long as it is not taken back to a snapshot in between.
-/

import Caap.Ir.Readback
import Caap.Query.IrChange

namespace Caap

open Std Lib List

namespace IRGraph

/-- `g'` is `g` with the subtree at `t` replaced by the expression `e`, whose root is `n`. -/
structure Substituted (g g' : IRGraph) (t : Nat) (e : ExprSpec) (n : Nat) : Prop where
  /-- The new root reads back as the expression. -/
  reads : ∃ fuel, ∀ fuel', fuel ≤ fuel' → g'.exprSpecForSubtree fuel' n = pure e
  /-- The program is the earlier one with the occurrence at `t` replaced. -/
  program : ∃ (i form : Nat) (path : List Nat), g.topLevelForms[i]? = some form ∧
    g.follow path form = some t ∧ ∀ fuel specs, g.program fuel = pure specs →
      ∃ fuel₁, ∀ fuel', fuel₁ ≤ fuel' →
        g'.program fuel' = pure (specs.modify i fun spec => spec.replaceAt path e)
  /-- Nodes outside the subtree stay, with their spans and markers; only the call above `t`
      gets another child. -/
  kept : ∀ a, a ∈ g.nodes → ¬ Below g.kids t a →
    (g.parentOf t ≠ some a → g'.nodes[a]? = g.nodes[a]?) ∧
    (g.parentOf t = some a →
      g'.kids a = (g.kids a).map (List.map fun c => if c = t then n else c)) ∧
    g'.sourceSpans[a]? = g.sourceSpans[a]? ∧ (a ∈ g'.internalNodes ↔ a ∈ g.internalNodes)
  /-- The removed ids are those of the subtree. -/
  removed : ∀ a, a ∈ g.nodes → (a ∉ g'.nodes ↔ Below g.kids t a)
  /-- The nodes of the expression have new ids. -/
  fresh : ∀ a, Below g'.kids n a → g.nextId ≤ a

theorem follow_congr_on {g g' : IRGraph} {P : Nat → Prop} (hsame : ∀ a, P a → g'.kids a = g.kids a)
    (hclosed : ∀ {a cs c}, P a → g.kids a = some cs → c ∈ cs → P c) {path : List Nat} {id : Nat}
    (hid : P id) : g'.follow path id = g.follow path id := by
  have hchildren : ∀ a, P a → g'.childrenOf a = g.childrenOf a := by
    intro a ha
    exact congrArg (fun o : Option (List Nat) => o.getD []) (hsame a ha)
  induction path generalizing id with
  | nil => rfl
  | cons i path ih =>
    rw [follow, follow, hchildren id hid]
    cases hc : (g.childrenOf id)[i]? with
    | none => rfl
    | some c =>
      obtain ⟨cs, hk, hmem⟩ := kids_of_childrenOf (mem_of_getElem? hc)
      exact ih (hclosed hid hk hmem)

theorem Rooted.spanFree {g : IRGraph} (h : g.Rooted) : g.SpanFree := by
  intro a ha
  by_contra hne
  obtain ⟨span, hspan⟩ := Option.ne_none_iff_exists'.mp hne
  have hlt := h.below a (h.spans a (OrdMap.mem_of_lookup hspan))
  omega

/-- Every node of a rooted graph is below a top-level form. -/
theorem Rooted.below_form {g : IRGraph} (h : g.Rooted) {t : Nat} (ht : t ∈ g.nodes) :
    ∃ form ∈ g.topLevelForms, Below g.kids form t := by
  obtain ⟨r, hl, -, hr⟩ := h.integrity.leads_to_root ht
  exact ⟨r, (h.isRoot_iff r).mp hr, h.forest.linked.below_of_leads hl⟩

section Insert

variable {g g₁ g' : IRGraph} {e : ExprSpec} {t n : Nat}

/-- What is below a node of the block is in the block. -/
theorem Block.below (hb : Block g g₁ [n] none) {a : Nat} (h : Below g₁.kids n a) :
    g.nextId ≤ a ∧ a < g₁.nextId := by
  induction h with
  | refl =>
    obtain ⟨h1, h2, -⟩ := hb.root n (mem_singleton_self _)
    exact ⟨h1, h2⟩
  | step _ hk hc ih => exact hb.closed ih hk hc

section

variable (h : g.Rooted)

include h

/-- The new root is accepted in the place of an old node. -/
theorem Block.not_hazardous (hb : Block g g₁ [n] none) (ht : t ∈ g.nodes) :
    ¬ g₁.Hazardous t n := by
  have hsound := hb.sound h.toSound
  have hlt := h.below t ht
  rintro ⟨-, -, -, p, hp, hcase⟩
  have hup : g.up t = some (some p) := by
    rw [up, ← hb.parents t (.inl hlt)]
    exact Option.join_eq_some_iff.mp hp
  rcases hcase with hform | hnodup | hbelow
  · rw [hb.topLevelForms, ← h.forest.roots, hup] at hform
    exact absurd hform (by simp)
  · obtain ⟨cs, hk, -⟩ := hsound.linksAgree.up hp
    rw [kids_eq_some_childrenOf hk] at hnodup
    exact hnodup (hsound.forest.nodup hk)
  · have hinside := hb.below hbelow
    omega

/-- A replacement that succeeds after the expression was inserted exchanges the subtrees. -/
theorem Block.replaced (hb : Block g g₁ [n] none) (ht : t ∈ g.nodes)
    {dropped : List Nat} (hrun : replaceSubtree t n g₁ = (.ok dropped, g')) :
    Replaced g₁ g' t n := by
  have hsound := hb.sound h.toSound
  have hn : n ∈ g₁.nodes := by
    obtain ⟨h1, h2, -⟩ := hb.root n (mem_singleton_self _)
    exact hb.mem_nodes.mpr (.inl ⟨h1, h2⟩)
  rcases replaces_of_not_hazardous hsound.toStored hsound.linksAgree (hb.mem_of_mem h.toStored ht)
    hn (hb.not_hazardous h ht) with ⟨e, he⟩ | ⟨dropped', g'', hok, hreplaced⟩
  · rw [hrun] at he
    exact absurd (Prod.mk.inj he).1 (by simp)
  · rw [hrun] at hok
    rw [(Prod.mk.inj hok).2]
    exact hreplaced

/-- The tables of the old nodes are not touched by the insertion. -/
theorem Block.kids_of_mem (hb : Block g g₁ [n] none) {a : Nat} (ha : a ∈ g.nodes) :
    g₁.kids a = g.kids a := by
  rw [kids, kids, hb.nodes a (.inl (h.below a ha))]

theorem Rooted.mem_of_child {a c : Nat} {cs : List Nat} (_ : a ∈ g.nodes)
    (hk : g.kids a = some cs) (hc : c ∈ cs) : c ∈ g.nodes :=
  isSome_kids.mp (h.forest.isSome_of_child hk hc)

theorem Block.below_iff (hb : Block g g₁ [n] none) (ht : t ∈ g.nodes) {a : Nat} :
    Below g₁.kids t a ↔ Below g.kids t a :=
  Below.congr_on (P := (· ∈ g.nodes)) (fun _ ha => hb.kids_of_mem h ha) h.mem_of_child ht

theorem Block.parentOf_eq (hb : Block g g₁ [n] none) (ht : t ∈ g.nodes) :
    g₁.parentOf t = g.parentOf t := by
  rw [parentOf, parentOf, hb.parents t (.inl (h.below t ht))]

/-- An old subtree reads back as before the insertion. -/
theorem Block.reads (hb : Block g g₁ [n] none) {id : Nat} {spec : ExprSpec}
    (hid : id ∈ g.nodes) (hreads : Reads g id spec) : Reads g₁ id spec := by
  refine hreads.frame (P := (· ∈ g.nodes)) ?_ h.mem_of_child hid
  intro a ha
  have hlt := h.below a ha
  exact ⟨hb.nodes a (.inl hlt), hb.spans a (.inl hlt)⟩

/-- The forms afterwards: only `t` itself is exchanged. -/
theorem Block.forms_eq (hb : Block g g₁ [n] none)
    (hr : Replaced g₁ g' t n) : g'.topLevelForms = g.topLevelForms.map (Replaced.exchange t n) := by
  have hsound := hb.sound h.toSound
  rw [hr.forms, hb.topLevelForms]
  show (g.topLevelForms.map (Replaced.exchange t n)).filter (· ∈ g'.nodes) = _
  rw [filter_eq_self]
  intro a ha
  obtain ⟨form, hform, rfl⟩ := mem_map.mp ha
  refine decide_eq_true ((hr.gone _).mpr ?_)
  rw [Replaced.exchange]
  by_cases hft : form = t
  · rw [if_pos hft]
    obtain ⟨h1, h2, -⟩ := hb.root n (mem_singleton_self _)
    refine ⟨hb.mem_nodes.mpr (.inl ⟨h1, h2⟩), ?_⟩
    rintro ⟨hne, hbn⟩
    have heq := hsound.forest.eq_of_below_of_root hbn (.inr rfl)
    exact hne heq.symm
  · rw [if_neg hft]
    refine ⟨hb.mem_of_mem h.toStored (h.formsMem form hform), ?_⟩
    rintro ⟨-, hbf⟩
    exact hft (hsound.forest.eq_of_below_of_root hbf (.inl hform))

/-- The program afterwards. -/
theorem Block.program (hb : Block g g₁ [n] none)
    (hr : Replaced g₁ g' t n) (he : Reads g' n e) {i form : Nat} {path : List Nat}
    (hi : g.topLevelForms[i]? = some form) (hpath : g.follow path form = some t)
    {specs : List ExprSpec} (hspecs : List.Forall₂ (Reads g) g.topLevelForms specs) :
    ReadsAll g' g'.topLevelForms (specs.modify i fun spec => spec.replaceAt path e) := by
  have hsound := hb.sound h.toSound
  have hl := hsound.linksAgree
  have hform : form ∈ g.topLevelForms := mem_of_getElem? hi
  have hbelow : Below g₁.kids form t :=
    (hb.below_iff h (h.formsMem form hform)).mpr (below_of_follow hpath)
  rw [hb.forms_eq h hr, readsAll_iff, forall₂_map_left_iff]
  refine forall₂_modify hspecs ?_ ?_
  · intro a spec ha hreads
    obtain rfl : form = a := Option.some.inj (hi.symm.trans ha)
    refine hr.reads_above hl hsound.forest.nodup he ?_ (hb.reads h (h.formsMem _ hform) hreads)
    rw [← hpath]
    exact follow_congr_on (P := (· ∈ g.nodes)) (fun _ hx => hb.kids_of_mem h hx) h.mem_of_child
      (h.formsMem _ hform)
  · -- another form is the root of another tree
    intro j a spec hj ha hreads
    have haf : a ∈ g.topLevelForms := mem_of_getElem? ha
    have hne : a ≠ form := by
      rintro rfl
      obtain ⟨hlt, hget⟩ := List.getElem?_eq_some_iff.mp ha
      obtain ⟨hlt', hget'⟩ := List.getElem?_eq_some_iff.mp hi
      exact hj (h.formsNodup.getElem_inj_iff.mp (hget.trans hget'.symm))
    have hat : ¬ Below g₁.kids a t := by
      intro hbt
      rcases (hl.leads_of_below hbt).total (hl.leads_of_below hbelow) with hlead | hlead
      · exact hne (hsound.forest.eq_of_below_of_root (hl.below_of_leads hlead) (.inl haf))
      · exact hne (hsound.forest.eq_of_below_of_root (hl.below_of_leads hlead) (.inl hform)).symm
    have hta : ¬ Below g₁.kids t a := by
      intro hba
      have heq := hsound.forest.eq_of_below_of_root hba (.inl haf)
      exact hat (heq ▸ .refl)
    have hane : a ≠ t := by
      rintro rfl
      exact hta .refl
    rw [Replaced.exchange, if_neg hane]
    exact hr.reads_beside hl (hb.mem_of_mem h.toStored (h.formsMem a haf))
      (hb.reads h (h.formsMem a haf) hreads) hta hat

/-- What the nodes of the expression are afterwards. -/
theorem Block.fresh (hb : Block g g₁ [n] none) (ht : t ∈ g.nodes)
    (hr : Replaced g₁ g' t n) {a : Nat} (ha : Below g'.kids n a) : g.nextId ≤ a ∧ a < g₁.nextId := by
  induction ha with
  | refl =>
    obtain ⟨h1, h2, -⟩ := hb.root n (mem_singleton_self _)
    exact ⟨h1, h2⟩
  | @step x c cs _ hk hc ih =>
    have hx : x ∈ g'.nodes := isSome_kids.mp (by rw [hk]; rfl)
    have hparent : g₁.parentOf t ≠ some x := by
      intro hp
      rw [hb.parentOf_eq h ht] at hp
      obtain ⟨cs', hk', -⟩ := h.forest.linked.up hp
      have hlt := h.below x (isSome_kids.mp (by rw [hk']; rfl))
      omega
    have hk₁ : g₁.kids x = some cs := by
      rw [← hk, kids, kids, hr.rest x hx hparent]
    exact hb.closed ih hk₁ hc

/-- Inserting an expression and replacing the subtree at an old node by it. -/
theorem Rooted.substituted (hinsert : insertExprSpec e g = (.ok n, g₁))
    {dropped : List Nat} (hrun : replaceSubtree t n g₁ = (.ok dropped, g')) (ht : t ∈ g.nodes) :
    Substituted g g' t e n := by
  obtain ⟨-, hb⟩ := insertExprSpecInto_block e hinsert
  have hsound := hb.sound h.toSound
  have hr := hb.replaced h ht hrun
  have hnt : t ≠ n := by
    have hlt := h.below t ht
    have hge := (hb.root n (mem_singleton_self _)).1
    omega
  -- the new tree is beside the old subtree, so the replacement does not touch it
  have he : Reads g' n e := by
    have he₁ : Reads g₁ n e := insertExprSpecInto_reads e hinsert h.spanFree
    refine he₁.frame (P := Below g₁.kids n) ?_ (fun hb hk hc => .step hb hk hc) .refl
    intro a ha
    have hin := hb.below ha
    have hnot : ¬ Below g₁.kids t a := by
      intro hta
      have hold : a ∈ g.nodes := by
        cases (hb.below_iff h ht).mp hta with
        | refl => exact ht
        | step _ hk hc => exact isSome_kids.mp (h.forest.isSome_of_child hk hc)
      have hlt := h.below a hold
      omega
    have hmem : a ∈ g'.nodes := (hr.gone a).mpr ⟨hb.mem_nodes.mpr (.inl hin), fun hx => hnot hx.2⟩
    refine ⟨hr.rest a hmem ?_, hr.spans a hmem⟩
    intro hp
    rw [hb.parentOf_eq h ht] at hp
    obtain ⟨cs, hk, -⟩ := h.forest.linked.up hp
    have hlt := h.below a (isSome_kids.mp (by rw [hk]; rfl))
    omega
  have hgone : ∀ a, a ∈ g.nodes → (a ∈ g'.nodes ↔ ¬ Below g.kids t a) := by
    intro a ha
    rw [hr.gone, hb.below_iff h ht]
    constructor
    · rintro ⟨-, hnot⟩ hta
      exact hnot ⟨hnt, hta⟩
    · intro hnot
      exact ⟨hb.mem_of_mem h.toStored ha, fun hx => hnot hx.2⟩
  obtain ⟨form, hform, hbelow⟩ := h.below_form ht
  obtain ⟨i, hi⟩ := mem_iff_getElem?.mp hform
  obtain ⟨path, hpath⟩ := follow_of_below hbelow
  refine
    { reads := he.exprSpecForSubtree
      program := ⟨i, form, path, hi, hpath, ?_⟩
      kept := ?_, removed := ?_, fresh := fun a ha => (hb.fresh h ht hr ha).1 }
  · intro fuel specs hprogram
    have hspecs : List.Forall₂ (Reads g) g.topLevelForms specs :=
      (Bounded.mapM_eq_pure.mp hprogram).imp fun _ _ hread => reads_of_exprSpecForSubtree hread
    exact (hb.program h hr he hi hpath hspecs).exprSpecForSubtree
  · intro a ha hnot
    have hmem := (hgone a ha).mpr hnot
    have hlt := h.below a ha
    refine ⟨?_, ?_, ?_, ?_⟩
    · intro hp
      rw [hr.rest a hmem (by rw [hb.parentOf_eq h ht]; exact hp), hb.nodes a (.inl hlt)]
    · intro hp
      rw [hr.children a (by rw [hb.parentOf_eq h ht]; exact hp), hb.kids_of_mem h ha]
    · rw [hr.spans a hmem, hb.spans a (.inl hlt)]
    · rw [hr.markers a hmem, hb.internalNodes]
  · intro a ha
    rw [hgone a ha, not_not]

end

/-- An appended form stands behind the others, which read back as before. -/
theorem Rooted.append_reads {specs : List ExprSpec} (h : g.Rooted)
    (hinsert : insertExprSpec e g = (.ok n, g₁)) (hadd : g₁.addTopLevelForm n = .ok g')
    (hspecs : ReadsAll g g.topLevelForms specs) :
    ReadsAll g' g'.topLevelForms (specs ++ [e]) := by
  obtain ⟨rfl, hb⟩ := insertExprSpecInto_block e hinsert
  have hnew : g.nextId ∉ g₁.topLevelSet := by
    rw [hb.topLevelSet, h.formsSet]
    exact fun hmem => Nat.lt_irrefl _ (h.below _ (h.formsMem _ hmem))
  have hold : ReadsAll g₁ g.topLevelForms specs := by
    refine hspecs.frame (P := (· ∈ g.nodes)) (fun a ha => ?_) h.mem_of_child h.formsMem
    exact ⟨hb.nodes a (.inl (h.below a ha)), hb.spans a (.inl (h.below a ha))⟩
  have hall := readsAll_iff.mpr (rel_append (readsAll_iff.mp hold)
    (.cons (insertExprSpecInto_reads e hinsert h.spanFree) .nil))
  -- adding the form leaves the tables of the insertion
  obtain ⟨-, rfl⟩ := addTopLevelForm_eq_ok hadd
  rw [if_neg hnew, hb.topLevelForms]
  refine ReadsAll.frame (P := fun _ => True) ?_ (fun _ _ _ => trivial) hall fun _ _ => trivial
  exact fun _ _ => ⟨rfl, rfl⟩

end Insert

end IRGraph

/-! ## Units -/

namespace CaapUnit

/-- An edit that succeeds leaves the edited graph. -/
theorem editIr_eq_ok {α : Type} {edit : IRGraph.GraphAction α} {detail : String} {u u' : CaapUnit}
    {a : α} (h : editIr edit detail u = (.ok a, u')) : edit u.ir = (.ok a, u'.ir) := by
  have hrestore : ∀ (s : UnitSnapshot) (e : CaapError) (v : CaapUnit),
      (restoreAfterError s e : UnitAction α) v ≠ (.ok a, u') := by
    intro s e v
    rw [restoreAfterError]
    cases restoreSnapshot s with
    | ok _ | error _ => exact fun heq => absurd (Prod.mk.inj heq).1 (by simp)
  rw [editIr] at h
  rcases hedit : edit u.ir with ⟨r, ir⟩
  rw [hedit] at h
  cases r with
  | error e => exact absurd h (hrestore _ _ _)
  | ok b =>
    simp only [finishEdit] at h
    cases hv : ({ u with ir := ir } : CaapUnit).nextVersion with
    | error e =>
      rw [hv] at h
      exact absurd h (hrestore _ _ _)
    | ok version =>
      rw [hv] at h
      obtain ⟨_, v, hrecord, hpure⟩ := Action.bind_eq_ok.mp h
      obtain ⟨rfl, rfl⟩ := Action.pure_eq_ok.mp hpure
      have hir := recordLifecycle_ir "ir" detail { u with ir := ir, version := version }
      rw [hrecord] at hir
      rw [show v.ir = ir from hir]

end CaapUnit

namespace IrCall

/-- No call gives an id back, whether it succeeds or fails. -/
theorem nextId_le_step {u : CaapUnit} (h : u.ir.Stored) (call : IrCall) :
    (step u call).ir.Stored ∧ u.ir.nextId ≤ (step u call).ir.nextId := by
  have hsince : ∀ {call : IrCall}, call.KeepsOldForms u u →
      (step u call).ir.Stored ∧ u.ir.nextId ≤ (step u call).ir.nextId := by
    intro call hcall
    have hstep := formsSince_step h (.refl h) hcall
    exact ⟨hstep.toStored, hstep.le⟩
  cases call with
  | replaceSubtree _ _ | appendTopLevel _ | setRootId _ | eraseSubtree _ => exact hsince trivial
  | setTopLevelFormIds formIds =>
    show (CaapUnit.setIrTopLevelFormIds formIds u).2.ir.Stored ∧
      u.ir.nextId ≤ (CaapUnit.setIrTopLevelFormIds formIds u).2.ir.nextId
    rw [CaapUnit.setIrTopLevelFormIds]
    rcases CaapUnit.editIr_ir (.update fun g : IRGraph => g.setTopLevelFormIds formIds)
      "set_top_level_forms" u with hir | hir
    · rw [hir]
      exact ⟨h, Nat.le_refl _⟩
    · rw [hir]
      refine ⟨h.perform (.setTopLevelFormIds formIds), ?_⟩
      refine Action.of_update (P := fun g : IRGraph => u.ir.nextId ≤ g.nextId) (Nat.le_refl _)
        fun g' hset => ?_
      obtain ⟨-, rfl⟩ := IRGraph.setTopLevelFormIds_eq_ok.mp hset
      exact Nat.le_refl _

theorem nextId_le_run {u₀ : CaapUnit} (h : u₀.ir.Stored) (calls : List IrCall) :
    (run step u₀ calls).ir.Stored ∧ u₀.ir.nextId ≤ (run step u₀ calls).ir.nextId := by
  refine run_invariant (P := fun u : CaapUnit => u.ir.Stored ∧ u₀.ir.nextId ≤ u.ir.nextId) ?_
    ⟨h, Nat.le_refl _⟩ calls
  rintro u call ⟨hs, hle⟩
  obtain ⟨hs', hle'⟩ := nextId_le_step hs call
  exact ⟨hs', by omega⟩

/-- The ids that an earlier state of a run had in use are below the next id. -/
theorem lt_nextId_of_take {u₀ : CaapUnit} (h : u₀.ir.Stored) (calls : List IrCall) (k : Nat)
    {a : Nat} (ha : a ∈ (run step u₀ (calls.take k)).ir.nodes) :
    a < (run step u₀ calls).ir.nextId := by
  have hearly := (nextId_le_run h (calls.take k)).1
  have hlate := (nextId_le_run hearly (calls.drop k)).2
  rw [← run_append, take_append_drop] at hlate
  have hlt := hearly.below a ha
  omega

end IrCall

namespace CaapUnit

/-- Replacing a subtree of a unit is substitution in its program, and along a run of IR
    mutators, whether they succeed or fail, the nodes of the expression have ids that no
    earlier state had. -/
theorem replaceIrSubtreeWithSpec_substitutes {u u' : CaapUnit} {t n : Nat} {e : ExprSpec}
    (hvalid : u.ir.validateIntegrity = .ok ()) (hforms : u.ir.topLevelForms ≠ [])
    (ht : t ∈ u.ir.nodes) (hrun : replaceIrSubtreeWithSpec t e u = (.ok n, u')) :
    IRGraph.Substituted u.ir u'.ir t e n ∧
      ∀ (u₀ : CaapUnit) (calls : List IrCall), u₀.ir.Built → run IrCall.step u₀ calls = u →
        ∀ k a, Below u'.ir.kids n a → a ∉ (run IrCall.step u₀ (calls.take k)).ir.nodes := by
  have hrooted := (IRGraph.validateIntegrity_eq_ok.mp hvalid).rooted (.inr hforms)
  obtain ⟨id, g₁, hinsert, hedit⟩ := Action.bind_eq_ok.mp (editIr_eq_ok hrun)
  obtain ⟨dropped, g₂, hreplace, hedit⟩ := Action.bind_eq_ok.mp hedit
  obtain ⟨rfl, rfl⟩ := Action.pure_eq_ok.mp hedit
  have hsubst := hrooted.substituted hinsert hreplace ht
  refine ⟨hsubst, ?_⟩
  intro u₀ calls hbuilt hu k a ha hmem
  have hlt := IrCall.lt_nextId_of_take (IRGraph.stored_of_built hbuilt) calls k hmem
  rw [hu] at hlt
  have hge := hsubst.fresh a ha
  omega

/-- The argument of a call is replaced by a name. -/
theorem replaceIrSubtreeWithSpec_substitutes_argument : ∃ u₀ u u', fromGraph "main" .new = .ok u₀ ∧
      run IrCall.step u₀ [.appendTopLevel (.call (.name "f" none) [.literal .null none] none)] = u ∧
      replaceIrSubtreeWithSpec 2 (.name "c" none) u = (.ok 3, u') ∧
      IRGraph.Substituted u.ir u'.ir 2 (.name "c" none) 3 := by
  refine ⟨_, _, _, rfl, rfl, Prod.ext (by decide) rfl, ?_⟩
  apply And.left
  apply replaceIrSubtreeWithSpec_substitutes
  · decide
  · decide
  · decide
  · exact Prod.ext (by decide) rfl

/-- A name is replaced, the unit is taken back to the snapshot from before, and the name is
    replaced again: both times the new node is node 1. -/
theorem replaceIrSubtreeWithSpec_reuses_id : ∃ u₀ u u₁ u₂, fromGraph "main" .new = .ok u₀ ∧
      run IrCall.step u₀ [.appendTopLevel (.name "a" none)] = u ∧
      u.ir.validateIntegrity = .ok () ∧ u.ir.topLevelForms = [0] ∧
      replaceIrSubtreeWithSpec 0 (.name "b" none) u = (.ok 1, u₁) ∧ 1 ∈ u₁.ir.nodes ∧
      restoreSnapshot u.snapshot = .ok u ∧
      replaceIrSubtreeWithSpec 0 (.name "c" none) u = (.ok 1, u₂) ∧ 1 ∈ u₂.ir.nodes := by
  refine ⟨_, _, _, _, rfl, rfl, by decide, by decide,
    Prod.ext (by decide) rfl, by decide, ?_, Prod.ext (by decide) rfl,
    by decide⟩
  exact restoreSnapshot_eq_ok (by decide)

/-- Expressions appended to a valid unit read back behind its program, in their order. -/
theorem program_of_appends (u : CaapUnit) (before specs : List ExprSpec) (fuel : Nat)
    (hvalid : u.ir.validateIntegrity = .ok ()) (hforms : u.ir.nodes = ∅ ∨ u.ir.topLevelForms ≠ [])
    (hbefore : u.ir.program fuel = pure before)
    (hok : Guarded (fun u e => ∃ n, (appendIrTopLevelWithSpec e u).1 = .ok n)
      (fun u e => IrCall.step u (.appendTopLevel e)) u specs) :
    ∃ fuel₁, ∀ fuel', fuel₁ ≤ fuel' →
      (run IrCall.step u (specs.map .appendTopLevel)).ir.program fuel' = pure (before ++ specs) := by
  have hrooted := (IRGraph.validateIntegrity_eq_ok.mp hvalid).rooted hforms
  have hreads := IRGraph.readsAll_iff.mpr ((Bounded.mapM_eq_pure.mp hbefore).imp
    fun _ _ => IRGraph.reads_of_exprSpecForSubtree)
  clear hvalid hforms hbefore
  induction specs generalizing u before with
  | nil =>
    rw [append_nil]
    exact hreads.exprSpecForSubtree
  | cons e specs ih =>
    obtain ⟨⟨n, hn⟩, hok⟩ := hok
    obtain ⟨id, g₁, hinsert, hedit⟩ := Action.bind_eq_ok.mp (editIr_eq_ok (Prod.ext hn rfl))
    obtain ⟨_, g₂, hupdate, hedit⟩ := Action.bind_eq_ok.mp hedit
    obtain ⟨-, rfl⟩ := Action.pure_eq_ok.mp hedit
    have hadd := Action.update_eq_ok.mp hupdate
    rw [append_cons]
    exact ih _ _ hok (hrooted.append hinsert hadd) (hrooted.append_reads hinsert hadd hreads)

theorem program_of_appends_name : ∃ u, fromGraph "main" .new = .ok u ∧ ∃ fuel₁, ∀ fuel',
    fuel₁ ≤ fuel' → (run IrCall.step u [.appendTopLevel (.name "a" none)]).ir.program fuel' =
      pure [.name "a" none] :=
  ⟨_, rfl, program_of_appends _ [] [_] 0 (by decide) (.inl rfl) rfl ⟨⟨0, by decide⟩, trivial⟩⟩

end CaapUnit

end Caap
