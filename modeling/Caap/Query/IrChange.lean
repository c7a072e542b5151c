/-
  Caap.Query.IrChange

  `provider_ir_change_stats` of `query_service/cache.rs` compares the node tables of a unit
  before and after a provider ran.  The program of a unit is what its top-level forms
  read back as, in their order.  Where the node tables are equal and the earlier nodes
  among the forms were not moved, the forms are the same list, and so is the program.
-/

import Caap.Ir.Forms
import Caap.Query.Provider
import Caap.Unit.IrRuns

namespace Caap

open Std Lib CaapUnit IRGraph Option

/-- `node_kind_label`. -/
def nodeKindLabel : Node → String
  | .call _ _ _ => "Call"
  | .name _ _ => "Name"
  | .literal _ _ => "Literal"

/-- `provider_ir_change_stats`. -/
def providerIrChangeStats (beforeNodes : List Node) (unit : CaapUnit) : ProviderIrChangeStats :=
  let before := nodeMap beforeNodes
  let after := nodeMap unit.ir.toTemplate.nodes
  let erased := before.toList.filter fun entry => (after[entry.1]?).isNone
  let rewritten := before.toList.filterMap fun entry =>
    (after[entry.1]?).bind fun afterNode =>
      if afterNode != entry.2 then some (entry.2, afterNode) else none
  let added := after.toList.filter fun entry => (before[entry.1]?).isNone
  let rewriteCount := rewritten.length + added.length
  let erasedCount := erased.length
  { rewriteCount := rewriteCount
    erasedCount := erasedCount
    touchedNodeKinds := sortDedup (erased.map (fun entry => nodeKindLabel entry.2)
      ++ rewritten.flatMap (fun pair => [nodeKindLabel pair.1, nodeKindLabel pair.2])
      ++ added.map fun entry => nodeKindLabel entry.2)
    changeDomains := if 0 < rewriteCount ∨ 0 < erasedCount then ["ir"] else [] }

/-! ## Equal node tables -/

/-- The two node tables have the same ids, and nodes that compare equal. -/
structure SameNodes (before after : OrdMap Nat Node) : Prop where
  mem : ∀ id, id ∈ before ↔ id ∈ after
  eq : ∀ (id : Nat) (x y : Node), before[id]? = some x → after[id]? = some y → (y == x) = true

theorem sameNodes_of_no_change {beforeNodes : List Node} {unit : CaapUnit}
    (h : (providerIrChangeStats beforeNodes unit).hasIrChange = false) :
    SameNodes (nodeMap beforeNodes) (nodeMap unit.ir.toTemplate.nodes) := by
  rw [ProviderIrChangeStats.hasIrChange, Bool.or_eq_false_iff, decide_eq_false_iff_not,
    decide_eq_false_iff_not] at h
  simp only [providerIrChangeStats, Nat.not_lt, Nat.le_zero, Nat.add_eq_zero_iff,
    List.length_eq_zero_iff, List.filter_eq_nil_iff, List.filterMap_eq_nil_iff, Prod.forall,
    OrdMap.mem_toList, isNone_iff_eq_none] at h
  obtain ⟨⟨hrewritten, hadded⟩, herased⟩ := h
  refine ⟨fun id => ?_, fun id x y hx hy => ?_⟩
  · rw [OrdMap.mem_iff_exists, OrdMap.mem_iff_exists]
    constructor
    · rintro ⟨x, hx⟩
      exact ne_none_iff_exists'.mp (herased id x hx)
    · rintro ⟨y, hy⟩
      exact ne_none_iff_exists'.mp (hadded id y hy)
  · have hnone := hrewritten id x hx
    rw [hy, bind_some] at hnone
    by_contra hne
    rw [if_pos (by simpa [bne] using hne)] at hnone
    exact absurd hnone (by simp)

/-! ## Reading the program back -/

namespace Bounded

variable {α β : Type}

/-- Both run out of steps, fail with the same error, or return related results. -/
def Agree (R : α → α → Prop) (x y : Bounded α) : Prop :=
  (x.run = none ∧ y.run = none) ∨
    (∃ e, x.run = some (.error e) ∧ y.run = some (.error e)) ∨
      ∃ a b, x.run = some (.ok a) ∧ y.run = some (.ok b) ∧ R a b

variable {R : α → α → Prop}

theorem Agree.pure {a b : α} (h : R a b) :
    Agree R (pure a : Bounded α) (pure b) := .inr (.inr ⟨a, b, rfl, rfl, h⟩)

theorem Agree.throw (e : CaapError) :
    Agree R (throw e : Bounded α) (throw e) := .inr (.inl ⟨e, rfl, rfl⟩)

theorem not_agree_of_ok {x y : Bounded α} {a b : α}
    (hx : x.run = some (.ok a)) (hy : y.run = some (.ok b)) (hab : ¬ R a b) : ¬ Agree R x y := by
  rintro (⟨h, -⟩ | ⟨e, h, -⟩ | ⟨a', b', ha, hb, h⟩)
  · exact absurd (hx.symm.trans h) (by simp)
  · exact absurd (hx.symm.trans h) (by simp)
  · rw [hx, some.injEq, Except.ok.injEq] at ha
    rw [hy, some.injEq, Except.ok.injEq] at hb
    subst ha hb
    exact hab h

theorem Agree.imp {S : α → α → Prop} {x y : Bounded α} (h : Agree R x y)
    (hRS : ∀ a b, R a b → S a b) : Agree S x y := by
  rcases h with h | h | ⟨a, b, hx, hy, hab⟩
  · exact .inl h
  · exact .inr (.inl h)
  · exact .inr (.inr ⟨a, b, hx, hy, hRS a b hab⟩)

theorem Agree.bind {S : β → β → Prop} {x y : Bounded α} {f g : α → Bounded β}
    (h : Agree R x y) (hfg : ∀ a b, R a b → Agree S (f a) (g b)) : Agree S (x >>= f) (y >>= g) := by
  rcases h with ⟨hx, hy⟩ | ⟨e, hx, hy⟩ | ⟨a, b, hx, hy, hab⟩
  · refine .inl ⟨?_, ?_⟩
    · rw [ExceptT.run_bind, hx]
      rfl
    · rw [ExceptT.run_bind, hy]
      rfl
  · refine .inr (.inl ⟨e, ?_, ?_⟩)
    · rw [ExceptT.run_bind, hx]
      rfl
    · rw [ExceptT.run_bind, hy]
      rfl
  · have hf : (x >>= f).run = (f a).run := by
      rw [ExceptT.run_bind, hx]
      rfl
    have hg : (y >>= g).run = (g b).run := by
      rw [ExceptT.run_bind, hy]
      rfl
    unfold Agree
    rw [hf, hg]
    exact hfg a b hab

theorem Agree.mapM {R : β → β → Prop} {f g : α → Bounded β} {l : List α}
    (h : ∀ a ∈ l, Agree R (f a) (g a)) : Agree (List.Forall₂ R) (l.mapM f) (l.mapM g) := by
  induction l with
  | nil => exact .pure .nil
  | cons a l ih =>
    rw [List.mapM_cons, List.mapM_cons]
    refine .bind (h a (List.mem_cons_self ..)) fun x y hxy => ?_
    refine .bind (ih fun b hb => h b (List.mem_cons_of_mem _ hb)) fun xs ys hxs => ?_
    exact .pure (.cons hxy hxs)

end Bounded

namespace ExprSpec

theorem eqListModuloSpans_iff {as bs : List ExprSpec} :
    eqListModuloSpans as bs = true ↔ List.Forall₂ (fun a b => eqModuloSpans a b = true) as bs := by
  induction as generalizing bs with
  | nil => cases bs <;> simp [eqListModuloSpans]
  | cons a as ih =>
    cases bs with
    | nil => simp [eqListModuloSpans]
    | cons b bs => simp [eqListModuloSpans, ih]

end ExprSpec

namespace IRGraph

/-- The top-level forms read back as expression trees. -/
def program (g : IRGraph) (fuel : Nat) : Bounded (List ExprSpec) :=
  g.topLevelForms.mapM (g.exprSpecForSubtree fuel)

/-- The two programs are the same but for spans. -/
def SameProgram (fuel : Nat) (after before : IRGraph) : Prop :=
  Bounded.Agree (fun a b => ExprSpec.eqListModuloSpans a b = true) (after.program fuel)
    (before.program fuel)

/-- Nodes that compare equal read back as trees that compare equal. -/
theorem exprSpecForSubtree_agree {b g : IRGraph} (h : SameNodes b.nodes g.nodes) (fuel id : Nat) :
    Bounded.Agree (fun a c => ExprSpec.eqModuloSpans a c = true) (g.exprSpecForSubtree fuel id)
      (b.exprSpecForSubtree fuel id) := by
  induction fuel generalizing id with
  | zero => exact .inl ⟨rfl, rfl⟩
  | succ fuel ih =>
    rw [exprSpecForSubtree, exprSpecForSubtree]
    cases hb : b.nodes[id]? with
    | none =>
      have hg : g.nodes[id]? = none := by
        rw [← not_isSome_iff_eq_none, ← ExtTreeMap.mem_iff_isSome_getElem?, ← h.mem,
          ExtTreeMap.mem_iff_isSome_getElem?, hb]
        simp
      rw [hg]
      exact .throw _
    | some x =>
      obtain ⟨y, hg⟩ := OrdMap.mem_iff_exists.mp ((h.mem id).mp (OrdMap.mem_of_lookup hb))
      have heq : Node.eq y x = true := h.eq id x y hb hg
      rw [hg]
      cases y with
      | name j a =>
        cases x with
        | name i c =>
          simp only [Node.eq, Bool.and_eq_true, beq_iff_eq] at heq
          rw [heq.2]
          by_cases hempty : c = ""
          · simp only [ExprSpec.nameWithSpan, if_pos hempty]
            exact .throw _
          · simp only [ExprSpec.nameWithSpan, if_neg hempty]
            exact .pure (by rw [ExprSpec.eqModuloSpans, beq_self_eq_true])
        | literal _ _ | call _ _ _ => simp [Node.eq] at heq
      | literal j a =>
        cases x with
        | literal i c =>
          rw [Node.eq, Bool.and_eq_true] at heq
          exact .pure heq.2
        | name _ _ | call _ _ _ => simp [Node.eq] at heq
      | call j f as =>
        cases x with
        | call i f' as' =>
          obtain ⟨-, rfl, rfl⟩ := Node.call_beq_iff.mp heq
          refine .bind (ih f) fun callee callee' hcallee => ?_
          refine .bind (.mapM fun a _ => ih a) fun args args' hargs => ?_
          refine .pure ?_
          rw [ExprSpec.eqModuloSpans, Bool.and_eq_true, ExprSpec.eqListModuloSpans_iff]
          exact ⟨hcallee, hargs⟩
        | name _ _ | literal _ _ => simp [Node.eq] at heq

/-- Equal node tables under the same list of forms hold the same program. -/
theorem sameProgram_of_sameNodes {b g : IRGraph} (h : SameNodes b.nodes g.nodes)
    (hforms : g.topLevelForms = b.topLevelForms) {fuel : Nat} : SameProgram fuel g b := by
  unfold SameProgram program
  rw [hforms]
  refine (Bounded.Agree.mapM fun id _ => exprSpecForSubtree_agree h fuel id).imp ?_
  intro as bs hspecs
  exact ExprSpec.eqListModuloSpans_iff.mpr hspecs

/-- Where the nodes are those of `b`, the forms are those of `b`. -/
theorem FormsSince.forms_eq {b g : IRGraph} (h : FormsSince b (fun _ => False) g)
    (hb : b.Stored) (hmem : ∀ id, id ∈ b.nodes ↔ id ∈ g.nodes) :
    g.topLevelForms = b.topLevelForms := by
  have hall : g.topLevelForms.filter (fun a => decide (a ∈ b.nodes)) = g.topLevelForms := by
    rw [List.filter_eq_self]
    intro a ha
    exact decide_eq_true ((hmem a).mpr (h.formsMem a ha))
  have hsub : g.topLevelForms.Sublist b.topLevelForms := hall ▸ h.order
  have hperm : g.topLevelForms.Perm b.topLevelForms := by
    rw [List.perm_ext_iff_of_nodup h.formsNodup hb.formsNodup]
    intro a
    constructor
    · intro ha
      exact hsub.subset ha
    · intro ha
      exact h.kept a ha ((hmem a).mp (hb.formsMem a ha)) id
  exact hsub.eq_of_length hperm.length_eq

end IRGraph

/-! ## Runs -/

variable {u : CaapUnit}

namespace CaapUnit

/-- Taking a unit back leaves the graph of the snapshot or the graph there is. -/
theorem restoreAfterError_ir {α : Type} {s : UnitSnapshot} {e : CaapError} :
    (restoreAfterError (α := α) s e u).2.ir = s.ir ∨
      (restoreAfterError (α := α) s e u).2.ir = u.ir := by
  rw [restoreAfterError]
  cases hrestore : restoreSnapshot s with
  | ok restored =>
    obtain ⟨_, -, hrestored⟩ := bind_eq_ok.mp hrestore
    rw [← Except.ok.inj hrestored]
    exact .inl rfl
  | error rollbackError => exact .inr rfl

theorem recordLifecycle_ir (kind detail : String) (u : CaapUnit) :
    (recordLifecycle kind detail u).2.ir = u.ir := by
  have hkeeps : Action.Keeps (fun v : CaapUnit => v.ir = u.ir) (recordLifecycle kind detail) := by
    refine .update fun v v' hv hrecord => ?_
    obtain ⟨event, -, hv'⟩ := bind_eq_ok.mp hrecord
    rw [← Except.ok.inj hv']
    exact hv
  exact hkeeps u rfl

theorem finishEdit_ir {α : Type} {s : UnitSnapshot} {detail : String} {result : α} :
    (finishEdit s detail result u).2.ir = s.ir ∨ (finishEdit s detail result u).2.ir = u.ir := by
  rw [finishEdit]
  cases hv : u.nextVersion with
  | error e => exact restoreAfterError_ir
  | ok version =>
    right
    have hkeeps : Action.Keeps (fun v : CaapUnit => v.ir = u.ir) (do
        recordLifecycle "ir" detail
        return result) :=
      .bind (fun v hv => (recordLifecycle_ir "ir" detail v).trans hv) fun _ => .pure result
    exact hkeeps { u with version := version } rfl

theorem editIr_ir {α : Type} (edit : IRGraph.GraphAction α) (detail : String) (u : CaapUnit) :
    (editIr edit detail u).2.ir = u.ir ∨ (editIr edit detail u).2.ir = (edit u.ir).2 := by
  rw [editIr]
  rcases hedit : edit u.ir with ⟨r, ir⟩
  cases r with
  | error e => exact restoreAfterError_ir
  | ok a => exact finishEdit_ir

end CaapUnit

namespace IrCall

/-- A list of distinct parentless nodes that becomes the top-level forms has the nodes that
    the provider found in the unit where the current forms have them. -/
def KeepsOldForms (before u : CaapUnit) : IrCall → Prop
  | .setTopLevelFormIds formIds =>
    (∀ id ∈ formIds, id ∈ u.ir.nodes ∧ u.ir.parentOf id = none) → formIds.Nodup →
      formIds.filter (fun id => decide (id ∈ before.ir.nodes))
        = u.ir.topLevelForms.filter fun id => decide (id ∈ before.ir.nodes)
  | .replaceSubtree _ _ | .appendTopLevel _ | .setRootId _ | .eraseSubtree _ => True

instance (before u : CaapUnit) (call : IrCall) : Decidable (call.KeepsOldForms before u) :=
  match call with
  | .setTopLevelFormIds formIds =>
    inferInstanceAs (Decidable ((∀ id ∈ formIds, id ∈ u.ir.nodes ∧ u.ir.parentOf id = none) →
      formIds.Nodup → formIds.filter (fun id => decide (id ∈ before.ir.nodes))
        = u.ir.topLevelForms.filter fun id => decide (id ∈ before.ir.nodes)))
  | .replaceSubtree _ _ | .appendTopLevel _ | .setRootId _ | .eraseSubtree _ => .isTrue trivial

/-- One call, whether it succeeds or fails. -/
theorem formsSince_step {before : CaapUnit} {call : IrCall} (hb : before.ir.Stored)
    (h : before.ir.FormsSince (fun _ => False) u.ir) (hcall : call.KeepsOldForms before u) :
    before.ir.FormsSince (fun _ => False) (step u call).ir := by
  have hedit : ∀ {α : Type} {edit : IRGraph.GraphAction α} (detail : String),
      before.ir.FormsSince (fun _ => False) (edit u.ir).2 →
        before.ir.FormsSince (fun _ => False) (editIr edit detail u).2.ir := by
    intro α edit detail hafter
    rcases editIr_ir edit detail u with hir | hir
    · rw [hir]
      exact h
    · rw [hir]
      exact hafter
  cases call with
  | replaceSubtree targetId spec =>
    refine hedit "replace_subtree" ?_
    have hkeeps : Action.KeepsAnd (before.ir.FormsSince fun _ => False) (fun _ => True) (do
        let newId ← insertExprSpec spec
        let _ ← IRGraph.replaceSubtree targetId newId
        return newId) :=
      .bind (IRGraph.FormsSince.keepsAnd_insertExprSpecInto hb spec none) fun newId hid =>
        Action.Keeps.and_true (.bind (IRGraph.FormsSince.keeps_replaceSubtree targetId hid)
          fun _ => .pure newId)
    exact hkeeps.keeps u.ir h
  | appendTopLevel spec =>
    refine hedit "append_top_level" ?_
    have hkeeps : Action.KeepsAnd (before.ir.FormsSince fun _ => False) (fun _ => True) (do
        let newId ← insertExprSpec spec
        .update fun g => g.addTopLevelForm newId
        return newId) :=
      .bind (IRGraph.FormsSince.keepsAnd_insertExprSpecInto hb spec none) fun newId hid =>
        Action.Keeps.and_true (.bind (.update fun g g' hg hadd => hg.addTopLevelForm hid hadd)
          fun _ => .pure newId)
    exact hkeeps.keeps u.ir h
  | setTopLevelFormIds formIds =>
    refine hedit "set_top_level_forms" (Action.of_update h fun g' hset => ?_)
    obtain ⟨⟨hdetached, hnodup⟩, -⟩ := setTopLevelFormIds_eq_ok.mp hset
    exact h.setTopLevelFormIds hset (hcall hdetached hnodup) hb
  | setRootId rootId =>
    show before.ir.FormsSince _ (setIrRootId rootId u).2.ir
    rcases setIrRootId_cases u rootId with ⟨e, he⟩ | hok | ⟨hroot, version, hok⟩
    · rw [he]
      exact h
    · rw [hok]
      exact h
    · rw [hok]
      exact h.congr rfl rfl rfl rfl
  | eraseSubtree targetId =>
    show before.ir.FormsSince _ (eraseIrSubtree targetId u).2.ir
    rw [eraseIrSubtree]
    cases herase : u.ir.eraseDetachedSubtree targetId with
    | error e => exact h
    | ok r =>
      obtain ⟨dropped, ir⟩ := r
      obtain ⟨-, -, hremove⟩ := eraseDetachedSubtree_eq_ok.mp herase
      have hir : before.ir.FormsSince (fun _ => False) ir := by
        have hkept := IRGraph.FormsSince.keeps_removeSubtree (b := before.ir) targetId u.ir h
        rw [Action.call, hremove] at hkept
        exact hkept
      by_cases hempty : dropped.isEmpty = true
      · simp only [if_pos hempty]
        exact hir
      · simp only [if_neg hempty]
        rcases finishEdit_ir with
          hfinish | hfinish
        · rw [hfinish]
          exact h
        · rw [hfinish]
          exact hir

/-- The nodes that `provider_ir_change_stats` is given, taken before the provider runs. -/
theorem nodeMap_nodes (h : u.ir.Stored) : nodeMap u.ir.toTemplate.nodes = u.ir.nodes :=
  nodeMap_toTemplate h.keyed

/-- In a run of IR mutators that leaves the forms it finds in their places, a program that
    differs afterwards is a reported change, and a violation for every provider that did
    not declare it. -/
theorem irRun_change_detected {before : CaapUnit} (hbuilt : before.ir.Built) {calls : List IrCall}
    (hcalls : Guarded (fun u call => IrCall.KeepsOldForms before u call) IrCall.step before calls)
    (fuel : Nat) (hdiff : ¬ IRGraph.SameProgram fuel (run IrCall.step before calls).ir before.ir)
    (provider : QueryProvider) (hprovider : provider.declaresEffect .writeIr = false)
    (diagnosticsEmitted : Nat) (attributesChanged : Bool) (semanticWrites : SemanticWriteSummary)
    (context : Option QueryProviderContext) :
    (providerIrChangeStats before.ir.toTemplate.nodes (run IrCall.step before calls)).hasIrChange
        = true ∧ (providerEffectPolicyViolation provider diagnosticsEmitted
        (providerIrChangeStats before.ir.toTemplate.nodes (run IrCall.step before calls))
        attributesChanged semanticWrites context).isSome = true := by
  have hb : before.ir.Stored := IRGraph.stored_of_built hbuilt
  have hstep : ∀ (u : CaapUnit) (call : IrCall), before.ir.FormsSince (fun _ => False) u.ir →
      call.KeepsOldForms before u → before.ir.FormsSince (fun _ => False) (step u call).ir :=
    fun _ _ h hcall => formsSince_step hb h hcall
  have hrun : before.ir.FormsSince (fun _ => False) (run IrCall.step before calls).ir :=
    hcalls.invariant hstep (.refl hb)
  have hchange : (providerIrChangeStats before.ir.toTemplate.nodes
      (run IrCall.step before calls)).hasIrChange = true := by
    by_contra hno
    have hsame := sameNodes_of_no_change (Bool.eq_false_iff.mpr hno)
    rw [nodeMap_nodes hb, nodeMap_nodes hrun.toStored] at hsame
    exact hdiff (IRGraph.sameProgram_of_sameNodes hsame (hrun.forms_eq hb hsame.mem))
  refine ⟨hchange, ?_⟩
  rw [← Option.ne_none_iff_isSome]
  intro hnone
  obtain ⟨hundeclared, -, -⟩ := declared_of_no_violation hnone
  rw [hchange, QueryProvider.undeclared, hprovider] at hundeclared
  exact absurd hundeclared (by simp)

/-- The forms `a` and `b`. -/
def twoForms : List IrCall := [.appendTopLevel (.name "a" none), .appendTopLevel (.name "b" none)]

/-- Their graph, without a unit around it. -/
theorem built_twoForms : ∃ u, fromGraph "main" new = .ok u ∧ (run step u twoForms).ir.Built := by
  refine ⟨_, rfl, ?_⟩
  exact IRGraph.Built.step (.step (.step (.step .new (.insertExprSpec (.name "a" none)))
    (.addTopLevelForm 0)) (.insertExprSpec (.name "b" none))) (.addTopLevelForm 1)

/-- A third form is appended in front, and the first one is replaced. -/
def editedInPlace : List IrCall :=
  [.appendTopLevel (.name "c" none), .setTopLevelFormIds [2, 0, 1],
    .replaceSubtree 0 (.literal .null none)]

/-- A provider that declares no effect. -/
def silentProvider : QueryProvider :=
  .registered "silent" "check" .compileTime .empty 0 0

theorem irRun_change_detected_editedInPlace : ∃ u, CaapUnit.fromGraph "main" IRGraph.new = .ok u ∧
      (providerIrChangeStats (run step u twoForms).ir.toTemplate.nodes
        (run step (run step u twoForms) editedInPlace)).hasIrChange = true ∧
      (providerEffectPolicyViolation silentProvider 0
        (providerIrChangeStats (run step u twoForms).ir.toTemplate.nodes
          (run step (run step u twoForms) editedInPlace)) false .empty none).isSome = true := by
  obtain ⟨u, hu, hbuilt⟩ := built_twoForms
  refine ⟨u, hu, ?_⟩
  obtain rfl := Except.ok.inj hu
  refine irRun_change_detected hbuilt (by decide) 1 ?_ silentProvider (by decide) 0 false
    .empty none
  exact Bounded.not_agree_of_ok rfl rfl (by decide)

/-- The two forms change places: the program differs, no node does, and nothing is
    reported. -/
theorem irRun_change_missed :
    ∃ u, CaapUnit.fromGraph "main" IRGraph.new = .ok u ∧ (run step u twoForms).ir.Built ∧
      ¬ IRGraph.SameProgram 1 (step (run step u twoForms) (.setTopLevelFormIds [1, 0])).ir
          (run step u twoForms).ir ∧
        (providerIrChangeStats (run step u twoForms).ir.toTemplate.nodes
          (step (run step u twoForms) (.setTopLevelFormIds [1, 0]))).hasIrChange = false ∧
        silentProvider.declaresEffect .writeIr = false ∧
        providerEffectPolicyViolation silentProvider 0
          (providerIrChangeStats (run step u twoForms).ir.toTemplate.nodes
            (step (run step u twoForms) (.setTopLevelFormIds [1, 0]))) false .empty none = none := by
  obtain ⟨u, hu, hbuilt⟩ := built_twoForms
  refine ⟨u, hu, hbuilt, ?_⟩
  obtain rfl := Except.ok.inj hu
  refine ⟨?_, by decide, by decide, by decide⟩
  exact Bounded.not_agree_of_ok rfl rfl (by decide)

end IrCall

end Caap
