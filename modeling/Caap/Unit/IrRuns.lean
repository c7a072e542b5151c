/-
  Caap.Unit.IrRuns

  Runs of the IR mutators of a unit.  A unit whose snapshot validates gets back to exactly
  where it was when a mutator fails, and in a run in which no accepted call drops a
  top-level form and every replaced subtree was there before the call, the IR keeps its
  integrity and the unit stays restorable.
-/

import Caap.Ir.Mutators
import Caap.Unit.Ops

namespace Caap

open Std Lib

/-! ## Snapshots that validate -/

/-- What a snapshot needs beside the integrity of its IR. -/
structure UnitSnapshot.RestValid (s : UnitSnapshot) : Prop where
  unitId : s.unitId ≠ ""
  semantics : checkSemantics "unit snapshot semantic graph" s.semantics.snapshot = .ok ()
  linkBindings : checkLinkBindings "unit snapshot" s.linkBindings = .ok ()
  attributes : checkAll (checkAttribute "unit snapshot") s.attributes.toList = .ok ()
  syntaxState : s.syntaxState.validate = .ok ()
  lifecycleEvents : checkLifecycleEvents "unit snapshot" s.lifecycleEvents = .ok ()
  tombstones : checkAll (fun entry => do
    checkTombstoneKey "unit snapshot" entry
    entry.2.validate) s.erasedRewriteTombstones.toList = .ok ()

variable {s : UnitSnapshot}

theorem UnitSnapshot.validate_eq_ok :
    s.validate = .ok () ↔ s.ir.validateIntegrity = .ok () ∧ s.RestValid := by
  simp only [validate, ite_error_eq_ok, check_bind_eq_ok]
  constructor
  · rintro ⟨hid, -, hir, hsem, hlinks, hattr, hsyn, hlife, htomb⟩
    exact ⟨hir, hid, hsem, hlinks, hattr, hsyn, hlife, htomb⟩
  · rintro ⟨hir, hid, hsem, hlinks, hattr, hsyn, hlife, htomb⟩
    exact ⟨hid, s.stableId.nonempty, hir, hsem, hlinks, hattr, hsyn, hlife, htomb⟩

variable {detail : String} {u : CaapUnit}

namespace CaapUnit

theorem restoreSnapshot_eq_ok (h : s.validate = .ok ()) : restoreSnapshot s = .ok s := by
  rw [restoreSnapshot, h]
  rfl

/-- Rolling back to a snapshot that validates. -/
theorem restoreAfterError_eq {α : Type} (h : s.validate = .ok ())
    (error : CaapError) (u : CaapUnit) :
    (restoreAfterError s error : UnitAction α) u = (.error error, s) := by
  rw [restoreAfterError, restoreSnapshot_eq_ok h]

/-- Recording an event with a kind and a detail succeeds. -/
theorem recordLifecycle_eq {kind : String} (hkind : kind ≠ "") (hdetail : detail ≠ "")
    (u : CaapUnit) : recordLifecycle kind detail u =
      (.ok (), { u with lifecycleEvents := u.lifecycleEvents ++ [⟨kind, detail, u.version⟩] }) := by
  simp only [recordLifecycle, Action.update, Action.call, UnitLifecycleEvent.new, if_neg hkind,
    if_neg hdetail, ok_bind, Except.map]

/-- The unit after an IR edit that succeeded. -/
def edited (u : CaapUnit) (ir : IRGraph) (version : Nat) (detail : String) : CaapUnit :=
  { u with
    ir := ir
    version := version
    lifecycleEvents := u.lifecycleEvents ++ [⟨"ir", detail, version⟩] }

/-- An event that is not empty keeps a snapshot valid. -/
theorem RestValid.edited (h : UnitSnapshot.RestValid u) (ir : IRGraph)
    (version : Nat) (hdetail : detail ≠ "") :
    UnitSnapshot.RestValid (u.edited ir version detail) := by
  refine { h with lifecycleEvents := ?_ }
  have hevents := h.lifecycleEvents
  simp only [checkLifecycleEvents, ite_error_eq_ok, and_true, Bool.not_eq_true] at hevents ⊢
  rw [CaapUnit.edited, List.any_append, hevents]
  simp [hdetail]

theorem finishEdit_cases {α : Type} (h : s.validate = .ok ())
    (hdetail : detail ≠ "") (result : α) (u : CaapUnit) :
    (∃ e, finishEdit s detail result u = (.error e, s)) ∨ ∃ version, finishEdit s detail result u =
        (.ok result, { u with
          version := version
          lifecycleEvents := u.lifecycleEvents ++ [⟨"ir", detail, version⟩] }) := by
  rw [finishEdit]
  cases hv : u.nextVersion with
  | error e => exact .inl ⟨e, restoreAfterError_eq h e u⟩
  | ok version =>
    refine .inr ⟨version, ?_⟩
    exact Action.bind_of_ok _ (recordLifecycle_eq (by decide) hdetail { u with version := version })

/-- On a unit whose snapshot validates an edit fails without a trace or succeeds. -/
theorem editIr_cases {α : Type} (h : UnitSnapshot.validate u = .ok ())
    (edit : IRGraph.GraphAction α) (hdetail : detail ≠ "") :
    (∃ e, editIr edit detail u = (.error e, u)) ∨ ∃ a ir version, edit u.ir = (.ok a, ir) ∧
        editIr edit detail u = (.ok a, u.edited ir version detail) := by
  rw [editIr]
  rcases hedit : edit u.ir with ⟨r, ir⟩
  cases r with
  | error e => exact .inl ⟨e, restoreAfterError_eq h e { u with ir := ir }⟩
  | ok a =>
    rcases finishEdit_cases h hdetail a { u with ir := ir } with he | ⟨version, hok⟩
    · exact .inl he
    · exact .inr ⟨a, ir, version, rfl, hok⟩

theorem eraseIrSubtree_cases (h : UnitSnapshot.validate u = .ok ()) (targetId : Nat) :
    (∃ e, eraseIrSubtree targetId u = (.error e, u)) ∨
      ∃ dropped ir, u.ir.eraseDetachedSubtree targetId = .ok (dropped, ir) ∧
        (eraseIrSubtree targetId u = (.ok dropped, { u with ir := ir }) ∨
          ∃ version, eraseIrSubtree targetId u =
            (.ok dropped, u.edited ir version "erase_subtree")) := by
  rw [eraseIrSubtree]
  cases herase : u.ir.eraseDetachedSubtree targetId with
  | error e => exact .inl ⟨e, rfl⟩
  | ok r =>
    obtain ⟨dropped, ir⟩ := r
    simp only
    by_cases hempty : dropped.isEmpty = true
    · rw [if_pos hempty]
      exact .inr ⟨dropped, ir, rfl, .inl rfl⟩
    · rw [if_neg hempty]
      rcases finishEdit_cases h (by decide : "erase_subtree" ≠ "") dropped { u with ir := ir } with
        he | hok
      · exact .inl he
      · exact .inr ⟨dropped, ir, rfl, .inr hok⟩

/-- `set_ir_root_id` computes its version before it writes. -/
theorem setIrRootId_cases (u : CaapUnit) (rootId : Nat) :
    (∃ e, setIrRootId rootId u = (.error e, u)) ∨ setIrRootId rootId u = (.ok (), u) ∨
      (rootId ∈ u.ir.nodes ∧ ∃ version, setIrRootId rootId u =
        (.ok (), u.edited { u.ir with rootId := rootId } version "set_root")) := by
  rw [setIrRootId]
  by_cases hroot : rootId ∈ u.ir.nodes
  · rw [if_neg (not_not.mpr hroot)]
    by_cases heq : u.ir.rootId = rootId
    · rw [if_pos heq]
      exact .inr (.inl rfl)
    · rw [if_neg heq]
      cases hv : u.nextVersion with
      | error e => exact .inl ⟨e, rfl⟩
      | ok version =>
        refine .inr (.inr ⟨hroot, version, ?_⟩)
        exact recordLifecycle_eq (by decide) (by decide) _
  · rw [if_pos hroot]
    exact .inl ⟨_, rfl⟩

end CaapUnit

/-! ## Runs -/

/-- A call of an IR mutator of a unit. -/
inductive IrCall where
  | replaceSubtree (targetId : Nat) (spec : ExprSpec)
  | appendTopLevel (spec : ExprSpec)
  | setTopLevelFormIds (formIds : List Nat)
  | setRootId (rootId : Nat)
  | eraseSubtree (targetId : Nat)

namespace IrCall

/-- The call as an action, without its result. -/
def perform : IrCall → UnitAction Unit
  | .replaceSubtree targetId spec => (CaapUnit.replaceIrSubtreeWithSpec targetId spec).ignore
  | .appendTopLevel spec => (CaapUnit.appendIrTopLevelWithSpec spec).ignore
  | .setTopLevelFormIds formIds => CaapUnit.setIrTopLevelFormIds formIds
  | .setRootId rootId => CaapUnit.setIrRootId rootId
  | .eraseSubtree targetId => (CaapUnit.eraseIrSubtree targetId).ignore

/-- The unit after the call, whether it succeeded or failed. -/
def step (u : CaapUnit) (call : IrCall) : CaapUnit := (call.perform u).2

/-- A list of distinct parentless nodes that becomes the top-level forms leaves none of the
    current forms out, and the target of a replacement is an id that was handed out before
    the call. -/
def KeepsForms (u : CaapUnit) : IrCall → Prop
  | .setTopLevelFormIds formIds =>
    (∀ id ∈ formIds, id ∈ u.ir.nodes ∧ u.ir.parentOf id = none) → formIds.Nodup →
      ∀ id ∈ u.ir.topLevelForms, id ∈ formIds
  | .replaceSubtree targetId _ => targetId < u.ir.nextId
  | .appendTopLevel _ | .setRootId _ | .eraseSubtree _ => True

instance (u : CaapUnit) (call : IrCall) : Decidable (call.KeepsForms u) :=
  match call with
  | .setTopLevelFormIds formIds =>
    inferInstanceAs (Decidable ((∀ id ∈ formIds, id ∈ u.ir.nodes ∧ u.ir.parentOf id = none) →
      formIds.Nodup → ∀ id ∈ u.ir.topLevelForms, id ∈ formIds))
  | .replaceSubtree targetId _ => inferInstanceAs (Decidable (targetId < u.ir.nextId))
  | .appendTopLevel _ | .setRootId _ | .eraseSubtree _ => .isTrue trivial

end IrCall

/-- The IR is rooted and the rest of the unit validates. -/
structure CaapUnit.Restorable (u : CaapUnit) : Prop where
  ir : u.ir.Rooted
  rest : UnitSnapshot.RestValid u

namespace CaapUnit

theorem Restorable.validateIntegrity (h : u.Restorable) : u.ir.validateIntegrity = .ok () :=
  IRGraph.validateIntegrity_eq_ok.mpr h.ir.integrity

theorem Restorable.validate (h : u.Restorable) : UnitSnapshot.validate u = .ok () :=
  UnitSnapshot.validate_eq_ok.mpr ⟨h.validateIntegrity, h.rest⟩

theorem Restorable.edited (h : u.Restorable) {ir : IRGraph} (hir : ir.Rooted)
    (version : Nat) (hdetail : detail ≠ "") : (u.edited ir version detail).Restorable :=
  ⟨hir, RestValid.edited h.rest ir version hdetail⟩

/-- An edit that keeps the graph rooted when it succeeds keeps the unit restorable. -/
theorem Restorable.editIr (h : u.Restorable) {α : Type}
    {edit : IRGraph.GraphAction α} (hdetail : detail ≠ "")
    (hedit : ∀ a ir, edit u.ir = (.ok a, ir) → ir.Rooted) :
    (CaapUnit.editIr edit detail u).2.Restorable := by
  rcases editIr_cases h.validate edit hdetail with ⟨e, he⟩ | ⟨a, ir, version, hok, hres⟩
  · rw [he]
    exact h
  · rw [hres]
    exact h.edited (hedit a ir hok) version hdetail

/-- One call. -/
theorem Restorable.step (h : u.Restorable) {call : IrCall}
    (hcall : call.KeepsForms u) : (IrCall.step u call).Restorable := by
  cases call with
  | replaceSubtree targetId spec =>
    show (replaceIrSubtreeWithSpec targetId spec u).2.Restorable
    refine h.editIr (by decide : "replace_subtree" ≠ "") ?_
    intro newId ir hrun
    obtain ⟨id, g₁, hinsert, hrun⟩ := Action.bind_eq_ok.mp hrun
    obtain ⟨dropped, g₂, hreplace, hrun⟩ := Action.bind_eq_ok.mp hrun
    obtain ⟨-, rfl⟩ := Action.pure_eq_ok.mp hrun
    exact h.ir.replace hinsert hreplace hcall
  | appendTopLevel spec =>
    show (appendIrTopLevelWithSpec spec u).2.Restorable
    refine h.editIr (by decide : "append_top_level" ≠ "") ?_
    intro newId ir hrun
    obtain ⟨id, g₁, hinsert, hrun⟩ := Action.bind_eq_ok.mp hrun
    obtain ⟨_, g₂, hadd, hrun⟩ := Action.bind_eq_ok.mp hrun
    obtain ⟨-, rfl⟩ := Action.pure_eq_ok.mp hrun
    exact h.ir.append hinsert (Action.update_eq_ok.mp hadd)
  | setTopLevelFormIds formIds =>
    refine h.editIr (by decide : "set_top_level_forms" ≠ "") ?_
    intro _ ir hrun
    have hset := Action.update_eq_ok.mp hrun
    obtain ⟨⟨hdetached, hnodup⟩, -⟩ := IRGraph.setTopLevelFormIds_eq_ok.mp hset
    exact h.ir.setTopLevelFormIds hset (hcall hdetached hnodup)
  | setRootId rootId =>
    show (setIrRootId rootId u).2.Restorable
    rcases setIrRootId_cases u rootId with ⟨e, he⟩ | hok | ⟨hroot, version, hok⟩
    · rw [he]
      exact h
    · rw [hok]
      exact h
    · rw [hok]
      exact h.edited (h.ir.setRootId hroot) version (by decide)
  | eraseSubtree targetId =>
    show (eraseIrSubtree targetId u).2.Restorable
    rcases eraseIrSubtree_cases h.validate targetId with ⟨e, he⟩ | ⟨dropped, ir, herase, hok⟩
    · rw [he]
      exact h
    · have hir := h.ir.eraseDetachedSubtree herase
      rcases hok with hok | ⟨version, hok⟩
      · rw [hok]
        exact ⟨hir, { h.rest with }⟩
      · rw [hok]
        exact h.edited hir version (by decide)

/-- A unit made from a graph with integrity is restorable. -/
theorem Restorable.of_fromGraph {unitId : String} {g : IRGraph}
    (hu : fromGraph unitId g = .ok u) (hg : g.validateIntegrity = .ok ())
    (hforms : g.nodes = ∅ ∨ g.topLevelForms ≠ []) : u.Restorable := by
  simp only [fromGraph, ite_error_eq_ok, bind_eq_ok] at hu
  obtain ⟨hid, stableId, -, syntaxState, hsyntax, hu⟩ := hu
  rw [← Except.ok.inj hu]
  refine ⟨(IRGraph.validateIntegrity_eq_ok.mp hg).rooted hforms, ?_⟩
  refine { unitId := hid, semantics := rfl, linkBindings := rfl, attributes := rfl
           syntaxState := ?_, lifecycleEvents := rfl, tombstones := rfl }
  rw [← Except.ok.inj hsyntax]
  rfl

/-- In a run of IR mutators that drops no top-level form and replaces only what was there,
    the IR passes its validator after every step, and every snapshot can be restored. -/
theorem irRun_integrity {unitId : String} {g : IRGraph} {u : CaapUnit}
    (hu : fromGraph unitId g = .ok u) (hg : g.validateIntegrity = .ok ())
    (hforms : g.nodes = ∅ ∨ g.topLevelForms ≠ []) {calls : List IrCall}
    (hcalls : Guarded (fun u call => IrCall.KeepsForms u call) IrCall.step u calls) (k : Nat) :
    (run IrCall.step u (calls.take k)).ir.validateIntegrity = .ok () ∧
      restoreSnapshot (run IrCall.step u (calls.take k)).snapshot
        = .ok (run IrCall.step u (calls.take k)) := by
  have hrun : (run IrCall.step u (calls.take k)).Restorable :=
    (hcalls.take k).invariant (fun u call hr hc => hr.step hc) (Restorable.of_fromGraph hu hg hforms)
  exact ⟨hrun.validateIntegrity, restoreSnapshot_eq_ok hrun.validate⟩

/-- Two forms are appended and reordered, one is replaced and the other erased. -/
def editedForms : List IrCall :=
  [.appendTopLevel (.call (.name "f" none) [.literal .null none] none),
    .appendTopLevel (.name "b" none), .setTopLevelFormIds [3, 0], .setRootId 1,
    .replaceSubtree 2 (.name "c" none), .eraseSubtree 3]

theorem irRun_integrity_editedForms : ∃ u, fromGraph "main" IRGraph.new = .ok u ∧ ∀ k,
    (run IrCall.step u (editedForms.take k)).ir.validateIntegrity = .ok () ∧
        restoreSnapshot (run IrCall.step u (editedForms.take k)).snapshot
          = .ok (run IrCall.step u (editedForms.take k)) :=
  ⟨_, rfl, irRun_integrity (show fromGraph "main" IRGraph.new = .ok _ from rfl) (by decide)
    (.inl rfl) (by decide)⟩

/-- The second of two forms is left out of the top-level list. -/
def droppedForm : List IrCall :=
  [.appendTopLevel (.name "a" none), .appendTopLevel (.name "b" none), .setTopLevelFormIds [0]]

/-- The target of a replacement is the id that its own expression receives. -/
def replacedOwnId : List IrCall :=
  [.appendTopLevel (.name "a" none), .replaceSubtree 1 (.name "b" none)]

/-- Both runs end in an IR that its validator refuses, so that the unit cannot be restored
    from its own snapshot. -/
theorem irRun_integrity_lost : ∃ u, fromGraph "main" IRGraph.new = .ok u ∧
      ∀ calls ∈ [droppedForm, replacedOwnId], (run IrCall.step u calls).ir.validateIntegrity
            = .error (.graph "IRGraph parentless nodes mismatch: expected=[0], got=[0, 1]") ∧
          restoreSnapshot (run IrCall.step u calls).snapshot
            = .error (.graph "IRGraph parentless nodes mismatch: expected=[0], got=[0, 1]") := by
  refine ⟨_, rfl, ?_⟩
  intro calls hcalls
  rcases List.mem_cons.mp hcalls with rfl | hcalls
  · exact ⟨by decide, rfl⟩
  · rw [List.mem_singleton.mp hcalls]
    exact ⟨by decide, rfl⟩

end CaapUnit

end Caap
