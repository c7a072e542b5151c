/-
  Caap.Kernel.Limits

  The limits of an evaluation: the step budget of `with_eval_step_budget` and the depth of
  nested evaluations.

  Both live in the evaluator that runs.  As long as it does all the work itself they hold:
  at most as many evaluations as the budget has steps, at most `max_eval_depth` nested
  (`limits_without_subevaluators`).  A sub-evaluator starts at depth 0 with a copy of the
  budget, or with none, and what it spends is not taken from the budget of its maker
  (`limits_of_other_graph`).
-/

import Caap.Kernel.DisciplineRun

namespace Caap.Kernel

open Lib

/-- What is run under a budget: a sequence of expressions, or a callback. -/
inductive Program where
  | forms (codes : List Code) (env : Env)
  | callback (value : Value) (args : List Value)

/-- The run of a program, to a depth. -/
def Program.run (host : Host) (fuel : Nat) (ctx : Ctx) : Program → Eval Value
  | .forms codes env => evalForms host fuel ctx codes env
  | .callback value args => invokeCallback host (eval host fuel) fuel ctx value args

/-- A call of `eval` that passed `enter_eval`. -/
def Event.isEntered : Event → Bool
  | .entered _ => true
  | _ => false

/-- The number of evaluations that a run performed. -/
def Machine.evaluations (s : Machine) : Nat := s.log.countP Event.isEntered

theorem Program.run_holds (d : Discipline) (host : Host) (fuel : Nat) (ctx : Ctx)
    (program : Program) : d.Fine ctx (program.run host fuel ctx) := by
  cases program with
  | forms codes env => exact Discipline.evalForms_holds d host fuel ctx codes env
  | callback value args =>
    exact Discipline.invokeCallback_fine (Discipline.eval_holds d host fuel)

/-- The evaluations so far and the steps that are left make up no more than the budget, and no
    evaluation was nested too deep. -/
structure WithinLimits (budget maxDepth : Nat) (s : Machine) : Prop where
  steps : ∃ remaining, s.evalStepBudget = some remaining ∧ s.evaluations + remaining ≤ budget
  depth : ∀ active, .entered active ∈ s.log → active ≤ maxDepth

namespace WithinLimits

variable {budget maxDepth : Nat} {s s' : Machine}

theorem congr (hlog : s'.log = s.log) (hbudget : s'.evalStepBudget = s.evalStepBudget)
    (h : WithinLimits budget maxDepth s) : WithinLimits budget maxDepth s' := by
  refine ⟨?_, ?_⟩
  · simp only [Machine.evaluations, hlog, hbudget]
    exact h.steps
  · rw [hlog]
    exact h.depth

theorem withHeap (heap : Heap) (h : WithinLimits budget maxDepth s) :
    WithinLimits budget maxDepth (s.withHeap heap) :=
  h.congr (s := s) rfl rfl

/-- An event that is no evaluation. -/
theorem note {event : Event} (hevent : event.isEntered = false)
    (h : WithinLimits budget maxDepth s) : WithinLimits budget maxDepth (s.note event) := by
  refine ⟨?_, ?_⟩
  · have hcount : (s.note event).evaluations = s.evaluations := by
      simp [Machine.evaluations, Machine.note, hevent]
    rw [hcount]
    exact h.steps
  · intro active hmem
    rcases List.mem_cons.mp hmem with heq | hmem
    · rw [← heq] at hevent
      exact absurd hevent Bool.noConfusion
    · exact h.depth active hmem

theorem spend (hbudget : s.evalStepBudget ≠ some 0) (h : WithinLimits budget maxDepth s) :
    ∃ remaining, s.spend.evalStepBudget = some remaining ∧
      s.spend.evaluations + (remaining + 1) ≤ budget := by
  obtain ⟨remaining, hremaining, hle⟩ := h.steps
  have hpos : remaining ≠ 0 := fun h0 => hbudget (h0 ▸ hremaining)
  refine ⟨remaining - 1, ?_, ?_⟩
  · simp [Machine.spend, Machine.withBudget, hremaining]
  · show s.evaluations + (remaining - 1 + 1) ≤ budget
    omega

theorem enter {active : Nat} (hbudget : s.evalStepBudget ≠ some 0) (hactive : active ≤ maxDepth)
    (h : WithinLimits budget maxDepth s) :
    WithinLimits budget maxDepth (s.spend.note (.entered active)) := by
  obtain ⟨remaining, hremaining, hle⟩ := h.spend hbudget
  refine ⟨⟨remaining, hremaining, ?_⟩, ?_⟩
  · have hcount : (s.spend.note (.entered active)).evaluations = s.spend.evaluations + 1 := by
      simp [Machine.evaluations, Machine.note, List.countP_cons, Event.isEntered]
    omega
  · intro other hmem
    rcases List.mem_cons.mp hmem with heq | hmem
    · obtain rfl := Event.entered.inj heq
      exact hactive
    · exact h.depth other hmem

end WithinLimits

/-- The discipline of one evaluator: the depth it counts is the number of nested evaluations. -/
def limits (budget maxDepth : Nat) : Discipline where
  base := ⟨[], [], [], []⟩
  bad event := event = .spawned
  Ok ctx := ctx.active = ctx.evalDepth ∧ ctx.maxEvalDepth = maxDepth
  Inv := WithinLimits budget maxDepth
  Leaves _ _ _ := True
  inv_congr _ hlog hbudget h := h.congr hlog hbudget
  ok_deeper h := ⟨congrArg (· + 1) h.1, h.2⟩
  ok_body _ h := h
  ok_block _ _ h := h
  ok_graph _ hbad _ := absurd rfl hbad
  ok_scope _ h := h
  leaves_deeper h := h
  leaves_graph h := h
  leaves_scope h := h
  leaves_body h := h
  leaves_block h _ := h
  leaves_own _ := trivial
  inv_left _ h := h.note rfl
  inv_extends _ h := h.withHeap _
  inv_frame _ _ h := h.withHeap _
  inv_map _ h := h.withHeap _
  inv_write _ _ _ h := h.withHeap _
  inv_silent {_ event} hsilent _ h := by
    cases event with
    | spawned => exact h.note rfl
    | updatedMap addr => exact h.note rfl
    | boundFlat frame => exact h.note rfl
    | leaving target own => exact h.note rfl
    | entered active => exact absurd hsilent id
    | handled name effects scopes => exact absurd hsilent id
    | left intended activation => exact absurd hsilent id
  inv_handled _ _ h := h.note rfl
  inv_spend hbudget h := by
    obtain ⟨remaining, hremaining, hle⟩ := h.spend hbudget
    exact ⟨⟨remaining, hremaining, by omega⟩, h.depth⟩
  inv_enter hok hdepth hbudget h := by
    have hactive := hok.1
    have hmax := hok.2
    exact h.enter hbudget (by omega)
  inv_budget hbad _ := absurd rfl hbad
  fresh_frame _ h := nomatch h

/-- The limits hold in every run that makes no sub-evaluator, whatever program is run under the
    budget: no more evaluations than the budget has steps, and never more than
    `max_eval_depth` of them nested. -/
theorem limits_without_subevaluators (host : Host) (fuel : Nat) (ctx : Ctx) (program : Program)
    (budget : Nat) (s s' : Machine) (result : Except Signal Value)
    (hctx : ctx.active = ctx.evalDepth) (hlog : s.log = [])
    (hrun : withEvalStepBudget (some budget) (program.run host fuel ctx) s = (result, s'))
    (hown : .spawned ∉ s'.log) :
    s'.evaluations ≤ budget ∧ ∀ active, .entered active ∈ s'.log → active ≤ ctx.maxEvalDepth := by
  let d := limits budget ctx.maxEvalDepth
  let start := s.withBudget (some budget)
  have hkept := program.run_holds d host fuel ctx start ⟨Nat.zero_le _, Nat.zero_le _, Nat.zero_le _,
    Nat.zero_le _⟩
  have hlogs : s'.log = (program.run host fuel ctx start).2.log :=
    congrArg (fun r => r.2.log) hrun.symm
  have hstart : WithinLimits budget ctx.maxEvalDepth start := by
    refine ⟨⟨budget, rfl, ?_⟩, ?_⟩
    · show s.log.countP Event.isEntered + budget ≤ budget
      simp [hlog]
    · intro active hmem
      have hmem' : Event.entered active ∈ s.log := hmem
      rw [hlog] at hmem'
      exact absurd hmem' List.not_mem_nil
  have hgood : ¬d.Bad (program.run host fuel ctx start).2 := by
    rintro ⟨event, hmem, rfl⟩
    rw [← hlogs] at hmem
    exact hown hmem
  have hend : WithinLimits budget ctx.maxEvalDepth (program.run host fuel ctx start).2 :=
    hkept.inv hgood ⟨hctx, rfl⟩ hstart
  obtain ⟨remaining, _, hle⟩ := hend.steps
  simp only [Machine.evaluations, hlogs]
  exact ⟨(Nat.le_add_right _ _).trans hle, hend.depth⟩

/-- `(do 1 2)`. -/
def twoLiterals : Program :=
  .forms [.call 0 (.name "do" false) [.literal (.int 1), .literal (.int 2)]] [0]

theorem limits_of_twoLiterals :
    ((withEvalStepBudget (some 3) (twoLiterals.run .bare 5 (.top 2))) .start).2.evaluations ≤ 3 ∧
      ∀ active, .entered active ∈
        ((withEvalStepBudget (some 3) (twoLiterals.run .bare 5 (.top 2))) .start).2.log →
          active ≤ 2 :=
  limits_without_subevaluators .bare 5 (.top 2) twoLiterals 3 .start _ _ rfl rfl rfl (by decide)

/-- A function of another graph whose body evaluates two literals. -/
def otherGraph : Closure where
  id := 1
  params := []
  body := [.literal (.int 1), .literal (.int 2)]
  env := []
  graph := 1
  captured := []

/-- `(do (g) (g) (g))`. -/
def threeCalls : Program :=
  .forms [.call 0 (.name "do" false)
    [.call 1 (.name "g" false) [], .call 2 (.name "g" false) [], .call 3 (.name "g" false) []]] [0]

/-- Under a budget of six steps ten evaluations are performed, and three are nested where two
    are allowed; the run returns. -/
theorem limits_of_other_graph :
    let start := Machine.start.withHeap ⟨[[("g", .closure otherGraph)]], [], [], []⟩
    let final := withEvalStepBudget (some 6) (threeCalls.run .bare 9 (.top 2)) start
    final.1.isOk = true ∧ final.2.evaluations = 10 ∧ .entered 3 ∈ final.2.log := by
  decide +kernel

end Caap.Kernel
