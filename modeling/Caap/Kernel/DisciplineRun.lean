/-
  Caap.Kernel.DisciplineRun

  Every evaluation keeps every discipline: one lemma for each function of the evaluator,
  given that the evaluation of subexpressions keeps the discipline (`hev`), and from them,
  by induction on the depth, `eval_holds`.
-/

import Caap.Kernel.Discipline

namespace Caap.Kernel

open Lib

namespace Discipline

variable {d : Discipline} {host : Host} {ev : Evaluate}

/-! ## Builtins that work on values -/

section Values

variable {ctx : Ctx}

theorem refuse_fine {condition : Bool} {message : String} : d.Fine ctx (refuse condition message) :=
  .ite (fun _ => .fail) fun _ => .pure trivial

theorem allocOp_fine (op : AllocOp) (args : List Value) : d.Fine ctx (op.run host ctx args) := by
  cases op with
  | listOf =>
    exact .bind .ensureCollectionLen fun _ _ => .alloc fun h => h.newList_extends args
  | mapOf =>
    refine .bind refuse_fine fun _ _ => .heap_bind fun h => .bind .check fun entries _ => ?_
    exact .bind .ensureCollectionLen fun _ _ => .alloc fun h => h.newMap_extends entries
  | ref => exact .alloc fun h => h.newRef_extends _
  | mapKeys | mapValues =>
    refine .heap_bind fun h => .bind .check fun addr _ => ?_
    exact .bind .ensureCollectionLen fun _ _ => .alloc fun h => h.newList_extends _

theorem writeOp_fine (op : WriteOp) (args : List Value) (hgrants : ctx.Grants) :
    d.Fine ctx (op.run host ctx args) := by
  cases op with
  | append =>
    refine .heap_bind fun h => .bind .check fun addr _ => ?_
    exact .bind .ensureCollectionLen fun _ _ =>
      .writeGranted hgrants fun h => h.setList_grows addr _
  | assoc =>
    refine .heap_bind fun h => .bind .check fun addr _ => .bind refuse_fine fun _ _ => ?_
    refine .bind .check fun entries _ => .bind .ensureCollectionLen fun _ _ => ?_
    exact .writeGranted hgrants fun h => h.setMap_grows addr entries
  | set =>
    refine .heap_bind fun h => ?_
    cases args.getD 0 .null with
    | map addr =>
      have hroom : ∀ key, d.Fine ctx (ensureNewKey ctx (h.map addr) key) := fun key =>
        .ite (fun _ => .ensureCollectionLen) fun _ => .pure trivial
      refine .bind .check fun key _ => .bind (hroom key) fun _ _ => ?_
      exact .writeGranted hgrants fun h => h.setMap_grows addr _
    | list addr =>
      refine .bind .check fun index _ => .bind refuse_fine fun _ _ => ?_
      exact .writeGranted hgrants fun h => h.setList_grows addr _
    | _ => exact .fail
  | mapDelete =>
    refine .heap_bind fun h => .bind .check fun addr _ => .bind .check fun key _ => ?_
    exact .writeGranted hgrants fun h => h.setMap_grows addr _
  | listRemoveAt =>
    refine .heap_bind fun h => .bind .check fun addr _ => .bind .check fun index _ => ?_
    exact .bind refuse_fine fun _ _ => .writeGranted hgrants fun h => h.setList_grows addr _
  | setRef =>
    refine .heap_bind fun h => .bind .check fun addr _ => ?_
    exact .writeGranted hgrants fun h => h.setRef_grows addr _

/-- A host function runs where its effects are granted. -/
theorem callHost_fine {kind name : String} {f : HostFunction} (args : List Value)
    (hpolicy : requireEffectPolicy ctx kind name f.effectPolicy = .ok ()) :
    d.Fine ctx (callHost f args) := by
  refine .bind (φ := fun _ => True) ?_ fun r _ => ?_
  · by_cases hpure : f.effectPolicy.tags = []
    · exact .alloc fun h => f.pure_extends hpure args h
    · exact .writeGranted ⟨kind, name, f.effectPolicy, hpure, hpolicy⟩ fun h => f.grows args h
  · cases r with
    | ok value => exact .pure trivial
    | error failure => cases failure <;> exact .throw trivial

theorem bindClosureArguments_fine {env : Env} (henv : d.Fresh env) (params : List String)
    (args : List Value) : d.Fine ctx (bindClosureArguments env params args) := by
  have hexact : d.Fine ctx (bindClosureArguments.exact env params args) :=
    .ite (fun _ => .fail) fun _ => .writeFresh henv fun h => h.defineAll_extendsBut env _
  unfold bindClosureArguments
  cases params.getLast? with
  | none => exact hexact
  | some last =>
    refine .ite (fun _ => .ite (fun _ => .fail) fun _ => .ite (fun _ => .fail) fun _ => ?_)
      fun _ => hexact
    refine .writeFresh henv fun h => ?_
    have hparams := h.defineAll_extendsBut env (params.dropLast.zip args)
    exact (hparams.trans ((Heap.newList_extends _ _).but _)).trans (Heap.define_extendsBut _ _ _ _)

end Values

/-! ## Sequences, closures and syntax -/

section Evaluate

variable (hev : ∀ (ctx : Ctx) (token : Nat) (code : Code) (env : Env),
  d.Fine ctx (ev ctx token code env))

include hev

variable {ctx : Ctx} {env : Env} {token rounds id : Nat} {args codes : List Code} {c : Closure}
  {callback : Value} {items values : List Value} {builtin : Builtin}

theorem evalSequence_fine {last : Value} : d.Fine ctx (evalSequence ev ctx env last codes) := by
  induction codes generalizing last with
  | nil => exact .pure trivial
  | cons code rest ih => exact .bind (hev ctx 0 code env) fun value _ => ih

theorem evalSequenceTail_fine : d.Fine ctx (evalSequenceTail ev ctx env token codes) := by
  induction codes with
  | nil => exact .pure trivial
  | cons code rest ih =>
    cases rest with
    | nil => exact hev ctx token code env
    | cons next rest => exact .bind (hev ctx 0 code env) fun _ _ => ih

theorem evalArgs_fine : d.Fine ctx (evalArgs ev ctx env codes) := by
  induction codes with
  | nil => exact .pure trivial
  | cons code rest ih =>
    exact .bind (hev ctx 0 code env) fun _ _ => .bind ih fun _ _ => .pure trivial

theorem evalCapturedBody_fine : d.Fine ctx (evalCapturedBody ev ctx c env token) := by
  refine .ite (fun _ => ?_) fun _ => ?_
  · exact .inBody (evalSequenceTail_fine hev)
  · exact .inBody (.spawn (evalSequenceTail_fine hev))

theorem invokeClosure_fine {args : List Value} :
    d.Fine ctx (invokeClosure ev ctx c rounds args) := by
  induction rounds generalizing args with
  | zero => exact .throw trivial
  | succ rounds ih =>
    refine .bind .newEnv fun env henv => .bind (bindClosureArguments_fine henv _ _) fun _ _ => ?_
    refine .attempt_bind (evalCapturedBody_fine hev) ?_ ?_ ?_
    · exact fun _ _ => .pure trivial
    · intro e he
      cases e with
      | tailCall token args' => exact .ite (fun _ => ih) fun _ => .throw trivial
      | leave t v i => exact absurd he id
      | error _ | exception _ | outOfFuel => exact .throw trivial
    · exact fun _ _ _ => rfl

theorem evalExpansionSpec_fine {spec : ExprSpec} :
    d.Fine ctx (evalExpansionSpec ev ctx spec env) := by
  refine .bind .check fun code _ => .bind .freshId fun graph _ => ?_
  exact .inBody (.spawn (hev _ 0 code.1 env))

omit hev in
theorem quoteArgs_fine : d.Fine ctx (quoteArgs args) := by
  induction args with
  | nil => exact .pure trivial
  | cons arg rest ih =>
    refine .bind .check fun spec _ => .bind .freshId fun id _ => ?_
    exact .bind ih fun _ _ => .pure trivial

theorem invokeMacro_fine : d.Fine ctx (invokeMacro ev ctx c args env) := by
  refine .bind (quoteArgs_fine) fun quoted _ => .bind .newEnv fun child hchild => ?_
  refine .bind (bindClosureArguments_fine hchild _ _) fun _ _ => ?_
  refine .bind (evalCapturedBody_fine hev) fun expanded _ => ?_
  exact .bind .check fun spec _ => evalExpansionSpec_fine hev

omit hev in
theorem invokeBuiltinWithValues_fine {args : List Value} :
    d.Fine ctx (invokeBuiltinWithValues host ctx builtin args) := by
  refine .bind .check fun _ _ => .bind .check fun _ hpolicy => ?_
  refine .bind refuse_fine fun _ _ => .bind .check fun _ _ => .bind refuse_fine fun _ _ => ?_
  refine .bind (.recordHandled hpolicy) fun _ _ => ?_
  cases builtin with
  | pure op => exact .heap_bind fun h => Holds.check.fine
  | _ => exact .fail

theorem invokeCallback_fine {args : List Value} :
    d.Fine ctx (invokeCallback host ev rounds ctx callback args) := by
  cases callback with
  | closure c => exact invokeClosure_fine hev
  | hostFunction name =>
    simp only [invokeCallback]
    cases host.function name with
    | none => exact .fail
    | some f =>
      refine .bind .check fun _ _ => .bind .check fun _ hpolicy => ?_
      refine .bind .check fun _ _ => .bind (.recordHandled hpolicy) fun _ _ => ?_
      exact callHost_fine args hpolicy
  | builtin b => exact invokeBuiltinWithValues_fine
  | _ => exact .heap_bind fun h => .fail

/-! ## The special forms -/

omit hev in
theorem truthy_fine {value : Value} : d.Fine ctx (truthy value) :=
  .heap_bind fun _ => .pure trivial

theorem evalIf_fine : d.Fine ctx (evalIf ev ctx token env args) := by
  cases args with
  | nil => exact .pure trivial
  | cons condition rest =>
    cases rest with
    | nil => exact .pure trivial
    | cons consequent alternative =>
      refine .bind (hev ctx 0 condition env) fun c _ => .bind truthy_fine fun b _ => ?_
      refine .ite (fun _ => hev ctx token consequent env) fun _ => ?_
      cases alternative with
      | nil => exact .pure trivial
      | cons code _ => exact hev ctx token code env

theorem evalUntil_fine {stop : Bool} {last : Value} :
    d.Fine ctx (evalUntil ev ctx env stop last codes) := by
  induction codes generalizing last with
  | nil => exact .pure trivial
  | cons code rest ih =>
    refine .bind (hev ctx 0 code env) fun value _ => .bind truthy_fine fun b _ => ?_
    exact .ite (fun _ => .pure trivial) fun _ => ih

omit hev in
theorem evalLambda_fine {make : Closure → Value} : d.Fine ctx (evalLambda ctx env make args) := by
  cases args with
  | nil => exact .pure trivial
  | cons params body =>
    exact .bind .check fun _ _ => .bind .freshId fun _ _ => .pure trivial

theorem evalBindPairs_fine {child : Env} (hchild : d.Fresh child) {pairs : List (String × Code)} :
    d.Fine ctx (evalBindPairs ev ctx child pairs) := by
  induction pairs with
  | nil => exact .pure trivial
  | cons pair rest ih =>
    refine .bind (hev ctx 0 pair.2 child) fun value _ => .bind (φ := fun _ => True) ?_ fun _ _ => ih
    exact .writeFresh hchild fun h => h.define_extendsBut child pair.1 value

theorem evaluateBindPairs_fine {pairs : List (String × Code)} {body : List Code} :
    d.Fine ctx (evaluateBindPairs ev ctx token env pairs body) := by
  refine .bind .newEnv fun child hchild => .bind (φ := fun _ => True) ?_ fun _ _ => ?_
  · exact .writeFresh hchild fun h => h.defineAll_extendsBut child _
  · refine .bind (evalBindPairs_fine hev hchild) fun _ _ => ?_
    exact evalSequenceTail_fine hev

theorem evalBind_fine : d.Fine ctx (evalBind ev ctx token env args) := by
  cases args with
  | nil => exact .pure trivial
  | cons head rest =>
    cases head with
    | name identifier internal =>
      cases rest with
      | nil => exact .fail
      | cons value body =>
        refine .bind (hev ctx 0 value env) fun v _ => ?_
        exact .bindFlat (evalSequenceTail_fine hev)
    | literal value =>
      cases value with
      | str name =>
        exact .bind .check fun parts _ => evaluateBindPairs_fine hev
      | null => exact evalSequenceTail_fine hev
      | _ => exact .fail
    | call id callee items =>
      exact .bind .check fun pairs _ => evaluateBindPairs_fine hev

omit hev in
theorem assignLexicalName_fine {identifier : String} {value : Value} (hgrants : ctx.Grants) :
    d.Fine ctx (assignLexicalName env identifier value) := by
  refine .get_bind_at fun s hs => ?_
  cases hassign : s.heap.assign identifier value env with
  | error e => exact Holds.throw (e := .error e) trivial s hs
  | ok h =>
    have hgrows := Heap.assign_grows hassign
    exact ⟨hgrows, List.suffix_refl _, (add_zero _).symm, fun _ _ => trivial,
      fun _ hok hi => d.inv_write hok hgrants hgrows hi, fun _ _ _ _ _ _ he => nomatch he⟩

theorem evalAssignLexical_fine (hgrants : ctx.Grants) :
    d.Fine ctx (evalAssignLexical ev ctx env args) := by
  rcases args with _ | ⟨target, _ | ⟨value, rest⟩⟩
  · exact .fail
  · cases target <;> exact .fail
  · cases target with
    | name identifier internal =>
      refine .bind (hev ctx 0 value env) fun v _ => ?_
      exact .bind (assignLexicalName_fine hgrants) fun _ _ => .pure trivial
    | literal _ => exact .fail
    | call _ _ _ => exact .fail

theorem evalLeave_fine : d.Fine ctx (evalLeave ev ctx env args) := by
  cases args with
  | nil => exact .pure trivial
  | cons target rest =>
    have hvalue : d.Fine ctx (evalLeaveValue ev ctx env rest) := by
      cases rest with
      | nil => exact .pure trivial
      | cons code _ => exact hev ctx 0 code env
    exact .bind .check fun t _ => .bind hvalue fun v _ => .leave

theorem evalWhile_fine {condition body : Code} :
    d.Fine ctx (evalWhile ev ctx env condition body rounds) := by
  induction rounds with
  | zero => exact .throw trivial
  | succ rounds ih =>
    refine .bind (hev ctx 0 condition env) fun c _ => .bind truthy_fine fun b _ => ?_
    exact .ite (fun _ => .bind (hev ctx 0 body env) fun _ _ => ih) fun _ => .pure trivial

theorem evalClauses_fine {scrutinee : Value} {clauses : List (Code × List Code)} :
    d.Fine ctx (evalClauses ev ctx token env scrutinee clauses) := by
  induction clauses with
  | nil => exact .pure trivial
  | cons clause rest ih =>
    refine .bind .check fun bindings _ => ?_
    cases bindings with
    | none => exact ih
    | some bindings =>
      refine .bind .newEnv fun child hchild => .bind (φ := fun _ => True) ?_ fun _ _ => ?_
      · exact .writeFresh hchild fun h => h.defineAll_extendsBut child bindings
      · exact evalSequenceTail_fine hev

theorem evalMatch_fine : d.Fine ctx (evalMatch ev ctx token env args) := by
  cases args with
  | nil => exact .pure trivial
  | cons scrutinee clauses =>
    refine .bind (hev ctx 0 scrutinee env) fun value _ => .bind .check fun clauses _ => ?_
    exact evalClauses_fine hev

theorem evalThrow_fine : d.Fine ctx (evalThrow ev ctx env args) := by
  cases args with
  | nil => exact .pure trivial
  | cons code rest => exact .bind (hev ctx 0 code env) fun value _ => .throw trivial

theorem evalCatch_fine {clause : Option (String × List Code)} {caught : Value} :
    d.Fine ctx (evalCatch ev ctx env clause caught) := by
  cases clause with
  | none => exact .pure trivial
  | some clause =>
    refine .bind .newEnv fun child hchild => .bind (φ := fun _ => True) ?_ fun _ _ => ?_
    · exact .writeFresh hchild fun h => h.define_extendsBut child clause.1 caught
    · exact evalSequence_fine hev

theorem evalTry_fine : d.Fine ctx (evalTry ev ctx env args) := by
  cases args with
  | nil => exact .pure trivial
  | cons code rest =>
    refine .bind .check fun clause _ => .attempt_bind (hev ctx 0 code env) ?_ ?_ ?_
    · exact fun _ _ => .pure trivial
    · intro e he
      cases e with
      | exception value => exact evalCatch_fine hev
      | error e =>
        refine .ite (fun _ => .throw trivial) fun _ => .bind (φ := fun _ => True) ?_ fun caught _ => ?_
        · exact .alloc fun h => h.newMap_extends _
        · exact evalCatch_fine hev
      | leave t v i => exact absurd he id
      | tailCall _ _ | outOfFuel => exact .throw trivial
    · exact fun _ _ _ => rfl

theorem evalInScope_fine {requested : EffectSet} {body : List Code} :
    d.Fine ctx (evalInScope ev ctx env requested body) :=
  .bind .check fun _ hinside => .inScope hinside (evalSequence_fine hev)

theorem evalEffectScope_fine : d.Fine ctx (evalEffectScope ev ctx env args) := by
  cases args with
  | nil => exact .pure trivial
  | cons tags body =>
    refine .bind (hev ctx 0 tags env) fun requested _ => .heap_bind fun h => ?_
    refine .bind .check fun effects _ => .get_bind fun s => ?_
    refine .ite (fun _ => evalInScope_fine hev) fun _ => ?_
    exact .withEvalAllocBudget (evalInScope_fine hev)

/-- A special form runs where its effects are granted. -/
theorem evalControl_fine {form : Control}
    (hpolicy : requireEffectPolicy ctx "builtin" form.info.name form.info.metadata.effectPolicy =
      .ok ()) : d.Fine ctx (evalControl ev rounds ctx token env form id args) := by
  cases form with
  | ifForm => exact evalIf_fine hev
  | orForm | andForm => exact evalUntil_fine hev
  | doForm => exact evalSequenceTail_fine hev
  | lambdaForm => exact evalLambda_fine
  | macroForm => exact evalLambda_fine
  | bindForm => exact evalBind_fine hev
  | assignLexical =>
    exact evalAssignLexical_fine hev ⟨_, _, _, List.cons_ne_nil _ _, hpolicy⟩
  | block => exact .block fun activation => evalSequence_fine hev
  | leave => exact evalLeave_fine hev
  | whileForm =>
    rcases args with _ | ⟨condition, _ | ⟨body, rest⟩⟩
    · exact .pure trivial
    · exact .pure trivial
    · exact evalWhile_fine hev
  | matchForm => exact evalMatch_fine hev
  | throwForm => exact evalThrow_fine hev
  | tryForm => exact evalTry_fine hev
  | effectScope => exact evalEffectScope_fine hev

/-! ## Calls and nodes -/

theorem eachItem_fine : d.Fine ctx (eachItem host ev rounds ctx callback items) := by
  induction items with
  | nil => exact .pure trivial
  | cons item rest ih =>
    exact .bind (invokeCallback_fine hev) fun _ _ => ih

theorem mapItems_fine : d.Fine ctx (mapItems host ev rounds ctx callback items) := by
  induction items with
  | nil => exact .pure trivial
  | cons item rest ih =>
    refine .bind (invokeCallback_fine hev) fun _ _ => ?_
    exact .bind ih fun _ _ => .pure trivial

theorem filterItems_fine : d.Fine ctx (filterItems host ev rounds ctx callback items) := by
  induction items with
  | nil => exact .pure trivial
  | cons item rest ih =>
    refine .bind (invokeCallback_fine hev) fun keep _ => ?_
    exact .bind truthy_fine fun _ _ => .bind ih fun _ _ => .pure trivial

theorem foldItems_fine {callback acc : Value} :
    d.Fine ctx (foldItems host ev rounds ctx callback acc items) := by
  induction items generalizing acc with
  | nil => exact .pure trivial
  | cons item rest ih =>
    exact .bind (invokeCallback_fine hev) fun acc' _ => ih

theorem updateMap_fine {args : List Value} : d.Fine ctx (updateMap host ev rounds ctx args) := by
  refine .heap_bind fun h => .bind .check fun addr _ => .bind .check fun key _ => ?_
  exact .bind (invokeCallback_fine hev) fun value _ => .updateMap

theorem applyTo_fine {args : List Value} : d.Fine ctx (applyTo host ev rounds ctx args) := by
  cases args with
  | nil => exact .fail
  | cons callable rest =>
    simp only [applyTo]
    cases rest.getLast? with
    | none => exact .fail
    | some last =>
      cases last with
      | list addr => exact .heap_bind fun h => invokeCallback_fine hev
      | tuple items => exact invokeCallback_fine hev
      | _ => exact .heap_bind fun h => .fail

theorem callbackOp_fine {op : CallbackOp} {args : List Value} :
    d.Fine ctx (op.run host ev rounds ctx env args) := by
  cases op with
  | sequenceEach =>
    exact .heap_bind fun h => .bind .check fun items _ => eachItem_fine hev
  | sequenceMap =>
    refine .heap_bind fun h => .bind .check fun items _ => ?_
    refine .bind .ensureCollectionLen fun _ _ => ?_
    refine .bind (mapItems_fine hev) fun values _ => ?_
    exact .alloc fun h => h.newList_extends values
  | sequenceFilter =>
    refine .heap_bind fun h => .bind .check fun items _ => ?_
    refine .bind (filterItems_fine hev) fun values _ => ?_
    exact .bind .ensureCollectionLen fun _ _ => .alloc fun h => h.newList_extends values
  | sequenceFoldLeft =>
    exact .heap_bind fun h => .bind .check fun items _ =>
      foldItems_fine hev
  | mapUpdate => exact updateMap_fine hev
  | apply => exact applyTo_fine hev
  | ctfeEvalNode => exact .bind .check fun spec _ => evalExpansionSpec_fine hev

omit hev in
theorem evalName_fine {identifier : String} : d.Fine ctx (evalName env identifier) := by
  refine .heap_bind fun h => ?_
  cases h.lookupName env identifier with
  | ok value => exact .pure trivial
  | error e =>
    cases Builtin.named identifier with
    | none => exact .throw trivial
    | some builtin => exact .ite (fun _ => .pure trivial) fun _ => .throw trivial

theorem evalCallee_fine {callee : Code} : d.Fine ctx (evalCallee ev ctx env callee) := by
  cases callee with
  | literal value => exact hev ctx 0 _ env
  | call id callee args => exact hev ctx 0 _ env
  | name identifier internal =>
    cases internal with
    | true =>
      simp only [evalCallee]
      cases Builtin.named identifier with
      | none => exact .fail
      | some builtin => exact .pure trivial
    | false =>
      refine .heap_bind fun h => ?_
      cases h.lookupName env identifier with
      | ok value => exact .pure trivial
      | error e =>
        cases Builtin.named identifier with
        | none => exact .throw trivial
        | some builtin => exact .ite (fun _ => .pure trivial) fun _ => .fail

theorem invokeHandler_fine (hpolicy : requireEffectPolicy ctx "builtin" builtin.info.name
      builtin.info.metadata.effectPolicy = .ok ()) :
    d.Fine ctx (invokeHandler host ev rounds ctx token env builtin id args) := by
  cases builtin with
  | control form => exact evalControl_fine hev hpolicy
  | pure op =>
    exact .bind (evalArgs_fine hev) fun values _ => .heap_bind fun h => Holds.check.fine
  | alloc op => exact .bind (evalArgs_fine hev) fun values _ => allocOp_fine op values
  | write op =>
    have hgrants : ctx.Grants := by
      refine ⟨_, _, _, ?_, hpolicy⟩
      cases op <;> exact List.cons_ne_nil _ _
    exact .bind (evalArgs_fine hev) fun values _ => writeOp_fine op values hgrants
  | callback op =>
    exact .bind (evalArgs_fine hev) fun values _ =>
      callbackOp_fine hev

theorem callBuiltin_fine
    : d.Fine ctx (callBuiltin host ev rounds ctx token env builtin id args) := by
  refine .bind .check fun _ _ => .bind .check fun _ hpolicy => ?_
  refine .bind .check fun _ _ => .bind (.recordHandled hpolicy) fun _ _ => ?_
  exact invokeHandler_fine hev hpolicy

theorem callClosure_fine : d.Fine ctx (callClosure ev rounds ctx token env c args) := by
  refine .bind (evalArgs_fine hev) fun values _ => ?_
  exact .ite (fun _ => .throw trivial) fun _ => invokeClosure_fine hev

theorem callHostFunction_fine {name : String} :
    d.Fine ctx (callHostFunction host ev ctx env name args) := by
  simp only [callHostFunction]
  cases host.function name with
  | none => exact .fail
  | some f =>
    refine .bind .check fun _ _ => .bind .check fun _ hpolicy => ?_
    refine .bind .check fun _ _ => .bind (evalArgs_fine hev) fun values _ => ?_
    exact .bind (.recordHandled hpolicy) fun _ _ => callHost_fine values hpolicy

theorem evalCall_fine {callee : Code} :
    d.Fine ctx (evalCall host ev rounds ctx token env id callee args) := by
  refine .bind (evalCallee_fine hev) fun value _ => ?_
  cases value with
  | builtin b => exact callBuiltin_fine hev
  | closure c => exact callClosure_fine hev
  | macroFn c => exact invokeMacro_fine hev
  | hostFunction name => exact callHostFunction_fine hev
  | _ => exact .heap_bind fun h => .fail

theorem evalNode_fine {code : Code} : d.Fine ctx (evalNode host ev rounds ctx token code env) := by
  refine .enterEval ?_
  cases code with
  | literal value => exact .alloc fun h => h.ofLiteral_extends value
  | name identifier internal => exact evalName_fine
  | call id callee args => exact evalCall_fine hev

end Evaluate

/-- Every evaluation keeps every discipline. -/
theorem eval_holds (d : Discipline) (host : Host) (fuel : Nat) (ctx : Ctx) (token : Nat)
    (code : Code) (env : Env) : d.Fine ctx (eval host fuel ctx token code env) := by
  induction fuel generalizing ctx token code env with
  | zero => exact .throw trivial
  | succ fuel ih => exact evalNode_fine ih

/-- So does every sequence of expressions. -/
theorem evalForms_holds (d : Discipline) (host : Host) (fuel : Nat) (ctx : Ctx)
    (codes : List Code) (env : Env) : d.Fine ctx (evalForms host fuel ctx codes env) :=
  evalSequence_fine (eval_holds d host fuel)

end Discipline

end Caap.Kernel
