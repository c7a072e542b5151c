/-
  Caap.Kernel.Eval

  The evaluator of `eval.rs` with the control forms of `control_flow.rs` and `effects.rs`.

  The functions below take the evaluation of subexpressions as a parameter; `eval` ties the
  knot to a depth.  A node in tail position is evaluated with the token of the closure whose
  tail it is (the cells `tail_armed` and `handler_tail` of the source); every other node
  with the token 0.
-/

import Caap.Kernel.Builtins

namespace Caap.Kernel

open Lib

/-- `Evaluator::eval` for subexpressions: in a context, with a tail token, in an environment. -/
abbrev Evaluate := Ctx → Nat → Code → Env → Eval Value

/-! ## Quoting and expansion -/

namespace Code

mutual

/-- `quote_node`: the specification of a subtree (source spans are left out). -/
def quote : Code → Except String ExprSpec
  | .literal value => .ok (.literal value none)
  | .name identifier _ =>
    if identifier = "" then .error "name spec identifier must be non-empty"
    else .ok (.name identifier none)
  | .call _ callee args => do
    let callee ← quote callee
    let args ← quoteAll args
    .ok (.call callee args none)

/-- The arguments of a call. -/
def quoteAll : List Code → Except String (List ExprSpec)
  | [] => .ok []
  | arg :: rest => do
    let arg ← quote arg
    let rest ← quoteAll rest
    .ok (arg :: rest)

end

mutual

/-- `insert_expr_spec` into a new graph, read back as a tree: the nodes get the next ids, a
    call before its callee and its arguments. -/
def ofSpec (next : Nat) : ExprSpec → Except String (Code × Nat)
  | .literal value _ => .ok (.literal value, next + 1)
  | .name identifier _ =>
    if identifier = "" then .error "name node identifier must be non-empty"
    else .ok (.name identifier false, next + 1)
  | .call callee args _ => do
    let callee ← ofSpec (next + 1) callee
    let args ← ofSpecs callee.2 args
    .ok (.call next callee.1 args.1, args.2)

/-- The arguments of a call. -/
def ofSpecs (next : Nat) : List ExprSpec → Except String (List Code × Nat)
  | [] => .ok ([], next)
  | spec :: rest => do
    let first ← ofSpec next spec
    let rest ← ofSpecs first.2 rest
    .ok (first.1 :: rest.1, rest.2)

end

end Code

/-! ## Checks of a call -/

/-- `require_phase`. -/
def requirePhase (ctx : Ctx) (kind name : String) (policy : PhasePolicy) : Except String Unit :=
  if policy = .dual ∨ policy = ctx.phase then .ok ()
  else .error (kind ++ " " ++ name ++ " is not available in phase " ++ ctx.phase.asStr)

/-- `EffectSet::is_subset_of`. -/
def isSubsetOf (effects allowed : EffectSet) : Bool := effects.tags.all allowed.containsStr

/-- `require_effect_policy`. -/
def requireEffectPolicy (ctx : Ctx) (kind name : String) (effects : EffectSet) :
    Except String Unit :=
  if effects.tags.isEmpty then .ok ()
  else
    match ctx.effectScope with
    | none => .ok ()
    | some scope =>
      if isSubsetOf effects scope then .ok ()
      else
        .error (kind ++ " " ++ name ++ " requires effect(s) [" ++
          ", ".intercalate effects.tags ++ "] outside active effect scope [" ++
          ", ".intercalate scope.tags ++ "]")

/-- The checks of the number of arguments. -/
def requireArity (kind name : String) (minArity : Nat) (maxArity : Option Nat) (arity : Nat) :
    Except String Unit :=
  if arity < minArity then
    .error (kind ++ " " ++ name ++ " expects at least " ++ toString minArity ++ " args, got " ++
      toString arity)
  else
    match maxArity with
    | none => .ok ()
    | some max =>
      if max < arity then
        .error (kind ++ " " ++ name ++ " expects at most " ++ toString max ++ " args, got " ++
          toString arity)
      else .ok ()

/-- The handler of a builtin or host function starts to run. -/
def recordHandled (ctx : Ctx) (name : String) (effects : EffectSet) : Eval Unit :=
  record (.handled name effects ctx.scopes)

/-! ## Sequences of expressions -/

section Sequences

variable (ev : Evaluate) (ctx : Ctx) (env : Env)

/-- `eval_sequence`, with the value of what came before. -/
def evalSequence : Value → List Code → Eval Value
  | last, [] => return last
  | _, code :: rest => do
    let value ← ev ctx 0 code env
    evalSequence value rest

/-- `eval_sequence_with_tail_token`. -/
def evalSequenceTail (token : Nat) : List Code → Eval Value
  | [] => return .null
  | [last] => ev ctx token last env
  | code :: rest => do
    let _ ← ev ctx 0 code env
    evalSequenceTail token rest

/-- `eval_args`. -/
def evalArgs : List Code → Eval (List Value)
  | [] => return []
  | code :: rest => do
    let value ← ev ctx 0 code env
    let values ← evalArgs rest
    return value :: values

end Sequences

/-! ## Closures, macros and evaluated syntax -/

/-- Define the names of a frame one after the other. -/
def defineAll (env : Env) : List (String × Value) → Heap → Heap
  | [], h => h
  | (name, value) :: rest, h => defineAll env rest (h.define env name value)

/-- `bind_closure_arguments`. -/
def bindClosureArguments (env : Env) (params : List String) (args : List Value) : Eval Unit :=
  match params.getLast? with
  | some last =>
    if startsWith last "&" then
      if last = "&" then throw (evalErr "rest parameter must include a name")
      else if args.length < params.length - 1 then
        throw (evalErr ("lambda expected at least " ++ toString (params.length - 1) ++
          " args but got " ++ toString args.length))
      else
        onHeap fun h =>
          let h := defineAll env (params.dropLast.zip args) h
          let rest := h.newList (args.drop (params.length - 1))
          ((), rest.2.define env (String.ofList last.toList.tail) rest.1)
    else exact
  | none => exact
where
  /-- The case of a fixed number of parameters. -/
  exact : Eval Unit :=
    if args.length ≠ params.length then
      throw (evalErr ("lambda expected " ++ toString params.length ++ " args (" ++
        ", ".intercalate params ++ ") but got " ++ toString args.length))
    else onHeap fun h => ((), defineAll env (params.zip args) h)

/-- A new frame below an environment. -/
def newEnv (parent : Env) : Eval Env := onHeap fun h => h.newEnv parent

/-- `eval_captured_body`: in the evaluator that runs if the graph is its own, in a new one with
    a copy of the step budget otherwise. -/
def evalCapturedBody (ev : Evaluate) (ctx : Ctx) (c : Closure) (env : Env) (token : Nat) :
    Eval Value :=
  if c.graph = ctx.graph then evalSequenceTail ev (ctx.inBody c.captured) env token c.body
  else do
    record .spawned
    let s ← get
    withEvalStepBudget s.evalStepBudget
      (evalSequenceTail ev ((ctx.inBody c.captured).inGraph c.graph) env token c.body)

/-- The trampoline of `invoke_closure`, for a number of rounds. -/
def invokeClosure (ev : Evaluate) (ctx : Ctx) (c : Closure) : Nat → List Value → Eval Value
  | 0, _ => throw .outOfFuel
  | rounds + 1, args => do
    let env ← newEnv c.env
    bindClosureArguments env c.params args
    match ← attempt (evalCapturedBody ev ctx c env c.id) with
    | .error (.tailCall token args') =>
      if token = c.id then invokeClosure ev ctx c rounds args'
      else throw (.tailCall token args')
    | other => conclude other

/-- `eval_expansion_spec`: the syntax becomes a graph of its own, evaluated by a new evaluator
    without a step budget. -/
def evalExpansionSpec (ev : Evaluate) (ctx : Ctx) (spec : ExprSpec) (env : Env) : Eval Value := do
  let code ← check (Code.ofSpec 0 spec)
  let graph ← freshId
  record .spawned
  withEvalStepBudget none (ev ((ctx.inBody []).inGraph graph) 0 code.1 env)

/-- `require_expr_spec`. -/
def requireExprSpec (message : String) : Value → Except String ExprSpec
  | .spec _ spec => .ok spec
  | _ => .error message

/-- The quoted arguments of a macro call. -/
def quoteArgs : List Code → Eval (List Value)
  | [] => return []
  | arg :: rest => do
    let spec ← check arg.quote
    let id ← freshId
    let rest ← quoteArgs rest
    return .spec id spec :: rest

/-- `invoke_macro`. -/
def invokeMacro (ev : Evaluate) (ctx : Ctx) (c : Closure) (args : List Code) (env : Env) :
    Eval Value := do
  let quoted ← quoteArgs args
  let child ← newEnv c.env
  bindClosureArguments child c.params quoted
  let expanded ← evalCapturedBody ev ctx c child 0
  let spec ← check (requireExprSpec "macro expansion must return syntax" expanded)
  evalExpansionSpec ev ctx spec env

/-- The call of a host function with the values of its arguments. -/
def callHost (f : HostFunction) (args : List Value) : Eval Value := do
  match ← onHeap (f.handler args) with
  | .ok value => return value
  | .error failure => throw failure.signal

/-- `invoke_builtin_with_values`. -/
def invokeBuiltinWithValues (host : Host) (ctx : Ctx) (builtin : Builtin) (args : List Value) :
    Eval Value := do
  check (requirePhase ctx "builtin" builtin.info.name builtin.info.metadata.phasePolicy)
  check (requireEffectPolicy ctx "builtin" builtin.info.name builtin.info.metadata.effectPolicy)
  refuse (!builtin.info.metadata.eagerArgs)
    ("builtin " ++ builtin.info.name ++ " cannot be invoked as an eager callback")
  check (requireArity "builtin" builtin.info.name builtin.info.minArity builtin.info.maxArity
    args.length)
  refuse (!builtin.info.eagerHandler)
    ("builtin " ++ builtin.info.name ++ " does not support pre-evaluated callback dispatch")
  recordHandled ctx builtin.info.name builtin.info.metadata.effectPolicy
  match builtin with
  | .pure op => check (op.run host (← theHeap) args)
  | _ => throw (evalErr "builtin has no eager handler")

/-- `invoke_callback`. -/
def invokeCallback (host : Host) (ev : Evaluate) (rounds : Nat) (ctx : Ctx) (callback : Value)
    (args : List Value) : Eval Value :=
  match callback with
  | .closure c => invokeClosure ev ctx c rounds args
  | .hostFunction name =>
    match host.function name with
    | some f => do
      check (requirePhase ctx "host function" name f.phasePolicy)
      check (requireEffectPolicy ctx "host function" name f.effectPolicy)
      check (requireArity "host function" name f.minArity f.maxArity args.length)
      recordHandled ctx name f.effectPolicy
      callHost f args
    | none => throw (evalErr ("unregistered host function " ++ name))
  | .builtin builtin => invokeBuiltinWithValues host ctx builtin args
  | other => do
    throw (evalErr ("value " ++ (← theHeap).display host other ++ " is not a callable callback"))

/-! ## The parts of the special forms -/

namespace Code

/-- The names of a list of parameters. -/
def paramNames : List Code → Except String (List String)
  | [] => .ok []
  | .name identifier _ :: rest => do
    let names ← paramNames rest
    .ok (identifier :: names)
  | _ :: _ => .error "lambda params must be names"

/-- The names of a tuple of parameters. -/
def tupleNames : List IrLiteralData → Except String (List String)
  | [] => .ok []
  | .str identifier :: rest =>
    if identifier = "" then .error "lambda params tuple must contain non-empty string names"
    else do
      let names ← tupleNames rest
      .ok (identifier :: names)
  | _ :: _ => .error "lambda params tuple must contain non-empty string names"

/-- `extract_param_names`. -/
def extractParamNames : Code → Except String (List String)
  | .call _ callee args => paramNames (callItems callee args)
  | .literal .null => .ok []
  | .literal (.tuple items) => tupleNames items
  | .literal _ => .error "lambda params node must be a call or null literal"
  | .name _ _ => .ok []

/-- The pairs of `extract_bindings`. -/
def bindingPairs : List Code → Except String (List (String × Code))
  | [] => .ok []
  | .call _ callee args :: rest =>
    match callItems callee args with
    | [.name identifier _, value] => do
      let pairs ← bindingPairs rest
      .ok ((identifier, value) :: pairs)
    | [_, _] => .error "binding name must be a NameNode"
    | _ => .error "each binding must have exactly 2 elements"
  | _ :: _ => .error "each binding must be a call node (name value)"

/-- The pairs of `extract_flat_literal_bindings`, with the body that follows them. -/
def flatLiteralPairs : List Code → Except String (List (String × Code) × List Code)
  | [body] => .ok ([], [body])
  | .literal (.str identifier) :: value :: rest =>
    if identifier = "" then .error "bind canonical names must be non-empty strings"
    else do
      let (pairs, body) ← flatLiteralPairs rest
      .ok ((identifier, value) :: pairs, body)
  | .literal _ :: _ :: _ => .error "bind canonical names must be non-empty strings"
  | _ :: _ :: _ => .error "bind canonical names must be string literals"
  | [] => .error "bind expects flat canonical binding pairs and a body"

/-- `extract_flat_literal_bindings`. -/
def extractFlatLiteralBindings (args : List Code) :
    Except String (List (String × Code) × List Code) :=
  if args.length < 3 ∨ (args.length - 1) % 2 ≠ 0 then
    .error "bind expects flat canonical binding pairs and a body"
  else flatLiteralPairs args

/-- `resolve_leave_target`; node ids are `u32`. -/
def resolveLeaveTarget : Code → Except String Nat
  | .literal (.int i) => .ok (i.toUInt64.toNat % 2 ^ 32)
  | .literal _ => .error "leave target must be an integer NodeId"
  | _ => .error "leave target must be a literal integer node"

/-- `extract_match_clause`: the pattern and the body. -/
def extractMatchClause : Code → Except String (Code × List Code)
  | .call _ (.name identifier internal) args =>
    if isSyntheticGroupCallee identifier then
      match args with
      | [] => .error "match: clause must have at least a pattern"
      | pattern :: body => .ok (pattern, body)
    else .ok (.name identifier internal, args)
  | .call _ callee args => .ok (callee, args)
  | _ => .error "match: each clause must be a call node (pattern body...)"

/-- The clauses of a match. -/
def matchClauses : List Code → Except String (List (Code × List Code))
  | [] => .ok []
  | clause :: rest => do
    let clause ← extractMatchClause clause
    let rest ← matchClauses rest
    .ok (clause :: rest)

/-- The test of a type-guard pattern. -/
def typeGuard (predicate : String) : Value → Except String Bool
  | value =>
    if predicate = "null?" then .ok (value matches .null)
    else if predicate = "bool?" then .ok (value matches .bool _)
    else if predicate = "int?" then .ok (value matches .int _)
    else if predicate = "float?" then .ok (value matches .float _)
    else if predicate = "str?" then .ok (value matches .str _)
    else if predicate = "list?" then .ok (value matches .list _)
    else if predicate = "map?" then .ok (value matches .map _)
    else .error ("match: unknown type predicate: " ++ predicate)

/-- Whether a value equals a literal of a pattern. -/
def matchesLiteral : IrLiteralData → Value → Except String Bool
  | .null, value => .ok (value matches .null)
  | .bool b, value => .ok (value.eq (.bool b))
  | .int i, value => .ok (value.eq (.int i))
  | .float bits, value => .ok (value.eq (.float bits))
  | .str s, value => .ok (value.eq (.str s))
  | _, _ => .error "match: unsupported literal pattern type"

/-- `match_pattern`: the bindings, if the value matches. -/
def matchPattern (value : Value) : Code → Except String (Option (List (String × Value)))
  | .name identifier _ =>
    if identifier = "_" ∨ identifier = "else" then .ok (some [])
    else .ok (some [(identifier, value)])
  | .literal expected => do
    if ← matchesLiteral expected value then .ok (some []) else .ok none
  | .call _ (.name predicate _) args => do
    if ← typeGuard predicate value then
      match args with
      | [] => .ok (some [])
      | .name identifier _ :: _ => .ok (some [(identifier, value)])
      | _ :: _ => .error "match: type-guard binding must be a name"
    else .ok none
  | .call _ _ _ => .error "match: type-guard callee must be a name"

/-- `extract_catch_clause`: the name of the error and the handler. -/
def extractCatchClause : Code → Except String (String × List Code)
  | .call _ callee args =>
    match callItems callee args with
    | .name head _ :: binding :: handler =>
      if head = "catch" then
        match binding with
        | .name identifier _ => .ok (identifier, handler)
        | _ => .error "try: catch binding must be a name"
      else .error "try: second argument must be a (catch ...) clause"
    | _ :: _ :: _ => .error "try: second argument must be a (catch ...) clause"
    | _ => .error "try: catch clause must have at least (catch err_name ...)"
  | _ => .error "try: catch clause must be a call node"

end Code

/-! ## The special forms -/

/-- `is_truthy` of a value as it is now. -/
def truthy (value : Value) : Eval Bool := do return (← theHeap).isTruthy value

section Forms

variable (host : Host) (ev : Evaluate) (rounds : Nat) (ctx : Ctx) (token : Nat) (env : Env)

/-- The handler of `if`. -/
def evalIf : List Code → Eval Value
  | condition :: consequent :: alternative => do
    if ← truthy (← ev ctx 0 condition env) then ev ctx token consequent env
    else
      match alternative with
      | [] => return .null
      | code :: _ => ev ctx token code env
  | _ => return .null

/-- The loop of `or` (`stop` is true) and `and` (`stop` is false). -/
def evalUntil (stop : Bool) : Value → List Code → Eval Value
  | last, [] => return last
  | _, code :: rest => do
    let value ← ev ctx 0 code env
    if (← truthy value) = stop then return value else evalUntil stop value rest

/-- The handlers of `lambda` and `macro`. -/
def evalLambda (make : Closure → Value) : List Code → Eval Value
  | params :: body => do
    let params ← check params.extractParamNames
    let id ← freshId
    return make ⟨id, params, body, env, ctx.graph, ctx.blocks ++ ctx.captured⟩
  | [] => return .null

/-- The values of a letrec, defined one after the other. -/
def evalBindPairs (child : Env) : List (String × Code) → Eval Unit
  | [] => return ()
  | (name, code) :: rest => do
    let value ← ev ctx 0 code child
    onHeap fun h => ((), h.define child name value)
    evalBindPairs child rest

/-- `evaluate_bind_pairs`. -/
def evaluateBindPairs (pairs : List (String × Code)) (body : List Code) : Eval Value := do
  let child ← newEnv env
  onHeap fun h => ((), defineAll child (pairs.map fun pair => (pair.1, .null)) h)
  evalBindPairs ev ctx child pairs
  evalSequenceTail ev ctx child token body

/-- The handler of `bind`. -/
def evalBind : List Code → Eval Value
  | .name identifier _ :: value :: body => do
    let value ← ev ctx 0 value env
    record (.boundFlat (env.headD 0))
    onHeap fun h => ((), h.define env identifier value)
    evalSequenceTail ev ctx env token body
  | .name _ _ :: [] => throw (evalErr "bind: flat form requires at least a value")
  | .literal (.str name) :: rest => do
    let (pairs, body) ← check (Code.extractFlatLiteralBindings (.literal (.str name) :: rest))
    evaluateBindPairs ev ctx token env pairs body
  | .literal .null :: body => evalSequenceTail ev ctx env token body
  | .literal _ :: _ => throw (evalErr "bind: literal binding head must be a string name or null")
  | .call _ callee args :: body => do
    let pairs ← check (Code.bindingPairs (Code.callItems callee args))
    evaluateBindPairs ev ctx token env pairs body
  | [] => return .null

/-- `assign_lexical_name`. -/
def assignLexicalName (env : Env) (identifier : String) (value : Value) : Eval Unit := do
  let s ← get
  match s.heap.assign identifier value env with
  | .ok h => set { s with heap := h }
  | .error e => throw (.error e)

/-- The handler of `assign_lexical`. -/
def evalAssignLexical : List Code → Eval Value
  | .name identifier _ :: value :: _ => do
    let value ← ev ctx 0 value env
    assignLexicalName env identifier value
    return .null
  | _ => throw (evalErr "assign_lexical: first arg must be an unevaluated name target")

/-- The end of the body of a `block`: a leave with its id ends the activation. -/
def endBlock (id activation : Nat) : Except Signal Value → Eval Value
  | .error (.leave target value intended) =>
    if target = id then do
      record (.left intended activation)
      return value
    else throw (.leave target value intended)
  | other => conclude other

/-- The handler of `block`, with the id of the call. -/
def evalBlock (id : Nat) (body : List Code) : Eval Value := do
  let s ← get
  set { s with activations := s.activations + 1 }
  let ended ← attempt (evalSequence ev (ctx.inBlock id s.activations) env .null body)
  endBlock id s.activations ended

/-- The value of a `leave`. -/
def evalLeaveValue : List Code → Eval Value
  | [] => return .null
  | code :: _ => ev ctx 0 code env

/-- The handler of `leave`. -/
def evalLeave : List Code → Eval Value
  | target :: rest => do
    let target ← check target.resolveLeaveTarget
    let value ← evalLeaveValue ev ctx env rest
    record (.leaving target (find target ctx.blocks).isSome)
    throw (.leave target value (find target (ctx.blocks ++ ctx.captured)))
  | [] => return .null

/-- The loop of `while`, for a number of rounds. -/
def evalWhile (condition body : Code) : Nat → Eval Value
  | 0 => throw .outOfFuel
  | rounds + 1 => do
    if ← truthy (← ev ctx 0 condition env) then do
      let _ ← ev ctx 0 body env
      evalWhile condition body rounds
    else return .null

/-- The loop of `match` over its clauses. -/
def evalClauses (scrutinee : Value) : List (Code × List Code) → Eval Value
  | [] => return .null
  | (pattern, body) :: rest => do
    match ← check (Code.matchPattern scrutinee pattern) with
    | some bindings => do
      let child ← newEnv env
      onHeap fun h => ((), defineAll child bindings h)
      evalSequenceTail ev ctx child token body
    | none => evalClauses scrutinee rest

/-- The handler of `match`. -/
def evalMatch : List Code → Eval Value
  | scrutinee :: clauses => do
    let scrutinee ← ev ctx 0 scrutinee env
    let clauses ← check (Code.matchClauses clauses)
    evalClauses ev ctx token env scrutinee clauses
  | [] => return .null

/-- The handler of `throw`. -/
def evalThrow : List Code → Eval Value
  | code :: _ => do
    let value ← ev ctx 0 code env
    throw (.exception value)
  | [] => return .null

/-- The end of `try`: the caught value goes to the handler. -/
def evalCatch (clause : Option (String × List Code)) (caught : Value) : Eval Value :=
  match clause with
  | none => return .null
  | some (name, handler) => do
    let child ← newEnv env
    onHeap fun h => ((), h.define child name caught)
    evalSequence ev ctx child .null handler

/-- The map that a handler gets for an error. -/
def errorEntries (e : EvaluationError) : List (MapKey × Value) :=
  [(.str "message", .str e.message),
    (.str "category", match e.category with
      | some category => .str category
      | none => .null)]

/-- The catch clause of a `try`, if it has one. -/
def catchClause : List Code → Except String (Option (String × List Code))
  | [] => .ok none
  | clause :: _ => clause.extractCatchClause.map some

/-- The end of the body of a `try`: a thrown value and an error that is not fatal are caught. -/
def endTry (clause : Option (String × List Code)) : Except Signal Value → Eval Value
  | .error (.exception value) => evalCatch ev ctx env clause value
  | .error (.error e) =>
    if e.fatal then throw (.error e)
    else do
      let caught ← onHeap fun h => h.newMap (errorEntries e)
      evalCatch ev ctx env clause caught
  | other => conclude other

/-- The handler of `try`. -/
def evalTry : List Code → Eval Value
  | code :: rest => do
    let clause ← check (catchClause rest)
    let ended ← attempt (ev ctx 0 code env)
    endTry ev ctx env clause ended
  | [] => return .null

/-- `effect_set_from_runtime`. -/
def effectSetOf (h : Heap) : Value → Except String EffectSet
  | .list addr => do
    let tags ← effectTags (h.list addr)
    match EffectSet.fromUniqueStrings tags "effect_scope" with
    | .ok effects => .ok effects
    | .error e => .error e.display
  | _ => .error "effect_scope: expected a list of effect tags"
where
  /-- The tags in a list of values. -/
  effectTags : List Value → Except String (List String)
    | [] => .ok []
    | .str tag :: rest => do
      let tags ← effectTags rest
      .ok (tag :: tags)
    | _ :: _ => .error "effect_scope: effect tags must be strings"

/-- The check of `with_effect_scope`. -/
def requireInsideScope (requested : EffectSet) : Except String Unit :=
  match ctx.effectScope with
  | none => .ok ()
  | some current =>
    if isSubsetOf requested current then .ok ()
    else
      .error ("effect-scope cannot grant effects outside the active scope: requested [" ++
        ", ".intercalate requested.tags ++ "], active [" ++ ", ".intercalate current.tags ++ "]")

/-- `with_effect_scope` around a sequence. -/
def evalInScope (requested : EffectSet) (body : List Code) : Eval Value := do
  check (requireInsideScope ctx requested)
  evalSequence ev (ctx.inScope requested) env .null body

/-- `DEFAULT_CTFE_FOLD_ALLOC_BUDGET`. -/
def defaultCtfeFoldAllocBudget : Nat := 64000000

/-- The handler of `effect_scope`, with `with_default_alloc_budget_if_unbounded`. -/
def evalEffectScope : List Code → Eval Value
  | tags :: body => do
    let requested ← ev ctx 0 tags env
    let effects ← check (effectSetOf (← theHeap) requested)
    if (← get).evalAllocBudget.isSome then evalInScope ev ctx env effects body
    else
      withEvalAllocBudget (some defaultCtfeFoldAllocBudget) (evalInScope ev ctx env effects body)
  | [] => return .null

/-- The handlers of the special forms, with the id of the call. -/
def evalControl (form : Control) (id : Nat) (args : List Code) : Eval Value :=
  match form with
  | .ifForm => evalIf ev ctx token env args
  | .orForm => evalUntil ev ctx env true .null args
  | .andForm => evalUntil ev ctx env false .null args
  | .doForm => evalSequenceTail ev ctx env token args
  | .lambdaForm => evalLambda ctx env .closure args
  | .macroForm => evalLambda ctx env .macroFn args
  | .bindForm => evalBind ev ctx token env args
  | .assignLexical => evalAssignLexical ev ctx env args
  | .block => evalBlock ev ctx env id args
  | .leave => evalLeave ev ctx env args
  | .whileForm =>
    match args with
    | condition :: body :: _ => evalWhile ev ctx env condition body rounds
    | _ => return .null
  | .matchForm => evalMatch ev ctx token env args
  | .throwForm => evalThrow ev ctx env args
  | .tryForm => evalTry ev ctx env args
  | .effectScope => evalEffectScope ev ctx env args

end Forms

/-! ## Builtins that call back -/

section Callbacks

variable (host : Host) (ev : Evaluate) (rounds : Nat) (ctx : Ctx) (callback : Value)

/-- The loop of `sequence_each`. -/
def eachItem : List Value → Eval Value
  | [] => return .null
  | item :: rest => do
    let _ ← invokeCallback host ev rounds ctx callback [item]
    eachItem rest

/-- The loop of `sequence_map`. -/
def mapItems : List Value → Eval (List Value)
  | [] => return []
  | item :: rest => do
    let value ← invokeCallback host ev rounds ctx callback [item]
    let values ← mapItems rest
    return value :: values

/-- The loop of `sequence_filter`. -/
def filterItems : List Value → Eval (List Value)
  | [] => return []
  | item :: rest => do
    let keep ← truthy (← invokeCallback host ev rounds ctx callback [item])
    let kept ← filterItems rest
    return if keep then item :: kept else kept

/-- The loop of `sequence_fold_left`. -/
def foldItems : Value → List Value → Eval Value
  | acc, [] => return acc
  | acc, item :: rest => do
    let acc ← invokeCallback host ev rounds ctx callback [acc, item]
    foldItems acc rest

/-- The handler of `map_update`. -/
def updateMap (args : List Value) : Eval Value := do
  let h ← theHeap
  let addr ← check (requireMap host h "map_update" (args.getD 0 .null))
  let key ← check (mapKeyOf host h (args.getD 1 .null))
  let current := (find key (h.map addr)).getD (args.getD 3 .null)
  let value ← invokeCallback host ev rounds ctx (args.getD 2 .null) [current]
  record (.updatedMap addr)
  onHeap fun h => (.map addr, h.setMap addr (upsert key value (h.map addr)))

/-- The handler of `apply`. -/
def applyTo (args : List Value) : Eval Value := do
  match args with
  | callable :: rest =>
    match rest.getLast? with
    | some (.list addr) => do
      invokeCallback host ev rounds ctx callable (rest.dropLast ++ (← theHeap).list addr)
    | some (.tuple items) => invokeCallback host ev rounds ctx callable (rest.dropLast ++ items)
    | some other => do
      throw (evalErr ("apply: last argument must be a list or tuple, got " ++
        (← theHeap).display host other))
    | none => throw (evalErr "apply expects a callable and a final list argument")
  | [] => throw (evalErr "apply expects a callable and a final list argument")

/-- The handlers of the builtins that call back, with the environment of the call. -/
def CallbackOp.run (env : Env) (op : CallbackOp) (args : List Value) : Eval Value :=
  match op with
  | .sequenceEach => do
    let items ← check (requireSeq host (← theHeap) "sequence_each" (args.getD 0 .null))
    eachItem host ev rounds ctx (args.getD 1 .null) items
  | .sequenceMap => do
    let items ← check (requireSeq host (← theHeap) "sequence_map" (args.getD 0 .null))
    ensureSequenceLen ctx "sequence_map" items.length
    let values ← mapItems host ev rounds ctx (args.getD 1 .null) items
    onHeap fun h => h.newList values
  | .sequenceFilter => do
    let items ← check (requireSeq host (← theHeap) "sequence_filter" (args.getD 0 .null))
    let values ← filterItems host ev rounds ctx (args.getD 1 .null) items
    ensureSequenceLen ctx "sequence_filter" values.length
    onHeap fun h => h.newList values
  | .sequenceFoldLeft => do
    let items ← check (requireSeq host (← theHeap) "sequence_fold_left" (args.getD 0 .null))
    foldItems host ev rounds ctx (args.getD 2 .null) (args.getD 1 .null) items
  | .mapUpdate => updateMap host ev rounds ctx args
  | .apply => applyTo host ev rounds ctx args
  | .ctfeEvalNode => do
    let spec ← check (requireExprSpec "ctfe-eval-node: expected an IR node (expr-spec)"
      (args.getD 0 .null))
    evalExpansionSpec ev ctx spec env

end Callbacks

/-! ## Calls -/

section Calls

variable (host : Host) (ev : Evaluate) (rounds : Nat) (ctx : Ctx) (token : Nat) (env : Env)

/-- `eval_name`. -/
def evalName (identifier : String) : Eval Value := do
  match (← theHeap).lookupName env identifier with
  | .ok value => return value
  | .error e =>
    match Builtin.named identifier with
    | some builtin =>
      if builtin.info.metadata.isPublic then return .builtin builtin else throw (.error e)
    | none => throw (.error e)

/-- The callee of a call: a name is looked up without an evaluation of its own. -/
def evalCallee : Code → Eval Value
  | .name identifier true =>
    match Builtin.named identifier with
    | some builtin => return .builtin builtin
    | none => throw (evalErr ("missing internal builtin: " ++ identifier))
  | .name identifier false => do
    match (← theHeap).lookupName env identifier with
    | .ok value => return value
    | .error e =>
      match Builtin.named identifier with
      | some builtin =>
        if builtin.info.metadata.isPublic then return .builtin builtin
        else
          throw (evalErr ("internal builtin " ++ builtin.info.name ++
            " is not directly callable"))
      | none => throw (.error e)
  | callee => ev ctx 0 callee env

/-- `BuiltinHandler::invoke`. -/
def invokeHandler (builtin : Builtin) (id : Nat) (args : List Code) : Eval Value :=
  match builtin with
  | .control form => evalControl ev rounds ctx token env form id args
  | .pure op => do
    let values ← evalArgs ev ctx env args
    check (op.run host (← theHeap) values)
  | .alloc op => do
    let values ← evalArgs ev ctx env args
    op.run host ctx values
  | .write op => do
    let values ← evalArgs ev ctx env args
    op.run host ctx values
  | .callback op => do
    let values ← evalArgs ev ctx env args
    op.run host ev rounds ctx env values

/-- The call of a builtin. -/
def callBuiltin (builtin : Builtin) (id : Nat) (args : List Code) : Eval Value := do
  check (requirePhase ctx "builtin" builtin.info.name builtin.info.metadata.phasePolicy)
  check (requireEffectPolicy ctx "builtin" builtin.info.name builtin.info.metadata.effectPolicy)
  check (requireArity "builtin" builtin.info.name builtin.info.minArity builtin.info.maxArity
    args.length)
  recordHandled ctx builtin.info.name builtin.info.metadata.effectPolicy
  invokeHandler host ev rounds ctx token env builtin id args

/-- The call of a closure: a call of the closure whose tail position this is unwinds to the
    trampoline. -/
def callClosure (c : Closure) (args : List Code) : Eval Value := do
  let values ← evalArgs ev ctx env args
  if token ≠ 0 ∧ token = c.id then throw (.tailCall token values)
  else invokeClosure ev ctx c rounds values

/-- The call of a host function. -/
def callHostFunction (name : String) (args : List Code) : Eval Value :=
  match host.function name with
  | some f => do
    check (requirePhase ctx "host function" name f.phasePolicy)
    check (requireEffectPolicy ctx "host function" name f.effectPolicy)
    check (requireArity "host function" name f.minArity f.maxArity args.length)
    let values ← evalArgs ev ctx env args
    recordHandled ctx name f.effectPolicy
    callHost f values
  | none => throw (evalErr ("unregistered host function " ++ name))

/-- `eval_call`. -/
def evalCall (id : Nat) (callee : Code) (args : List Code) : Eval Value := do
  match ← evalCallee ev ctx env callee with
  | .builtin builtin => callBuiltin host ev rounds ctx token env builtin id args
  | .closure c => callClosure ev rounds ctx token env c args
  | .macroFn c => invokeMacro ev ctx c args env
  | .hostFunction name => callHostFunction host ev ctx env name args
  | other => do throw (evalErr ("value " ++ (← theHeap).display host other ++ " is not callable"))

end Calls

/-- The step budget in `enter_eval`. -/
def spendStep : Eval Unit := do
  let s ← get
  match s.evalStepBudget with
  | some 0 =>
    throw (fatalErr
      "compile_time evaluation step budget exhausted (possible non_terminating fold)")
  | some (remaining + 1) => set { s with evalStepBudget := some remaining }
  | none => return ()

/-- `enter_eval`. -/
def enterEval (ctx : Ctx) : Eval Unit := do
  spendStep
  if ctx.maxEvalDepth ≤ ctx.evalDepth then
    throw (fatalErr ("maximum evaluation depth " ++ toString ctx.maxEvalDepth ++ " exceeded"))
  else record (.entered (ctx.active + 1))

/-- `Evaluator::eval` with a given evaluation of the subexpressions. -/
def evalNode (host : Host) (ev : Evaluate) (rounds : Nat) (ctx : Ctx) (token : Nat) (code : Code)
    (env : Env) : Eval Value := do
  enterEval ctx
  match code with
  | .literal value => onHeap fun h => h.ofLiteral value
  | .name identifier _ => evalName env identifier
  | .call id callee args => evalCall host ev rounds ctx.deeper token env id callee args

/-- `Evaluator::eval`, to a depth. -/
def eval (host : Host) : Nat → Evaluate
  | 0 => fun _ _ _ _ => throw .outOfFuel
  | fuel + 1 => evalNode host (eval host fuel) fuel

/-- `Evaluator::eval_sequence`, to a depth. -/
def evalForms (host : Host) (fuel : Nat) (ctx : Ctx) (codes : List Code) (env : Env) : Eval Value :=
  evalSequence (eval host fuel) ctx env .null codes

end Caap.Kernel
