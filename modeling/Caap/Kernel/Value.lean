/-
  Caap.Kernel.Value

  The values of the evaluator, the objects they share and the state of a run (`values.rs`
  and the fields of `Evaluator`).

  A shared object of the source (`Rc<RefCell<..>>`) is an address into the heap.  An
  environment is the list of the addresses of its frames, the innermost first: the parent
  of an `Environment` never changes.  The slots of a frame stand beside their names.

  What the model adds to the source is the log of a run and what it is filled from: the
  scopes around a call, the number of nested evaluations over all evaluators, and which
  activation of a `block` stands around an expression.
-/

import Caap.Kernel.Code
import Caap.Runtime.Value
import Caap.Lib.Assoc
import Caap.Lib.Handlers

namespace Caap.Kernel

open Lib

/-- `EnvRef`. -/
abbrev Env := List Nat

/-- `ClosureValue`, and `MacroValue` with the same fields.  Two of them are the same value if
    their `id` is.  `captured` are the blocks around the expression that made it, each with
    its activation. -/
structure Closure where
  id : Nat
  params : List String
  body : List Code
  env : Env
  graph : Nat
  captured : List (Nat × Nat)

/-- `RuntimeValue`; of the host objects only expression specifications. -/
inductive Value where
  | null
  | bool (b : Bool)
  | int (i : Int64)
  | float (bits : UInt64)
  | str (s : String)
  | bytes (data : List UInt8)
  | tuple (items : List Value)
  | closure (c : Closure)
  | macroFn (c : Closure)
  | builtin (b : Builtin)
  | hostFunction (name : String)
  | spec (id : Nat) (spec : ExprSpec)
  | list (addr : Nat)
  | map (addr : Nat)
  | ref (addr : Nat)
  | uninitializedTopLevel

/-- The shared objects of a run. -/
structure Heap where
  frames : List (List (String × Value))
  lists : List (List Value)
  maps : List (List (MapKey × Value))
  refs : List Value

/-- `EvaluationError`, without the call frames it collects for its report. -/
structure EvaluationError where
  message : String
  category : Option String
  fatal : Bool

/-- `EvalSignal`.  `intended` is the activation that the leave belongs to; `outOfFuel` ends a
    run whose depth is not enough. -/
inductive Signal where
  | leave (target : Nat) (value : Value) (intended : Option Nat)
  | error (e : EvaluationError)
  | exception (value : Value)
  | tailCall (token : Nat) (args : List Value)
  | outOfFuel

/-- What a run did. -/
inductive Event where
  /-- A call of `eval` passed `enter_eval`; `active` evaluations are nested now. -/
  | entered (active : Nat)
  /-- A sub-evaluator was made. -/
  | spawned
  /-- The handler of a builtin or host function runs inside the given scopes. -/
  | handled (name : String) (effects : EffectSet) (scopes : List EffectSet)
  /-- `map_update` writes a map. -/
  | updatedMap (addr : Nat)
  /-- A flat `bind` defines a name in a frame that is already there. -/
  | boundFlat (frame : Nat)
  /-- A `leave` is evaluated; `own` if its block is in the same function body. -/
  | leaving (target : Nat) (own : Bool)
  /-- A block activation ends by a `leave` that belongs to the activation `intended`. -/
  | left (intended : Option Nat) (activation : Nat)
  deriving DecidableEq

/-! ## The heap -/

namespace Heap

def frame (h : Heap) (addr : Nat) : List (String × Value) := h.frames.getD addr []

def list (h : Heap) (addr : Nat) : List Value := h.lists.getD addr []

def map (h : Heap) (addr : Nat) : List (MapKey × Value) := h.maps.getD addr []

def ref (h : Heap) (addr : Nat) : Value := h.refs.getD addr .null

/-- `Environment::new`. -/
def newEnv (h : Heap) (parent : Env) : Env × Heap :=
  (h.frames.length :: parent, { h with frames := h.frames ++ [[]] })

/-- `Environment::define`. -/
def define (h : Heap) (env : Env) (name : String) (value : Value) : Heap :=
  match env with
  | [] => h
  | addr :: _ => { h with frames := h.frames.set addr (upsert name value (h.frame addr)) }

/-- `RuntimeValue::List(Rc::new(..))`. -/
def newList (h : Heap) (items : List Value) : Value × Heap :=
  (.list h.lists.length, { h with lists := h.lists ++ [items] })

/-- `RuntimeValue::Map(Rc::new(..))`. -/
def newMap (h : Heap) (entries : List (MapKey × Value)) : Value × Heap :=
  (.map h.maps.length, { h with maps := h.maps ++ [entries] })

/-- `RuntimeValue::Ref(Rc::new(..))`. -/
def newRef (h : Heap) (value : Value) : Value × Heap :=
  (.ref h.refs.length, { h with refs := h.refs ++ [value] })

def setList (h : Heap) (addr : Nat) (items : List Value) : Heap :=
  { h with lists := h.lists.set addr items }

def setMap (h : Heap) (addr : Nat) (entries : List (MapKey × Value)) : Heap :=
  { h with maps := h.maps.set addr entries }

def setRef (h : Heap) (addr : Nat) (value : Value) : Heap :=
  { h with refs := h.refs.set addr value }

/-- Every object of `h` is in `h'`, unchanged. -/
structure Extends (h h' : Heap) : Prop where
  frames : h.frames <+: h'.frames
  lists : h.lists <+: h'.lists
  maps : h.maps <+: h'.maps
  refs : h.refs <+: h'.refs

/-- No object of `h` is gone in `h'`. -/
structure Grows (h h' : Heap) : Prop where
  frames : h.frames.length ≤ h'.frames.length
  lists : h.lists.length ≤ h'.lists.length
  maps : h.maps.length ≤ h'.maps.length
  refs : h.refs.length ≤ h'.refs.length

end Heap

/-! ## The host and the state of a run -/

/-- How a host function can fail. -/
inductive Failure where
  | error (e : EvaluationError)
  | exception (value : Value)

def Failure.signal : Failure → Signal
  | .error e => .error e
  | .exception value => .exception value

/-- `HostFunction`, registered by the embedding program: one that declares no effect changes
    no object that is there. -/
structure HostFunction where
  minArity : Nat
  maxArity : Option Nat
  phasePolicy : PhasePolicy
  effectPolicy : EffectSet
  handler : List Value → Heap → Except Failure Value × Heap
  grows : ∀ (args : List Value) (heap : Heap), heap.Grows (handler args heap).2
  pure_extends : effectPolicy.tags = [] →
    ∀ (args : List Value) (heap : Heap), heap.Extends (handler args heap).2

/-- What a run takes from outside: the host functions, the operations on floats, and the
    nesting down to which values are printed. -/
structure Host where
  function : String → Option HostFunction
  floatLt : UInt64 → UInt64 → Bool
  intToFloat : Int64 → UInt64
  showFloat : UInt64 → String
  displayDepth : Nat

/-- The state of a run: what the evaluators share, and the step budget of the one that runs. -/
structure Machine where
  heap : Heap
  nextId : Nat
  evalStepBudget : Option Nat
  evalAllocBudget : Option Nat
  activations : Nat
  log : List Event

/-- The fields of an evaluator that hold during a call of `eval`: each is put back when the
    call that set it ends.  `evalDepth` counts the nested evaluations of this evaluator,
    `active` those of all of them; `scopes` are the effect scopes around the call;
    `blocks` are the blocks of the function body around the expression and `captured` those
    around the function, each with its activation. -/
structure Ctx where
  graph : Nat
  phase : PhasePolicy
  effectScope : Option EffectSet
  maxEvalDepth : Nat
  runtimeCollectionLimit : Nat
  evalDepth : Nat
  active : Nat
  scopes : List EffectSet
  blocks : List (Nat × Nat)
  captured : List (Nat × Nat)

namespace Ctx

/-- Inside one more call of `eval`. -/
def deeper (ctx : Ctx) : Ctx := { ctx with evalDepth := ctx.evalDepth + 1, active := ctx.active + 1 }

/-- Inside a function body. -/
def inBody (ctx : Ctx) (captured : List (Nat × Nat)) : Ctx :=
  { ctx with blocks := [], captured := captured }

/-- In a new evaluator for a graph. -/
def inGraph (ctx : Ctx) (graph : Nat) : Ctx := { ctx with graph := graph, evalDepth := 0 }

/-- Inside an activation of a block. -/
def inBlock (ctx : Ctx) (id activation : Nat) : Ctx :=
  { ctx with blocks := (id, activation) :: ctx.blocks }

/-- Inside an effect scope. -/
def inScope (ctx : Ctx) (requested : EffectSet) : Ctx :=
  { ctx with effectScope := some requested, scopes := requested :: ctx.scopes }

end Ctx

/-- A host without functions of its own. -/
def Host.bare : Host where
  function _ := none
  floatLt _ _ := false
  intToFloat _ := 0
  showFloat _ := ""
  displayDepth := 16

/-- The context of a new evaluator. -/
def Ctx.top (maxEvalDepth : Nat) : Ctx where
  graph := 0
  phase := .runtime
  effectScope := none
  maxEvalDepth := maxEvalDepth
  runtimeCollectionLimit := 1000000
  evalDepth := 0
  active := 0
  scopes := []
  blocks := []
  captured := []

/-- The state of a new evaluator, with an empty environment at address 0. -/
def Machine.start : Machine where
  heap := ⟨[[]], [], [], []⟩
  nextId := 1
  evalStepBudget := none
  evalAllocBudget := none
  activations := 0
  log := []

/-- A run that returned an integer. -/
def returnsInt (i : Int64) : Except Signal Value → Bool
  | .ok (.int j) => i == j
  | _ => false

/-- A step of evaluation; the state survives errors. -/
abbrev Eval := ExceptT Signal (StateM Machine)

/-- `eval_err`. -/
def evalErr (message : String) : Signal := .error ⟨message, none, false⟩

/-- `EvaluationError::into_fatal`. -/
def fatalErr (message : String) : Signal := .error ⟨message, none, true⟩

/-- Put an event into the log. -/
def record (event : Event) : Eval Unit := modify fun s => { s with log := event :: s.log }

/-- Change the heap and return a value. -/
def onHeap {α : Type} (f : Heap → α × Heap) : Eval α := do
  let s ← get
  set { s with heap := (f s.heap).2 }
  return (f s.heap).1

/-- A new identity; 0 is none. -/
def freshId : Eval Nat := do
  let s ← get
  set { s with nextId := s.nextId + 1 }
  return s.nextId + 1

/-- `Evaluator::charge_allocation`. -/
def chargeAllocation (units : Nat) : Eval Unit := do
  let s ← get
  match s.evalAllocBudget with
  | none => return ()
  | some remaining =>
    if remaining < units then
      throw (fatalErr
        "compile_time allocation budget exhausted (possible memory_exhaustion attack)")
    else set { s with evalAllocBudget := some (remaining - units) }

/-- Run with another step budget, as `with_eval_step_budget` does and as a sub-evaluator, which
    has a budget of its own, does. -/
def withEvalStepBudget {α : Type} (budget : Option Nat) (m : Eval α) : Eval α :=
  within Machine.evalStepBudget (fun b s => { s with evalStepBudget := b }) budget m

/-- `Evaluator::with_eval_alloc_budget`. -/
def withEvalAllocBudget {α : Type} (budget : Option Nat) (m : Eval α) : Eval α :=
  within Machine.evalAllocBudget (fun b s => { s with evalAllocBudget := b }) budget m

end Caap.Kernel
