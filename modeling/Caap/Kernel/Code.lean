/-
  Caap.Kernel.Code

  The expressions of the kernel and the builtins they call.

  The evaluator of `eval.rs` walks an IR graph by node ids.  An expression here is the
  subtree below a node: literals, names and calls, where a call keeps its node id (a
  `block` is left by that id) and a name keeps whether its node is marked internal.

  Of the builtins the model has the control forms, integer arithmetic and comparison, the
  mutable collections and reference cells, the sequence builtins that call back, `apply`
  and `ctfe_eval_node`.
-/

import Caap.Ir.Node
import Caap.Query.Registry

namespace Caap.Kernel

/-- A kernel expression: the subtree of a graph below one node. -/
inductive Code where
  | literal (value : IrLiteralData)
  | name (identifier : String) (internal : Bool)
  | call (id : Nat) (callee : Code) (args : List Code)

namespace Code

/-- `is_synthetic_group_callee`. -/
def isSyntheticGroupCallee (identifier : String) : Bool :=
  startsWith identifier "__" && "__".toList.isSuffixOf identifier.toList

/-- `call_item_ids`: the arguments of a synthetic group, the callee and the arguments of any
    other call. -/
def callItems : Code → List Code → List Code
  | .name identifier internal, args =>
    if isSyntheticGroupCallee identifier then args else .name identifier internal :: args
  | callee, args => callee :: args

end Code

/-! ## Builtins -/

/-- The special forms of `control_flow.rs` and `effects.rs`. -/
inductive Control where
  | ifForm | orForm | andForm | doForm | lambdaForm | macroForm | bindForm | assignLexical
  | block | leave | whileForm | matchForm | throwForm | tryForm | effectScope
  deriving DecidableEq, Repr

/-- Builtins that compute a value from the values of their arguments. -/
inductive PureOp where
  | intAdd | intSub | intMul | intAbs | intDiv | intRem | intMod
  | eq | ne | lt | gt | le | ge | not | valueType
  | get | getStrict | size | contains | deref
  deriving DecidableEq, Repr

/-- Builtins that make a new object. -/
inductive AllocOp where
  | listOf | mapOf | ref | mapKeys | mapValues
  deriving DecidableEq, Repr

/-- Builtins that change an object in place. -/
inductive WriteOp where
  | append | assoc | set | mapDelete | listRemoveAt | setRef
  deriving DecidableEq, Repr

/-- Builtins that call back or evaluate syntax after their arguments are evaluated. -/
inductive CallbackOp where
  | sequenceEach | sequenceMap | sequenceFilter | sequenceFoldLeft | mapUpdate | apply
  | ctfeEvalNode
  deriving DecidableEq, Repr

/-- A registered builtin. -/
inductive Builtin where
  | control (form : Control)
  | pure (op : PureOp)
  | alloc (op : AllocOp)
  | write (op : WriteOp)
  | callback (op : CallbackOp)
  deriving DecidableEq, Repr

/-- The fields of `BuiltinMetadata` that the evaluator reads: `eagerArgs` is the method of
    that name, `isPublic` the visibility. -/
structure BuiltinMetadata where
  eagerArgs : Bool
  phasePolicy : PhasePolicy
  effectPolicy : EffectSet
  isPublic : Bool

namespace BuiltinMetadata

/-- `BuiltinMetadata::eager_runtime`. -/
def eagerRuntime : BuiltinMetadata := ⟨true, .dual, .empty, true⟩

/-- `BuiltinMetadata::special_form`; the policies set on top of it differ from it in nothing
    the evaluator reads. -/
def specialForm : BuiltinMetadata := { eagerRuntime with eagerArgs := false }

/-- `BuiltinMetadata::runtime_mutation`. -/
def runtimeMutation : BuiltinMetadata :=
  { eagerRuntime with effectPolicy := ⟨["mutation"], List.pairwise_singleton _ _⟩ }

/-- `BuiltinMetadata::runtime_sequential`. -/
def runtimeSequential : BuiltinMetadata := { eagerRuntime with eagerArgs := false }

/-- `BuiltinMetadata::compile_time_pure`. -/
def compileTimePure : BuiltinMetadata := { eagerRuntime with phasePolicy := .compileTime }

/-- `BuiltinMetadata::internal`. -/
def internal (m : BuiltinMetadata) : BuiltinMetadata := { m with isPublic := false }

end BuiltinMetadata

/-- What a builtin is registered with: `eagerHandler` tells `BuiltinHandler::Eager` from
    `BuiltinHandler::Special`. -/
structure BuiltinInfo where
  name : String
  minArity : Nat
  maxArity : Option Nat
  metadata : BuiltinMetadata
  eagerHandler : Bool

/-- The registration of a special form. -/
def Control.info : Control → BuiltinInfo
  | .ifForm => ⟨"if", 2, some 3, .specialForm, false⟩
  | .orForm => ⟨"or", 0, none, .specialForm, false⟩
  | .andForm => ⟨"and", 0, none, .specialForm, false⟩
  | .doForm => ⟨"do", 0, none, .specialForm, false⟩
  | .lambdaForm => ⟨"lambda", 2, none, .specialForm, false⟩
  | .macroForm => ⟨"macro", 2, none, .specialForm, false⟩
  | .bindForm => ⟨"bind", 2, none, .specialForm, false⟩
  | .assignLexical => ⟨"assign_lexical", 2, some 2, .internal .runtimeMutation, false⟩
  | .block => ⟨"block", 1, none, .specialForm, false⟩
  | .leave => ⟨"leave", 1, some 2, .specialForm, false⟩
  | .whileForm => ⟨"while", 2, some 2, .specialForm, false⟩
  | .matchForm => ⟨"match", 1, none, .specialForm, false⟩
  | .throwForm => ⟨"throw", 1, some 1, .specialForm, false⟩
  | .tryForm => ⟨"try", 1, some 2, .specialForm, false⟩
  | .effectScope => ⟨"effect_scope", 1, none, .specialForm, false⟩

/-- The registration of a builtin that computes a value. -/
def PureOp.info : PureOp → BuiltinInfo
  | .intAdd => ⟨"int_add", 2, some 2, .eagerRuntime, true⟩
  | .intSub => ⟨"int_sub", 2, some 2, .eagerRuntime, true⟩
  | .intMul => ⟨"int_mul", 2, some 2, .eagerRuntime, true⟩
  | .intAbs => ⟨"int_abs", 1, some 1, .eagerRuntime, true⟩
  | .intDiv => ⟨"int_div", 2, some 2, .eagerRuntime, false⟩
  | .intRem => ⟨"int_rem", 2, some 2, .eagerRuntime, false⟩
  | .intMod => ⟨"int_mod", 2, some 2, .eagerRuntime, false⟩
  | .eq => ⟨"eq", 0, none, .eagerRuntime, true⟩
  | .ne => ⟨"ne", 0, none, .eagerRuntime, true⟩
  | .lt => ⟨"lt", 0, none, .eagerRuntime, true⟩
  | .gt => ⟨"gt", 0, none, .eagerRuntime, true⟩
  | .le => ⟨"le", 0, none, .eagerRuntime, true⟩
  | .ge => ⟨"ge", 0, none, .eagerRuntime, true⟩
  | .not => ⟨"not", 1, some 1, .eagerRuntime, true⟩
  | .valueType => ⟨"value_type", 1, some 1, .eagerRuntime, false⟩
  | .get => ⟨"get", 2, some 3, .eagerRuntime, true⟩
  | .getStrict => ⟨"get_strict", 2, some 2, .eagerRuntime, true⟩
  | .size => ⟨"size", 1, some 1, .eagerRuntime, true⟩
  | .contains => ⟨"contains", 2, some 2, .eagerRuntime, false⟩
  | .deref => ⟨"deref", 1, some 1, .eagerRuntime, false⟩

/-- The registration of a builtin that makes an object. -/
def AllocOp.info : AllocOp → BuiltinInfo
  | .listOf => ⟨"list_of", 0, none, .eagerRuntime, false⟩
  | .mapOf => ⟨"map_of", 0, none, .eagerRuntime, false⟩
  | .ref => ⟨"ref", 1, some 1, .eagerRuntime, false⟩
  | .mapKeys => ⟨"map_keys", 1, some 1, .eagerRuntime, false⟩
  | .mapValues => ⟨"map_values", 1, some 1, .eagerRuntime, false⟩

/-- The registration of a builtin that changes an object. -/
def WriteOp.info : WriteOp → BuiltinInfo
  | .append => ⟨"append", 2, none, .runtimeMutation, false⟩
  | .assoc => ⟨"assoc", 3, none, .runtimeMutation, false⟩
  | .set => ⟨"set", 3, some 3, .runtimeMutation, false⟩
  | .mapDelete => ⟨"map_delete", 2, some 2, .runtimeMutation, false⟩
  | .listRemoveAt => ⟨"list_remove_at", 2, some 2, .runtimeMutation, false⟩
  | .setRef => ⟨"set_ref", 2, some 2, .runtimeMutation, false⟩

/-- The registration of a builtin that calls back. -/
def CallbackOp.info : CallbackOp → BuiltinInfo
  | .sequenceEach => ⟨"sequence_each", 2, some 2, .eagerRuntime, false⟩
  | .sequenceMap => ⟨"sequence_map", 2, some 2, .eagerRuntime, false⟩
  | .sequenceFilter => ⟨"sequence_filter", 2, some 2, .eagerRuntime, false⟩
  | .sequenceFoldLeft => ⟨"sequence_fold_left", 3, some 3, .eagerRuntime, false⟩
  | .mapUpdate => ⟨"map_update", 3, some 4, .eagerRuntime, false⟩
  | .apply => ⟨"apply", 2, none, .runtimeSequential, false⟩
  | .ctfeEvalNode => ⟨"ctfe_eval_node", 1, some 1, .compileTimePure, false⟩

namespace Builtin

/-- The registration of a builtin. -/
def info : Builtin → BuiltinInfo
  | .control form => form.info
  | .pure op => op.info
  | .alloc op => op.info
  | .write op => op.info
  | .callback op => op.info

/-- The special forms. -/
def controls : List Control :=
  [.ifForm, .orForm, .andForm, .doForm, .lambdaForm, .macroForm, .bindForm, .assignLexical,
    .block, .leave, .whileForm, .matchForm, .throwForm, .tryForm, .effectScope]

/-- The builtins that compute a value. -/
def pureOps : List PureOp :=
  [.intAdd, .intSub, .intMul, .intAbs, .intDiv, .intRem, .intMod, .eq, .ne, .lt, .gt, .le, .ge,
    .not, .valueType, .get, .getStrict, .size, .contains, .deref]

/-- The builtins that make an object. -/
def allocOps : List AllocOp := [.listOf, .mapOf, .ref, .mapKeys, .mapValues]

/-- The builtins that change an object. -/
def writeOps : List WriteOp := [.append, .assoc, .set, .mapDelete, .listRemoveAt, .setRef]

/-- The builtins that call back. -/
def callbackOps : List CallbackOp :=
  [.sequenceEach, .sequenceMap, .sequenceFilter, .sequenceFoldLeft, .mapUpdate, .apply,
    .ctfeEvalNode]

/-- `register_all`. -/
def registered : List Builtin :=
  controls.map .control ++ pureOps.map .pure ++ allocOps.map .alloc ++ writeOps.map .write ++
    callbackOps.map .callback

/-- `self.builtins.get(name)`. -/
def named (name : String) : Option Builtin :=
  registered.find? fun builtin => builtin.info.name = name

end Builtin

end Caap.Kernel
