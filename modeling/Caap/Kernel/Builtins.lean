/-
  Caap.Kernel.Builtins

  What the evaluator does with values: names, truth, equality, printing, and the handlers
  of the builtins that compute their result from the values of their arguments
  (`values.rs`, `arithmetic.rs`, `value_compare.rs`, `mutable.rs`, `sequences.rs`).
-/

import Caap.Kernel.Value

namespace Caap.Kernel

open Lib

/-! ## Values -/

namespace Value

mutual

/-- The `PartialEq` of values: closures, builtins, host values and cells by identity. -/
def eq : Value → Value → Bool
  | .null, .null => true
  | .bool a, .bool b => a == b
  | .int a, .int b => a == b
  | .float a, .float b => f64Eq a b
  | .str a, .str b => a == b
  | .bytes a, .bytes b => a == b
  | .tuple a, .tuple b => eqItems a b
  | .closure a, .closure b => a.id == b.id
  | .macroFn a, .macroFn b => a.id == b.id
  | .builtin a, .builtin b => a == b
  | .hostFunction a, .hostFunction b => a == b
  | .spec a _, .spec b _ => a == b
  | .list a, .list b => a == b
  | .map a, .map b => a == b
  | .ref a, .ref b => a == b
  | .uninitializedTopLevel, .uninitializedTopLevel => true
  | _, _ => false

/-- `PartialEq` of slices. -/
def eqItems : List Value → List Value → Bool
  | [], [] => true
  | a :: as, b :: bs => eq a b && eqItems as bs
  | _, _ => false

end

/-- `canonical_type_tag`. -/
def typeTag : Value → String
  | .null => "null"
  | .bool _ => "bool"
  | .int _ => "int"
  | .float _ => "float"
  | .str _ => "string"
  | .bytes _ => "bytes"
  | .list _ => "list"
  | .tuple _ => "tuple"
  | .map _ => "map"
  | .closure _ | .macroFn _ | .builtin _ | .hostFunction _ => "callable"
  | .spec _ _ => "object"
  | .ref _ => "ref"
  | .uninitializedTopLevel => "null"

/-- The value of a map key. -/
def ofKey : MapKey → Value
  | .null => .null
  | .bool b => .bool b
  | .int i => .int i
  | .str s => .str s

end Value

namespace Heap

/-- `is_truthy`. -/
def isTruthy (h : Heap) : Value → Bool
  | .null => false
  | .bool b => b
  | .int i => i != 0
  | .float bits => bits != 0 && bits != 0x8000000000000000
  | .str s => s != ""
  | .bytes data => !data.isEmpty
  | .tuple items => !items.isEmpty
  | .closure _ | .macroFn _ | .builtin _ | .hostFunction _ | .spec _ _ => true
  | .list addr => !(h.list addr).isEmpty
  | .map addr => !(h.map addr).isEmpty
  | .ref _ => true
  | .uninitializedTopLevel => false

/-- `Display` of `MapKey`. -/
def displayKey : MapKey → String
  | .null => "null"
  | .bool b => toString b
  | .int i => toString i.toInt
  | .str s => s

/-- `Display` of values, down to a nesting. -/
def displayTo (host : Host) (h : Heap) : Nat → Value → String
  | 0, _ => ""
  | _ + 1, .null => "null"
  | _ + 1, .bool b => toString b
  | _ + 1, .int i => toString i.toInt
  | _ + 1, .float bits => host.showFloat bits
  | _ + 1, .str s => s
  | _ + 1, .bytes data => "#bytes(" ++ toString data.length ++ ")"
  | n + 1, .tuple items => "(" ++ ", ".intercalate (items.map (displayTo host h n)) ++ ")"
  | _ + 1, .closure _ => "<closure>"
  | _ + 1, .macroFn _ => "<macro>"
  | _ + 1, .builtin b => "<builtin:" ++ b.info.name ++ ">"
  | _ + 1, .hostFunction name => "<host-function:" ++ name ++ ">"
  | _ + 1, .spec _ _ => "<host-object:expr_spec>"
  | n + 1, .list addr => "[" ++ ", ".intercalate ((h.list addr).map (displayTo host h n)) ++ "]"
  | n + 1, .map addr =>
    "\x7b" ++ ", ".intercalate ((h.map addr).map fun entry =>
      displayKey entry.1 ++ ": " ++ displayTo host h n entry.2) ++ "\x7d"
  | _ + 1, .ref _ => "<ref>"
  | _ + 1, .uninitializedTopLevel => "<uninitialized-top-level>"

/-- `Display` of values. -/
def display (host : Host) (h : Heap) (v : Value) : String := displayTo host h host.displayDepth v

mutual

/-- `runtime_value_from_literal`. -/
def ofLiteral (h : Heap) : IrLiteralData → Value × Heap
  | .null => (.null, h)
  | .bool b => (.bool b, h)
  | .int i => (.int i, h)
  | .float bits => (.float bits, h)
  | .str s => (.str s, h)
  | .tuple items => (.tuple (ofItems h items).1, (ofItems h items).2)
  | .dict entries => (ofEntries h [] entries).2.newMap (ofEntries h [] entries).1

/-- The items of a tuple literal. -/
def ofItems (h : Heap) : List IrLiteralData → List Value × Heap
  | [] => ([], h)
  | item :: rest =>
    ((ofLiteral h item).1 :: (ofItems (ofLiteral h item).2 rest).1,
      (ofItems (ofLiteral h item).2 rest).2)

/-- The loop over the entries of a dictionary literal. -/
def ofEntries (h : Heap) (map : List (MapKey × Value)) :
    List (String × IrLiteralData) → List (MapKey × Value) × Heap
  | [] => (map, h)
  | (key, item) :: rest =>
    ofEntries (ofLiteral h item).2 (upsert (.str key) (ofLiteral h item).1 map) rest

end

/-! ## Names -/

/-- `checked_slot_value`. -/
def checkedSlotValue (name : String) : Value → Except EvaluationError Value
  | .uninitializedTopLevel =>
    .error ⟨"name " ++ debugStr name ++ " was accessed before initialization", none, false⟩
  | value => .ok value

/-- `Environment::resolve_exact`. -/
def resolveExact (h : Heap) (name : String) : Env → Except EvaluationError (Option Value)
  | [] => .ok none
  | addr :: parent =>
    match find name (h.frame addr) with
    | some value => (checkedSlotValue name value).map some
    | none => resolveExact h name parent

/-- The ways to cut a name at a dot, with something on both sides, the last dot first. -/
def dotSplits (name : String) : List (String × String) :=
  ((List.range name.toList.length).filterMap fun i =>
    if 0 < i ∧ i + 1 < name.toList.length ∧ name.toList[i]? = some '.' then
      some (String.ofList (name.toList.take i), String.ofList (name.toList.drop (i + 1)))
    else none).reverse

/-- `suffix.split('.')` without the empty segments. -/
def segments (suffix : String) : List String :=
  ((suffix.toList.splitOn '.').map String.ofList).filter (· ≠ "")

/-- The loop of `resolve_qualified_suffix`. -/
def resolveSegments (h : Heap) : Value → List String → Option Value
  | value, [] => some value
  | .map addr, segment :: rest =>
    match find (.str segment) (h.map addr) with
    | some next => resolveSegments h next rest
    | none => none
  | _, _ :: _ => none

/-- `resolve_qualified_suffix`. -/
def resolveQualifiedSuffix (h : Heap) (value : Value) (suffix : String) : Option Value :=
  if segments suffix = [] then none else resolveSegments h value (segments suffix)

/-- The prefixes of one frame in `lookup_qualified`: the value found, or whether a prefix is
    bound in the frame. -/
def lookupInFrame (h : Heap) (frame : List (String × Value)) :
    Bool → List (String × String) → Except EvaluationError (Option Value × Bool)
  | matched, [] => .ok (none, matched)
  | matched, (pre, suffix) :: rest =>
    match find pre frame with
    | none => lookupInFrame h frame matched rest
    | some slot => do
      let value ← checkedSlotValue pre slot
      match resolveQualifiedSuffix h value suffix with
      | some found => .ok (some found, true)
      | none => lookupInFrame h frame true rest

/-- The walk of `lookup_qualified` along the frames. -/
def lookupQualified (h : Heap) (splits : List (String × String)) :
    Env → Except EvaluationError (Option Value)
  | [] => .ok none
  | addr :: parent => do
    let (found, matched) ← lookupInFrame h (h.frame addr) false splits
    match found with
    | some value => .ok (some value)
    | none => if matched then .ok none else lookupQualified h splits parent

/-- `eval_name_without_builtin`; a lexical address that is cached finds what the walk along
    the frames finds. -/
def lookupName (h : Heap) (env : Env) (name : String) : Except EvaluationError Value := do
  let unknown : Except EvaluationError Value := .error ⟨"unknown name: " ++ name, none, false⟩
  match ← resolveExact h name env with
  | some value => .ok value
  | none =>
    if name.toList.contains '.' then
      match ← lookupQualified h (dotSplits name) env with
      | some value => .ok value
      | none => unknown
    else unknown

/-- `Environment::assign_resolved`. -/
def assign (h : Heap) (name : String) (value : Value) : Env → Except EvaluationError Heap
  | [] => .error ⟨"undefined variable: " ++ name, none, false⟩
  | addr :: parent =>
    match find name (h.frame addr) with
    | some _ => .ok { h with frames := h.frames.set addr (upsert name value (h.frame addr)) }
    | none => assign h name value parent

end Heap

/-! ## Builtins that compute a value -/

section PureOps

variable (host : Host) (h : Heap)

/-- `require_int`. -/
def requireInt (context : String) : Value → Except String Int64
  | .int i => .ok i
  | other => .error (context ++ ": expected int, got " ++ h.display host other)

/-- `require_int_strict`. -/
def requireIntStrict (context : String) : Value → Except String Int64
  | .int i => .ok i
  | .bool _ => .error (context ++ ": expected integer, got boolean")
  | other => .error (context ++ ": expected integer, got " ++ h.display host other)

/-- `require_str`. -/
def requireStr (context : String) : Value → Except String String
  | .str s => .ok s
  | other => .error (context ++ ": expected string, got " ++ h.display host other)

/-- `require_list`: the address of the list. -/
def requireList (context : String) : Value → Except String Nat
  | .list addr => .ok addr
  | other => .error (context ++ ": expected list, got " ++ h.display host other)

/-- `require_map`: the address of the map. -/
def requireMap (context : String) : Value → Except String Nat
  | .map addr => .ok addr
  | other => .error (context ++ ": expected map, got " ++ h.display host other)

/-- `require_ref`: the address of the cell. -/
def requireRef (context : String) : Value → Except String Nat
  | .ref addr => .ok addr
  | other => .error (context ++ ": expected ref, got " ++ h.display host other)

/-- `require_seq`. -/
def requireSeq (context : String) : Value → Except String (List Value)
  | .list addr => .ok (h.list addr)
  | .tuple items => .ok items
  | other => .error (context ++ ": expected sequence, got " ++ h.display host other)

/-- `MapKey::try_from`. -/
def mapKeyOf : Value → Except String MapKey
  | .null => .ok .null
  | .bool b => .ok (.bool b)
  | .int i => .ok (.int i)
  | .str s => .ok (.str s)
  | other =>
    .error ("value " ++ h.display host other ++ " is not hashable (cannot be used as map key)")

/-- An integer of the `i64` range, or nothing. -/
def checkedInt (i : Int) : Option Int64 :=
  if -(2 ^ 63) ≤ i ∧ i < 2 ^ 63 then some (Int64.ofInt i) else none

/-- `checked` with the operand of the message: `int_add`, `int_sub` and `int_mul`. -/
def checkedArith (context symbol : String) (f : Int → Int → Int) (args : List Value) :
    Except String Value := do
  let l ← requireInt host h context (args.getD 0 .null)
  let r ← requireInt host h context (args.getD 1 .null)
  match checkedInt (f l.toInt r.toInt) with
  | some i => .ok (.int i)
  | none =>
    .error (context ++ ": integer overflow (" ++ toString l.toInt ++ " " ++ symbol ++ " " ++
      toString r.toInt ++ ")")

/-- `int_abs_eager`. -/
def intAbsHandler (args : List Value) : Except String Value := do
  let v ← requireInt host h "int_abs" (args.getD 0 .null)
  match checkedInt v.toInt.natAbs with
  | some i => .ok (.int i)
  | none => .error ("int_abs: integer overflow (abs(" ++ toString v.toInt ++ "))")

/-- `int_div`: Euclidean division. -/
def intDivHandler (args : List Value) : Except String Value := do
  let l ← requireInt host h "int_div" (args.getD 0 .null)
  let r ← requireInt host h "int_div" (args.getD 1 .null)
  if r.toInt = 0 then .error "int_div: division by zero"
  else
    match checkedInt (l.toInt / r.toInt) with
    | some i => .ok (.int i)
    | none =>
      .error ("int_div: integer overflow (" ++ toString l.toInt ++ " / " ++ toString r.toInt ++
        ")")

/-- `int_rem`: the remainder of truncated division. -/
def intRemHandler (args : List Value) : Except String Value := do
  let l ← requireInt host h "int_rem" (args.getD 0 .null)
  let r ← requireInt host h "int_rem" (args.getD 1 .null)
  if r.toInt = 0 then .error "int_rem: division by zero"
  else .ok (.int ((checkedInt (l.toInt.tmod r.toInt)).getD 0))

/-- `int_mod`: the Euclidean remainder. -/
def intModHandler (args : List Value) : Except String Value := do
  let l ← requireInt host h "int_mod" (args.getD 0 .null)
  let r ← requireInt host h "int_mod" (args.getD 1 .null)
  if r.toInt ≤ 0 then .error "int_mod: modulus must be positive"
  else .ok (.int ((checkedInt (l.toInt % r.toInt)).getD 0))

/-- `compare_lt`. -/
def compareLt (host : Host) : Value → Value → Except String Bool
  | .int x, .int y => .ok (decide (x < y))
  | .float x, .float y => .ok (host.floatLt x y)
  | .str x, .str y => .ok (decide (x < y))
  | .int x, .float y => .ok (host.floatLt (host.intToFloat x) y)
  | .float x, .int y => .ok (host.floatLt x (host.intToFloat y))
  | a, b =>
    .error ("ordered comparison: cannot compare " ++ a.typeTag ++ " with " ++ b.typeTag)

/-- `all_pairs`: a comparison of neighbours. -/
def allPairs (holds : Value → Value → Except String Bool) : List Value → Except String Bool
  | a :: b :: rest => do
    if ← holds a b then allPairs holds (b :: rest) else .ok false
  | _ => .ok true

/-- `require_index_key`. -/
def requireIndexKey (strict : Bool) (key : Value) : Except String Nat := do
  let context := if strict then "get_strict" else "get"
  let index ← requireIntStrict host h context key
  if index.toInt < 0 then .error (context ++ ": index must be non-negative")
  else .ok index.toInt.toNat

/-- The end of a branch of `polymorphic_get`. -/
def orMissing (strict : Bool) (message : String) (fallback : Value) :
    Option Value → Except String Value
  | some value => .ok value
  | none => if strict then .error message else .ok fallback

/-- `polymorphic_get`. -/
def polymorphicGet (container key fallback : Value) (strict : Bool) : Except String Value :=
  match container with
  | .map addr => do
    let key ← mapKeyOf host h key
    orMissing strict "get_strict: key is missing" fallback (find key (h.map addr))
  | .list addr => do
    let index ← requireIndexKey host h strict key
    orMissing strict "get_strict: index out of range" fallback (h.list addr)[index]?
  | .tuple items => do
    let index ← requireIndexKey host h strict key
    orMissing strict "get_strict: tuple index out of range" fallback items[index]?
  | .str s => do
    let index ← requireIndexKey host h strict key
    orMissing strict "get_strict: string index out of range" fallback
      (s.toList[index]?.map fun c => .str (String.ofList [c]))
  | other => .error ("get does not support " ++ h.display host other)

/-- `polymorphic_size`. -/
def polymorphicSize : Value → Except String Value
  | .list addr => .ok (.int (Int64.ofNat (h.list addr).length))
  | .tuple items => .ok (.int (Int64.ofNat items.length))
  | .map addr => .ok (.int (Int64.ofNat (h.map addr).length))
  | .str s => .ok (.int (Int64.ofNat s.toList.length))
  | other => .error ("size does not support " ++ h.display host other)

/-- `str::contains` for a substring. -/
def isSubstring (sub s : List Char) : Bool := s.tails.any fun rest => sub.isPrefixOf rest

/-- The handler of `contains`. -/
def containsValue (container item : Value) : Except String Value :=
  match container with
  | .list addr => .ok (.bool ((h.list addr).any fun v => v.eq item))
  | .tuple items => .ok (.bool (items.any fun v => v.eq item))
  | .map addr => do
    let key ← mapKeyOf host h item
    .ok (.bool (find key (h.map addr)).isSome)
  | .str s => do
    let sub ← requireStr host h "contains: string substring" item
    .ok (.bool (isSubstring sub.toList s.toList))
  | other => .error ("contains does not support " ++ h.display host other)

/-- The handlers of the builtins that compute a value. -/
def PureOp.run : PureOp → List Value → Except String Value
  | .intAdd, args => checkedArith host h "int_add" "+" (· + ·) args
  | .intSub, args => checkedArith host h "int_sub" "-" (· - ·) args
  | .intMul, args => checkedArith host h "int_mul" "*" (· * ·) args
  | .intAbs, args => intAbsHandler host h args
  | .intDiv, args => intDivHandler host h args
  | .intRem, args => intRemHandler host h args
  | .intMod, args => intModHandler host h args
  | .eq, args => .ok (.bool (args.tail.all fun v => v.eq (args.getD 0 .null)))
  | .ne, args => .ok (.bool (args.tail.any fun v => !v.eq (args.getD 0 .null)))
  | .lt, args => (allPairs (compareLt host) args).map .bool
  | .gt, args => (allPairs (fun a b => compareLt host b a) args).map .bool
  | .le, args => (allPairs (fun a b => (compareLt host b a).map (! ·)) args).map .bool
  | .ge, args => (allPairs (fun a b => (compareLt host a b).map (! ·)) args).map .bool
  | .not, args => .ok (.bool (!h.isTruthy (args.getD 0 .null)))
  | .valueType, args => .ok (.str (args.getD 0 .null).typeTag)
  | .get, args =>
    polymorphicGet host h (args.getD 0 .null) (args.getD 1 .null) (args.getD 2 .null) false
  | .getStrict, args => polymorphicGet host h (args.getD 0 .null) (args.getD 1 .null) .null true
  | .size, args => polymorphicSize host h (args.getD 0 .null)
  | .contains, args => containsValue host h (args.getD 0 .null) (args.getD 1 .null)
  | .deref, args => (requireRef host h "deref" (args.getD 0 .null)).map h.ref

end PureOps

/-! ## Builtins that make or change objects -/

/-- Fail with a message, or go on. -/
def check {α : Type} : Except String α → Eval α
  | .ok a => pure a
  | .error message => throw (evalErr message)

/-- Fail with a message if a condition holds. -/
def refuse (condition : Bool) (message : String) : Eval Unit :=
  if condition then throw (evalErr message) else return ()

/-- `ensure_collection_len`. -/
def ensureCollectionLen (ctx : Ctx) (context kind : String) (current additional : Nat) :
    Eval Unit :=
  if ctx.runtimeCollectionLimit < current + additional then
    throw (evalErr (context ++ ": " ++ kind ++ " size limit " ++
      toString ctx.runtimeCollectionLimit ++ " exceeded"))
  else chargeAllocation additional

/-- `ensure_sequence_len`. -/
def ensureSequenceLen (ctx : Ctx) (context : String) (len : Nat) : Eval Unit :=
  ensureCollectionLen ctx context "list" 0 len

/-- The heap as it is now. -/
def theHeap : Eval Heap := do return (← get).heap

/-- The insertions of `map_of` and `assoc`: the keys and values stand alternately. -/
def insertPairs (host : Host) (h : Heap) (entries : List (MapKey × Value)) :
    List Value → Except String (List (MapKey × Value))
  | key :: value :: rest => do
    let key ← mapKeyOf host h key
    insertPairs host h (upsert key value entries) rest
  | _ => .ok entries

/-- The handlers of the builtins that make an object. -/
def AllocOp.run (host : Host) (ctx : Ctx) : AllocOp → List Value → Eval Value
  | .listOf, args => do
    ensureCollectionLen ctx "list_of" "list" 0 args.length
    onHeap fun h => h.newList args
  | .mapOf, args => do
    refuse (args.length % 2 ≠ 0) "map_of expects an even number of arguments (key value pairs)"
    let entries ← check (insertPairs host (← theHeap) [] args)
    ensureCollectionLen ctx "map_of" "map" 0 entries.length
    onHeap fun h => h.newMap entries
  | .ref, args => onHeap fun h => h.newRef (args.getD 0 .null)
  | .mapKeys, args => do
    let h ← theHeap
    let addr ← check (requireMap host h "map_keys" (args.getD 0 .null))
    ensureSequenceLen ctx "map_keys" (h.map addr).length
    onHeap fun h => h.newList ((h.map addr).map fun entry => .ofKey entry.1)
  | .mapValues, args => do
    let h ← theHeap
    let addr ← check (requireMap host h "map_values" (args.getD 0 .null))
    ensureSequenceLen ctx "map_values" (h.map addr).length
    onHeap fun h => h.newList ((h.map addr).map Prod.snd)

/-- The number of keys among the pairs that are not in the map: `new_keys` of `assoc`. -/
def newKeys (old new : List (MapKey × Value)) : Nat :=
  (new.filter fun entry => (find entry.1 old).isNone).length

/-- `idx < 0 || idx >= len`. -/
def outOfRange (index : Int64) (len : Nat) : Bool :=
  decide (index.toInt < 0 ∨ (len : Int) ≤ index.toInt)

/-- The check of `set` for a key that is not in the map. -/
def ensureNewKey (ctx : Ctx) (entries : List (MapKey × Value)) (key : MapKey) : Eval Unit :=
  if (find key entries).isNone then ensureCollectionLen ctx "set" "map" entries.length 1
  else return ()

/-- The handlers of the builtins that change an object. -/
def WriteOp.run (host : Host) (ctx : Ctx) : WriteOp → List Value → Eval Value
  | .append, args => do
    let h ← theHeap
    let addr ← check (requireList host h "append" (args.getD 0 .null))
    ensureCollectionLen ctx "append" "list" (h.list addr).length (args.length - 1)
    onHeap fun h => (.list addr, h.setList addr (h.list addr ++ args.tail))
  | .assoc, args => do
    let h ← theHeap
    let addr ← check (requireMap host h "assoc" (args.getD 0 .null))
    refuse (args.tail.length % 2 ≠ 0) "assoc expects key/value pairs after target"
    let entries ← check (insertPairs host h (h.map addr) args.tail)
    ensureCollectionLen ctx "assoc" "map" (h.map addr).length (newKeys (h.map addr) entries)
    onHeap fun h => (.map addr, h.setMap addr entries)
  | .set, args => do
    let h ← theHeap
    match args.getD 0 .null with
    | .map addr => do
      let key ← check (mapKeyOf host h (args.getD 1 .null))
      ensureNewKey ctx (h.map addr) key
      onHeap fun h => (.map addr, h.setMap addr (upsert key (args.getD 2 .null) (h.map addr)))
    | .list addr => do
      let index ← check (requireIntStrict host h "set" (args.getD 1 .null))
      refuse (outOfRange index (h.list addr).length) "set: index out of range"
      onHeap fun h => (.list addr,
        h.setList addr ((h.list addr).set index.toInt.toNat (args.getD 2 .null)))
    | other => throw (evalErr ("set does not support " ++ h.display host other ++ " containers"))
  | .mapDelete, args => do
    let h ← theHeap
    let addr ← check (requireMap host h "map_delete" (args.getD 0 .null))
    let key ← check (mapKeyOf host h (args.getD 1 .null))
    onHeap fun h => (.map addr, h.setMap addr ((h.map addr).filter fun entry => entry.1 ≠ key))
  | .listRemoveAt, args => do
    let h ← theHeap
    let addr ← check (requireList host h "list_remove_at" (args.getD 0 .null))
    let index ← check (requireIntStrict host h "list_remove_at" (args.getD 1 .null))
    refuse (outOfRange index (h.list addr).length) ("list_remove_at: index " ++
      toString index.toInt ++ " out of range [0, " ++ toString (h.list addr).length ++ ")")
    onHeap fun h => (.list addr, h.setList addr ((h.list addr).eraseIdx index.toInt.toNat))
  | .setRef, args => do
    let h ← theHeap
    let addr ← check (requireRef host h "set_ref" (args.getD 0 .null))
    onHeap fun h => (args.getD 1 .null, h.setRef addr (args.getD 1 .null))

end Caap.Kernel
