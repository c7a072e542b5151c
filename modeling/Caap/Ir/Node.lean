/-
  Caap.Ir.Node

  The IR node types of `ir.rs`: literals, expression specifications (trees) and graph
  nodes (which refer to their children by id).  Ids are `u32` in the source and natural
  numbers here; the bound is enforced where they are allocated.
-/

import Caap.Semantic.Value

namespace Caap

/-- `SourceSpan`; `stop` is its field `end`. -/
structure SourceSpan where
  fileId : Option Nat
  start : Nat
  stop : Nat
  path : Option String
  startLine : Nat
  startCol : Nat
  endLine : Nat
  endCol : Nat
  deriving DecidableEq, Repr

/-! ## Literals -/

/-- `IrLiteralData`. -/
inductive IrLiteralData where
  | null
  | bool (b : Bool)
  | int (i : Int64)
  | float (bits : UInt64)
  | str (s : String)
  | tuple (items : List IrLiteralData)
  | dict (entries : List (String × IrLiteralData))

namespace IrLiteralData

mutual

/-- The derived `PartialEq`. -/
def eq : IrLiteralData → IrLiteralData → Bool
  | .null, .null => true
  | .bool a, .bool b => a == b
  | .int a, .int b => a == b
  | .float a, .float b => f64Eq a b
  | .str a, .str b => a == b
  | .tuple as, .tuple bs => eqItems as bs
  | .dict as, .dict bs => eqEntries as bs
  | _, _ => false

/-- `PartialEq` of item vectors. -/
def eqItems : List IrLiteralData → List IrLiteralData → Bool
  | [], [] => true
  | a :: as, b :: bs => eq a b && eqItems as bs
  | _, _ => false

/-- `PartialEq` of entry vectors. -/
def eqEntries : List (String × IrLiteralData) → List (String × IrLiteralData) → Bool
  | [], [] => true
  | (k, a) :: as, (l, b) :: bs => (k == l && eq a b) && eqEntries as bs
  | _, _ => false

end

instance : BEq IrLiteralData := ⟨eq⟩

end IrLiteralData

/-! ## Expression specifications -/

/-- `ExprSpec`, with the fields of `NameSpec`, `LiteralSpec` and `CallSpec`. -/
inductive ExprSpec where
  | name (identifier : String) (span : Option SourceSpan)
  | literal (value : IrLiteralData) (span : Option SourceSpan)
  | call (callee : ExprSpec) (args : List ExprSpec) (span : Option SourceSpan)

namespace ExprSpec

/-- `NameSpec::with_span`. -/
def nameWithSpan (identifier : String) (span : Option SourceSpan) : CaapResult ExprSpec :=
  if identifier = "" then .error (.ir "name spec identifier must be non-empty")
  else .ok (.name identifier span)

mutual

/-- `PartialEq` of two expression trees whose spans are ignored. -/
def eqModuloSpans : ExprSpec → ExprSpec → Bool
  | .name a _, .name b _ => a == b
  | .literal a _, .literal b _ => a == b
  | .call f as _, .call g bs _ => eqModuloSpans f g && eqListModuloSpans as bs
  | _, _ => false

/-- Elementwise `eqModuloSpans`. -/
def eqListModuloSpans : List ExprSpec → List ExprSpec → Bool
  | [], [] => true
  | a :: as, b :: bs => eqModuloSpans a b && eqListModuloSpans as bs
  | _, _ => false

end

end ExprSpec

/-! ## Graph nodes -/

/-- `Node`, with the fields of `NameNode`, `LiteralNode` and `CallNode`. -/
inductive Node where
  | name (id : Nat) (identifier : String)
  | literal (id : Nat) (value : IrLiteralData)
  | call (id : Nat) (callee : Nat) (args : List Nat)

namespace Node

/-- `NameNode::new`. -/
def newName (id : Nat) (identifier : String) : CaapResult Node :=
  if identifier = "" then .error (.ir "name node identifier must be non-empty")
  else .ok (.name id identifier)

/-- `Node::id`. -/
def id : Node → Nat
  | .name id _ | .literal id _ | .call id _ _ => id

/-- `Node::children`. -/
def children : Node → List Nat
  | .name _ _ | .literal _ _ => []
  | .call _ callee args => callee :: args

/-- `Node::has_children`. -/
def hasChildren : Node → Bool
  | .name _ _ | .literal _ _ => false
  | .call _ _ _ => true

/-- `Node::contains_child`. -/
def containsChild (child : Nat) : Node → Bool
  | .name _ _ | .literal _ _ => false
  | .call _ callee args => callee == child || args.contains child

/-- `matches!(node, Node::Name(_))`. -/
def isName : Node → Bool
  | .name _ _ => true
  | .literal _ _ | .call _ _ _ => false

/-- The derived `PartialEq`. -/
def eq : Node → Node → Bool
  | .name i a, .name j b => i == j && a == b
  | .literal i a, .literal j b => i == j && a == b
  | .call i f as, .call j g bs => i == j && f == g && as == bs
  | _, _ => false

instance : BEq Node := ⟨eq⟩

theorem containsChild_iff {child : Nat} {node : Node} :
    node.containsChild child = true ↔ child ∈ node.children := by
  cases node with
  | name | literal => simp [containsChild, children]
  | call id callee args =>
    simp only [containsChild, children, Bool.or_eq_true, beq_iff_eq, List.contains_iff_mem,
      List.mem_cons]
    exact or_congr_left eq_comm

theorem call_beq_iff {i j f g : Nat} {as bs : List Nat} :
    (Node.call i f as == Node.call j g bs) = true ↔ i = j ∧ f = g ∧ as = bs := by
  show (i == j && f == g && as == bs) = true ↔ _
  simp only [Bool.and_eq_true, beq_iff_eq, and_assoc]

end Node

end Caap
