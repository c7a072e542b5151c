/-
  Caap.Semantic.Value

  `semantic/value.rs` and the identifiers of `semantic/mod.rs`: semantic values with
  their equality and validation, stable ids and semantic subjects.

  Rust compares values with the derived `PartialEq`, which on floats is IEEE
  equality: it identifies the two zeros and no NaN equals itself.  A float is its
  64-bit pattern here, `SemanticValue.eq` is that `PartialEq` (the `BEq` instance),
  and Lean's `=` is identity of values.
-/

import Caap.Error

namespace Caap

open Std

/-- `NodeId` (`u32` in the source; the bound is enforced where ids are allocated). -/
abbrev NodeId := Nat

/-! ## Floats as bit patterns -/

/-- The exponent is all ones and the fraction is not zero. -/
def f64IsNan (bits : UInt64) : Bool :=
  (bits &&& 0x7FF0000000000000 == 0x7FF0000000000000) && (bits &&& 0x000FFFFFFFFFFFFF != 0)

/-- Positive or negative zero. -/
def f64IsZero (bits : UInt64) : Bool := bits &&& 0x7FFFFFFFFFFFFFFF == 0

/-- IEEE equality of two doubles. -/
def f64Eq (a b : UInt64) : Bool :=
  !f64IsNan a && !f64IsNan b && (a == b || (f64IsZero a && f64IsZero b))

/-! ## Semantic values -/

/-- `SemanticValue`. -/
inductive SemanticValue where
  | null
  | bool (b : Bool)
  | int (i : Int64)
  | float (bits : UInt64)
  | str (s : String)
  | node (id : NodeId)
  | list (values : List SemanticValue)
  | map (entries : List (String × SemanticValue))

namespace SemanticValue

mutual

/-- The derived `PartialEq`. -/
def eq : SemanticValue → SemanticValue → Bool
  | .null, .null => true
  | .bool a, .bool b => a == b
  | .int a, .int b => a == b
  | .float a, .float b => f64Eq a b
  | .str a, .str b => a == b
  | .node a, .node b => a == b
  | .list as, .list bs => eqList as bs
  | .map as, .map bs => eqEntries as bs
  | _, _ => false

/-- `PartialEq` of value vectors. -/
def eqList : List SemanticValue → List SemanticValue → Bool
  | [], [] => true
  | a :: as, b :: bs => eq a b && eqList as bs
  | _, _ => false

/-- `PartialEq` of entry vectors. -/
def eqEntries : List (String × SemanticValue) → List (String × SemanticValue) → Bool
  | [], [] => true
  | (k, a) :: as, (l, b) :: bs => (k == l && eq a b) && eqEntries as bs
  | _, _ => false

end

instance : BEq SemanticValue := ⟨eq⟩

end SemanticValue

/-- `validate_semantic_map_entries`, given each entry's key and the outcome of
    validating its value: keys are non-empty, unique after sorting, and the values
    are validated in key order. -/
def validateSemanticMapEntries (entries : List (String × CaapResult Unit)) : CaapResult Unit :=
  if entries.any fun e => e.1 == "" then
    .error (.semantic "semantic value map keys must be non-empty")
  else
    let sorted := entries.insertionSort fun a b => a.1 ≤ b.1
    if (sorted.zip sorted.tail).any fun pair => pair.1.1 == pair.2.1 then
      .error (.semantic "semantic value map keys must be unique")
    else Lib.checkAll Prod.snd sorted

namespace SemanticValue

mutual

/-- `SemanticValue::validate`. -/
def validate : SemanticValue → CaapResult Unit
  | .list values => validateList values
  | .map entries => validateSemanticMapEntries (validateEntries entries)
  | .null | .bool _ | .int _ | .float _ | .str _ | .node _ => .ok ()

/-- Validate the values of a list in order. -/
def validateList : List SemanticValue → CaapResult Unit
  | [] => .ok ()
  | v :: vs => do
    validate v
    validateList vs

/-- The keys of a map with the outcome of validating their values. -/
def validateEntries : List (String × SemanticValue) → List (String × CaapResult Unit)
  | [] => []
  | (k, v) :: es => (k, validate v) :: validateEntries es

end

/-- The value passes `validate`. -/
def Valid (v : SemanticValue) : Prop := v.validate = .ok ()

instance (v : SemanticValue) : Decidable v.Valid := inferInstanceAs (Decidable (_ = _))

theorem validateEntries_eq_map (entries : List (String × SemanticValue)) :
    validateEntries entries = entries.map fun e => (e.1, e.2.validate) := by
  induction entries with
  | nil => rfl
  | cons e entries ih => rw [validateEntries, ih, List.map_cons]

theorem validateList_of_forall {values : List SemanticValue} (h : ∀ v ∈ values, v.Valid) :
    validateList values = .ok () := by
  induction values with
  | nil => rfl
  | cons v values ih =>
    obtain ⟨hv, hvalues⟩ := List.forall_mem_cons.mp h
    rw [validateList, show v.validate = .ok () from hv]
    exact ih hvalues

end SemanticValue

theorem zip_tail_ne {entries : List (String × CaapResult Unit)} (h : (entries.map Prod.fst).Nodup) :
    (entries.zip entries.tail).any (fun pair => pair.1.1 == pair.2.1) = false := by
  induction entries with
  | nil => rfl
  | cons e entries ih =>
    cases entries with
    | nil => rfl
    | cons e' entries =>
      have hne : e.1 ≠ e'.1 := by
        intro heq
        exact (List.nodup_cons.mp h).1 (by simp [heq])
      have hrest := ih (List.nodup_cons.mp h).2
      rw [List.tail_cons, List.zip_cons_cons, List.any_cons, beq_eq_false_iff_ne.mpr hne]
      exact hrest

/-- Distinct non-empty keys with values that pass. -/
theorem validateSemanticMapEntries_of_nodup {entries : List (String × CaapResult Unit)}
    (hkeys : ∀ e ∈ entries, e.1 ≠ "") (hnodup : (entries.map Prod.fst).Nodup)
    (hvalues : ∀ e ∈ entries, e.2 = .ok ()) : validateSemanticMapEntries entries = .ok () := by
  have hperm := List.perm_insertionSort (fun a b : String × CaapResult Unit => a.1 ≤ b.1) entries
  have hempty : entries.any (fun e => e.1 == "") = false := by
    rw [List.any_eq_false]
    exact fun e he => by simpa using hkeys e he
  have hadjacent := zip_tail_ne ((hperm.map Prod.fst).nodup_iff.mpr hnodup)
  rw [validateSemanticMapEntries, if_neg (by rw [hempty]; simp)]
  simp only [hadjacent, Bool.false_eq_true, if_false]
  exact Lib.checkAll_eq_ok.mpr fun e he => hvalues e (hperm.mem_iff.mp he)

/-! ## Stable ids and subjects -/

/-- `StableId`: a non-empty string. -/
structure StableId where
  value : String
  nonempty : value ≠ ""
  deriving DecidableEq

namespace StableId

/-- `StableId::new`. -/
def new (value : String) : CaapResult StableId :=
  if h : value = "" then .error (.semantic "stable id must be non-empty") else .ok ⟨value, h⟩

instance : Ord StableId := ⟨compareOn StableId.value⟩

instance : TransOrd StableId := inferInstanceAs (TransCmp (compareOn StableId.value))

instance : LawfulEqOrd StableId where
  eq_of_compare {a b} h := by
    have hv : a.value = b.value := Std.compare_eq_iff_eq.mp h
    cases a
    cases b
    simp_all

end StableId

/-- `SemanticSubjectId`.  Both fields are public in the source, so a subject need not
    have come through `SemanticSubjectId::new`. -/
structure SemanticSubjectId where
  kind : String
  value : String
  deriving DecidableEq, Repr

namespace SemanticSubjectId

/-- `SemanticSubjectId::new`. -/
def new (kind value : String) : CaapResult SemanticSubjectId :=
  if kind = "" then .error (.semantic "semantic subject kind must be non-empty")
  else if value = "" then .error (.semantic "semantic subject value must be non-empty")
  else .ok ⟨kind, value⟩

/-- The derived order compares kinds first. -/
instance : Ord SemanticSubjectId :=
  ⟨compareLex (compareOn SemanticSubjectId.kind) (compareOn SemanticSubjectId.value)⟩

instance : TransOrd SemanticSubjectId :=
  inferInstanceAs
    (TransCmp (compareLex (compareOn SemanticSubjectId.kind) (compareOn SemanticSubjectId.value)))

instance : LawfulEqOrd SemanticSubjectId where
  eq_of_compare {a b} h := by
    have h' := compareLex_eq_eq.mp h
    have hk : a.kind = b.kind := Std.compare_eq_iff_eq.mp h'.1
    have hv : a.value = b.value := Std.compare_eq_iff_eq.mp h'.2
    cases a
    cases b
    simp_all

end SemanticSubjectId

/-- `subject_id`. -/
def subjectId (kind value : String) : CaapResult SemanticSubjectId := SemanticSubjectId.new kind value

/-- `node_subject_id`. -/
def nodeSubjectId (nodeId : NodeId) : SemanticSubjectId := ⟨"node", toString nodeId⟩

/-- `symbol_subject_id`. -/
def symbolSubjectId (name : String) : CaapResult SemanticSubjectId :=
  SemanticSubjectId.new "symbol" name

/-- `semantic_entity_id`. -/
def semanticEntityId (source name : String) (unitId : Option String) : CaapResult StableId :=
  if source = "" then .error (.semantic "semantic entity source must be non-empty")
  else if name = "" then .error (.semantic "semantic entity name must be non-empty")
  else if unitId = some "" then
    .error (.semantic "semantic entity unit id must be non-empty when present")
  else
    let pre := match unitId with
      | none => "semantic"
      | some unit => "semantic:" ++ unit
    StableId.new (pre ++ ":" ++ source ++ ":" ++ name)

end Caap
