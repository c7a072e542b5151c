/-
  Caap.Runtime.Value

  Values of the evaluator (`values.rs`) and their structural equality (`deep_equal` of
  `builtins/value_compare.rs`).

  Lists and maps are shared cells in the source; a value here is what the cells hold when
  it is read, and a cyclic cell has none.  The entries of a map stand in insertion order.
-/

import Caap.Semantic.Value

namespace Caap

/-- `MapKey`. -/
inductive MapKey where
  | null
  | bool (b : Bool)
  | int (i : Int64)
  | str (s : String)
  deriving DecidableEq, Repr

/-- `RuntimeValue`.  Closures, macros, builtins, host functions, host objects and reference
    cells are `handle`s: values that only their identity tells apart. -/
inductive RuntimeValue where
  | null
  | bool (b : Bool)
  | int (i : Int64)
  | float (bits : UInt64)
  | str (s : String)
  | bytes (data : List UInt8)
  | tuple (items : List RuntimeValue)
  | list (items : List RuntimeValue)
  | map (entries : List (MapKey × RuntimeValue))
  | handle (id : Nat)
  | uninitializedTopLevel

namespace RuntimeValue

/-- Induction over the values inside a value. -/
theorem ind {P : RuntimeValue → Prop} (null : P .null) (bool : ∀ b, P (.bool b))
    (int : ∀ i, P (.int i)) (float : ∀ bits, P (.float bits)) (str : ∀ s, P (.str s))
    (bytes : ∀ data, P (.bytes data)) (tuple : ∀ items, (∀ v ∈ items, P v) → P (.tuple items))
    (list : ∀ items, (∀ v ∈ items, P v) → P (.list items))
    (map : ∀ entries, (∀ e ∈ entries, P e.2) → P (.map entries)) (handle : ∀ id, P (.handle id))
    (uninitializedTopLevel : P .uninitializedTopLevel) (v : RuntimeValue) : P v := by
  refine @RuntimeValue.rec P (fun items => ∀ v ∈ items, P v) (fun entries => ∀ e ∈ entries, P e.2)
    (fun e => P e.2) null bool int float str bytes tuple list map handle uninitializedTopLevel
    ?_ ?_ ?_ ?_ ?_ v
  · exact fun v hv => absurd hv (List.not_mem_nil)
  · exact fun v items hv hitems => List.forall_mem_cons.mpr ⟨hv, hitems⟩
  · exact fun e he => absurd he (List.not_mem_nil)
  · exact fun e entries he hentries => List.forall_mem_cons.mpr ⟨he, hentries⟩
  · exact fun _ value hvalue => hvalue

mutual

/-- `deep_equal`: scalars by value, tuples and lists element by element, maps by their set
    of keys; a tuple is not a list. -/
def deepEqual : RuntimeValue → RuntimeValue → Bool
  | .null, .null => true
  | .bool a, .bool b => a == b
  | .int a, .int b => a == b
  | .float a, .float b => f64Eq a b
  | .str a, .str b => a == b
  | .bytes a, .bytes b => a == b
  | .tuple xs, .tuple ys => xs.length == ys.length && deepEqualZip xs ys
  | .list xs, .list ys => xs.length == ys.length && deepEqualZip xs ys
  | .map xs, .map ys => xs.length == ys.length && deepEqualEntries xs ys
  | .handle a, .handle b => a == b
  | .uninitializedTopLevel, .uninitializedTopLevel => true
  | _, _ => false

/-- All pairs of `x.iter().zip(y.iter())`. -/
def deepEqualZip : List RuntimeValue → List RuntimeValue → Bool
  | x :: xs, y :: ys => deepEqual x y && deepEqualZip xs ys
  | _, _ => true

/-- Every entry of the first map is found in the second. -/
def deepEqualEntries : List (MapKey × RuntimeValue) → List (MapKey × RuntimeValue) → Bool
  | [], _ => true
  | (key, value) :: entries, ys =>
    (match ys.lookup key with
      | some other => deepEqual value other
      | none => false) && deepEqualEntries entries ys

end

theorem deepEqualZip_of_forall₂ {xs ys : List RuntimeValue}
    (h : List.Forall₂ (fun x y => x.deepEqual y = true) xs ys) : deepEqualZip xs ys = true := by
  induction h with
  | nil => rfl
  | cons hxy _ ih => rw [deepEqualZip, hxy, ih, Bool.and_self]

theorem deepEqualEntries_of_forall {xs ys : List (MapKey × RuntimeValue)}
    (h : ∀ e ∈ xs, ∃ other, ys.lookup e.1 = some other ∧ e.2.deepEqual other = true) :
    deepEqualEntries xs ys = true := by
  induction xs with
  | nil => rfl
  | cons e xs ih =>
    obtain ⟨⟨other, hother, hequal⟩, hrest⟩ := List.forall_mem_cons.mp h
    have hothers : deepEqualEntries xs ys = true := ih hrest
    rw [deepEqualEntries, hother]
    exact Bool.and_eq_true_iff.mpr ⟨hequal, hothers⟩

end RuntimeValue

end Caap
