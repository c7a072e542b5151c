/-
  Caap.Stdlib.Prims

  The builtins that library modules written in the language itself are made of: checked
  64-bit integers, lists and strings under the evaluator's size limit, and the raising of
  structured errors.  A list or string that a builtin makes has at most `limit` elements
  (`runtime_collection_limit`); a longer one is an error.
-/

import Caap.Lib.Outcome

namespace Caap.Stdlib

open Caap.Lib Meets

/-- A text as the string builtins index it: its characters. -/
abbrev Str := List Char

/-- A value in the `data` map of a structured error. -/
inductive ErrorField where
  | int (i : Int)
  | text (s : Str)
  deriving DecidableEq

/-- How a library call ends without a value: an evaluation error, a thrown
    `{"__error__" true, "code" .., "message" .., "data" ..}`, or a thrown string.  `timeout`
    is not an end of the source: it marks a loop of the model that was given too few
    rounds. -/
inductive Failure where
  | error (message : String)
  | raised (code : String) (message : Str) (data : Option (List (String × ErrorField)))
  | thrown (text : Str)
  | timeout
  deriving DecidableEq

abbrev Result (α : Type) := Except Failure α

/-- The error of a value that would be longer than the limit. -/
def sizeLimitError (context kind : String) (limit : Nat) : Failure :=
  .error s!"{context}: {kind} size limit {limit} exceeded"

/-- `ensure_collection_len`, `ensure_sequence_len` and `ensure_string_char_limit`. -/
def ensureLen (limit : Nat) (context kind : String) (len : Nat) : Result Unit :=
  if limit < len then .error (sizeLimitError context kind limit) else .ok ()

/-! ## Integers -/

def minInt : Int := -9223372036854775808

def maxInt : Int := 9223372036854775807

/-- The value is a 64-bit integer. -/
def InRange (i : Int) : Prop := minInt ≤ i ∧ i ≤ maxInt

instance (i : Int) : Decidable (InRange i) := inferInstanceAs (Decidable (_ ∧ _))

/-- `checked`. -/
def checked (context : String) (l r : Int) (op : String) (v : Int) : Result Int :=
  if InRange v then .ok v else .error (.error s!"{context}: integer overflow ({l} {op} {r})")

def intAdd (l r : Int) : Result Int := checked "int_add" l r "+" (l + r)

def intSub (l r : Int) : Result Int := checked "int_sub" l r "-" (l - r)

def intMul (l r : Int) : Result Int := checked "int_mul" l r "*" (l * r)

def intAbs (v : Int) : Result Int :=
  if InRange |v| then .ok |v| else .error (.error s!"int_abs: integer overflow (abs({v}))")

/-- `int_div`: Euclidean division. -/
def intDiv (l r : Int) : Result Int :=
  if r = 0 then .error (.error "int_div: division by zero")
  else if InRange (l / r) then .ok (l / r)
  else .error (.error s!"int_div: integer overflow ({l} / {r})")

/-- `int_mod`: the Euclidean remainder, for a positive modulus. -/
def intMod (l r : Int) : Result Int :=
  if r ≤ 0 then .error (.error "int_mod: modulus must be positive") else .ok (l % r)

/-- `int_to_string`. -/
def intToString (i : Int) : Str := (toString i).toList

/-! ## Lists -/

variable {α : Type}

def size (ls : List α) : Int := ls.length

/-- `get` on a list, with a default for an index past the end. -/
def get (ls : List α) (index : Int) (default : α) : Result α :=
  if index < 0 then .error (.error "get: index must be non-negative")
  else .ok (ls.getD index.toNat default)

/-- `append` of one item. -/
def append (limit : Nat) (ls : List α) (item : α) : Result (List α) := do
  ensureLen limit "append" "list" (ls.length + 1)
  .ok (ls ++ [item])

/-- `set` on a list. -/
def set (ls : List α) (index : Int) (item : α) : Result (List α) :=
  if index < 0 ∨ size ls ≤ index then .error (.error "set: index out of range")
  else .ok (ls.set index.toNat item)

/-- `normalize_slice_index`: a negative index counts from the end. -/
def normalizeSliceIndex (index : Int) (len : Nat) : Nat :=
  if index < 0 then len - index.natAbs else min index.toNat len

/-- The elements from one slice index to another. -/
def slice (ls : List α) (start stop : Int) : List α :=
  let first := normalizeSliceIndex start ls.length
  let last := normalizeSliceIndex stop ls.length
  if last ≤ first then [] else (ls.drop first).take (last - first)

def sequenceSlice (limit : Nat) (ls : List α) (start stop : Int) : Result (List α) := do
  let sliced := slice ls start stop
  ensureLen limit "sequence_slice" "list" sliced.length
  .ok sliced

def sequenceReverse (limit : Nat) (ls : List α) : Result (List α) := do
  ensureLen limit "sequence_reverse" "list" ls.length
  .ok ls.reverse

/-- `(assoc (map_of) key value ..)` with so many different keys. -/
def assocFresh (limit : Nat) (entries : Nat) : Result Unit :=
  ensureLen limit "assoc" "map" entries

/-! ## Strings -/

/-- `string_slice`: no limit, the result is not longer than its argument. -/
def stringSlice (s : Str) (start stop : Int) : Str := slice s start stop

/-- `string_chars`: the strings of one character. -/
def stringChars (limit : Nat) (s : Str) : Result (List Str) := do
  ensureLen limit "string_chars" "list" s.length
  .ok (s.map fun c => [c])

def stringConcatMany (limit : Nat) (parts : List Str) : Result Str := do
  ensureLen limit "string_concat_many" "string" parts.flatten.length
  .ok parts.flatten

def stringRepeat (limit : Nat) (s : Str) (count : Int) : Result Str :=
  if count < 0 then .error (.error "string_repeat expects a non-negative count")
  else do
    ensureLen limit "string_repeat" "string" (s.length * count.toNat)
    .ok (List.replicate count.toNat s).flatten

/-- `sequence_join` with the empty separator. -/
def sequenceJoin (limit : Nat) (parts : List Str) : Result Str := do
  ensureLen limit "sequence_join" "string" parts.flatten.length
  .ok parts.flatten

def stringStartsWith (s first : Str) : Bool := first.isPrefixOf s

/-- `string_find` from the start: the first index at which the needle stands. -/
def stringFind (s needle : Str) : Option Nat :=
  (List.range (s.length + 1)).find? fun i => needle.isPrefixOf (s.drop i)

def stringContains (s needle : Str) : Bool := (stringFind s needle).isSome

/-! ## Errors -/

/-- `raise!`: the error is a map of four entries, built before it is thrown. -/
def raise (limit : Nat) (code : String) (message : Str)
    (data : Option (List (String × ErrorField))) : Result α := do
  assocFresh limit 4
  .error (.raised code message data)

/-- `try .. (catch e ..)`: both evaluation errors and thrown values are caught. -/
def tryCatch (body : Result α) (handler : Failure → Result α) : Result α :=
  match body with
  | .ok a => .ok a
  | .error .timeout => .error .timeout
  | .error e => handler e

/-! ## What the builtins do -/

/-- The only error is that of a value longer than the limit, and the limit is below `need`. -/
def OutOfSpace (limit need : Nat) (e : Failure) : Prop :=
  limit < need ∧ ∃ context kind, e = sizeLimitError context kind limit

/-- The call returns a value in `P`, unless the limit leaves less space than it needs. -/
abbrev Fits (limit need : Nat) {α : Type} (x : Except Failure α) (P : α → Prop) : Prop :=
  Meets (OutOfSpace limit need) x P

theorem OutOfSpace.mono {limit need need' : Nat} (h : need ≤ need') {e : Failure}
    (he : OutOfSpace limit need e) : OutOfSpace limit need' e :=
  ⟨lt_of_lt_of_le he.1 h, he.2⟩

section Specs

variable {limit need : Nat}

theorem ensureLen_meets (context kind : String) {len : Nat} (h : len ≤ need) :
    Fits limit need (ensureLen limit context kind len) fun _ => len ≤ limit := by
  unfold ensureLen
  refine ite (fun hc => ?_) (fun hc => ?_)
  · exact error ⟨lt_of_lt_of_le hc h, context, kind, rfl⟩
  · exact ok (not_lt.mp hc)

theorem append_meets {ls : List α} {item : α} (h : ls.length + 1 ≤ need) :
    Fits limit need (append limit ls item) fun out =>
      out = ls ++ [item] ∧ ls.length + 1 ≤ limit := by
  unfold append
  refine (ensureLen_meets "append" "list" h).bind fun _ hlen => ?_
  exact ok ⟨rfl, hlen⟩

theorem sequenceReverse_meets {ls : List α} (h : ls.length ≤ need) :
    Fits limit need (sequenceReverse limit ls) fun out =>
      out = ls.reverse ∧ ls.length ≤ limit := by
  unfold sequenceReverse
  refine (ensureLen_meets "sequence_reverse" "list" h).bind fun _ hlen => ?_
  exact ok ⟨rfl, hlen⟩

theorem slice_take (ls : List α) (n : Nat) (hn : n ≤ ls.length) : slice ls 0 n = ls.take n := by
  have hstop : normalizeSliceIndex (n : Int) ls.length = n := by
    simp only [normalizeSliceIndex]
    rw [if_neg (by omega), Int.toNat_natCast, Nat.min_eq_left hn]
  have hstart : normalizeSliceIndex 0 ls.length = 0 := by
    simp [normalizeSliceIndex]
  rcases Nat.eq_zero_or_pos n with rfl | hpos
  · simp [slice]
  · simp only [slice, hstop, hstart]
    rw [if_neg (by omega), List.drop_zero, Nat.sub_zero]

theorem slice_tail (x : α) (ls : List α) : slice (x :: ls) 1 (size (x :: ls)) = ls := by
  have hstop : normalizeSliceIndex (size (x :: ls)) (x :: ls).length = ls.length + 1 := by
    unfold normalizeSliceIndex
    rw [if_neg (by simp only [size]; omega), size, Int.toNat_natCast, Nat.min_self,
      List.length_cons]
  have hstart : normalizeSliceIndex 1 (x :: ls).length = 1 := by
    simp [normalizeSliceIndex]
  simp only [slice, hstop, hstart]
  cases ls with
  | nil => rfl
  | cons y ls => simp

theorem sequenceSlice_take_meets {ls : List α} {n : Nat} (hn : n ≤ ls.length) (h : n ≤ need) :
    Fits limit need (sequenceSlice limit ls 0 n) fun out =>
      out = ls.take n ∧ n ≤ limit := by
  unfold sequenceSlice
  have hlen : (slice ls 0 n).length = n := by
    rw [slice_take ls n hn, List.length_take, Nat.min_eq_left hn]
  simp only [hlen]
  refine (ensureLen_meets "sequence_slice" "list" h).bind fun _ hle => ?_
  exact ok ⟨slice_take ls n hn, hle⟩

@[simp] theorem get_natCast (ls : List α) (i : Nat) (default : α) :
    get ls (i : Int) default = .ok (ls.getD i default) := by
  unfold get
  rw [if_neg (by omega), Int.toNat_natCast]

theorem set_natCast {ls : List α} {i : Nat} (item : α) (h : i < ls.length) :
    set ls (i : Int) item = .ok (ls.set i item) := by
  unfold set size
  rw [if_neg (by omega), Int.toNat_natCast]

theorem InRange.of_bounds {i : Int} (h0 : -9223372036854775808 ≤ i)
    (h1 : i ≤ 9223372036854775807) : InRange i := ⟨h0, h1⟩

variable {l r : Int} {f : Int → Result α}

theorem intMul_ok (h : InRange (l * r)) : intMul l r = .ok (l * r) := if_pos h

theorem intMod_ok (h : 0 < r) : intMod l r = .ok (l % r) := if_neg (by omega)

theorem checked_bind {context op : String} {v : Int} (h0 : -9223372036854775808 ≤ v)
    (h1 : v ≤ 9223372036854775807) : (checked context l r op v >>= f) = f v := by
  rw [checked, if_pos ⟨h0, h1⟩, ok_bind]

theorem intAdd_bind (h0 : -9223372036854775808 ≤ l + r) (h1 : l + r ≤ 9223372036854775807) :
    (intAdd l r >>= f) = f (l + r) := checked_bind h0 h1

theorem intSub_bind (h0 : -9223372036854775808 ≤ l - r) (h1 : l - r ≤ 9223372036854775807) :
    (intSub l r >>= f) = f (l - r) := checked_bind h0 h1

theorem intMul_bind (h0 : -9223372036854775808 ≤ l * r) (h1 : l * r ≤ 9223372036854775807) :
    (intMul l r >>= f) = f (l * r) := checked_bind h0 h1

theorem intDiv_bind (h : 0 < r) (h0 : -9223372036854775808 ≤ l / r)
    (h1 : l / r ≤ 9223372036854775807) : (intDiv l r >>= f) = f (l / r) := by
  rw [intDiv, if_neg (by omega), if_pos ⟨h0, h1⟩, ok_bind]

/-- Whatever a raised error is worth, it is an error. -/
theorem raise_meets {E : Failure → Prop} {code : String} {message : Str}
    {data : Option (List (String × ErrorField))} {P : α → Prop} (h : ∀ e, E e) :
    Meets E (raise limit code message data) P := by
  unfold raise assocFresh ensureLen
  refine bind (P := fun _ => True) (ite (fun _ => error (h _))
    (fun _ => ok trivial)) fun _ _ => error (h _)

theorem tryCatch_meets {E E' : Failure → Prop} {body : Result α} {handler : Failure → Result α}
    {P : α → Prop} (hbody : Meets E body P) (htimeout : ¬ E .timeout)
    (hhandler : ∀ e, E e → Meets E' (handler e) P) : Meets E' (tryCatch body handler) P := by
  cases body with
  | ok a => exact ok (hbody.1 a rfl)
  | error e =>
    have he := hbody.2 e rfl
    cases e with
    | timeout => exact absurd he htimeout
    | error _ | raised _ _ _ | thrown _ => exact hhandler _ he

end Specs

end Caap.Stdlib
