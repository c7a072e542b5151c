/-
  Caap.Error

  The error type of the crate (`error.rs`), with the constructors that the modelled
  modules build, its rendering, and the text helpers their messages use.
-/

import Caap.Lib.OrdMap

namespace Caap

/-- `CaapError`.  The structured diagnostic constructor is left out: no modelled
    function builds one.  `eval` carries the rendered evaluation error. -/
inductive CaapError where
  | artifacts (message : String)
  | compiler (message : String)
  | context (context : String) (source : CaapError)
  | eval (message : String)
  | graph (message : String)
  | host (message : String)
  | ir (message : String)
  | semantic (message : String)
  | unit (message : String)
  deriving DecidableEq, Repr

/-- Result of a fallible operation of the crate. -/
abbrev CaapResult (α : Type) := Except CaapError α

namespace CaapError

def message : CaapError → String
  | .artifacts m | .compiler m | .eval m | .graph m | .host m | .ir m | .semantic m | .unit m => m
  | .context c _ => c

def domain : CaapError → String
  | .artifacts _ => "artifacts"
  | .compiler _ => "compiler"
  | .context _ source => source.domain
  | .eval _ => "eval"
  | .graph _ => "graph"
  | .host _ => "host"
  | .ir _ => "ir"
  | .semantic _ => "semantic"
  | .unit _ => "unit"

/-- `Display for CaapError`. -/
def display : CaapError → String
  | .context c source => source.domain ++ " error: " ++ c ++ ": " ++ source.message
  | .eval m => m
  | e => e.domain ++ " error: " ++ e.message

end CaapError

/-- The result of a computation that the source runs without a bound, within a number of
    steps: none when they were not enough. -/
abbrev Bounded (α : Type) := ExceptT CaapError Option α

namespace Bounded

/-- The steps were not enough. -/
def outOfFuel {α : Type} : Bounded α := ExceptT.mk none

/-- A result that needs no bound. -/
def ofResult {α : Type} (r : CaapResult α) : Bounded α := ExceptT.mk (some r)

end Bounded

/-- Number of values of an unsigned 64-bit counter. -/
def u64Size : Nat := 18446744073709551616

/-- Number of values of an unsigned 32-bit counter. -/
def u32Size : Nat := 4294967296

/-- One character of the `{:?}` rendering of a string.  Characters outside ASCII
    are taken to be printable. -/
def escapeDebug (c : Char) : List Char :=
  if c = '"' then ['\\', '"']
  else if c = '\\' then ['\\', '\\']
  else if c = '\n' then ['\\', 'n']
  else if c = '\r' then ['\\', 'r']
  else if c = '\t' then ['\\', 't']
  else if c.toNat = 0 then ['\\', '0']
  else if c.toNat < 32 ∨ c.toNat = 127 then
    ['\\', 'u', '\x7b'] ++ Nat.toDigits 16 c.toNat ++ ['\x7d']
  else [c]

/-- The `{:?}` rendering of a string. -/
def debugStr (s : String) : String :=
  String.ofList (['"'] ++ s.toList.flatMap escapeDebug ++ ['"'])

/-- `str::starts_with`. -/
def startsWith (s pre : String) : Bool := pre.toList.isPrefixOf s.toList

end Caap
