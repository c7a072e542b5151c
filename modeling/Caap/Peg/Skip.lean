/-
  Caap.Peg.Skip

  Trivia: the strategies of `skip.rs` that a grammar can choose, as functions of the text
  and a position.  A strategy that does not come to an end (a regular expression that
  matches the empty text) runs out of fuel.
-/

import Caap.Peg.Text

namespace Caap.Peg

/-- What regular expressions and the character tables of the host do.  A match is given by
    its number of characters; it starts at the position where it is tried. -/
structure Host where
  regexFind : String → List Char → Option Nat
  regexError : String → Option String
  isAlphanumeric : Char → Bool
  regexFind_le : ∀ pattern cs n, regexFind pattern cs = some n → n ≤ cs.length

/-- `ParseError`, with its span and its code. -/
structure ParseError where
  message : String
  start : Nat
  stop : Nat
  code : Option String
  deriving DecidableEq, Repr

/-- Why a run ends without an outcome: with an error, with a panic on a slice of the text
    or on an index, or because the fuel of the model is used up. -/
inductive Stop where
  | error (e : ParseError)
  | slice
  | index
  | fuel
  deriving DecidableEq, Repr

/-- The strategies of `skip_strategy_from_config`. -/
inductive Skipper where
  | whitespace
  | default
  | regex (pattern : String)
  deriving DecidableEq, Repr

/-- `skip_strategy_from_config`. -/
def skipStrategyFromConfig (host : Host) (spec : String) : Except String (Option Skipper) :=
  if spec = "" ∨ spec = "none" then .ok none
  else if spec = "whitespace" then .ok (some .whitespace)
  else if spec = "default" then .ok (some .default)
  else
    match host.regexError spec with
    | some error => .error error
    | none => .ok (some (.regex spec))

/-- `u8::is_ascii_whitespace`. -/
def isAsciiWhitespace (c : Char) : Bool :=
  c == ' ' || c == '\t' || c == '\n' || c == '\x0c' || c == '\r'

/-- `DEFAULT_WHITESPACE`. -/
def isDefaultWhitespace (c : Char) : Bool := c == ' ' || c == '\t' || c == '\r' || c == '\n'

/-- `&text[pos..]`, where a position that is no boundary is a panic. -/
def sliceFrom (text : List Char) (pos : Nat) : Except Stop (List Char) :=
  match suffixAt text pos with
  | some s => .ok s
  | none => .error .slice

/-- The loop of `RegexSkipStrategy::try_skip`. -/
def skipRegex (host : Host) (pattern : String) (text : List Char) : Nat → Nat → Except Stop Nat
  | 0, _ => .error .fuel
  | n + 1, pos => do
    let rest ← sliceFrom text pos
    match host.regexFind pattern rest with
    | some k => skipRegex host pattern text n (pos + byteLen (rest.take k))
    | none => .ok pos

/-- `DEFAULT_LINE_COMMENTS`. -/
def lineComments : List String := [";"]

/-- `DEFAULT_BLOCK_COMMENTS`. -/
def blockComments : List (String × String) := [("#|", "|#"), ("/*", "*/")]

/-- The position behind a line comment that starts at `pos`. -/
def lineCommentEnd (text rest : List Char) (pos : Nat) : Nat :=
  match findText ['\n'] rest with
  | some off => min (pos + off + 1) (byteLen text)
  | none => byteLen text

/-- The scan of a block comment for its end; `none` if there is none. -/
def blockCommentEnd (text opening closing : List Char) : Nat → Nat → Nat → Except Stop (Option Nat)
  | 0, _, _ => .error .fuel
  | n + 1, depth, cursor => do
    let rest ← sliceFrom text cursor
    match findText opening rest, findText closing rest with
    | _, none => .ok none
    | some o, some c =>
      if o ≤ c then blockCommentEnd text opening closing n (depth + 1) (cursor + o + byteLen opening)
      else if depth - 1 = 0 then .ok (some (cursor + c + byteLen closing))
      else blockCommentEnd text opening closing n (depth - 1) (cursor + c + byteLen closing)
    | none, some c =>
      if depth - 1 = 0 then .ok (some (cursor + c + byteLen closing))
      else blockCommentEnd text opening closing n (depth - 1) (cursor + c + byteLen closing)

/-- The error of a block comment without an end. -/
def unterminatedBlockComment (pos : Nat) : Stop :=
  .error ⟨"Unterminated block comment", pos, pos, none⟩

/-- The loop of `DefaultSkipStrategy::try_skip`. -/
def skipDefault (text : List Char) : Nat → Nat → Except Stop Nat
  | 0, _ => .error .fuel
  | n + 1, pos =>
    if byteLen text ≤ pos then .ok pos
    else do
      let rest ← sliceFrom text pos
      match rest.head? with
      | some c =>
        if isDefaultWhitespace c then skipDefault text n (pos + 1)
        else if lineComments.any fun comment => comment.toList.isPrefixOf rest then
          skipDefault text n (lineCommentEnd text rest pos)
        else
          match blockComments.find? fun comment => comment.1.toList.isPrefixOf rest with
          | some (opening, closing) => do
            match ← blockCommentEnd text opening.toList closing.toList (text.length + 1) 1
                (pos + byteLen opening.toList) with
            | some stop => skipDefault text n stop
            | none => .error (unterminatedBlockComment pos)
          | none => .ok pos
      | none => .ok pos

/-- `try_skip` of the strategy. -/
def Skipper.trySkip (host : Host) (text : List Char) (pos : Nat) : Skipper → Except Stop Nat
  | .whitespace =>
    match suffixAt text pos with
    | some rest => .ok (pos + spanLen isAsciiWhitespace rest)
    | none => .ok pos
  | .default => skipDefault text (text.length + 1) pos
  | .regex pattern => skipRegex host pattern text (text.length + 1) pos

end Caap.Peg
