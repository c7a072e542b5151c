/-
  Caap.Stdlib.Regex

  `stdlib.lib.text.regex`: a parser of patterns and a backtracking matcher over the
  characters of the subject.  The parser keeps the position in the pattern and the counter of
  groups in cells, here the fields of `ParseState`; a group is parsed by the `parse_alt` that
  the source hands around in a cell.  The matcher is `mrec`, with the capture map as the
  record of `Caap.Lib.Backtrack`.
-/

import Caap.Frontend.Literal
import Caap.Lib.Assoc
import Caap.Lib.Backtrack
import Caap.Stdlib.Prims

namespace Caap.Stdlib.Regex

open Caap.Lib Caap.Lib.Backtrack

/-! ## Characters -/

/-- `digit?`, the `\d` class. -/
def isDigit (c : Char) : Bool := stringContains "0123456789".toList [c]

/-- `word?`, the `\w` class. -/
def isWord (c : Char) : Bool :=
  stringContains "abcdefghijklmnopqrstuvwxyz".toList [c] ||
    (stringContains "ABCDEFGHIJKLMNOPQRSTUVWXYZ".toList [c] ||
      (stringContains "0123456789".toList [c] || c == '_'))

/-- The literal in `space?` as the source file spells it, between its quotes. -/
def spaceSource : Str := [' ', '\\', 't', '\\', 'n', '\\', 'r', '\\', 'f']

/-- The literal as the reader of the language understands it. -/
def spaceLiteral : Str := (Frontend.unescape spaceSource).getD []

/-- `space?`, the `\s` class. -/
def isSpace (c : Char) : Bool := stringContains spaceLiteral [c]

/-! ## Syntax trees -/

/-- The class escapes, small and capital. -/
inductive Pred where
  | digit | notDigit | word | notWord | space | notSpace
  deriving DecidableEq

/-- An item of a character class. -/
inductive Item where
  | ch (c : Char)
  | rng (lo hi : Char)
  | pred (p : Pred)
  deriving DecidableEq

/-- A node of the syntax tree; a negative `max` of `rep` means no upper bound. -/
inductive Node where
  | lit (c : Char)
  | any
  | cls (neg : Bool) (items : List Item)
  | start
  | stop
  | star (x : Node)
  | plus (x : Node)
  | opt (x : Node)
  | rep (x : Node) (min : Nat) (max : Int)
  | seq (xs : List Node)
  | alt (xs : List Node)
  | group (n : Nat) (x : Node)

/-! ## The parser -/

structure ParseState where
  p : Nat
  gc : Nat

def ParseState.adv (st : ParseState) : ParseState := { st with p := st.p + 1 }

abbrev Parser (α : Type) := ParseState → Result (α × ParseState)

def throwText {α : Type} (text : String) : Result α := .error (.thrown text.toList)

/-- `digit?` of `p_at`: false past the end. -/
def digitAt (pcs : Str) (p : Nat) : Bool := (pcs[p]?).any isDigit

structure IntState where
  acc : Nat
  p : Nat

/-- The value of a digit character, as `string_to_int` reads it. -/
def digitOf (c : Option Char) : Nat := (c.map fun c => c.toNat - '0'.toNat).getD 0

def intRound (pcs : Str) (s : IntState) : Result IntState :=
  if 100000000 < s.acc then throwText "regex: repetition count too large"
  else .ok ⟨s.acc * 10 + digitOf pcs[s.p]?, s.p + 1⟩

/-- `parse_int`. -/
def parseInt (pcs : Str) (p : Nat) : Result IntState :=
  whileLoop .timeout (fun s => .ok (digitAt pcs s.p)) (intRound pcs) pcs.length ⟨0, p⟩

/-- The class that an escape letter stands for. -/
def escapeClass (e : Char) : Option Pred :=
  if e = 'd' then some .digit
  else if e = 'D' then some .notDigit
  else if e = 'w' then some .word
  else if e = 'W' then some .notWord
  else if e = 's' then some .space
  else if e = 'S' then some .notSpace
  else none

/-- `unescape_char`. -/
def unescapeChar (e : Char) : Char :=
  if e = 'n' then '\n' else if e = 't' then '\t' else if e = 'r' then '\r' else e

/-- The item that an escape inside a class stands for. -/
def escapeItem (e : Char) : Item :=
  match escapeClass e with
  | some pr => .pred pr
  | none => .ch (unescapeChar e)

structure ClassState where
  items : List Item
  p : Nat

/-- The body goes on up to a `]` or the end of the pattern. -/
def inClass (pcs : Str) (s : ClassState) : Bool :=
  (pcs[s.p]?).any fun c => c != ']'

def classEscape (pcs : Str) (s : ClassState) : Result ClassState :=
  match pcs[s.p + 1]? with
  | none => throwText "regex: trailing backslash in class"
  | some e => .ok ⟨s.items ++ [escapeItem e], s.p + 2⟩

def classRange (s : ClassState) (c hi : Char) : Result ClassState :=
  if hi = '\\' then throwText "regex: escape as character-class range endpoint"
  else if hi < c then
    .error (.thrown ("regex: inverted character-class range ".toList ++ [c] ++ ['-'] ++ [hi]))
  else .ok ⟨s.items ++ [.rng c hi], s.p + 3⟩

/-- A `-` with something other than `]` after it makes a range. -/
def rangeEnd (pcs : Str) (p : Nat) : Option Char :=
  if pcs[p + 1]? = some '-' then (pcs[p + 2]?).filter fun c => c != ']' else none

def classRound (pcs : Str) (s : ClassState) : Result ClassState :=
  match pcs[s.p]? with
  | none => .ok s
  | some c =>
    if c = '\\' then classEscape pcs s
    else
      match rangeEnd pcs s.p with
      | some hi => classRange s c hi
      | none => .ok ⟨s.items ++ [.ch c], s.p + 1⟩

/-- The end of a class, after its items. -/
def classEnd (pcs : Str) (st : ParseState) (neg : Bool) (s : ClassState) :
    Result (Node × ParseState) :=
  if pcs[s.p]? = some ']' then .ok (.cls neg s.items, { st with p := s.p + 1 })
  else throwText "regex: unterminated character class"

/-- `parse_class`, after the opening bracket. -/
def parseClass (pcs : Str) : Parser Node := fun st => do
  let neg := decide (pcs[st.p]? = some '^')
  let first := if neg then st.p + 1 else st.p
  let s ← whileLoop .timeout (fun s => .ok (inClass pcs s)) (classRound pcs) pcs.length ⟨[], first⟩
  classEnd pcs st neg s

/-- An escape outside a class. -/
def parseEscape (pcs : Str) : Parser Node := fun st =>
  match pcs[st.p + 1]? with
  | none => throwText "regex: trailing backslash"
  | some e =>
    match escapeClass e with
    | some pr => .ok (.cls false [.pred pr], { st with p := st.p + 2 })
    | none => .ok (.lit (unescapeChar e), { st with p := st.p + 2 })

/-- A group; its number is the count of the groups opened so far. -/
def parseGroup (parseAlt : Parser Node) (pcs : Str) : Parser Node := fun st => do
  let n := st.gc + 1
  let (inner, st') ← parseAlt ⟨st.p + 1, n⟩
  if pcs[st'.p]? = some ')' then .ok (.group n inner, st'.adv)
  else throwText "regex: missing closing paren"

/-- `parse_atom`. -/
def parseAtom (parseAlt : Parser Node) (pcs : Str) : Parser Node := fun st =>
  match pcs[st.p]? with
  | none => throwText "regex: unexpected end of pattern"
  | some c =>
    if c = '(' then parseGroup parseAlt pcs st
    else if c = '[' then parseClass pcs st.adv
    else if c = '.' then .ok (.any, st.adv)
    else if c = '^' then .ok (.start, st.adv)
    else if c = '$' then .ok (.stop, st.adv)
    else if c = '\\' then parseEscape pcs st
    else if c = ')' ∨ c = '|' ∨ c = '*' ∨ c = '+' ∨ c = '?' then
      .error (.thrown ("regex: unexpected '".toList ++ [c] ++ "'".toList))
    else .ok (.lit c, st.adv)

/-- The upper bound of a counted repetition, after the lower bound `mn`. -/
def parseMax (pcs : Str) (mn : IntState) : Result (Int × Nat) :=
  if pcs[mn.p]? = some ',' then
    if digitAt pcs (mn.p + 1) then do
      let mx ← parseInt pcs (mn.p + 1)
      .ok (mx.acc, mx.p)
    else .ok (-1, mn.p + 1)
  else .ok (mn.acc, mn.p)

/-- The end of a counted repetition. -/
def repEnd (pcs : Str) (atom : Node) (st : ParseState) (mn : Nat) (mx : Int) (p : Nat) :
    Result (Node × ParseState) :=
  if pcs[p]? = some '\x7d' then
    if 0 ≤ mx ∧ mx < mn then
      .error (.thrown ("regex: \x7bm,n\x7d with max < min (\x7b".toList ++ intToString mn ++ [','] ++
        intToString mx ++ "\x7d)".toList))
    else .ok (.rep atom mn mx, { st with p := p + 1 })
  else throwText "regex: malformed \x7bm,n\x7d"

/-- `{m}`, `{m,}` or `{m,n}`; a brace without a digit after it is left to be read as a
    literal. -/
def parseCount (pcs : Str) (atom : Node) (st : ParseState) : Result (Node × ParseState) :=
  if digitAt pcs (st.p + 1) then do
    let mn ← parseInt pcs (st.p + 1)
    let (mx, p) ← parseMax pcs mn
    repEnd pcs atom st mn.acc mx p
  else .ok (atom, st)

/-- What follows an atom. -/
def quantified (pcs : Str) (atom : Node) (st : ParseState) : Result (Node × ParseState) :=
  let q := pcs[st.p]?
  if q = some '*' then .ok (.star atom, st.adv)
  else if q = some '+' then .ok (.plus atom, st.adv)
  else if q = some '?' then .ok (.opt atom, st.adv)
  else if q = some '\x7b' then parseCount pcs atom st
  else .ok (atom, st)

/-- `parse_quant`. -/
def parseQuant (parseAlt : Parser Node) (pcs : Str) : Parser Node := fun st => do
  let (atom, st') ← parseAtom parseAlt pcs st
  quantified pcs atom st'

structure SeqState where
  xs : List Node
  st : ParseState

/-- A sequence stops at `|`, `)` or the end. -/
def inSeq (pcs : Str) (s : SeqState) : Bool :=
  (pcs[s.st.p]?).any fun c => c != '|' && c != ')'

def seqRound (parseAlt : Parser Node) (pcs : Str) (s : SeqState) : Result SeqState := do
  let (x, st) ← parseQuant parseAlt pcs s.st
  .ok ⟨s.xs ++ [x], st⟩

/-- `parse_seq`. -/
def parseSeq (parseAlt : Parser Node) (pcs : Str) : Parser Node := fun st => do
  let s ← whileLoop .timeout (fun s => .ok (inSeq pcs s)) (seqRound parseAlt pcs) pcs.length ⟨[], st⟩
  .ok (.seq s.xs, s.st)

def altRound (parseAlt : Parser Node) (pcs : Str) (s : SeqState) : Result SeqState := do
  let (x, st) ← parseSeq parseAlt pcs s.st.adv
  .ok ⟨s.xs ++ [x], st⟩

/-- One branch stands for itself. -/
def branches : List Node → Node
  | [x] => x
  | xs => .alt xs

/-- `parse_alt`, with itself for the groups inside. -/
def altBody (parseAlt : Parser Node) (pcs : Str) : Parser Node := fun st => do
  let (x, st') ← parseSeq parseAlt pcs st
  let s ← whileLoop .timeout (fun s => .ok (decide (pcs[s.st.p]? = some '|')))
    (altRound parseAlt pcs) pcs.length ⟨[x], st'⟩
  .ok (branches s.xs, s.st)

/-- `parse_alt`, for at most so many groups inside each other. -/
def parseAlt (pcs : Str) : Nat → Parser Node
  | 0 => fun _ => .error .timeout
  | depth + 1 => altBody (parseAlt pcs depth) pcs

/-- `{ok: true, ast, ngroups}` or `{ok: false, error}`. -/
inductive Compiled where
  | ok (ast : Node) (ngroups : Nat)
  | failed (error : Str)

/-- The text that the handler of `rx_compile` takes from what was thrown. -/
def errorText : Failure → Str
  | .thrown text => text
  | .error message => message.toList
  | .raised _ message _ => message
  | .timeout => []

def compileBody (pcs : Str) : Result Compiled := do
  let (ast, st) ← parseAlt pcs (pcs.length + 1) ⟨0, 0⟩
  if st.p ≠ pcs.length then
    .ok (.failed ("regex: trailing characters at ".toList ++ intToString st.p))
  else .ok (.ok ast st.gc)

def rxCompile (pattern : Str) : Result Compiled :=
  tryCatch (compileBody pattern) fun e => .ok (.failed (errorText e))

/-! ## The matcher -/

/-- `class_item?`. -/
def classItem (it : Item) (c : Char) : Bool :=
  match it with
  | .ch x => c == x
  | .rng lo hi => decide (lo ≤ c) && decide (c ≤ hi)
  | .pred .digit => isDigit c
  | .pred .notDigit => !isDigit c
  | .pred .word => isWord c
  | .pred .notWord => !isWord c
  | .pred .space => isSpace c
  | .pred .notSpace => !isSpace c

/-- `class_match?`. -/
def classMatch (neg : Bool) (items : List Item) (c : Char) : Bool :=
  let hit := items.any fun it => classItem it c
  if neg then !hit else hit

/-- The spans of the groups, `"<n>" -> [start, end]`. -/
abbrev Caps := List (Nat × (Nat × Nat))

/-- `(assoc caps key [start end])`. -/
def noteSpan (n : Nat) (start stop : Nat) (caps : Caps) : Caps := upsert n (start, stop) caps

/-- The span that was there before is put back; a new one is deleted. -/
def restoreSpan (n : Nat) (prev : Option (Nat × Nat)) (caps : Caps) : Caps :=
  match prev with
  | none => remove n caps
  | some span => upsert n span caps

mutual

/-- `mrec`.  `match_rep` is the `repeatLoop`; its rounds are the iterations up to the minimum
    and one for each character, see `repeatLoop_settles`. -/
@[simp]
def mrec (cs : Str) : Node → Matcher Caps
  | .lit c => element cs.length fun p => decide (cs[p]? = some c)
  | .any => element cs.length fun _ => true
  | .cls neg items => element cs.length fun p => (cs[p]?).any (classMatch neg items)
  | .start => position fun p => decide (p = 0)
  | .stop => position fun p => decide (p = cs.length)
  | .seq xs => matchSeq cs xs
  | .alt xs => matchAlt cs xs
  | .star x => repeatLoop (mrec cs x) 0 (-1) (cs.length + 1) 0
  | .plus x => repeatLoop (mrec cs x) 1 (-1) (cs.length + 2) 0
  | .opt x => orElse (mrec cs x) (position fun _ => true)
  | .rep x min max => repeatLoop (mrec cs x) min max (min + cs.length + 1) 0
  | .group n x => capture (find n) (noteSpan n) (restoreSpan n) (mrec cs x)

/-- `match_seq`, from one element on. -/
@[simp]
def matchSeq (cs : Str) : List Node → Matcher Caps
  | [] => position fun _ => true
  | x :: xs => andThen (mrec cs x) (matchSeq cs xs)

/-- The loop over the branches of an alternation. -/
@[simp]
def matchAlt (cs : Str) : List Node → Matcher Caps
  | [] => position fun _ => false
  | x :: xs => orElse (mrec cs x) (matchAlt cs xs)

end

/-! ## Searching -/

/-- `{start, end, text}`; a group that took no part has -1, -1 and no text. -/
structure Group where
  start : Int
  stop : Int
  text : Option Str
  deriving DecidableEq

def spanGroup (cs : Str) (start stop : Nat) : Group := ⟨start, stop, some (slice cs start stop)⟩

/-- `build_groups`. -/
def buildGroups (cs : Str) (caps : Caps) (ngroups start stop : Nat) : List Group :=
  spanGroup cs start stop ::
    (List.range ngroups).map fun i =>
      match find (i + 1) caps with
      | none => ⟨-1, -1, none⟩
      | some (first, last) => spanGroup cs first last

/-- `{found: true, start, end, match, groups}` or `{found: false}`. -/
inductive Search where
  | found (start : Nat) (stop : Nat) (text : Str) (groups : List Group)
  | notFound
  deriving DecidableEq

/-- The result of a match that ended at `stop`. -/
def foundAt (cs : Str) (ngroups start : Nat) (stop : Int) (caps : Caps) : Search :=
  .found start stop.toNat (slice cs start stop) (buildGroups cs caps ngroups start stop.toNat)

/-- `try_at`; the outer `none` is a repetition that was given too few rounds. -/
def tryAt (ast : Node) (ngroups : Nat) (cs : Str) (start : Nat) : Option (Option Search) :=
  match mrec cs ast start [] fun p caps => some ((p : Int), caps) with
  | none => none
  | some (stop, caps) =>
    if 0 ≤ stop then some (some (foundAt cs ngroups start stop caps)) else some none

/-- The loop of `rx_search` over the starts. -/
def searchFrom (ast : Node) (ngroups : Nat) (cs : Str) : Nat → Nat → Option Search
  | 0, _ => some .notFound
  | rounds + 1, i =>
    match tryAt ast ngroups cs i with
    | none => none
    | some (some result) => some result
    | some none => searchFrom ast ngroups cs rounds (i + 1)

def rxSearch (rx : Compiled) (s : Str) : Option Search :=
  match rx with
  | .failed _ => some .notFound
  | .ok ast ngroups => searchFrom ast ngroups s (s.length + 1) 0

/-- The continuation of `rx_match?`: only the end of the subject will do. -/
def atEnd (cs : Str) : Cont Caps := fun p caps =>
  if p = cs.length then some ((p : Int), caps) else failure caps

/-- `rx_match?`. -/
def rxMatch (rx : Compiled) (s : Str) : Option Bool :=
  match rx with
  | .failed _ => some false
  | .ok ast _ =>
    match mrec s ast 0 [] (atEnd s) with
    | none => none
    | some (stop, _) => some (decide (0 ≤ stop))

end Caap.Stdlib.Regex
