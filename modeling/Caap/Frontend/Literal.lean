/-
  Caap.Frontend.Literal

  The escapes of string literals: what the reader makes of the text between the quotes.
-/

import Mathlib.Tactic

namespace Caap.Frontend

/-- `unescape`: an escape that is not known stays as it is, backslash and all.  `none` is the
    error of a text that ends in a backslash. -/
def unescape : List Char → Option (List Char)
  | [] => some []
  | '\\' :: rest =>
    match rest with
    | [] => none
    | 'n' :: rest => (unescape rest).map ('\n' :: ·)
    | 't' :: rest => (unescape rest).map ('\t' :: ·)
    | 'r' :: rest => (unescape rest).map ('\r' :: ·)
    | '\\' :: rest => (unescape rest).map ('\\' :: ·)
    | '"' :: rest => (unescape rest).map ('"' :: ·)
    | other :: rest => (unescape rest).map fun out => '\\' :: other :: out
  | c :: rest => (unescape rest).map (c :: ·)

end Caap.Frontend
