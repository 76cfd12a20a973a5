import Credal.Number.Layout
import Credal.SExpr.Basic
import Credal.Text.Blank
import Credal.Text.Quoted

/-!
# Reading s-expressions

A text is cut into parentheses and atoms, an atom being a longest run of characters that are
neither blanks nor parentheses; the tokens must be one expression with nothing behind it.

* `Token`, `nextToken?`: the tokens, and the one at the front of a text;
* `ReadFault`: why a text is no s-expression;
* `scan`, `tokens`: the tokens of a text;
* `readFrom`: the expression that a list of tokens completes, given the lists that are open;
* `SExpr.read`: the expression that a text is.
-/

namespace Credal.SExpr

open Credal.Text

/-! ## 1. Tokens -/

/-- A token. -/
inductive Token where
  | opening
  | closing
  | atom (text : String)
  deriving DecidableEq, Repr

/-- The text of a token. -/
def Token.text : Token → String
  | .opening => "("
  | .closing => ")"
  | .atom t => t

/-- Whether a character may stand in an atom. -/
def isAtomChar (c : Char) : Bool := !isBlank c && c != '(' && c != ')'

/-- The token at the front of a text, blanks before it skipped, and the text behind it; none where
    neither a parenthesis nor a character of an atom stands. -/
def nextToken? (cs : List Char) : Option (Token × List Char) :=
  match cs.dropWhile isBlank with
  | '(' :: rest => some (.opening, rest)
  | ')' :: rest => some (.closing, rest)
  | cs =>
    let run := cs.takeWhile isAtomChar
    if run.isEmpty then none else some (.atom (String.ofList run), cs.dropWhile isAtomChar)

/-- A token takes at least one character. -/
theorem length_lt_of_nextToken? {cs rest : List Char} {t : Token}
    (h : nextToken? cs = some (t, rest)) : rest.length < cs.length := by
  have hskip : (cs.dropWhile isBlank).length ≤ cs.length := (List.dropWhile_sublist _).length_le
  unfold nextToken? at h
  split at h
  · rename_i heq
    cases h
    rw [heq, List.length_cons] at hskip
    omega
  · rename_i heq
    cases h
    rw [heq, List.length_cons] at hskip
    omega
  · simp only at h
    split at h
    · cases h
    · rename_i hrun
      cases h
      have hlen := congrArg List.length
        (List.takeWhile_append_dropWhile (p := isAtomChar) (l := cs.dropWhile isBlank))
      have hpos : 0 < ((cs.dropWhile isBlank).takeWhile isAtomChar).length :=
        List.length_pos_iff.2 fun hnil => hrun (by rw [hnil]; rfl)
      rw [List.length_append] at hlen
      omega

/-! ## 2. Faults -/

/-- Why a text is no s-expression. -/
inductive ReadFault where
  /-- What stands at a position of the text begins no token. -/
  | unexpected (position : Nat) (text : String)
  /-- There is no token. -/
  | empty
  /-- Tokens follow a complete expression. -/
  | trailing (rest : List Token)
  /-- A list is closed that was not opened. -/
  | unopened (text : String)
  /-- A list is not closed. -/
  | unclosed (text : String)
  deriving DecidableEq, Repr

/-- The message of a fault. -/
def ReadFault.message : ReadFault → String
  | .unexpected position t =>
    "unexpected character at " ++ Number.intText position ++ " in " ++ quoted t
  | .empty => "empty s-expression"
  | .trailing rest =>
    "trailing input after s-expression: ["
      ++ ", ".intercalate (rest.map fun t => quoted t.text) ++ "]"
  | .unopened t => "unbalanced ')' in " ++ quoted t
  | .unclosed t => "unbalanced '(' in " ++ quoted t

/-! ## 3. Expressions -/

/-- The tokens of `cs`, with which a text ends. -/
def scan (text cs : List Char) : Except ReadFault (List Token) :=
  if cs.isEmpty then .ok []
  else
    match _h : nextToken? cs with
    | some (token, rest) => do .ok (token :: (← scan text rest))
    | none => .error (.unexpected (text.length - cs.length) (String.ofList text))
  termination_by cs.length
  decreasing_by exact length_lt_of_nextToken? _h

/-- The tokens of a text; the blanks at its end are left out before. -/
def tokens (text : String) : Except ReadFault (List Token) :=
  scan (trimEnd text.toList) (trimEnd text.toList)

/-- The complete expression, if no token follows it. -/
def complete (s : SExpr) : List Token → Except ReadFault SExpr
  | [] => .ok s
  | rest => .error (.trailing rest)

/-- The expression that the tokens complete. The open lists are given innermost first, each with
    its items in reverse; `text` is quoted in faults. -/
def readFrom (text : String) : List (List SExpr) → List Token → Except ReadFault SExpr
  | _, [] => .error (.unclosed text)
  | open_, .opening :: rest => readFrom text ([] :: open_) rest
  | [], .closing :: _ => .error (.unopened text)
  | [items], .closing :: rest => complete (.list items.reverse) rest
  | items :: outer :: open_, .closing :: rest =>
    readFrom text ((.list items.reverse :: outer) :: open_) rest
  | [], .atom t :: rest => complete (.atom t) rest
  | items :: open_, .atom t :: rest => readFrom text ((.atom t :: items) :: open_) rest

/-- The expression that the tokens are. -/
def ofTokens (text : String) : List Token → Except ReadFault SExpr
  | [] => .error .empty
  | ts => readFrom text [] ts

/-- The expression that the text is. -/
def read (text : String) : Except ReadFault SExpr := do ofTokens text (← tokens text)

end Credal.SExpr
