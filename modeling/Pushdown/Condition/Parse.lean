import Pushdown.Condition.Reader
import Pushdown.Error
import Pushdown.Text.Blank

/-!
# Conditions as whole texts

A text is trimmed, read as one condition and must then be used up. Errors carry the byte offset
in the untrimmed text.
-/

namespace Pushdown.Condition

open Text

/-- What is wrong with the text of a condition. -/
inductive Problem
  /-- The text is blank. -/
  | empty
  /-- A condition was read, and this is left behind it. -/
  | trailing (rest : String)
  /-- The nesting limit is crossed. -/
  | tooDeep
  /-- What is needed does not stand here. -/
  | missed (cause : Miss)
  /-- A number is out of range. -/
  | numberRange
  deriving DecidableEq, Repr

/-- The word that stands for a cause. -/
def Miss.word : Miss → String
  | noOperand => "Satisfy"
  | reservedWord => "Tag"
  | longerName => "Not"
  | noSign => "Char"
  | noDigit => "Digit"
  | indexRange => "MapRes"
  | emptyItem => "Many0"
  | emptyArgument => "SeparatedList"

/-- The text of a problem. -/
def Problem.message : Problem → String
  | empty => "Empty condition"
  | trailing rest => "Unexpected trailing content: '" ++ rest ++ "'"
  | tooDeep => "Condition nests deeper than " ++ toString nestingLimit ++ " levels"
  | missed cause => "Parse failed: " ++ cause.word
  | numberRange => "Parse failed: Digit"

/-- The problem that a failure is. -/
def Fatal.problem : Fatal → Problem
  | numberRange => .numberRange
  | tooDeep => .tooDeep

/-- A problem and the byte offset at which it arose. -/
structure ParseError where
  /-- The byte offset in the text as given. -/
  position : Nat
  /-- What is wrong there. -/
  problem : Problem
  deriving DecidableEq, Repr

/-- The error as reported. -/
def ParseError.toError (e : ParseError) : Error := .parse e.position e.problem.message

/-- The condition that a text is, given as characters. -/
def parseChars (text : List Char) : Except ParseError Expr :=
  let offset := byteLength text - byteLength (trimStart text)
  let body := trim text
  let position (here : List Char) : Nat := offset + byteLength body - byteLength here
  if body.isEmpty then .error ⟨offset, .empty⟩
  else
    match condition body with
    | .ok e rest =>
        let left := trimStart rest
        if left.isEmpty then .ok e
        else .error ⟨position left, .trailing (String.ofList left)⟩
    | .miss cause here => .error ⟨position here, .missed cause⟩
    | .fail cause here => .error ⟨position here, cause.problem⟩

/-- The condition that a text is. -/
def parse (text : String) : Except ParseError Expr := parseChars text.toList

end Pushdown.Condition
