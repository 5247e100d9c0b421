import Pushdown.Dialect
import Pushdown.Error
import Pushdown.Fragment.Bindings
import Pushdown.Fragment.Buffer
import Pushdown.Text.Blank

/-!
# Numbering the holes

The holes of a text are numbered from the left; each becomes the dialect's marker for its
number, and its value becomes the bind value with that number. The holes and the values must
match: every hole has a value, no hole occurs twice and no value is left over.
-/

namespace Pushdown

/-- A condition in SQL with positional markers, and the values to bind in their order. -/
structure Fragment where
  /-- The text. -/
  sql : String
  /-- The values to bind, by ordinal. -/
  parameters : List BoundValue
  deriving DecidableEq

/-- How the holes and the values do not match. -/
inductive Inconsistency
  /-- A hole has no value. -/
  | unbound (token : Token)
  /-- A hole occurs twice. -/
  | repeated (token : Token)
  /-- Values have no hole. -/
  | unused (tokens : List Token)
  deriving DecidableEq, Repr

/-- The tokens in brackets with commas between them. -/
def displayTokens (tokens : List Token) : String := ", ".intercalate (tokens.map Token.display)

/-- The text of an inconsistency. -/
def Inconsistency.message : Inconsistency → String
  | unbound token =>
      "placeholder " ++ token.display ++ " appears in the fragment but has no bound value"
  | repeated token => "placeholder " ++ token.display ++ " appears more than once in the fragment"
  | unused tokens => "bound values without a placeholder in the fragment: " ++ displayTokens tokens

/-- The order in which unused tokens are listed: by name. -/
def Token.nameLe (a b : Token) : Bool := !decide (b.name < a.name)

/-- The tokens that have a value and no hole, by name. -/
def unusedTokens (values : Bindings) (seen : List Token) : List Token :=
  (values.tokens.filter fun t => !seen.contains t).mergeSort Token.nameLe

/-- The text and the bind values of the segments that follow the holes seen so far. -/
def fill (values : Bindings) (dialect : Dialect) (seen : List Token) :
    List Segment → Except Inconsistency (String × List BoundValue)
  | [] =>
      if seen.length = values.size then .ok ("", [])
      else .error (.unused (unusedTokens values seen))
  | .literal text :: rest =>
      (fill values dialect seen rest).map fun (sql, parameters) => (text ++ sql, parameters)
  | .hole token :: rest =>
      match values.get? token with
      | none => .error (.unbound token)
      | some value =>
          if seen.contains token then .error (.repeated token)
          else
            (fill values dialect (token :: seen) rest).map fun (sql, parameters) =>
              (dialect.marker seen.length ++ sql, value :: parameters)

/-- The fragment of a text with holes and the values of its tokens. -/
def reconcile (segments : List Segment) (values : Bindings) (dialect : Dialect) :
    Except Inconsistency Fragment :=
  (fill values dialect [] segments).map fun (sql, parameters) => ⟨Text.trimmed sql, parameters⟩

end Pushdown
