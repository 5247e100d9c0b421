import Pushdown.Value

/-!
# Bind values

What stands behind a positional marker: a constant, or a variable whose value is known only when
the query runs. The declared type is carried along unchanged.
-/

namespace Pushdown

/-- Where a variable takes its value from when the query runs. -/
inductive Source
  /-- The attribute of the matching stream event with this id. -/
  | stream (id : String)
  /-- The parameter of the enclosing query at this index. -/
  | parameter (index : UInt64)
  deriving DecidableEq

/-- The text of a source. -/
def Source.display : Source → String
  | .stream id => id
  | .parameter index => "$" ++ toString index.toNat

/-- A value to bind at a positional marker. -/
inductive BoundValue
  | constant (value : Value) (type : AttrType)
  | sourced (source : Source) (type : AttrType)
  deriving DecidableEq

namespace BoundValue

/-- The declared type. -/
def type : BoundValue → AttrType
  | constant _ t => t
  | sourced _ t => t

/-- The text of what is bound, without the type. -/
def content : BoundValue → String
  | constant value _ => value.display
  | sourced source _ => source.display

/-- The text of a bind value: what is bound, and its type in parentheses. -/
def display (b : BoundValue) : String := b.content ++ " (" ++ b.type.display ++ ")"

/-- The bind value is a constant. -/
def isConstant : BoundValue → Bool
  | constant _ _ => true
  | sourced _ _ => false

/-- Equality of bind values, with that of values for constants. -/
def equals : BoundValue → BoundValue → Bool
  | constant v t, constant w u => v.equals w && t == u
  | a, b => a == b

end BoundValue

end Pushdown
