/-!
# Operators of conditions
-/

namespace Pushdown

/-- A comparison of two operands. -/
inductive CompareOp
  | eq
  | ne
  | gt
  | gte
  | lt
  | lte
  deriving DecidableEq, Repr

namespace CompareOp

/-- All comparisons, in the order of their declaration. -/
def all : List CompareOp := [.eq, .ne, .gt, .gte, .lt, .lte]

/-- The sign of the comparison in a condition. -/
def symbol : CompareOp → String
  | eq => "="
  | ne => "!="
  | gt => ">"
  | gte => ">="
  | lt => "<"
  | lte => "<="

/-- The name of the comparison in documents. -/
def name : CompareOp → String
  | eq => "Eq"
  | ne => "Ne"
  | gt => "Gt"
  | gte => "Gte"
  | lt => "Lt"
  | lte => "Lte"

/-- The comparison with the given name. -/
def ofName? (name : String) : Option CompareOp := all.find? fun op => op.name == name

end CompareOp

/-- An arithmetic operation on two operands. -/
inductive MathOp
  | add
  | sub
  | mul
  | div
  | mod
  deriving DecidableEq, Repr

namespace MathOp

/-- All operations, in the order of their declaration. -/
def all : List MathOp := [.add, .sub, .mul, .div, .mod]

/-- The sign of the operation, in conditions and in fragments. -/
def symbol : MathOp → String
  | add => "+"
  | sub => "-"
  | mul => "*"
  | div => "/"
  | mod => "%"

/-- The name of the operation in documents. -/
def name : MathOp → String
  | add => "Add"
  | sub => "Sub"
  | mul => "Mul"
  | div => "Div"
  | mod => "Mod"

/-- The operation with the given name. -/
def ofName? (name : String) : Option MathOp := all.find? fun op => op.name == name

end MathOp

end Pushdown
