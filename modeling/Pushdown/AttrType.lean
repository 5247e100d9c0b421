import Pushdown.Text.Name

/-!
# Declared types

A declared type travels with a constant, a parameter or an attribute, so that the executor of a
query can choose a setter. It is written in lower case in conditions and in upper case wherever
a value is shown.
-/

namespace Pushdown

/-- The declared type of an attribute, a parameter or a constant. -/
inductive AttrType
  | string
  | int
  | long
  | float
  | double
  | bool
  | object
  deriving DecidableEq, Repr, Inhabited

namespace AttrType

/-- All types, in the order of their declaration. -/
def all : List AttrType := [.string, .int, .long, .float, .double, .bool, .object]

/-- The lower-case name, as written in conditions and documents. -/
def name : AttrType → String
  | string => "string"
  | int => "int"
  | long => "long"
  | float => "float"
  | double => "double"
  | bool => "bool"
  | object => "object"

/-- The upper-case name, as shown beside a value. -/
def display : AttrType → String
  | string => "STRING"
  | int => "INT"
  | long => "LONG"
  | float => "FLOAT"
  | double => "DOUBLE"
  | bool => "BOOL"
  | object => "OBJECT"

/-- The type with the given name, in lower case only. -/
def ofName? (name : String) : Option AttrType := all.find? fun t => t.name == name

/-- The type with the given name, in any ASCII casing. -/
def ofLetters? (letters : List Char) : Option AttrType :=
  all.find? fun t => t.name.toList == Text.lowerAscii letters

end AttrType

end Pushdown
