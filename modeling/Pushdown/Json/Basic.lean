/-!
# JSON documents

A document as its syntax gives it: members stay in order and may repeat, and a number is kept as
it is written. A string whose escapes contain an unpaired surrogate is well formed but is no
text; its content is `none`.
-/

namespace Pushdown

/-- A JSON document. -/
inductive Json
  | null
  | bool (b : Bool)
  | number (numeral : String)
  | string (content : Option String)
  | array (items : List Json)
  | object (members : List (Option String × Json))

namespace Json

instance : Inhabited Json := ⟨.null⟩

/-- A string that is a text. -/
def text (s : String) : Json := .string (some s)

/-- An integer. -/
def int (n : Int) : Json := .number (toString n)

/-- An object whose keys are texts. -/
def record (members : List (String × Json)) : Json :=
  .object (members.map fun (key, value) => (some key, value))

/-- An object with one member, whose key says what the value is. -/
def tagged (tag : String) (value : Json) : Json := record [(tag, value)]

/-- A text, or null if there is none. -/
def optionalText (s : Option String) : Json := s.elim .null text

end Json

end Pushdown
