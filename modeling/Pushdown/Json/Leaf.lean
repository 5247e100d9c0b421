import Pushdown.BoundValue
import Pushdown.Operator
import Pushdown.Json.Decoder

/-!
# Types, operators and values as JSON

Types and operators are strings. A value is tagged with its kind, except null. A number is
written with the fewest digits that read back; infinities and not-a-number are null.
-/

namespace Pushdown

open Number Json

/-! ## Names -/

/-- A type as a document. -/
def AttrType.toJson (t : AttrType) : Json := .text t.name

/-- The type that a document is. -/
def AttrType.decode : Decoder AttrType := unitVariant ofName?

/-- A comparison as a document. -/
def CompareOp.toJson (op : CompareOp) : Json := .text op.name

/-- The comparison that a document is. -/
def CompareOp.decode : Decoder CompareOp := unitVariant ofName?

/-- An arithmetic operation as a document. -/
def MathOp.toJson (op : MathOp) : Json := .text op.name

/-- The arithmetic operation that a document is. -/
def MathOp.decode : Decoder MathOp := unitVariant ofName?

/-! ## Values -/

/-- In documents a 64-bit number is positional up to sixteen digits before the point and four
zeros behind it, and a tie goes to the even digit. -/
def doubleLayout : Layout := ⟨.even, fun e => -5 ≤ e && e ≤ 15⟩

/-- In documents a 32-bit number is positional up to thirteen digits before the point and five
zeros behind it, and a tie goes to the even digit. -/
def singleLayout : Layout := ⟨.even, fun e => -6 ≤ e && e ≤ 12⟩

/-- A floating-point number as a document. -/
def numberToJson {f : Format} (l : Layout) (x : Binary f) : Json :=
  (l.text? x).elim .null .number

namespace Value

/-- A value as a document. -/
def toJson : Value → Json
  | null => .text "Null"
  | bool b => .tagged "Bool" (.bool b)
  | int n => .tagged "Int" (.int n.toInt)
  | long n => .tagged "Long" (.int n.toInt)
  | float x => .tagged "Float" (numberToJson singleLayout x)
  | double x => .tagged "Double" (numberToJson doubleLayout x)
  | string s => .tagged "String" (.text s)

/-- The value that the content of a tag is. -/
def ofTagged (tag : String) (content : Json) : Option Value :=
  match tag with
  | "Null" => match content with
      | .null => some null
      | _ => none
  | "Bool" => (asBool content).map bool
  | "Int" => (asInt32 content).map int
  | "Long" => (asInt64 content).map long
  | "Float" => (asSingle content).map float
  | "Double" => (asDouble content).map double
  | "String" => (asText content).map string
  | _ => none

/-- The value that a document is. -/
def decode : Decoder Value
  | _, .string (some "Null") => some null
  | _ + 1, .object [(some tag, content)] => ofTagged tag content
  | _, _ => none

end Value

/-! ## Bind values -/

namespace Source

/-- A source as a document. -/
def toJson : Source → Json
  | stream id => .tagged "stream" (.text id)
  | parameter index => .tagged "parameter" (.int index.toNat)

/-- The source that a document is. -/
def decode : Decoder Source :=
  variant fun tag _ content =>
    match tag with
    | "stream" => (asText content).map stream
    | "parameter" => (asUInt64 content).map parameter
    | _ => none

end Source

namespace BoundValue

/-- A bind value as a document. -/
def toJson : BoundValue → Json
  | constant value type =>
      .tagged "constant" (.record [("value", value.toJson), ("ty", type.toJson)])
  | sourced source type =>
      .tagged "variable" (.record [("source", source.toJson), ("ty", type.toJson)])

/-- The bind value that a document is. -/
def decode : Decoder BoundValue :=
  variant fun tag =>
    match tag with
    | "constant" => record? false ["value", "ty"] fun depth fields =>
        match fields with
        | [value, type] => do
            let value ← required (Value.decode depth) value
            let type ← required (AttrType.decode depth) type
            some (constant value type)
        | _ => none
    | "variable" => record? false ["source", "ty"] fun depth fields =>
        match fields with
        | [source, type] => do
            let source ← required (Source.decode depth) source
            let type ← required (AttrType.decode depth) type
            some (sourced source type)
        | _ => none
    | _ => fun _ _ => none

end BoundValue

end Pushdown
