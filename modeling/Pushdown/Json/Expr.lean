import Pushdown.Expr.Basic
import Pushdown.Json.Leaf
import Pushdown.Json.Reader
import Pushdown.Json.Writer

/-!
# Expression trees as JSON

A node is an object with one member, tagged with the kind of the node, whose content is the
record of its fields. A null check of an operand and one of an event share a tag; they differ in
whether there is an operand.
-/

namespace Pushdown.Expr

open Json

mutual

/-- A tree as a document. -/
def toJson : Expr → Json
  | and l r => .tagged "and" (.record [("left", l.toJson), ("right", r.toJson)])
  | or l r => .tagged "or" (.record [("left", l.toJson), ("right", r.toJson)])
  | not e => .tagged "not" (.record [("operand", e.toJson)])
  | compare l op r =>
      .tagged "compare" (.record [("left", l.toJson), ("op", op.toJson), ("right", r.toJson)])
  | isNull e stream =>
      .tagged "is_null" (.record [("operand", e.toJson), ("stream_id", .optionalText stream)])
  | eventNull stream =>
      .tagged "is_null" (.record [("operand", .null), ("stream_id", .optionalText stream)])
  | member e store =>
      .tagged "in" (.record [("operand", e.toJson), ("store_id", .text store)])
  | math l op r =>
      .tagged "math" (.record [("left", l.toJson), ("op", op.toJson), ("right", r.toJson)])
  | constant value type =>
      .tagged "constant" (.record [("value", value.toJson), ("ty", type.toJson)])
  | call space name args =>
      .tagged "function" (.record [("namespace", .optionalText space), ("name", .text name),
        ("args", .array (toJsonAll args))])
  | parameter index type =>
      .tagged "parameter" (.record [("index", .int index.toNat), ("ty", type.toJson)])
  | eventField id stream name type =>
      .tagged "stream_variable" (.record [("id", .text id), ("stream_id", .optionalText stream),
        ("attribute", .text name), ("ty", type.toJson)])
  | column store name type =>
      .tagged "store_variable" (.record [("store_id", .optionalText store),
        ("attribute", .text name), ("ty", type.toJson)])

/-- A list of trees as a list of documents. -/
def toJsonAll : List Expr → List Json
  | [] => []
  | e :: es => e.toJson :: toJsonAll es

end

/-- The names of the fields of a node, by its tag. -/
def fieldNames : String → List String
  | "and" => ["left", "right"]
  | "or" => ["left", "right"]
  | "not" => ["operand"]
  | "compare" => ["left", "op", "right"]
  | "is_null" => ["operand", "stream_id"]
  | "in" => ["operand", "store_id"]
  | "math" => ["left", "op", "right"]
  | "constant" => ["value", "ty"]
  | "function" => ["namespace", "name", "args"]
  | "parameter" => ["index", "ty"]
  | "stream_variable" => ["id", "stream_id", "attribute", "ty"]
  | "store_variable" => ["store_id", "attribute", "ty"]
  | _ => []

/-- The node with the given tag and fields. The decoders of operands and of argument lists are
parameters; the depth is what is left inside the record. -/
def ofFields (tree : Json → Option Expr) (trees : Json → Option (List Expr)) (depth : Nat)
    (tag : String) (fields : List (Option Json)) : Option Expr :=
  match tag, fields with
  | "and", [l, r] => do some (and (← required tree l) (← required tree r))
  | "or", [l, r] => do some (or (← required tree l) (← required tree r))
  | "not", [e] => do some (not (← required tree e))
  | "compare", [l, op, r] => do
      let l ← required tree l
      let op ← required (CompareOp.decode depth) op
      some (compare l op (← required tree r))
  | "is_null", [e, stream] => do
      let stream ← optional asText stream
      match ← optional tree e with
      | some e => some (isNull e stream)
      | none => some (eventNull stream)
  | "in", [e, store] => do some (member (← required tree e) (← required asText store))
  | "math", [l, op, r] => do
      let l ← required tree l
      let op ← required (MathOp.decode depth) op
      some (math l op (← required tree r))
  | "constant", [value, type] => do
      let value ← required (Value.decode depth) value
      some (constant value (← required (AttrType.decode depth) type))
  | "function", [space, name, args] => do
      let space ← optional asText space
      let name ← required asText name
      some (call space name (← defaulted [] trees args))
  | "parameter", [index, type] => do
      let index ← required asUInt64 index
      some (parameter index (← required (AttrType.decode depth) type))
  | "stream_variable", [id, stream, name, type] => do
      let id ← required asText id
      let stream ← optional asText stream
      let name ← required asText name
      some (eventField id stream name (← required (AttrType.decode depth) type))
  | "store_variable", [store, name, type] => do
      let store ← optional asText store
      let name ← required asText name
      some (column store name (← required (AttrType.decode depth) type))
  | _, _ => none

/-- The tree that a document is. A node opens two brackets, an argument list a third. -/
def decode : Decoder Expr
  | depth + 2, .object [(some tag, content)] =>
      let trees := match depth with
        | 0 => fun _ => none
        | inner + 1 => itemsOf (decode inner)
      (fields? false (fieldNames tag) content).bind (ofFields (decode depth) trees depth tag)
  | _, _ => none

/-- The text of a tree as a document. -/
def toJsonText (e : Expr) : String := e.toJson.compact

/-- The tree that the text of a document is. -/
def ofJsonText? (text : String) : Option Expr := (Json.read text).bind (decodeWith decode)

end Pushdown.Expr
