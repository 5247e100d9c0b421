import Pushdown.Json.Basic
import Pushdown.Number.Numeral

/-!
# Decoding JSON documents

A decoder takes the number of brackets that may still be opened and a document. Records are
objects, in which unknown members may be skipped, or arrays of their fields in order; a member
that is known must not repeat. Variants are objects with one member, whose key is the tag; a
variant without content can also be written as its tag alone.
-/

namespace Pushdown.Json

open Number

/-- A decoder: the brackets that may still be opened, and the document. -/
abbrev Decoder (α : Type) := Nat → Json → Option α

/-- The brackets that may be open at once. -/
def depthLimit : Nat := 127

/-! ## Scalars -/

/-- A text. -/
def asText : Json → Option String
  | string content => content
  | _ => none

/-- A truth value. -/
def asBool : Json → Option Bool
  | bool b => some b
  | _ => none

/-- The numeral is written without a point and an exponent. -/
def isWhole (numeral : List Char) : Bool := numeral.all fun c => c.isDigit || c == '-'

/-- The integer that a numeral is. A negative zero is no integer. -/
def wholeNumber? (numeral : List Char) : Option Int :=
  if isWhole numeral && numeral != ['-', '0'] then readInt? numeral else none

/-- An integer of any size. -/
def asInt : Json → Option Int
  | number numeral => wholeNumber? numeral.toList
  | _ => none

/-- A 32-bit integer. -/
def asInt32 (j : Json) : Option Int32 := (asInt j).bind toInt32?

/-- A 64-bit integer. -/
def asInt64 (j : Json) : Option Int64 := (asInt j).bind toInt64?

/-- An unsigned 64-bit integer. -/
def asUInt64 (j : Json) : Option UInt64 :=
  (asInt j).bind fun n => if 0 ≤ n then toUInt64? n.toNat else none

/-- The decimal that a numeral is. -/
def numeral? (numeral : List Char) : Option Numeral :=
  let (negative, unsigned) := spanSign numeral
  readUnsigned? negative unsigned

/-- A number is finite. -/
def isFinite {f : Format} (x : Binary f) : Bool :=
  match x.decode with
  | .finite _ _ _ => true
  | _ => false

/-- A 64-bit number; a numeral beyond the format is refused. -/
def asDouble : Json → Option Double
  | number numeral =>
      (numeral? numeral.toList).bind fun n =>
        let x : Double := n.toBinary
        if isFinite x then some x else none
  | _ => none

/-- The integer fits a 64-bit word, signed or unsigned. -/
def fitsWord (n : Int) : Bool := -0x8000000000000000 ≤ n && n < 0x10000000000000000

/-- A 32-bit number. An integer that fits a word is rounded once; any other numeral is rounded to
64 bits first. -/
def asSingle : Json → Option Single
  | number numeral =>
      match (wholeNumber? numeral.toList).filter fitsWord with
      | some n => some (.ofRatio (n < 0) n.natAbs 1)
      | none => (asDouble (number numeral)).map Binary.convert
  | _ => none

/-! ## Records and variants -/

/-- The members of an object by known key: none of the keys repeats, and every key is a text.
Unknown keys are refused if the record is closed. -/
def memberFields? (closed : Bool) (names : List String) :
    List (Option String × Json) → Option (List (Option Json))
  | [] => some (names.map fun _ => none)
  | (none, _) :: _ => none
  | (some key, value) :: rest =>
      (memberFields? closed names rest).bind fun fields =>
        match names.findIdx? (· == key) with
        | none => if closed then none else some fields
        | some i =>
            match fields[i]? with
            | some none => some (fields.set i (some value))
            | _ => none

/-- The items of an array as fields in order; fields at the end may be missing. -/
def itemFields? : List String → List Json → Option (List (Option Json))
  | [], [] => some []
  | [], _ :: _ => none
  | _ :: names, [] => (itemFields? names []).map (none :: ·)
  | _ :: names, item :: items => (itemFields? names items).map (some item :: ·)

/-- The fields of a record, in the order of the given names. -/
def fields? (closed : Bool) (names : List String) : Json → Option (List (Option Json))
  | object members => memberFields? closed names members
  | array items => itemFields? names items
  | _ => none

/-- A field that must be present. -/
def required {α : Type} (decode : Json → Option α) : Option Json → Option α
  | some j => decode j
  | none => none

/-- A field that may be missing or null. -/
def optional {α : Type} (decode : Json → Option α) : Option Json → Option (Option α)
  | none => some none
  | some null => some none
  | some j => (decode j).map some

/-- A field with a value that stands in when it is missing. -/
def defaulted {α : Type} (standIn : α) (decode : Json → Option α) : Option Json → Option α
  | none => some standIn
  | some j => decode j

/-- A record: one bracket is opened, and the value is built from the fields. -/
def record? {α : Type} (closed : Bool) (names : List String)
    (build : Nat → List (Option Json) → Option α) : Decoder α
  | 0, _ => none
  | depth + 1, j => (fields? closed names j).bind (build depth)

/-- A variant with content: one bracket is opened, and the decoder is chosen by the tag. -/
def variant {α : Type} (contents : String → Decoder α) : Decoder α
  | depth + 1, object [(some tag, content)] => contents tag depth content
  | _, _ => none

/-- A variant without content: its tag alone, or an object whose one member is null. -/
def unitVariant {α : Type} (ofTag? : String → Option α) : Decoder α
  | _, string (some tag) => ofTag? tag
  | _ + 1, object [(some tag, null)] => ofTag? tag
  | _, _ => none

/-- The items of an array, all decoded in the same way. -/
def itemsOf {α : Type} (item : Json → Option α) : Json → Option (List α)
  | array items => items.mapM item
  | _ => none

/-- The value that a whole document is. -/
def decodeWith {α : Type} (decoder : Decoder α) (j : Json) : Option α := decoder depthLimit j

end Pushdown.Json
