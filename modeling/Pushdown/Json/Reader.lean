import Pushdown.Json.Basic

/-!
# Reading JSON

The full grammar of documents. Nesting has no limit here, and numbers and escapes are checked
for their form only; what a decoder asks of them is its own matter.
-/

namespace Pushdown.Json

/-- The character may stand between lexemes. -/
def isSpace (c : Char) : Bool := c == ' ' || c == '\n' || c == '\t' || c == '\r'

/-- The text after the blanks at its front. -/
def skipSpace (s : List Char) : List Char := s.dropWhile isSpace

/-! ## Strings -/

/-- A piece of a string as written. -/
inductive Piece
  /-- A character, raw or by a short escape. -/
  | char (c : Char)
  /-- A sixteen-bit unit given by its four hexadecimal digits. -/
  | unit (n : Nat)
  deriving DecidableEq, Repr

/-- The value of a hexadecimal digit. -/
def hexValue? (c : Char) : Option Nat :=
  if '0' ≤ c ∧ c ≤ '9' then some (c.toNat - '0'.toNat)
  else if 'a' ≤ c ∧ c ≤ 'f' then some (c.toNat - 'a'.toNat + 10)
  else if 'A' ≤ c ∧ c ≤ 'F' then some (c.toNat - 'A'.toNat + 10)
  else none

/-- The number that a string of hexadecimal digits denotes. -/
def hexNumber? (cs : List Char) : Option Nat :=
  cs.foldlM (fun n c => (hexValue? c).map (16 * n + ·)) 0

/-- The character that a short escape stands for. -/
def shortEscape? (c : Char) : Option Char :=
  if c = '"' then some '"'
  else if c = '\\' then some '\\'
  else if c = '/' then some '/'
  else if c = 'b' then some '\x08'
  else if c = 'f' then some '\x0c'
  else if c = 'n' then some '\n'
  else if c = 'r' then some '\r'
  else if c = 't' then some '\t'
  else none

/-- The pieces of a string up to its closing quote, and the text behind it. -/
def readPieces : List Char → Option (List Piece × List Char)
  | [] => none
  | '"' :: rest => some ([], rest)
  | '\\' :: 'u' :: a :: b :: c :: d :: rest =>
      (hexNumber? [a, b, c, d]).bind fun n =>
        (readPieces rest).map fun (pieces, left) => (.unit n :: pieces, left)
  | '\\' :: c :: rest =>
      (shortEscape? c).bind fun e =>
        (readPieces rest).map fun (pieces, left) => (.char e :: pieces, left)
  | c :: rest =>
      if c = '\\' ∨ c.toNat < 0x20 then none
      else (readPieces rest).map fun (pieces, left) => (.char c :: pieces, left)

/-- The unit is the first half of a surrogate pair. -/
def isHighSurrogate (n : Nat) : Bool := 0xD800 ≤ n && n < 0xDC00

/-- The unit is the second half of a surrogate pair. -/
def isLowSurrogate (n : Nat) : Bool := 0xDC00 ≤ n && n < 0xE000

/-- The characters of a string; a surrogate outside a pair is none. -/
def content? : List Piece → Option (List Char)
  | [] => some []
  | .char c :: rest => (content? rest).map (c :: ·)
  | .unit n :: .unit m :: rest =>
      if isHighSurrogate n && isLowSurrogate m then
        (content? rest).map (Char.ofNat (0x10000 + (n - 0xD800) * 0x400 + (m - 0xDC00)) :: ·)
      else if isHighSurrogate n || isLowSurrogate n then none
      else (content? (.unit m :: rest)).map (Char.ofNat n :: ·)
  | .unit n :: rest =>
      if isHighSurrogate n || isLowSurrogate n then none
      else (content? rest).map (Char.ofNat n :: ·)

/-- The content of a string after its opening quote, and the text behind it. -/
def readString (s : List Char) : Option (Option String × List Char) :=
  (readPieces s).map fun (pieces, rest) => ((content? pieces).map String.ofList, rest)

/-! ## Numbers -/

/-- At least one digit in front. -/
def digitRun (s : List Char) : Option (List Char × List Char) :=
  if (s.takeWhile Char.isDigit).isEmpty then none
  else some (s.takeWhile Char.isDigit, s.dropWhile Char.isDigit)

/-- The digits before the point: a single zero, or digits that start with no zero. -/
def wholeRun : List Char → Option (List Char × List Char)
  | '0' :: rest => some (['0'], rest)
  | s => digitRun s

/-- The point and the digits behind it, if a point stands in front. -/
def fractionRun : List Char → Option (List Char × List Char)
  | '.' :: rest => (digitRun rest).map fun (ds, left) => ('.' :: ds, left)
  | s => some ([], s)

/-- The exponent, if its letter stands in front. -/
def exponentRun : List Char → Option (List Char × List Char)
  | c :: rest =>
      if c = 'e' ∨ c = 'E' then
        match rest with
        | '+' :: rest => (digitRun rest).map fun (ds, left) => (c :: '+' :: ds, left)
        | '-' :: rest => (digitRun rest).map fun (ds, left) => (c :: '-' :: ds, left)
        | rest => (digitRun rest).map fun (ds, left) => (c :: ds, left)
      else some ([], c :: rest)
  | [] => some ([], [])

/-- An unsigned numeral in front, as written. -/
def unsignedRun (s : List Char) : Option (List Char × List Char) := do
  let (whole, s) ← wholeRun s
  let (fraction, s) ← fractionRun s
  let (exponent, s) ← exponentRun s
  some (whole ++ fraction ++ exponent, s)

/-- A numeral in front, as written. -/
def readNumber : List Char → Option (String × List Char)
  | '-' :: rest => (unsignedRun rest).map fun (n, left) => (String.ofList ('-' :: n), left)
  | s => (unsignedRun s).map fun (n, left) => (String.ofList n, left)

/-! ## Documents -/

/-- The text after a word, if it stands in front. -/
def stripExact : List Char → List Char → Option (List Char)
  | [], s => some s
  | _ :: _, [] => none
  | w :: ws, c :: s => if c = w then stripExact ws s else none

mutual

/-- A document in front, blanks before it allowed. The fuel bounds the number of steps. -/
def readValue : Nat → List Char → Option (Json × List Char)
  | 0, _ => none
  | fuel + 1, s =>
      match skipSpace s with
      | [] => none
      | '"' :: rest => (readString rest).map fun (content, left) => (.string content, left)
      | '[' :: rest =>
          match skipSpace rest with
          | ']' :: left => some (.array [], left)
          | _ => (readItems fuel rest).map fun (items, left) => (.array items, left)
      | '\x7b' :: rest =>
          match skipSpace rest with
          | '\x7d' :: left => some (.object [], left)
          | _ => (readMembers fuel rest).map fun (members, left) => (.object members, left)
      | 'n' :: rest => (stripExact "ull".toList rest).map (Json.null, ·)
      | 't' :: rest => (stripExact "rue".toList rest).map (Json.bool true, ·)
      | 'f' :: rest => (stripExact "alse".toList rest).map (Json.bool false, ·)
      | s => (readNumber s).map fun (numeral, left) => (.number numeral, left)

/-- At least one item, up to the closing bracket. -/
def readItems : Nat → List Char → Option (List Json × List Char)
  | 0, _ => none
  | fuel + 1, s =>
      (readValue fuel s).bind fun (item, rest) =>
        match skipSpace rest with
        | ',' :: rest => (readItems fuel rest).map fun (items, left) => (item :: items, left)
        | ']' :: left => some ([item], left)
        | _ => none

/-- At least one member, up to the closing brace. -/
def readMembers : Nat → List Char → Option (List (Option String × Json) × List Char)
  | 0, _ => none
  | fuel + 1, s =>
      match skipSpace s with
      | '"' :: rest =>
          (readString rest).bind fun (key, rest) =>
            match skipSpace rest with
            | ':' :: rest =>
                (readValue fuel rest).bind fun (value, rest) =>
                  match skipSpace rest with
                  | ',' :: rest =>
                      (readMembers fuel rest).map fun (members, left) =>
                        ((key, value) :: members, left)
                  | '\x7d' :: left => some ([(key, value)], left)
                  | _ => none
            | _ => none
      | _ => none

end

/-- The document that a whole text is, blanks around it allowed. Opening and closing a bracket pays
for two steps and a comma for one, so a document never needs more steps than it has characters and
one. -/
def read (text : String) : Option Json :=
  match readValue (text.length + 1) text.toList with
  | some (document, rest) => if (skipSpace rest).isEmpty then some document else none
  | none => none

end Pushdown.Json
