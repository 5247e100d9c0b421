import Pushdown.Condition.Outcome
import Pushdown.Expr.Basic
import Pushdown.Number.Numeral

/-!
# Lexemes of the condition language

Recognisers for gaps, signs, reserved words, names, type names, numbers and quoted strings. A
gap is a run of spaces, tabs, carriage returns and line feeds.
-/

namespace Pushdown.Condition

open Text Number

/-! ## Gaps and signs -/

/-- The character belongs to a gap. -/
def isGap (c : Char) : Bool := c == ' ' || c == '\t' || c == '\r' || c == '\n'

/-- The text after the gap at its front. -/
def skipGap (s : List Char) : List Char := s.dropWhile isGap

/-- The text after the character, if it stands in front. -/
def expect (c : Char) : List Char → Option (List Char)
  | [] => none
  | d :: rest => if d = c then some rest else none

/-- The text after the character, if it stands in front or behind a gap. -/
def expectAfterGap (c : Char) (s : List Char) : Option (List Char) := expect c (skipGap s)

/-- The text after the sign, if it stands in front. -/
def stripSign : List Char → List Char → Option (List Char)
  | [], s => some s
  | c :: cs, s => (expect c s).bind (stripSign cs)

/-- The first of the signs that stands in front, with a gap allowed on either side. -/
def signIn {α : Type} (signs : List (List Char × α)) (s : List Char) : Option (α × List Char) :=
  signs.findSome? fun (sign, meaning) =>
    (stripSign sign (skipGap s)).map fun rest => (meaning, skipGap rest)

/-- The signs of comparisons; a longer sign comes before its own beginning. -/
def compareSigns : List (List Char × CompareOp) :=
  [(['=', '='], .eq), (['!', '='], .ne), (['<', '>'], .ne), (['>', '='], .gte),
   (['<', '='], .lte), (['='], .eq), (['>'], .gt), (['<'], .lt)]

/-- The signs between the summands of a sum. -/
def sumSigns : List (List Char × MathOp) := [(['+'], .add), (['-'], .sub)]

/-- The signs between the factors of a product. -/
def productSigns : List (List Char × MathOp) := [(['*'], .mul), (['/'], .div), (['%'], .mod)]

/-! ## Words -/

/-- The text after the word, if it stands in front in some ASCII casing. -/
def stripWord : List Char → List Char → Option (List Char)
  | [], s => some s
  | _ :: _, [] => none
  | w :: ws, c :: s => if c.toLower = w then stripWord ws s else none

/-- The text starts with a character that can stand inside a name. -/
def startsInName : List Char → Bool
  | [] => false
  | c :: _ => isNameChar c

/-- The text after a reserved word with a gap allowed on either side. The word must not be the
beginning of a longer name. -/
def keyword (word : List Char) (s : List Char) : Option (List Char) :=
  (stripWord word (skipGap s)).bind fun rest =>
    if startsInName rest then none else some (skipGap rest)

/-- A name: the longest run of name characters, unless it is reserved. -/
def name : Lexer (List Char)
  | [] => none
  | c :: s =>
      if isNameStart c then
        let word := c :: s.takeWhile isNameChar
        if isReserved word then none else some (word, s.dropWhile isNameChar)
      else none

/-- Why no name starts at a text. -/
def nameMiss : List Char → Miss
  | [] => .noOperand
  | c :: _ => if isNameStart c then .reservedWord else .noOperand

/-- Why a reserved word is not found, and where. -/
def keywordMiss (word s : List Char) : Miss × List Char :=
  match stripWord word (skipGap s) with
  | none => (.reservedWord, skipGap s)
  | some rest => (.longerName, rest)

/-- A type name: the longest run of alphabetic characters, if it names a type. -/
def typeName (s : List Char) : Option (AttrType × List Char) :=
  (AttrType.ofLetters? (s.takeWhile isAlphabetic)).map fun type =>
    (type, s.dropWhile isAlphabetic)

/-- The type after the given sign; without a sign or a type nothing is consumed. -/
def typeAfter (sign : List Char) (s : List Char) : AttrType × List Char :=
  ((stripSign sign s).bind typeName).getD (.object, s)

/-! ## Numbers -/

/-- The kind a number is marked with by the letter behind it. -/
inductive Mark
  | long
  | float
  | double
  deriving DecidableEq, Repr

/-- A number as written. -/
structure Literal where
  /-- A minus sign is written. -/
  negative : Bool
  /-- The digits before the point. -/
  whole : List Char
  /-- The digits after the point, if there is one. -/
  fraction : Option (List Char)
  /-- The letter behind the digits, if there is one. -/
  mark : Option Mark
  deriving DecidableEq, Repr

/-- The number of a format nearest to the literal. -/
def Literal.toBinary {f : Format} (n : Literal) : Binary f :=
  Numeral.toBinary ⟨n.negative, n.whole, n.fraction.getD [], 0⟩

/-- The integer before the point. -/
def Literal.toInt (n : Literal) : Int := ofSigned n.negative n.whole

/-- The value of a literal. Without a mark an integer is an `int`, or a `long` if it does not
fit, and a decimal is a `double`. An integer that fits neither and a long with a fraction have
no value. -/
def Literal.value? (n : Literal) : Option Value :=
  match n.mark, n.fraction with
  | some .long, some _ => none
  | some .long, none => (toInt64? n.toInt).map .long
  | some .float, _ => some (.float n.toBinary)
  | some .double, _ => some (.double n.toBinary)
  | none, some _ => some (.double n.toBinary)
  | none, none => ((toInt32? n.toInt).map .int).or ((toInt64? n.toInt).map .long)

/-- The mark a letter stands for. -/
def Mark.ofChar? (c : Char) : Option Mark :=
  if c = 'l' ∨ c = 'L' then some .long
  else if c = 'f' ∨ c = 'F' then some .float
  else if c = 'd' ∨ c = 'D' then some .double
  else none

/-- A mark directly in front. -/
def mark : List Char → Option Mark × List Char
  | [] => (none, [])
  | c :: s =>
      match Mark.ofChar? c with
      | some m => (some m, s)
      | none => (none, c :: s)

/-- At least one digit in front. -/
def digits (s : List Char) : Option (List Char × List Char) :=
  if (s.takeWhile Char.isDigit).isEmpty then none
  else some (s.takeWhile Char.isDigit, s.dropWhile Char.isDigit)

/-- A point and at least one digit in front. -/
def fraction (s : List Char) : Option (List Char) × List Char :=
  match (expect '.' s).bind digits with
  | some (ds, rest) => (some ds, rest)
  | none => (none, s)

/-- A number in front: an optional minus sign, digits, an optional fraction and an optional
mark. -/
def literal (s : List Char) : Option (Literal × List Char) :=
  let (negative, unsigned) := match expect '-' s with
    | some rest => (true, rest)
    | none => (false, s)
  (digits unsigned).map fun (whole, rest) =>
    let (fraction, rest) := fraction rest
    let (mark, rest) := mark rest
    (⟨negative, whole, fraction, mark⟩, rest)

/-! ## Quoted strings -/

/-- A string between two of the given quotes; there is no escape. -/
def quotedBy (quote : Char) (s : List Char) : Option (List Char × List Char) :=
  (expect quote s).bind fun body =>
    (expect quote (body.dropWhile (· != quote))).map fun rest =>
      (body.takeWhile (· != quote), rest)

/-- A string in single or in double quotes. -/
def quoted (s : List Char) : Option (List Char × List Char) :=
  (quotedBy '\x27' s).or (quotedBy '"' s)

/-- Why no string in double quotes is found, and where. -/
def quotedMiss (s : List Char) : Miss × List Char :=
  (.noSign, ((expect '"' s).map fun body => body.dropWhile (· != '"')).getD s)

end Pushdown.Condition
