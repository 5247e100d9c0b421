import Pushdown.Condition.Reader

/-!
# Phrases of the condition language

A phrase is a condition, or a part of one, as it is written: which layers it is made of, which
words and signs are spelled in which way, and which gaps stand between them. It has a text and
a meaning, and it nests to a depth. The pieces of text carry what makes them well formed, so
every phrase is one of the language.

## Implementation notes

The lists of the language (alternatives, conjunctions, sums and products) grow to the right: a
longer list is a shorter one, an operator and one more item. A list of one item is a phrase of
the next tighter level. This is the order in which the meaning folds.

Gaps are part of the phrase. They may be empty next to signs and parentheses, and are not empty
next to the words of the language.
-/

namespace Pushdown.Condition

open Text Number

/-! ## Pieces of text -/

/-- A run of spaces, tabs, carriage returns and line feeds, which may be empty. -/
abbrev Gap := { cs : List Char // cs.all isGap = true }

/-- A gap that is not empty. -/
abbrev Space := { cs : List Char // cs ≠ [] ∧ cs.all isGap = true }

/-- One space. -/
def oneSpace : Space := ⟨[' '], List.cons_ne_nil _ _, by decide⟩

/-- The same space where a gap may be empty. -/
def oneGap : Gap := ⟨[' '], by decide⟩

/-- The empty gap. -/
def noGap : Gap := ⟨[], by decide⟩

/-- A name: well formed and not reserved. -/
abbrev Name := { cs : List Char // isName cs = true }

/-- A reserved word in some casing. -/
abbrev Spelling (word : String) :=
  { cs : List Char // lowerAscii cs = word.toList ∧ word.toList ∈ reservedWords }

/-- One or more ASCII digits. -/
abbrev Digits := { cs : List Char // cs ≠ [] ∧ cs.all Char.isDigit = true }

/-- The ways to write a comparison. -/
def compareSpellings : CompareOp → List String
  | .eq => ["==", "="]
  | .ne => ["!=", "<>"]
  | .gt => [">"]
  | .gte => [">="]
  | .lt => ["<"]
  | .lte => ["<="]

/-- The ways to write an operation between the summands of a sum. -/
def sumSpellings : MathOp → List String
  | .add => ["+"]
  | .sub => ["-"]
  | .mul | .div | .mod => []

/-- The ways to write an operation between the factors of a product. -/
def productSpellings : MathOp → List String
  | .mul => ["*"]
  | .div => ["/"]
  | .mod => ["%"]
  | .add | .sub => []

/-- An operator in one of the ways to write it. -/
structure SignText {α : Type} (spellings : α → List String) where
  /-- The operator. -/
  op : α
  /-- The sign as written. -/
  text : String
  /-- The sign is one of the operator's. -/
  spells : text ∈ spellings op

/-- The name of a declared type in some casing. -/
structure TypeText where
  /-- The type. -/
  type : AttrType
  /-- Its name as written. -/
  letters : List Char
  /-- The letters are those of the name. -/
  spells : lowerAscii letters = type.name.toList

/-- An integer within 64 bits, with an optional minus sign and an optional mark as a long. -/
structure IntegerText where
  /-- A minus sign is written. -/
  negative : Bool
  /-- The digits, which may start with zeros. -/
  digits : Digits
  /-- The letter that marks a long, if it is written. -/
  mark : Option { c : Char // c = 'l' ∨ c = 'L' }
  /-- The number fits in 64 bits. -/
  fits : -0x8000000000000000 ≤ ofSigned negative digits.1 ∧
    ofSigned negative digits.1 < 0x8000000000000000

/-- A string in quotes that do not occur in it. -/
structure QuotedText where
  /-- The quote on either side. -/
  quote : Char
  /-- The text between the quotes. -/
  body : List Char
  /-- The quote is a single or a double one. -/
  isQuote : quote = '\x27' ∨ quote = '"'
  /-- The text has no such quote. -/
  free : quote ∉ body

/-- The index of a query parameter, within 64 bits. -/
structure IndexText where
  /-- The digits, which may start with zeros. -/
  digits : Digits
  /-- The index fits in 64 bits. -/
  fits : ofDigits digits.1 < 0x10000000000000000

namespace IntegerText

/-- The number that is written. -/
def toInt (n : IntegerText) : Int := ofSigned n.negative n.digits.1

/-- The constant that is written: a long if it is marked or too large for 32 bits. -/
def constant (n : IntegerText) : Expr :=
  if n.mark = none ∧ -0x80000000 ≤ n.toInt ∧ n.toInt < 0x80000000 then
    .constant (.int (Int32.ofInt n.toInt)) .int
  else .constant (.long (Int64.ofInt n.toInt)) .long

/-- The integer as written. -/
def text (n : IntegerText) : List Char :=
  (if n.negative then ['-'] else []) ++ n.digits.1 ++ n.mark.elim [] fun c => [c.1]

end IntegerText

/-- The string with its quotes. -/
def QuotedText.text (q : QuotedText) : List Char := q.quote :: (q.body ++ [q.quote])

/-- A sign and a type behind it, if a type is written. -/
def typeNote (sign : List Char) (type : Option TypeText) : List Char :=
  type.elim [] fun t => sign ++ t.letters

/-- The type that is declared; without a type it is `object`. -/
def declared (type : Option TypeText) : AttrType := type.elim .object TypeText.type

/-- The name of a function as written, with its name space. -/
def calledName (space : Option Name) (function : Name) : List Char :=
  (space.elim [] fun n => n.1 ++ [':']) ++ function.1

/-! ## Phrases -/

/-- The levels of the language, from the loosest to the tightest, and the two parts of a list of
arguments. -/
inductive Level
  | condition
  | conjunction
  | term
  | predicate
  | comparison
  | sum
  | product
  | operand
  | arguments
  | furtherArguments
  deriving DecidableEq

/-- A phrase of a level. -/
inductive Phrase : Level → Type
  /-- One conjunction. -/
  | conjunction (p : Phrase .conjunction) : Phrase .condition
  /-- Alternatives and one more. -/
  | or (p : Phrase .condition) (before : Space) (word : Spelling "or") (after : Space)
      (q : Phrase .conjunction) : Phrase .condition
  /-- One term. -/
  | term (p : Phrase .term) : Phrase .conjunction
  /-- A conjunction and one more term. -/
  | and (p : Phrase .conjunction) (before : Space) (word : Spelling "and") (after : Space)
      (q : Phrase .term) : Phrase .conjunction
  /-- A negated term. -/
  | not (word : Spelling "not") (after : Space) (p : Phrase .term) : Phrase .term
  /-- A term without negation. -/
  | predicate (p : Phrase .predicate) : Phrase .term
  /-- A comparison without a suffix. -/
  | comparison (p : Phrase .comparison) : Phrase .predicate
  /-- A null check. -/
  | isNull (p : Phrase .comparison) (before : Space) (isWord : Spelling "is") (after : Space)
      (nullWord : Spelling "null") : Phrase .predicate
  /-- A negated null check. -/
  | isNotNull (p : Phrase .comparison) (before : Space) (isWord : Spelling "is")
      (after : Space) (notWord : Spelling "not") (behind : Space)
      (nullWord : Spelling "null") : Phrase .predicate
  /-- A membership in a store. -/
  | member (p : Phrase .comparison) (before : Space) (word : Spelling "in") (after : Space)
      (store : Name) : Phrase .predicate
  /-- A sum that is not compared. -/
  | sum (p : Phrase .sum) : Phrase .comparison
  /-- Two sums compared. -/
  | compare (p : Phrase .sum) (before : Gap) (sign : SignText compareSpellings) (after : Gap)
      (q : Phrase .sum) : Phrase .comparison
  /-- One product. -/
  | product (p : Phrase .product) : Phrase .sum
  /-- A sum and one more product. -/
  | plus (p : Phrase .sum) (before : Gap) (sign : SignText sumSpellings) (after : Gap)
      (q : Phrase .product) : Phrase .sum
  /-- One operand. -/
  | operand (p : Phrase .operand) : Phrase .product
  /-- A product and one more operand. -/
  | times (p : Phrase .product) (before : Gap) (sign : SignText productSpellings) (after : Gap)
      (q : Phrase .operand) : Phrase .product
  /-- A condition in parentheses. -/
  | group (before : Gap) (p : Phrase .condition) (after : Gap) : Phrase .operand
  /-- An integer. -/
  | integer (n : IntegerText) : Phrase .operand
  /-- A string. -/
  | quoted (q : QuotedText) : Phrase .operand
  /-- A truth value. -/
  | truth (b : Bool) (word : Spelling (toString b)) : Phrase .operand
  /-- The null constant. -/
  | null (word : Spelling "null") : Phrase .operand
  /-- A query parameter. -/
  | parameter (index : IndexText) (type : Option TypeText) : Phrase .operand
  /-- A function applied to arguments, with an optional name space. -/
  | call (space : Option Name) (function : Name) (before : Gap) (args : Phrase .arguments)
      (after : Gap) : Phrase .operand
  /-- An attribute of a stream event. -/
  | field (stream name : Name) (type : Option TypeText) : Phrase .operand
  /-- A column. -/
  | column (name : Name) (type : Option TypeText) : Phrase .operand
  /-- No arguments. -/
  | noArguments : Phrase .arguments
  /-- A first argument and the others. -/
  | arguments (before : Gap) (p : Phrase .condition) (others : Phrase .furtherArguments) :
      Phrase .arguments
  /-- No further arguments. -/
  | noFurther : Phrase .furtherArguments
  /-- A comma, one more argument and the others. -/
  | further (before after : Gap) (p : Phrase .condition) (others : Phrase .furtherArguments) :
      Phrase .furtherArguments

/-- What a phrase of a level stands for. -/
abbrev Meaning : Level → Type
  | .arguments | .furtherArguments => List Expr
  | _ => Expr

namespace Phrase

/-- The text of a phrase. -/
def text : {l : Level} → Phrase l → List Char
  | _, conjunction p => p.text
  | _, or p before word after q => p.text ++ (before.1 ++ word.1 ++ after.1 ++ q.text)
  | _, term p => p.text
  | _, and p before word after q => p.text ++ (before.1 ++ word.1 ++ after.1 ++ q.text)
  | _, not word after p => word.1 ++ after.1 ++ p.text
  | _, predicate p => p.text
  | _, comparison p => p.text
  | _, isNull p before isWord after nullWord =>
      p.text ++ (before.1 ++ isWord.1 ++ after.1 ++ nullWord.1)
  | _, isNotNull p before isWord after notWord behind nullWord =>
      p.text ++ (before.1 ++ isWord.1 ++ after.1 ++ notWord.1 ++ behind.1 ++ nullWord.1)
  | _, member p before word after store => p.text ++ (before.1 ++ word.1 ++ after.1 ++ store.1)
  | _, sum p => p.text
  | _, compare p before sign after q =>
      p.text ++ (before.1 ++ sign.text.toList ++ after.1 ++ q.text)
  | _, product p => p.text
  | _, plus p before sign after q => p.text ++ (before.1 ++ sign.text.toList ++ after.1 ++ q.text)
  | _, operand p => p.text
  | _, times p before sign after q => p.text ++ (before.1 ++ sign.text.toList ++ after.1 ++ q.text)
  | _, group before p after => '(' :: (before.1 ++ p.text ++ after.1 ++ [')'])
  | _, integer n => n.text
  | _, quoted q => q.text
  | _, truth _ word => word.1
  | _, null word => word.1
  | _, parameter index type => '$' :: (index.digits.1 ++ typeNote [':'] type)
  | _, call space function before args after =>
      calledName space function ++ before.1 ++ '(' :: (args.text ++ after.1 ++ [')'])
  | _, field stream name type => stream.1 ++ '.' :: (name.1 ++ typeNote [':', ':'] type)
  | _, column name type => name.1 ++ typeNote [':', ':'] type
  | _, noArguments => []
  | _, arguments before p others => before.1 ++ p.text ++ others.text
  | _, noFurther => []
  | _, further before after p others =>
      before.1 ++ ',' :: (after.1 ++ p.text ++ others.text)

/-- The tree, or the list of trees, that a phrase stands for. -/
def meaning : {l : Level} → Phrase l → Meaning l
  | _, conjunction p => p.meaning
  | _, or p _ _ _ q => Expr.or p.meaning q.meaning
  | _, term p => p.meaning
  | _, and p _ _ _ q => Expr.and p.meaning q.meaning
  | _, not _ _ p => Expr.not p.meaning
  | _, predicate p => p.meaning
  | _, comparison p => p.meaning
  | _, isNull p _ _ _ _ => Expr.isNull p.meaning none
  | _, isNotNull p _ _ _ _ _ _ => Expr.not (Expr.isNull p.meaning none)
  | _, member p _ _ _ store => Expr.member p.meaning (String.ofList store.1)
  | _, sum p => p.meaning
  | _, compare p _ sign _ q => Expr.compare p.meaning sign.op q.meaning
  | _, product p => p.meaning
  | _, plus p _ sign _ q => Expr.math p.meaning sign.op q.meaning
  | _, operand p => p.meaning
  | _, times p _ sign _ q => Expr.math p.meaning sign.op q.meaning
  | _, group _ p _ => p.meaning
  | _, integer n => n.constant
  | _, quoted q => Expr.constant (.string (String.ofList q.body)) .string
  | _, truth b _ => Expr.constant (.bool b) .bool
  | _, null _ => Expr.constant .null .object
  | _, parameter index type =>
      Expr.parameter (UInt64.ofNat (ofDigits index.digits.1)) (declared type)
  | _, call space function _ args _ =>
      Expr.call (space.map fun n => String.ofList n.1) (String.ofList function.1) args.meaning
  | _, field stream name type =>
      Expr.eventField (String.ofList stream.1 ++ "." ++ String.ofList name.1)
        (some (String.ofList stream.1)) (String.ofList name.1) (declared type)
  | _, column name type => Expr.column none (String.ofList name.1) (declared type)
  | _, noArguments => []
  | _, arguments _ p others => p.meaning :: others.meaning
  | _, noFurther => []
  | _, further _ _ p others => p.meaning :: others.meaning

/-- How deep parentheses, calls and `not` are nested in a phrase. A call without arguments
counts too. -/
def nesting : {l : Level} → Phrase l → Nat
  | _, conjunction p => p.nesting
  | _, or p _ _ _ q => max p.nesting q.nesting
  | _, term p => p.nesting
  | _, and p _ _ _ q => max p.nesting q.nesting
  | _, not _ _ p => p.nesting + 1
  | _, predicate p => p.nesting
  | _, comparison p => p.nesting
  | _, isNull p _ _ _ _ => p.nesting
  | _, isNotNull p _ _ _ _ _ _ => p.nesting
  | _, member p _ _ _ _ => p.nesting
  | _, sum p => p.nesting
  | _, compare p _ _ _ q => max p.nesting q.nesting
  | _, product p => p.nesting
  | _, plus p _ _ _ q => max p.nesting q.nesting
  | _, operand p => p.nesting
  | _, times p _ _ _ q => max p.nesting q.nesting
  | _, group _ p _ => p.nesting + 1
  | _, integer _ => 0
  | _, quoted _ => 0
  | _, truth _ _ => 0
  | _, null _ => 0
  | _, parameter _ _ => 0
  | _, call _ _ _ args _ => args.nesting + 1
  | _, field _ _ _ => 0
  | _, column _ _ => 0
  | _, noArguments => 0
  | _, arguments _ p others => max p.nesting others.nesting
  | _, noFurther => 0
  | _, further _ _ p others => max p.nesting others.nesting

end Phrase

end Pushdown.Condition
