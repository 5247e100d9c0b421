import Pushdown.Condition.Lexeme

/-!
# Reading conditions

The levels of the language, from the loosest to the tightest: alternatives joined by `or`, lists
joined by `and`, negated terms, a comparison with an optional null check or membership behind
it, sums, products and operands. All lists fold to the left.

An operand can hold a condition again, in parentheses or as an argument. The readers of the
levels take the reader of that nested condition as a parameter; `term` ties the knot with a
budget of levels that decreases with every parenthesis, call and `not`.
-/

namespace Pushdown.Condition

open Text Number

variable {α : Type}

/-! ## Lists folded to the left -/

/-- The rest of a list: an operator and an item, as often as both can be read. -/
def chainTail (op : Lexer (α → α → α)) (item : Reader α) (acc : α) (s : List Char) : Outcome α :=
  match op s with
  | none => .ok acc s
  | some (f, afterOp) =>
      match item afterOp with
      | .ok value rest =>
          if rest.length < s.length then chainTail op item (f acc value) rest
          else .miss .emptyItem s
      | .miss _ _ => .ok acc s
      | .fail cause here => .fail cause here
termination_by s.length

/-- Items with operators between them, folded to the left. -/
def chain (op : Lexer (α → α → α)) (item : Reader α) : Reader α := fun s =>
  (item s).andThen (chainTail op item)

/-! ## Operands -/

/-- A condition in parentheses. -/
def group (nested : Reader Expr) (s : List Char) : Outcome Expr :=
  match expect '(' s with
  | none => .miss .noSign s
  | some inside =>
      (nested inside).andThen fun e rest =>
        match expectAfterGap ')' rest with
        | some rest => .ok e rest
        | none => .miss .noSign (skipGap rest)

/-- A number; one without a value ends the reading. -/
def number (s : List Char) : Outcome Expr :=
  match literal s with
  | none => .miss .noDigit ((expect '-' s).getD s)
  | some (n, rest) =>
      match n.value? with
      | some value => .ok (.literal value) rest
      | none => .fail .numberRange s

/-- A quoted string. -/
def text (s : List Char) : Outcome Expr :=
  Outcome.ofOption (quotedMiss s) <| (quoted s).map fun (cs, rest) =>
    (.literal (.string (String.ofList cs)), rest)

/-- The constant that a reserved word stands for. -/
def wordConstant (word : List Char) (value : Value) (s : List Char) : Outcome Expr :=
  Outcome.ofOption (keywordMiss word s) <| (keyword word s).map fun rest => (.literal value, rest)

/-- Why no parameter is found, and where. -/
def parameterMiss (s : List Char) : Miss × List Char :=
  match expect '$' s with
  | none => (.noSign, s)
  | some afterSign => (if (digits afterSign).isNone then .noDigit else .indexRange, afterSign)

/-- A query parameter: a dollar sign, an index and an optional type after a colon. -/
def parameter (s : List Char) : Outcome Expr :=
  Outcome.ofOption (parameterMiss s) <| (expect '$' s).bind fun afterSign =>
    (digits afterSign).bind fun (ds, rest) =>
      (toUInt64? (ofDigits ds)).map fun index =>
        let (type, rest) := typeAfter [':'] rest
        (.parameter index type, rest)

/-- The name of a function, with an optional name space and a colon before it. -/
def callHead (s : List Char) : Option ((Option (List Char) × List Char) × List Char) :=
  (name s).bind fun (first, rest) =>
    match expect ':' rest with
    | some afterColon => (name afterColon).map fun (second, rest) => ((some first, second), rest)
    | none => some ((none, first), rest)

/-- The place where the name of a function is needed: behind a name and a colon, if both stand
here. -/
def functionPlace (s : List Char) : List Char :=
  ((name s).bind fun (_, rest) => expect ':' rest).getD s

/-- The arguments after the first one. -/
def moreArguments (nested : Reader Expr) (s : List Char) : Outcome (List Expr) :=
  match expectAfterGap ',' s with
  | none => .ok [] s
  | some afterComma =>
      match nested afterComma with
      | .ok e rest =>
          if rest.length < s.length then (moreArguments nested rest).map (e :: ·)
          else .miss .emptyArgument afterComma
      | .miss _ _ => .ok [] s
      | .fail cause here => .fail cause here
termination_by s.length

/-- Conditions with commas between them; there may be none. -/
def arguments (nested : Reader Expr) (s : List Char) : Outcome (List Expr) :=
  match nested s with
  | .ok e rest => (moreArguments nested rest).map (e :: ·)
  | .miss _ _ => .ok [] s
  | .fail cause here => .fail cause here

/-- A function applied to arguments in parentheses. -/
def call (nested : Reader Expr) (s : List Char) : Outcome Expr :=
  match callHead s with
  | none => .miss (nameMiss (functionPlace s)) (functionPlace s)
  | some ((space, function), afterHead) =>
      match expectAfterGap '(' afterHead with
      | none => .miss .noSign (skipGap afterHead)
      | some inside =>
          (arguments nested inside).andThen fun args rest =>
            match expectAfterGap ')' rest with
            | some rest =>
                .ok (.call (space.map String.ofList) (String.ofList function) args) rest
            | none => .miss .noSign (skipGap rest)

/-- Why no attribute of a stream event is found, and where. -/
def fieldMiss (s : List Char) : Miss × List Char :=
  match name s with
  | none => (nameMiss s, s)
  | some (_, rest) =>
      match expect '.' rest with
      | none => (.noSign, rest)
      | some afterPoint => (nameMiss afterPoint, afterPoint)

/-- An attribute of a stream event: two names with a point between them. -/
def field (s : List Char) : Outcome Expr :=
  Outcome.ofOption (fieldMiss s) <| (name s).bind fun (stream, rest) =>
    (expect '.' rest).bind fun afterPoint =>
      (name afterPoint).map fun (attr, rest) =>
        let (type, rest) := typeAfter [':', ':'] rest
        (.streamField (String.ofList stream) (String.ofList attr) type, rest)

/-- A column: a name and an optional type after two colons. -/
def column (s : List Char) : Outcome Expr :=
  match name s with
  | none => .miss (nameMiss s) s
  | some (attr, rest) =>
      let (type, rest) := typeAfter [':', ':'] rest
      .ok (.column none (String.ofList attr) type) rest

/-- An operand without the gap before it: the first alternative that does not miss. -/
def bareOperand (nested : Reader Expr) (s : List Char) : Outcome Expr :=
  (group nested s).orElse fun _ =>
  (number s).orElse fun _ =>
  (text s).orElse fun _ =>
  (wordConstant "true".toList (.bool true) s).orElse fun _ =>
  (wordConstant "false".toList (.bool false) s).orElse fun _ =>
  (wordConstant "null".toList .null s).orElse fun _ =>
  (parameter s).orElse fun _ =>
  (call nested s).orElse fun _ =>
  (field s).orElse fun _ =>
  column s

/-- An operand, with a gap allowed before it. -/
def operand (nested : Reader Expr) : Reader Expr := fun s => bareOperand nested (skipGap s)

/-! ## Levels -/

/-- The operator between two parts of an arithmetic expression. -/
def mathBetween (signs : List (List Char × MathOp)) : Lexer (Expr → Expr → Expr) := fun s =>
  (signIn signs s).map fun (op, rest) => (fun l r => .math l op r, rest)

/-- Operands joined by the signs of products. -/
def product (nested : Reader Expr) : Reader Expr :=
  chain (mathBetween productSigns) (operand nested)

/-- Products joined by the signs of sums. -/
def sum (nested : Reader Expr) : Reader Expr := chain (mathBetween sumSigns) (product nested)

/-- A sum, or two sums with a comparison between them. A comparison without a second sum is left
unread. -/
def comparison (nested : Reader Expr) : Reader Expr := fun s =>
  (sum nested s).andThen fun left rest =>
    match signIn compareSigns rest with
    | none => .ok left rest
    | some (op, afterOp) =>
        match sum nested afterOp with
        | .ok right rest => .ok (.compare left op right) rest
        | .miss _ _ => .ok left rest
        | .fail cause here => .fail cause here

/-- What can be said behind a comparison. -/
inductive Suffix
  | isNull
  | isNotNull
  | member (store : List Char)
  deriving DecidableEq, Repr

/-- The node that a suffix makes of its operand. -/
def Suffix.apply : Suffix → Expr → Expr
  | isNull, e => .isNull e none
  | isNotNull, e => .not (.isNull e none)
  | member store, e => .member e (String.ofList store)

/-- The text after several reserved words. -/
def keywords (words : List (List Char)) (s : List Char) : Option (List Char) :=
  words.foldlM (fun s word => keyword word s) s

/-- `is not null`, `is null` or `in` and the name of a store. -/
def suffix (s : List Char) : Option (Suffix × List Char) :=
  ((keywords ["is".toList, "not".toList, "null".toList] s).map (Suffix.isNotNull, ·)).or <|
  ((keywords ["is".toList, "null".toList] s).map (Suffix.isNull, ·)).or <|
  ((keyword "in".toList s).bind name).map fun (store, rest) => (Suffix.member store, rest)

/-- A comparison with an optional suffix. -/
def predicate (nested : Reader Expr) : Reader Expr := fun s =>
  (comparison nested s).andThen fun e rest =>
    match suffix rest with
    | some (suffix, rest) => .ok (suffix.apply e) rest
    | none => .ok e rest

/-- A reserved word between two conditions. -/
def wordBetween (word : List Char) (node : Expr → Expr → Expr) : Lexer (Expr → Expr → Expr) :=
  fun s => (keyword word s).map (node, ·)

/-- Terms joined by `and`, and lists of them joined by `or`. -/
def alternatives (term : Reader Expr) : Reader Expr :=
  chain (wordBetween "or".toList .or) (chain (wordBetween "and".toList .and) term)

/-- A term within a budget of nesting levels: `not` and a term, or a predicate. Without budget
reading ends. -/
def term : Nat → Reader Expr
  | 0 => fun s => .fail .tooDeep s
  | budget + 1 => fun s =>
      ((Outcome.ofOption (keywordMiss "not".toList s)
          ((keyword "not".toList s).map ((), ·))).andThen
        fun _ rest => (term budget rest).map .not).orElse
      fun _ => predicate (alternatives (term budget)) s

/-- The deepest nesting of parentheses, calls and `not` that a condition may have. -/
def nestingLimit : Nat := 64

/-- A condition outside all parentheses. -/
def condition : Reader Expr := alternatives (term (nestingLimit + 1))

end Pushdown.Condition
