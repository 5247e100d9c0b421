/-!
# Lexemes of TOML documents

Blanks, comments, line ends, and strings in four forms: between single or triple quotes, with
escapes or without. Lines end with a line feed, which a carriage return may precede.
-/

namespace Pushdown.Toml

/-! ## Blanks and line ends -/

/-- The character may stand between the lexemes of a line. -/
def isSpace (c : Char) : Bool := c == ' ' || c == '\t'

/-- The text after the blanks at its front. -/
def skipSpace (s : List Char) : List Char := s.dropWhile isSpace

/-- The character may stand in a comment or a raw string: a tab, or no control character. -/
def isPlain (c : Char) : Bool := c == '\t' || (0x20 ≤ c.toNat && c.toNat != 0x7F)

/-- The text after a line end in front. -/
def lineEnd : List Char → Option (List Char)
  | '\n' :: rest => some rest
  | '\r' :: '\n' :: rest => some rest
  | _ => none

/-- The text after the rest of a line, which may only be a comment. -/
def finishLine (s : List Char) : Option (List Char) :=
  let left := match skipSpace s with
    | '#' :: rest => rest.dropWhile isPlain
    | left => left
  if left.isEmpty then some [] else lineEnd left

/-- The text after the blanks, line ends and comments at its front. -/
def skipLines (inComment : Bool) : List Char → Option (List Char)
  | [] => some []
  | '\r' :: '\n' :: rest => skipLines false rest
  | c :: rest =>
      if c == '\n' then skipLines false rest
      else if inComment then if isPlain c then skipLines true rest else none
      else if isSpace c then skipLines false rest
      else if c == '#' then skipLines true rest
      else some (c :: rest)

/-! ## Strings -/

/-- The value of a hexadecimal digit. -/
def hexDigit? (c : Char) : Option Nat :=
  if '0' ≤ c ∧ c ≤ '9' then some (c.toNat - '0'.toNat)
  else if 'a' ≤ c ∧ c ≤ 'f' then some (c.toNat - 'a'.toNat + 10)
  else if 'A' ≤ c ∧ c ≤ 'F' then some (c.toNat - 'A'.toNat + 10)
  else none

/-- The character with the code point that hexadecimal digits denote. -/
def hexChar? (digits : List Char) : Option Char :=
  (digits.foldlM (fun n c => (hexDigit? c).map (16 * n + ·)) 0).bind fun n =>
    if n.isValidChar then some (Char.ofNat n) else none

/-- The character that a short escape stands for. -/
def shortEscape? (c : Char) : Option Char :=
  if c = 'b' then some '\x08'
  else if c = 't' then some '\t'
  else if c = 'n' then some '\n'
  else if c = 'f' then some '\x0c'
  else if c = 'r' then some '\r'
  else if c = '"' then some '"'
  else if c = '\\' then some '\\'
  else none

/-- The text is blank up to a line end. -/
def blankToLineEnd (s : List Char) : Bool := (lineEnd (skipSpace s)).isSome

/-- A character in front of what was read. -/
def withChar (c : Char) (read : Option (List Char × List Char)) : Option (List Char × List Char) :=
  read.map fun (cs, rest) => (c :: cs, rest)

/-- The quotes that may stand directly before three closing ones, and the text behind all. -/
def extraQuotes (quote : Char) : List Char → List Char × List Char
  | [] => ([], [])
  | [c] => if c = quote then ([quote], []) else ([], [c])
  | c :: d :: rest =>
      if c = quote then
        if d = quote then ([quote, quote], rest) else ([quote], d :: rest)
      else ([], c :: d :: rest)

/-- The content of a string with escapes up to its closing quotes, and the text behind them. In a
string of several lines a backslash at the end of a line skips all blanks and line ends that
follow; `skipping` says that they are being skipped. -/
def escapedBody (lines skipping : Bool) : List Char → Option (List Char × List Char)
  | [] => none
  | '"' :: rest =>
      if lines then
        match rest with
        | '"' :: '"' :: rest => some (extraQuotes '"' rest)
        | _ => withChar '"' (escapedBody lines false rest)
      else some ([], rest)
  | '\\' :: 'u' :: a :: b :: c :: d :: rest =>
      (hexChar? [a, b, c, d]).bind fun e => withChar e (escapedBody lines false rest)
  | '\\' :: 'U' :: a :: b :: c :: d :: e :: f :: g :: h :: rest =>
      (hexChar? [a, b, c, d, e, f, g, h]).bind fun e => withChar e (escapedBody lines false rest)
  | '\\' :: c :: rest =>
      if lines && blankToLineEnd (c :: rest) then escapedBody lines true rest
      else (shortEscape? c).bind fun e => withChar e (escapedBody lines false rest)
  | '\r' :: '\n' :: rest =>
      if !lines then none
      else if skipping then escapedBody lines true rest
      else withChar '\n' (escapedBody lines false rest)
  | c :: rest =>
      if skipping && (isSpace c || c == '\n') then escapedBody lines true rest
      else if lines && c == '\n' then withChar '\n' (escapedBody lines false rest)
      else if isPlain c && c != '\\' then withChar c (escapedBody lines false rest)
      else none

/-- The content of a string without escapes up to its closing quotes, and the text behind them. -/
def rawBody (lines : Bool) : List Char → Option (List Char × List Char)
  | [] => none
  | '\x27' :: rest =>
      if lines then
        match rest with
        | '\x27' :: '\x27' :: rest => some (extraQuotes '\x27' rest)
        | _ => withChar '\x27' (rawBody lines rest)
      else some ([], rest)
  | '\r' :: '\n' :: rest => if lines then withChar '\n' (rawBody lines rest) else none
  | c :: rest =>
      if lines && c == '\n' then withChar '\n' (rawBody lines rest)
      else if isPlain c then withChar c (rawBody lines rest)
      else none

/-- A string on one line. -/
def lineString : List Char → Option (List Char × List Char)
  | '"' :: rest => escapedBody false false rest
  | '\x27' :: rest => rawBody false rest
  | _ => none

/-- A string of either kind. A line end directly behind three opening quotes is no content. -/
def anyString : List Char → Option (List Char × List Char)
  | '"' :: '"' :: '"' :: rest => escapedBody true false ((lineEnd rest).getD rest)
  | '\x27' :: '\x27' :: '\x27' :: rest => rawBody true ((lineEnd rest).getD rest)
  | s => lineString s

end Pushdown.Toml
