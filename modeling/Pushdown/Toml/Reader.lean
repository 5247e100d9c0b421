import Pushdown.Toml.Lexeme
import Pushdown.Toml.Table

/-!
# Reading TOML documents

A document is a sequence of lines, each a header, a key with its value, or nothing but a
comment. Values are strings, empty arrays and tables in braces.
-/

namespace Pushdown.Toml

/-- The character may stand in a key without quotes. -/
def isKeyChar (c : Char) : Bool := c.isAlphanum || c == '_' || c == '-'

/-- One key: in quotes, or a run of key characters. -/
def simpleKey (s : List Char) : Option (String × List Char) :=
  match s with
  | '"' :: _ | '\x27' :: _ => (lineString s).map fun (cs, rest) => (String.ofList cs, rest)
  | _ =>
      if (s.takeWhile isKeyChar).isEmpty then none
      else some (String.ofList (s.takeWhile isKeyChar), s.dropWhile isKeyChar)

/-- Keys with points between them, blanks allowed around each. The fuel bounds their number. -/
def keyPath : Nat → List Char → Option (List String × List Char)
  | 0, _ => none
  | fuel + 1, s =>
      (simpleKey (skipSpace s)).bind fun (key, rest) =>
        match skipSpace rest with
        | '.' :: rest => (keyPath fuel rest).map fun (path, left) => (key :: path, left)
        | left => some ([key], left)

/-- The text after an equals sign and the blanks behind it. -/
def afterEquals : List Char → Option (List Char)
  | '=' :: rest => some (skipSpace rest)
  | _ => none

mutual

/-- A value. The fuel bounds the nesting of braces and the number of entries. -/
def value : Nat → List Char → Option (Item × List Char)
  | 0, _ => none
  | fuel + 1, s =>
      match s with
      | '[' :: rest =>
          match skipLines false rest with
          | some (']' :: left) => some (.emptyArray, left)
          | _ => none
      | '\x7b' :: rest =>
          match skipSpace rest with
          | '\x7d' :: left => some (.table .braces [], left)
          | rest => (braceEntries fuel [] rest).map fun (es, left) => (.table .braces es, left)
      | s => (anyString s).map fun (cs, left) => (.text (String.ofList cs), left)

/-- The entries of a table in braces that follow the ones read so far, up to the closing brace. -/
def braceEntries : Nat → Entries → List Char → Option (Entries × List Char)
  | 0, _, _ => none
  | fuel + 1, entries, s =>
      (keyPath (s.length + 1) s).bind fun (path, rest) =>
        (afterEquals rest).bind fun rest =>
          (value fuel rest).bind fun (item, rest) =>
            (assign path item entries).bind fun entries =>
              match skipSpace rest with
              | ',' :: rest => braceEntries fuel entries rest
              | '\x7d' :: left => some (entries, left)
              | _ => none

end

/-- A line with a header: the path of the table, and the text after the line. -/
def headerLine (s : List Char) : Option (List String × List Char) :=
  (keyPath (s.length + 1) s).bind fun (path, rest) =>
    match rest with
    | ']' :: rest => (finishLine rest).map (path, ·)
    | _ => none

/-- A line with a key and its value, and the text after the line. -/
def entryLine (s : List Char) : Option ((List String × Item) × List Char) :=
  (keyPath (s.length + 1) s).bind fun (path, rest) =>
    (afterEquals rest).bind fun rest =>
      (value (rest.length + 1) rest).bind fun (item, rest) =>
        (finishLine rest).map fun left => ((path, item), left)

/-- The entries of the document after its remaining lines, of which the first belongs to the table
at the given path. The fuel bounds the number of lines. -/
def lines : Nat → List String → Entries → List Char → Option Entries
  | 0, _, _, _ => none
  | fuel + 1, current, root, s =>
      match skipSpace s with
      | [] => some root
      | '#' :: rest => (finishLine ('#' :: rest)).bind (lines fuel current root)
      | '\n' :: rest => lines fuel current root rest
      | '\r' :: '\n' :: rest => lines fuel current root rest
      | '[' :: rest =>
          (headerLine rest).bind fun (path, left) =>
            (openHeader path root).bind fun root => lines fuel path root left
      | s =>
          (entryLine s).bind fun ((path, item), left) =>
            (changeAt current (assign path item) root).bind fun root =>
              lines fuel current root left

/-- The entries of a whole document. A byte order mark may stand before it. -/
def read (text : String) : Option Entries :=
  let s := match text.toList with
    | '\ufeff' :: rest => rest
    | s => s
  lines (s.length + 1) [] [] s

end Pushdown.Toml
