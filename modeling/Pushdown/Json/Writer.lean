import Pushdown.Json.Basic

/-!
# Writing JSON

The compact form has no blanks. The indented form has two spaces a level and writes an empty
array or object without a line break. Only the quote, the backslash and the control characters
below the space are escaped.
-/

namespace Pushdown.Json

/-- The hexadecimal digit of a number below sixteen, in lower case. -/
def hexDigit (n : Nat) : Char := Nat.digitChar n

/-- A character as it stands in a string. -/
def escapeChar (c : Char) : List Char :=
  if c = '"' then ['\\', '"']
  else if c = '\\' then ['\\', '\\']
  else if c = '\x08' then ['\\', 'b']
  else if c = '\t' then ['\\', 't']
  else if c = '\n' then ['\\', 'n']
  else if c = '\x0c' then ['\\', 'f']
  else if c = '\r' then ['\\', 'r']
  else if c.toNat < 0x20 then
    ['\\', 'u', '0', '0', hexDigit (c.toNat / 16), hexDigit (c.toNat % 16)]
  else [c]

/-- A text in quotes. -/
def quote (s : String) : String :=
  String.ofList ('"' :: (s.toList.flatMap escapeChar ++ ['"']))

/-- The content of a string in quotes; a string that is no text shows a replacement sign. -/
def quoteContent (content : Option String) : String := quote (content.getD "\ufffd")

mutual

/-- The document without blanks. -/
def compact : Json → String
  | null => "null"
  | bool b => if b then "true" else "false"
  | number numeral => numeral
  | string content => quoteContent content
  | array items => "[" ++ compactItems items ++ "]"
  | object members => "\x7b" ++ compactMembers members ++ "\x7d"

/-- The items with commas between them. -/
def compactItems : List Json → String
  | [] => ""
  | [item] => item.compact
  | item :: items => item.compact ++ "," ++ compactItems items

/-- The members with commas between them. -/
def compactMembers : List (Option String × Json) → String
  | [] => ""
  | [(key, value)] => quoteContent key ++ ":" ++ value.compact
  | (key, value) :: members =>
      quoteContent key ++ ":" ++ value.compact ++ "," ++ compactMembers members

end

/-- A line break and the blanks in front of a line at a level. -/
def lineBreak (level : Nat) : String := "\n" ++ String.ofList (List.replicate (2 * level) ' ')

mutual

/-- The document in indented form, for the given level of its first line. -/
def indented (level : Nat) : Json → String
  | null => "null"
  | bool b => if b then "true" else "false"
  | number numeral => numeral
  | string content => quoteContent content
  | array [] => "[]"
  | array (item :: items) =>
      "[" ++ lineBreak (level + 1) ++ indentedItems (level + 1) (item :: items)
        ++ lineBreak level ++ "]"
  | object [] => "\x7b\x7d"
  | object (m :: members) =>
      "\x7b" ++ lineBreak (level + 1) ++ indentedMembers (level + 1) (m :: members)
        ++ lineBreak level ++ "\x7d"

/-- The items of an array, each on a line of its own. -/
def indentedItems (level : Nat) : List Json → String
  | [] => ""
  | [item] => indented level item
  | item :: items => indented level item ++ "," ++ lineBreak level ++ indentedItems level items

/-- The members of an object, each on a line of its own. -/
def indentedMembers (level : Nat) : List (Option String × Json) → String
  | [] => ""
  | [(key, value)] => quoteContent key ++ ": " ++ indented level value
  | (key, value) :: members =>
      quoteContent key ++ ": " ++ indented level value ++ "," ++ lineBreak level
        ++ indentedMembers level members

end

end Pushdown.Json
