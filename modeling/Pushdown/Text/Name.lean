import Pushdown.Text.Alphabetic
import Pushdown.Text.Numeric

/-!
# Names and reserved words

A name starts with an alphabetic character or an underscore and goes on with alphabetic or
numeric characters and underscores. The eight reserved words, in any ASCII casing, are not
names.
-/

namespace Pushdown.Text

/-- The character is alphabetic or numeric. -/
def isAlphanumeric (c : Char) : Bool := isAlphabetic c || isNumeric c

/-- The character can start a name. -/
def isNameStart (c : Char) : Bool := isAlphabetic c || c == '_'

/-- The character can stand inside a name. -/
def isNameChar (c : Char) : Bool := isAlphanumeric c || c == '_'

/-- The text with the letters `A` to `Z` in lower case and all else unchanged. -/
def lowerAscii (cs : List Char) : List Char := cs.map Char.toLower

/-- The words of the condition language that are not names. -/
def reservedWords : List (List Char) :=
  ["and".toList, "or".toList, "not".toList, "is".toList, "null".toList, "in".toList,
   "true".toList, "false".toList]

/-- The text is a reserved word in some ASCII casing. -/
def isReserved (cs : List Char) : Bool := reservedWords.contains (lowerAscii cs)

/-- The text is a name: well formed and not reserved. -/
def isName : List Char → Bool
  | [] => false
  | c :: cs => isNameStart c && cs.all isNameChar && !isReserved (c :: cs)

end Pushdown.Text
