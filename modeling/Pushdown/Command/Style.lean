/-!
# Styled terminal text

A style is a weight and a colour. Styled text stands between two escape sequences; padding
belongs to the text inside. A reset inside the text is followed by the style again, so that the
style holds to the end.
-/

namespace Pushdown.Command

/-- How strongly a text is shown. -/
inductive Weight
  | normal
  | bold
  | dimmed
  deriving DecidableEq, Repr

/-- The colour of a text. -/
inductive Colour
  | red
  | green
  | yellow
  | cyan
  | white
  deriving DecidableEq, Repr

/-- A weight and an optional colour. -/
structure Style where
  /-- How strongly the text is shown. -/
  weight : Weight := .normal
  /-- The colour, if there is one. -/
  colour : Option Colour := none
  deriving DecidableEq, Repr

/-- The code of a weight, if it has one. -/
def Weight.code? : Weight → Option String
  | normal => none
  | bold => some "1"
  | dimmed => some "2"

/-- The code of a colour. -/
def Colour.code : Colour → String
  | red => "31"
  | green => "32"
  | yellow => "33"
  | cyan => "36"
  | white => "37"

/-- The sequence that ends all styles. -/
def reset : String := "\x1b[0m"

/-- The sequence that starts a style. -/
def Style.start (s : Style) : String :=
  "\x1b[" ++ ";".intercalate (s.weight.code?.toList ++ (s.colour.map Colour.code).toList) ++ "m"

/-- The text with spaces behind it, up to a width in characters. -/
def padRight (width : Nat) (text : String) : String :=
  text ++ String.ofList (List.replicate (width - text.length) ' ')

/-- The text with spaces before it, up to a width in characters. -/
def padLeft (width : Nat) (text : String) : String :=
  String.ofList (List.replicate (width - text.length) ' ') ++ text

/-- Where text is shown: with colours or without. -/
structure Screen where
  /-- Styles are written. -/
  colours : Bool
  deriving DecidableEq, Repr

/-- The styled text, padded inside the style. -/
def Screen.paintWith (screen : Screen) (pad : String → String) (style : Style) (text : String) :
    String :=
  if screen.colours then
    style.start ++ pad (text.replace reset (reset ++ style.start)) ++ reset
  else pad text

/-- The styled text. -/
def Screen.paint (screen : Screen) (style : Style) (text : String) : String :=
  screen.paintWith id style text

/-! ## The styles in use -/

/-- The title of a screen. -/
def title : Style := ⟨.bold, some .cyan⟩

/-- The heading of a part. -/
def heading : Style := ⟨.bold, some .green⟩

/-- The heading of a warning. -/
def warning : Style := ⟨.bold, some .yellow⟩

/-- The word before an error. -/
def alarm : Style := ⟨.bold, some .red⟩

/-- The head of a column. -/
def columnHead : Style := ⟨.bold, some .white⟩

/-- A label that stands back. -/
def faint : Style := ⟨.dimmed, none⟩

/-- A text of one colour. -/
def plain (colour : Colour) : Style := ⟨.normal, some colour⟩

end Pushdown.Command
