/-!
# Errors as reported

Every part of the library has its own causes of failure. This is the common form in which they
are reported: a kind with its heading, and the detail that the cause gives.
-/

namespace Pushdown

/-- An error as reported. -/
inductive Error
  /-- A function with a name space cannot be expressed. -/
  | unsupported (space function : String)
  /-- A translator or its parts are not consistent. -/
  | internal (detail : String)
  /-- The text of a condition cannot be read. -/
  | parse (position : Nat) (detail : String)
  /-- The settings cannot be used. -/
  | config (detail : String)
  /-- A file cannot be read. -/
  | io (detail : String)
  /-- A document cannot be decoded. -/
  | json
  deriving DecidableEq, Repr

/-- The text of an error. -/
def Error.message : Error → String
  | unsupported space function =>
      "Unsupported feature: function namespaces are not supported, but namespace '" ++ space
        ++ "' was specified for '" ++ function ++ "'"
  | internal detail => "Internal consistency error: " ++ detail
  | parse position detail => "Parse error at position " ++ toString position ++ ": " ++ detail
  | config detail => "Configuration error: " ++ detail
  | io detail => "IO error: " ++ detail
  | json => "JSON error"

end Pushdown
