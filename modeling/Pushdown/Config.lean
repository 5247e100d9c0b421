import Pushdown.Dialect
import Pushdown.Error
import Pushdown.Operator

/-!
# Settings

The dialect, the alias of the table whose columns a condition names, and an optional spelling of
the not-equal comparison.
-/

namespace Pushdown

/-- The settings under which a tree becomes a fragment. -/
structure Config where
  /-- The dialect of the fragment. -/
  dialect : Dialect := .generic
  /-- The alias that stands before every column. -/
  tableAlias : String := "t"
  /-- The spelling of the not-equal comparison, if it is not the dialect's. -/
  notEqual : Option String := none
  deriving DecidableEq, Repr, Inhabited

namespace Config

/-- Why settings are refused. -/
inductive Problem
  /-- No dialect has this name. -/
  | unknownDialect (name : String)
  /-- The alias is empty or has a character that no name has. -/
  | tableAlias (found : String)
  /-- The comparison is spelled in an unknown way. -/
  | notEqual (found : String)
  /-- The document with the settings is malformed. -/
  | malformed
  deriving DecidableEq, Repr

/-- The text of a problem. -/
def Problem.message : Problem → String
  | unknownDialect name => "Unknown dialect: '" ++ name ++ "'"
  | tableAlias found => "Invalid table alias: '" ++ found ++ "'"
  | notEqual found => "Invalid not_equal operator: '" ++ found ++ "'. Expected '!=' or '<>'"
  | malformed => "TOML parse error"

/-- The problem as reported. -/
def Problem.toError (p : Problem) : Error := .config p.message

/-- The spelling of a comparison under the settings. -/
def compareSymbol (c : Config) : CompareOp → String
  | .eq => "="
  | .ne => c.notEqual.getD c.dialect.notEqual
  | .gt => ">"
  | .gte => ">="
  | .lt => "<"
  | .lte => "<="

/-- The alias is not empty and made of characters of names. -/
def validAlias (name : String) : Bool :=
  !name.toList.isEmpty && name.toList.all Text.isNameChar

/-- The settings, if the alias and the comparison can stand in a fragment. The alias is checked
first. -/
def validate (c : Config) : Except Problem Config :=
  if !validAlias c.tableAlias then .error (.tableAlias c.tableAlias)
  else
    match c.notEqual with
    | none => .ok c
    | some op => if op == "!=" || op == "<>" then .ok c else .error (.notEqual op)

/-- The dialect that a user names. -/
def dialectNamed (word : String) : Except Problem Dialect :=
  match Dialect.ofWord? word with
  | some d => .ok d
  | none => .error (.unknownDialect (Dialect.foldName word))

end Config

end Pushdown
