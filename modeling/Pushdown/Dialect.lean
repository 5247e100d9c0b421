import Pushdown.Text.Name

/-!
# SQL dialects

A dialect decides how positional markers look and how the not-equal comparison is spelled.
-/

namespace Pushdown

/-- A supported SQL dialect. -/
inductive Dialect
  | generic
  | mysql
  | postgres
  | oracle
  | sqlserver
  | sqlite
  | h2
  deriving DecidableEq, Repr, Inhabited

namespace Dialect

/-- All dialects, in the order in which they are listed. -/
def all : List Dialect := [.generic, .mysql, .postgres, .oracle, .sqlserver, .sqlite, .h2]

/-- The lower-case name. -/
def name : Dialect → String
  | generic => "generic"
  | mysql => "mysql"
  | postgres => "postgres"
  | oracle => "oracle"
  | sqlserver => "sqlserver"
  | sqlite => "sqlite"
  | h2 => "h2"

/-- The positional marker of the bind value at an ordinal counted from zero. -/
def marker (d : Dialect) (ordinal : Nat) : String :=
  match d with
  | postgres => "$" ++ toString (ordinal + 1)
  | oracle => ":" ++ toString (ordinal + 1)
  | sqlserver => "@p" ++ toString (ordinal + 1)
  | generic | mysql | sqlite | h2 => "?"

/-- The usual spelling of the not-equal comparison. -/
def notEqual : Dialect → String
  | oracle | sqlserver => "<>"
  | generic | mysql | postgres | sqlite | h2 => "!="

/-- The position among all dialects. -/
def index (d : Dialect) : Nat := all.idxOf d

/-- The dialect with the given name, in lower case only. -/
def ofName? (name : String) : Option Dialect := all.find? fun d => d.name == name

/-- Further names of a dialect. -/
def otherNames : Dialect → List String
  | generic => ["ansi"]
  | mysql => ["mariadb"]
  | postgres => ["postgresql", "pg"]
  | oracle => []
  | sqlserver => ["mssql"]
  | sqlite => []
  | h2 => []

/-- The letters `A` to `Z` of a name in lower case. -/
def foldName (name : String) : String := String.ofList (Text.lowerAscii name.toList)

/-- The dialect that a user names, by any of its names and in any ASCII casing. -/
def ofWord? (word : String) : Option Dialect :=
  all.find? fun d => (d.name :: d.otherNames).contains (foldName word)

end Dialect

end Pushdown
