import Pushdown.Command.Style
import Pushdown.Expr.Printer
import Pushdown.Json.Config

/-!
# Screens of the command line

The lines that the command line shows, as functions of what they show.
-/

namespace Pushdown.Command

/-- Lines as one text. -/
def unlines (lines : List String) : String := String.join (lines.map (· ++ "\n"))

namespace Screen

variable (screen : Screen)

/-- The screen without a condition. -/
def usage : List String :=
  [screen.paint title "condsql — condition pushdown", "",
   "Usage: condsql <CONDITION> [OPTIONS]", "", "Try: condsql --help"]

/-- The line of one bind value. -/
def parameterLine (dialect : Dialect) (ordinal : Nat) (value : BoundValue) : String :=
  let kind := if value.isConstant then "const" else "var"
  "  " ++ screen.paintWith (padLeft 4) (plain .cyan) (dialect.marker ordinal)
    ++ "  " ++ screen.paintWith (padRight 6) faint kind
    ++ " " ++ screen.paintWith (padRight 7) (plain .white) value.type.display
    ++ " " ++ screen.paint (plain .yellow) value.content

/-- A fragment with its bind values. -/
def fragment (f : Fragment) (dialect : Dialect) : List String :=
  [screen.paint heading "Fragment:", screen.paint (plain .white) f.sql, ""] ++
    if f.parameters.isEmpty then [screen.paint faint "(no parameters)"]
    else
      screen.paint (plain .cyan) "Parameters:" ::
        f.parameters.mapIdx (screen.parameterLine dialect)

/-- The line of a node: its kind, and what else is shown. -/
def nodeLine (level : Nat) (style : Style) (kind : String) (details : List String) : String :=
  String.ofList (List.replicate (2 * level) ' ') ++
    " ".intercalate (screen.paint style kind :: details)

mutual

/-- The lines of a tree, each node one level deeper than the node that holds it. -/
def tree (level : Nat) : Expr → List String
  | .and l r =>
      screen.nodeLine level (plain .cyan) "AND" [] :: (tree (level + 1) l ++ tree (level + 1) r)
  | .or l r =>
      screen.nodeLine level (plain .cyan) "OR" [] :: (tree (level + 1) l ++ tree (level + 1) r)
  | .not e => screen.nodeLine level (plain .cyan) "NOT" [] :: tree (level + 1) e
  | .compare l op r =>
      screen.nodeLine level (plain .cyan) "Compare" [screen.paint (plain .white) op.symbol] ::
        (tree (level + 1) l ++ tree (level + 1) r)
  | .math l op r =>
      screen.nodeLine level (plain .cyan) "Math" [screen.paint (plain .white) op.symbol] ::
        (tree (level + 1) l ++ tree (level + 1) r)
  | .isNull e _ => screen.nodeLine level (plain .cyan) "IS NULL" [] :: tree (level + 1) e
  | .eventNull stream =>
      screen.nodeLine level (plain .cyan) "IS NULL" [] ::
        stream.toList.map fun s => screen.nodeLine (level + 1) faint "stream" [s]
  | .member e store =>
      screen.nodeLine level (plain .cyan) "IN" [screen.paint (plain .white) store] ::
        tree (level + 1) e
  | .call space name args =>
      let full := if space.getD "" = "" then name else space.getD "" ++ ":" ++ name
      screen.nodeLine level (plain .cyan) "Function" [screen.paint (plain .white) full] ::
        trees (level + 1) args
  | .constant value type =>
      [screen.nodeLine level faint "Constant"
        [screen.paint (plain .yellow) value.display, type.display]]
  | .parameter index type =>
      [screen.nodeLine level faint "Parameter"
        ["$" ++ screen.paint (plain .yellow) (toString index.toNat), type.display]]
  | .eventField id _ _ type =>
      [screen.nodeLine level faint "Stream var" [screen.paint (plain .yellow) id, type.display]]
  | .column _ name type =>
      [screen.nodeLine level faint "Column" [screen.paint (plain .white) name, type.display]]

/-- The lines of several trees. -/
def trees (level : Nat) : List Expr → List String
  | [] => []
  | e :: es => tree level e ++ trees level es

end

/-- What stands before the explanation of a condition. -/
def explanationStart (condition : String) : List String :=
  [screen.paint title "condsql Condition Explanation", "",
   screen.paint faint "Condition:" ++ " " ++ screen.paint (plain .yellow) condition, ""]

/-- The tree of a condition and the number of its bind values. -/
def explanation (e : Expr) : List String :=
  screen.paint heading "Expression Tree:" :: screen.tree 1 e ++
    ["", "  " ++ screen.paint faint "Bind values:" ++ " "
      ++ screen.paint (plain .cyan) (toString e.leafCount)]

/-- The fragment of an explained condition. -/
def explainedFragment (f : Fragment) : List String :=
  ["", screen.paint heading "Generated SQL:", "  " ++ screen.paint (plain .white) f.sql]

/-- Why an explained condition has no fragment. -/
def explainedError (e : Error) : List String :=
  ["", screen.paint warning "Not translatable:", "  " ++ e.message]

/-- One dialect with its first markers and its not-equal comparison. -/
def dialectLine (d : Dialect) : String :=
  screen.paintWith (padRight 12) title d.name ++ " "
    ++ screen.paintWith (padRight 10) (plain .yellow) (d.marker 0 ++ ", " ++ d.marker 1) ++ " "
    ++ screen.paint faint d.notEqual

/-- All dialects. -/
def dialects : List String :=
  [screen.paint title "condsql Dialects", "",
   screen.paintWith (padRight 12) columnHead "Dialect" ++ " "
    ++ screen.paintWith (padRight 10) columnHead "Markers" ++ " "
    ++ screen.paint columnHead "Not equal",
   screen.paint faint (String.ofList (List.replicate 40 '─'))] ++
    Dialect.all.map screen.dialectLine

end Screen

end Pushdown.Command
