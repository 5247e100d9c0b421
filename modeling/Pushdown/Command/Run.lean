import Pushdown.Command.Arguments
import Pushdown.Command.Report
import Pushdown.Condition.Parse
import Pushdown.FileTree
import Pushdown.Json.Expr
import Pushdown.Translator

/-!
# Running a command line

The whole program apart from the system and the terminal: which file the settings of a request are
in, and what the request shows and how it ends, given the text of that file.
-/

namespace Pushdown.Command

/-- What a run shows, and its exit code. -/
structure Output where
  /-- The exit code. -/
  exit : Nat
  /-- What is shown. -/
  stdout : String
  /-- What is shown as an error. -/
  stderr : String
  deriving DecidableEq, Repr

/-- The file with the settings. -/
structure SettingsFile where
  /-- The path as given. -/
  path : String
  /-- The text, or why it is not at hand. -/
  content : FileText

/-- The path of a name in a directory. -/
def pathIn (directory name : String) : String :=
  if directory.endsWith "/" then directory ++ name else directory ++ "/" ++ name

/-- The path of the usual settings file, by the directory for settings and the home directory. A
directory for settings counts only if its path starts at the root, and otherwise there is one in
the home directory. -/
def usualPath (configHome home : Option String) : Option String :=
  let directory := (configHome.filter fun path => path.startsWith "/").or
    ((home.filter fun path => path != "").map fun path => pathIn path ".config")
  directory.map fun path => pathIn (pathIn path "condsql") "config.toml"

section Files

variable {m : Type → Type} [Monad m] (files : Files m)

/-- The path of the settings: the one given as an option, else the one of the environment, else
the usual one if something stands there. -/
def Options.settingsPath (o : Options) (environment usual : Option String) : m (Option String) :=
  match o.config.or environment with
  | some path => return some path
  | none => usual.filterM files.holds

/-- The options of a request that reads settings. -/
def Request.options? : Request → Option Options
  | .translate _ o => some o
  | .explain _ o => some o
  | _ => none

/-- The file with the settings of a request, if the request reads settings and there is one. -/
def Request.findSettings (request : Request) (environment usual : Option String) :
    m (Option SettingsFile) := do
  match request.options? with
  | none => return none
  | some o =>
      match ← o.settingsPath files environment usual with
      | none => return none
      | some path => return some ⟨path, ← files.read path⟩

end Files

/-- The file with the settings of a request, among the files around a place. -/
def Request.settingsFile (request : Request) (place : Place) (environment usual : Option String) :
    Option SettingsFile :=
  Id.run (request.findSettings place.files environment usual)

/-- The text of an error with its causes. A file problem is shown as the error and as its cause. -/
def errorChain : Error → String
  | .io detail => (Error.io detail).message ++ ": " ++ detail
  | e => e.message

/-- The settings of a file with the options of the command line over them. -/
def settings (file : Option SettingsFile) (o : Options) : Except String Config := do
  let base ← match file with
    | none => .ok {}
    | some file =>
        (Config.load file.content).mapError fun problem =>
          "failed to load " ++ file.path ++ ": " ++ errorChain problem.toError
  let c : Config :=
    { base with
      dialect := o.dialect.getD base.dialect
      tableAlias := o.tableAlias.getD base.tableAlias }
  c.validate.mapError fun problem => errorChain problem.toError

/-- The tree of a condition, given as text or as a document. -/
def readCondition (condition : String) (o : Options) : Except String Expr :=
  if o.jsonTree then
    match Expr.ofJsonText? condition with
    | some e => .ok e
    | none => .error (errorChain .json)
  else (Condition.parse condition).mapError fun problem => errorChain problem.toError

/-- Lines shown before the end of a run, and how it ends: well, or with an error. -/
abbrev Shown := List String × Except String Unit

/-- Lines before the rest of a run. -/
def Shown.after (lines : List String) (shown : Shown) : Shown := (lines ++ shown.1, shown.2)

/-- The rest of a run that needs a result. -/
def Shown.using {α : Type} (result : Except String α) (rest : α → Shown) : Shown :=
  match result with
  | .ok a => rest a
  | .error message => ([], .error message)

/-- The lines of a run that ends well. -/
def Shown.done (lines : List String) : Shown := (lines, .ok ())

variable (screen : Screen)

/-- A fragment in the format that the options ask for. -/
def fragmentShown (f : Fragment) (c : Config) (o : Options) : List String :=
  match o.format with
  | some .json => [f.toJson.indented 0]
  | some .table => screen.fragment f c.dialect
  | none => screen.fragment f c.dialect

/-- The run that translates a condition. -/
def translateShown (file : Option SettingsFile) (condition : String) (o : Options) : Shown :=
  .after (if o.verbose then
      [screen.paint faint "Input:" ++ " " ++ screen.paint (plain .yellow) condition] else []) <|
  .using (settings file o) fun c =>
  .using (readCondition condition o) fun e =>
  .using ((translate e c).mapError fun failure => errorChain failure.toError) fun f =>
  .done (fragmentShown screen f c o)

/-- The run that explains a condition. -/
def explainShown (file : Option SettingsFile) (condition : String) (o : Options) : Shown :=
  .after (screen.explanationStart condition) <|
  .using (readCondition condition o) fun e =>
  .after (screen.explanation e) <|
  .using (settings file o) fun c =>
  .done <| match translate e c with
    | .ok f => screen.explainedFragment f
    | .error failure => screen.explainedError failure.toError

/-- The run of a request. -/
def shown (file : Option SettingsFile) : Request → Shown
  | .version => .done ["condsql 0.1.0"]
  | .usage => .done screen.usage
  | .dialects => .done screen.dialects
  | .translate condition o => translateShown screen file condition o
  | .explain condition o => explainShown screen file condition o

/-- What a request shows, and how it ends. -/
def run (file : Option SettingsFile) (request : Request) : Output :=
  match shown screen file request with
  | (lines, .ok ()) => ⟨0, unlines lines, ""⟩
  | (lines, .error message) =>
      ⟨1, unlines lines, screen.paint alarm "Error:" ++ " " ++ message ++ "\n"⟩

end Pushdown.Command
