import Pushdown.Dialect

/-!
# Command-line arguments

Options may stand before and after the condition; a word that names a subcommand ends them. A
value follows its option as an argument of its own or directly, with or without an equals sign.
Arguments are read from the left, and the first mistake ends the reading; asking for the version
ends it too.
-/

namespace Pushdown.Command

/-- How a fragment is shown. -/
inductive OutputFormat
  | table
  | json
  deriving DecidableEq, Repr

/-- The options and the condition read so far. -/
structure Options where
  /-- The dialect instead of the one in the settings. -/
  dialect : Option Dialect := none
  /-- The table alias instead of the one in the settings. -/
  tableAlias : Option String := none
  /-- The path of the file with the settings. -/
  config : Option String := none
  /-- How the fragment is shown. -/
  format : Option OutputFormat := none
  /-- The condition is a tree as a document. -/
  jsonTree : Bool := false
  /-- More is shown. -/
  verbose : Bool := false
  /-- The condition. -/
  condition : Option String := none
  deriving DecidableEq, Repr

/-- What a command line asks for. -/
inductive Request
  | version
  | usage
  | dialects
  | translate (condition : String) (options : Options)
  | explain (condition : String) (options : Options)
  deriving DecidableEq, Repr

/-- An option that takes a value. -/
inductive ValueOption
  | dialect
  | tableAlias
  | config
  | format
  deriving DecidableEq, Repr

/-- An option that takes no value. -/
inductive Flag
  | jsonTree
  | verbose
  | version
  deriving DecidableEq, Repr

/-- Any option. -/
inductive AnyOption
  | withValue (option : ValueOption)
  | flag (flag : Flag)
  deriving DecidableEq, Repr

/-- The option with a long name. -/
def AnyOption.ofName? (name : List Char) : Option AnyOption :=
  match String.ofList name with
  | "dialect" => some (.withValue .dialect)
  | "alias" => some (.withValue .tableAlias)
  | "config" => some (.withValue .config)
  | "format" => some (.withValue .format)
  | "json-tree" => some (.flag .jsonTree)
  | "verbose" => some (.flag .verbose)
  | "version" => some (.flag .version)
  | _ => none

/-- The option with a letter. -/
def AnyOption.ofLetter? (letter : Char) : Option AnyOption :=
  match letter with
  | 'd' => some (.withValue .dialect)
  | 'a' => some (.withValue .tableAlias)
  | 'c' => some (.withValue .config)
  | 'f' => some (.withValue .format)
  | 'v' => some (.flag .verbose)
  | 'V' => some (.flag .version)
  | _ => none

namespace Options

/-- The options with a value for one of them; a second value and a value that does not fit are
refused. -/
def setValue (o : Options) (option : ValueOption) (value : String) : Option Options :=
  match option with
  | .dialect =>
      if o.dialect.isSome then none
      else (Dialect.ofWord? value).map fun d => { o with dialect := some d }
  | .tableAlias =>
      if o.tableAlias.isSome then none else some { o with tableAlias := some value }
  | .config =>
      if o.config.isSome || value.isEmpty then none else some { o with config := some value }
  | .format =>
      if o.format.isSome then none
      else match value with
        | "table" => some { o with format := some .table }
        | "json" => some { o with format := some .json }
        | _ => none

/-- The options with a condition; a second one is refused. -/
def setCondition (o : Options) (condition : String) : Option Options :=
  if o.condition.isSome then none else some { o with condition := some condition }

/-- What is asked for when no subcommand was named. -/
def request (o : Options) : Request :=
  match o.condition with
  | some condition => .translate condition o
  | none => .usage

end Options

/-- The argument starts an option: a hyphen with something behind it. -/
def isOption (arg : String) : Bool :=
  match arg.toList with
  | '-' :: _ :: _ => true
  | _ => false

/-- What reading one argument leads to. -/
inductive Step
  /-- Reading goes on. -/
  | next (options : Options)
  /-- The next argument is the value of this option. -/
  | awaiting (option : ValueOption) (options : Options)
  /-- The version is asked for. -/
  | version
  /-- The argument is refused. -/
  | refused
  deriving DecidableEq, Repr

/-- The step after a value was given to an option. -/
def Step.ofValue (o : Options) (option : ValueOption) (value : List Char) : Step :=
  match o.setValue option (String.ofList value) with
  | some o => .next o
  | none => .refused

/-- The step after a flag. -/
def Step.ofFlag (o : Options) : Flag → Step
  | .jsonTree => if o.jsonTree then .refused else .next { o with jsonTree := true }
  | .verbose => if o.verbose then .refused else .next { o with verbose := true }
  | .version => .version

/-- The step for a long option without its two hyphens. -/
def longStep (o : Options) (body : List Char) : Step :=
  match AnyOption.ofName? (body.takeWhile (· != '=')), body.dropWhile (· != '=') with
  | none, _ => .refused
  | some (.withValue option), '=' :: value => .ofValue o option value
  | some (.withValue option), _ => .awaiting option o
  | some (.flag _), '=' :: _ => .refused
  | some (.flag flag), _ => .ofFlag o flag

/-- The step for letters behind one hyphen. What follows the letter of an option with a value is
its value. -/
def lettersStep (o : Options) : List Char → Step
  | [] => .next o
  | letter :: rest =>
      match AnyOption.ofLetter? letter with
      | none => .refused
      | some (.withValue option) =>
          match rest with
          | [] => .awaiting option o
          | '=' :: value => .ofValue o option value
          | value => .ofValue o option value
      | some (.flag flag) =>
          match Step.ofFlag o flag with
          | .next o => lettersStep o rest
          | step => step

/-- The step for an argument that starts an option. -/
def optionStep (o : Options) (arg : String) : Step :=
  match arg.toList with
  | '-' :: '-' :: body => longStep o body
  | '-' :: letters => lettersStep o letters
  | _ => .refused

/-- The arguments of the subcommand that explains a condition: exactly one condition. -/
def explainRequest (o : Options) (ended : Bool) (condition : Option String) :
    List String → Option Request
  | [] => condition.map fun c => .explain c o
  | arg :: args =>
      if !ended && arg == "--" then explainRequest o true condition args
      else if !ended && isOption arg then none
      else if condition.isSome then none
      else explainRequest o ended (some arg) args

/-- The arguments of the subcommand that lists the dialects: none. -/
def dialectsRequest : List String → Option Request
  | [] => some .dialects
  | ["--"] => some .dialects
  | _ => none

/-- The request of the arguments behind the end of the options. -/
def conditionsOnly (o : Options) : List String → Option Request
  | [] => some o.request
  | arg :: args => (o.setCondition arg).bind fun o => conditionsOnly o args

/-- The request of the arguments that follow those read so far. -/
def requestFrom (o : Options) : List String → Option Request
  | [] => some o.request
  | arg :: args =>
      if arg == "explain" then explainRequest o false none args
      else if arg == "dialects" then dialectsRequest args
      else if arg == "--" then conditionsOnly o args
      else if isOption arg then
        match optionStep o arg with
        | .next o => requestFrom o args
        | .version => some .version
        | .refused => none
        | .awaiting option o =>
            match args with
            | [] => none
            | value :: args =>
                if isOption value then none
                else (o.setValue option value).bind fun o => requestFrom o args
      else (o.setCondition arg).bind fun o => requestFrom o args

/-- What the arguments of a command line ask for; none if they are mistaken. -/
def request? (args : List String) : Option Request := requestFrom {} args

end Pushdown.Command
