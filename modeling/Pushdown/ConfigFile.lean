import Pushdown.Toml.Config

/-!
# Settings from a file
-/

namespace Pushdown

/-- Why the content of a file is not at hand. -/
inductive FileProblem
  /-- There is no file at the path. -/
  | missing
  /-- The path leads through something that is no directory. -/
  | notDirectory
  /-- There is a directory at the path. -/
  | directory
  /-- The path, or a name on it, is too long. -/
  | tooLong
  /-- The file must not be read. -/
  | denied
  /-- The content is no text in UTF-8. -/
  | notText
  /-- The system gave another reason. -/
  | other (detail : String)
  deriving DecidableEq, Repr

/-- The text of a file problem. -/
def FileProblem.message : FileProblem → String
  | missing => "No such file or directory (os error 2)"
  | notDirectory => "Not a directory (os error 20)"
  | directory => "Is a directory (os error 21)"
  | tooLong => "File name too long (os error 36)"
  | denied => "Permission denied (os error 13)"
  | notText => "stream did not contain valid UTF-8"
  | other detail => detail

/-- The text of a file, or why it is not at hand. -/
abbrev FileText := Except FileProblem String

/-- The text that bytes are in UTF-8. -/
def FileText.ofBytes (bytes : ByteArray) : FileText :=
  match String.fromUTF8? bytes with
  | some text => .ok text
  | none => .error .notText

/-- Why no settings were loaded. -/
inductive LoadProblem
  | file (problem : FileProblem)
  | settings (problem : Config.Problem)
  deriving DecidableEq, Repr

/-- The problem as reported. -/
def LoadProblem.toError : LoadProblem → Error
  | file problem => .io problem.message
  | settings problem => problem.toError

/-- The settings that a file gives. -/
def Config.load (content : FileText) : Except LoadProblem Config :=
  match content with
  | .error problem => .error (.file problem)
  | .ok text => (Config.ofToml text).mapError .settings

end Pushdown
