import Pushdown.Command.Run

/-!
# The command line

Reads the arguments, the environment and at most one file, and shows what the run of the request
gives.
-/

namespace Pushdown.Command

/-- The file problem that a system error is. -/
def problemOf : IO.Error → FileProblem
  | .noFileOrDirectory .. => .missing
  | .permissionDenied .. => .denied
  | .inappropriateType _ code _ => if code == 21 then .directory else .notDirectory
  | .invalidArgument _ code detail =>
      if code == 36 || code == 0 - 36 then .tooLong else .other detail
  | e => .other (toString e)

/-- The text of the file at a path. -/
def readFile (path : String) : IO FileText := do
  try
    return .ofBytes (← IO.FS.readBinFile path)
  catch e => return .error (problemOf e)

/-- Something stands at the path. -/
def standsAt (path : String) : IO Bool := do
  try
    discard (IO.FS.realPath path)
    return true
  catch _ => return false

/-- The files of the system. -/
def systemFiles : Files IO := ⟨standsAt, readFile⟩

/-- The file with the settings of a request, if there is one. -/
def settingsFile (request : Request) : IO (Option SettingsFile) := do
  let usual := usualPath (← IO.getEnv "XDG_CONFIG_HOME") (← IO.getEnv "HOME")
  request.findSettings systemFiles (← IO.getEnv "CONDSQL_CONFIG") usual

/-- Styles are written: they are forced, or the output is a terminal and they are not refused. -/
def coloursWanted : IO Bool := do
  let forced ← IO.getEnv "CLICOLOR_FORCE"
  let refused ← IO.getEnv "NO_COLOR"
  let allowed ← IO.getEnv "CLICOLOR"
  if (forced.getD "0") != "0" then return true
  if refused.isSome || allowed == some "0" then return false
  (← IO.getStdout).isTty

/-- Runs a command line and gives its exit code. -/
def execute (args : List String) : IO UInt32 := do
  match request? args with
  | none =>
      IO.eprintln "error: invalid arguments\n\nUsage: condsql [OPTIONS] [CONDITION] [COMMAND]"
      return 2
  | some request =>
      let file ← settingsFile request
      let output := run ⟨← coloursWanted⟩ file request
      IO.print output.stdout
      IO.eprint output.stderr
      return UInt32.ofNat output.exit

end Pushdown.Command

/-- The program. -/
def main (args : List String) : IO UInt32 := Pushdown.Command.execute args
