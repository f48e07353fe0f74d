import ResourceMerge.CommandLine.Arguments
import ResourceMerge.Inspect
import ResourceMerge.Settings.File

/-! The program: from its arguments to its exit code and what it writes. It succeeds with code zero,
    reports a failure with code one, and answers arguments that make no sense with code two. -/

namespace ResourceMerge.CommandLine

open Files

/-- The name of the program. -/
def programName : String := "rshrink"

/-- The version of the program. -/
def version : String := "0.1.0"

/-- The line by which a tool names its version. -/
def banner (tool : String) : String := tool ++ " (rshrink-tools " ++ version ++ ")"

/-- How the program is used. -/
def usage : String :=
  "usage: rshrink [-v...] [-q] merge INPUT... --out DIR [--filter GLOB] [--class NAME]\n"
    ++ "                            [--threshold N] [--config FILE] [--summary]\n"
    ++ "       rshrink [-v...] [-q] dump FILE [--table]\n"
    ++ "       rshrink --version\n"

variable {m : Type → Type} [Monad m] [Host m]

/-- Does a merge; what it writes to standard output. -/
def merge (request : MergeRequest) (settingsFile : Option String) (summary : Bool) :
    Job m String := do
  let (settings, _) ← Job.during .loadingSettings do
    Job.ofExcept (← Job.ask (Settings.load settingsFile))
  let begun ← Job.ask Host.milliseconds
  let report ← Merge.run (.ofRequest request settings)
  let ended ← Job.ask Host.milliseconds
  return if summary then (report.document (ended - begun)).indented ++ "\n" else ""

/-- Does what a command says; what it writes to standard output. -/
def execute : Command → Job m String
  | .merge request settingsFile summary => merge request settingsFile summary
  | .inspect path true => return (← Inspect.table path) ++ "\n"
  | .inspect path false => Inspect.listing path

/-- How the program ends. -/
structure Outcome where
  code : UInt32
  output : String
  message : String

/-- The program. -/
def run (arguments : List String) : m Outcome := do
  match read arguments with
  | .error .version => return ⟨0, programName ++ " " ++ version ++ "\n", ""⟩
  | .error .help => return ⟨0, usage, ""⟩
  | .error .misuse => return ⟨2, "", usage⟩
  | .ok command =>
    match ← (execute command : Job m String).run with
    | .ok output => return ⟨0, output, ""⟩
    | .error failure => return ⟨1, "", "error: " ++ failure.text ++ "\n"⟩

end ResourceMerge.CommandLine
