import ModuleGraph.CommandLine.Arguments
import ModuleGraph.CommandLine.Environment
import ModuleGraph.CommandLine.Failure
import ModuleGraph.CommandLine.Summary
import ModuleGraph.FileSystem
import ModuleGraph.Platform
import ModuleGraph.Report.Document

/-!
# Running a command

`run` reads the arguments, carries out the command on a file system, and gives the exit code, what
goes to the two outputs, and the events on the way.
-/

namespace ModuleGraph.CommandLine

/-- The name and version of the program. -/
def versionText : String := "modularizer 0.2.0"

/-- A short description of the arguments. -/
def helpText : String :=
  "Module aggregation and dependency resolution for compiled classes\n\n" ++
  "Usage: modularizer [--log-level LEVEL] [--color WHEN] COMMAND\n\n" ++
  "Commands:\n" ++
  "  build  Resolve modules and write reports\n" ++
  "  check  Validate a config, resolving modules when class lists are given\n" ++
  "  help   Print this message\n"

/-- A computation that uses files, tells events, and may fail. -/
abbrev Action (m : Type → Type) := ExceptT Failure (StateT (List Event) m)

variable {m : Type → Type} [Monad m]

/-- Tells events. -/
def tell (events : List Event) : Action m Unit :=
  modifyThe (List Event) (· ++ events)

/-- The value of a result, or a failure with the causes that the error has. -/
def orFail (message : String) (causes : ε → List String) : Except ε α → Action m α
  | .ok a => return a
  | .error e => throw ⟨message, causes e⟩

/-- Carries out an effect on files, or fails. -/
def orFailFile (message : String) (effect : m (Except FileError Unit)) : Action m Unit := do
  orFail message (fun e => [e.message]) (← effect)

/-- Loads a configuration. -/
def loadConfig (fs : FileSystem m) (path : String) : Action m Configuration := do
  let contents : Except FileError ByteArray ← fs.read path
  orFail s!"Failed to load config {path}" ConfigError.causes
    (match contents with
      | .ok bytes => Configuration.parseBytes bytes
      | .error e => .error (.unreadable e))

/-- Reads a class list into a registry. Also returns its optional references. -/
def loadClasses (fs : FileSystem m) (registry : Registry) (path : String) :
    Action m (Registry × List (String × String)) := do
  let contents : Except FileError ByteArray ← fs.read path
  let (registry, result) := match contents with
    | .ok bytes => ClassList.readBytes registry bytes
    | .error e => (registry, .error (.unreadable e))
  let list ← orFail s!"Failed to read class list {path}" ClassListError.causes result
  tell [.classListRead list.classes list.resources list.edges]
  return (registry, list.optionalEdges)

/-- Loads everything and builds the module graph. -/
def loadAndBuild (fs : FileSystem m) (inputs : Inputs) : Action m Outcome := do
  let config ← loadConfig fs inputs.config
  let (registry, edges) ← inputs.classes.foldlM
    (fun (registry, edges) path => do
      let (registry, more) ← loadClasses fs registry path
      return (registry, edges ++ more))
    (({}, []) : Registry × List (String × String))
  let built := config.build registry edges inputs.merge
  tell built.events
  orFail "Module resolution failed" BuildError.causes built.result

/-- Writes a report into a directory. -/
def writeReport (fs : FileSystem m) (directory : String) (format : ReportFormat)
    (report : BuildReport) : Action m Unit := do
  orFailFile s!"Failed to create {directory}" (fs.makeDirectories directory)
  match format with
  | .text =>
    orFailFile s!"Failed to write reports to {directory}" (fs.performAll directory report.actions)
  | .json =>
    let path := Path.join directory "modules.json"
    orFailFile s!"Failed to create {path}" (fs.write path report.json)

/-- Resolves modules and reports them. -/
def build (fs : FileSystem m) (inputs : Inputs) (output : Option String) (format : ReportFormat) :
    Action m (List Piece) := do
  let outcome ← loadAndBuild fs inputs
  let report := outcome.report
  match output with
  | some directory => writeReport fs directory format report
  | none => pure ()
  match output, format with
  | some _, .text => return buildSummary report output
  | some _, .json => return []
  | none, .text => return report.modules.flatMap moduleSummary ++ buildSummary report none
  | none, .json => return [.plain report.json]

/-- How many references the modules of an outcome leave unresolved. -/
def unresolvedCount (outcome : Outcome) : Nat :=
  outcome.infos.keys.foldl
    (fun count id => count + (outcome.table.get? id).elim 0 (·.unresolved.size)) 0

/-- Validates a configuration, and resolves modules if there are class lists. -/
def check (fs : FileSystem m) (inputs : Inputs) : Action m (List Piece) := do
  if inputs.classes.isEmpty then
    let config ← loadConfig fs inputs.config
    return configSummary config.modules.length
  else
    let outcome ← loadAndBuild fs inputs
    return checkSummary outcome.report (unresolvedCount outcome)

/-- Carries out a command. -/
def Command.perform (fs : FileSystem m) : Command → Action m (List Piece)
  | .build inputs output format => CommandLine.build fs inputs output format
  | .check inputs => CommandLine.check fs inputs

/-- How a run ends. -/
structure Ending where
  code : Nat
  stdout : String := ""
  stderr : String := ""
  /-- The log filter that applies to the events. -/
  filter : String := ""
  events : List Event := []
deriving DecidableEq, Repr, Inhabited

/-- Runs the program. -/
def run (fs : FileSystem m) (env : Environment) (arguments : List String) : m Ending := do
  match Invocation.parse arguments with
  | .error .help => return { code := 0, stdout := helpText }
  | .error .version => return { code := 0, stdout := versionText ++ "\n" }
  | .error (.usage error) => return { code := 2, stderr := "error: " ++ error.message ++ "\n" }
  | .ok invocation =>
    let filter := env.filterDirective invocation.logLevel
    let paint := env.paints (env.colorChoice invocation.color)
    let (result, events) ← ((invocation.command.perform fs).run).run []
    match result with
    | .ok pieces => return { code := 0, stdout := renderAll paint pieces, filter, events }
    | .error failure => return { code := 1, stderr := failure.text, filter, events }

end ModuleGraph.CommandLine
