import ModuleGraph.CommandLine.Run

/-!
# The program

Connects `CommandLine.run` with the files, the environment and the outputs of the process. Events go
to the standard error output.
-/

open ModuleGraph

/-- The reason of a failed effect on files. -/
def fileErrorOf : IO.Error → FileError
  | .noFileOrDirectory .. => .notFound
  | .alreadyExists .. => .alreadyExists
  | .inappropriateType _ code details => if code = 21 then .isADirectory else .other details
  | e => .other (toString e)

/-- Carries out an effect on files. -/
def attempt (effect : IO α) : IO (Except FileError α) := do
  try
    return .ok (← effect)
  catch e =>
    return .error (fileErrorOf e)

/-- The files of the process. -/
def processFiles : FileSystem IO where
  read path := attempt (IO.FS.readBinFile path)
  write path text := attempt (IO.FS.writeFile path text)
  makeDirectory path := attempt (IO.FS.createDir path)
  isDirectory path := do
    try
      (← IO.FS.realPath path).isDir
    catch _ =>
      return false

/-- Shows the events that a log filter lets through. -/
def showEvents (filter : String) (events : List Event) : IO Unit := do
  match Severity.ofWord? filter with
  | some level =>
    for event in events do
      if event.reaches level then IO.eprintln event.line
  | none => return ()

def main (arguments : List String) : IO UInt32 := do
  let env : CommandLine.Environment := {
    logFilter := ← IO.getEnv "MODULARIZER_LOG"
    noColor := ← IO.getEnv "NO_COLOR"
    terminal := ← IO.getEnv "TERM" }
  let ending ← CommandLine.run processFiles env arguments
  showEvents ending.filter ending.events
  IO.print ending.stdout
  IO.eprint ending.stderr
  return ending.code.toUInt32
