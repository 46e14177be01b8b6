import ModuleGraph.BuildError
import ModuleGraph.ClassList
import ModuleGraph.Config.File

/-!
# Failures

A `Failure` says what did not work and why: a message and its causes, each the cause of the one
before it. `Failure.text` writes it; several causes are numbered, and the lines of a message go on
below each other.
-/

namespace ModuleGraph

/-- The message of a fault, and the cause if the fault has one. -/
def ConfigFault.causes (fault : ConfigFault) : List String :=
  fault.message ::
    (match fault with
      | .badPattern _ error => [error.message]
      | _ => [])

/-- The message of an error, and the cause if the error has one. -/
def ConfigError.causes (error : ConfigError) : List String :=
  match error with
  | unreadable cause => [error.message, cause.message]
  | malformed cause => [error.message, cause.message]
  | misshapen cause => [error.message, cause.message]
  | invalid fault => fault.causes

/-- The message of an error, and the cause if the error has one. -/
def ClassListError.causes (error : ClassListError) : List String :=
  match error with
  | unreadable cause => [error.message, cause.message]
  | refused _ cause => [error.message, cause.message]
  | unrecognized .. | badSize .. => [error.message]

/-- The message of an error, and the cause if the error has one. -/
def BuildError.causes (error : BuildError) : List String :=
  match error with
  | config fault => fault.causes
  | _ => [error.message]

namespace CommandLine

/-- What did not work, and the causes, the nearest one first. -/
structure Failure where
  message : String
  causes : List String
deriving DecidableEq, Repr, Inhabited

namespace Failure

/-- A text whose first line has one lead and whose other lines have another. -/
def hang (first next : String) (text : String) : String :=
  first ++ ("\n" ++ next).intercalate ((Text.splitWhen (· == '\n') text.toList).map String.ofList)

/-- A number at the right of five columns. -/
def column (n : Nat) : String :=
  let digits := toString n
  .ofList (List.replicate (5 - digits.length) ' ') ++ digits

/-- The causes, each on lines of its own. Several causes are numbered from zero. -/
def causeLines (causes : List String) : List String :=
  match causes with
  | [cause] => [hang "    " "    " cause]
  | _ => causes.mapIdx fun i cause => hang (column i ++ ": ") "       " cause

/-- The text of a failure. -/
def text (failure : Failure) : String :=
  "Error: " ++ failure.message ++
    (if failure.causes.isEmpty then ""
      else "\n\nCaused by:\n" ++ "\n".intercalate (causeLines failure.causes)) ++ "\n"

end Failure

end CommandLine

end ModuleGraph
