/-!
# The surroundings of a run

Three things decide beside the arguments how a run presents itself: a log filter, a wish for no
color, and the kind of terminal.

* `Environment.filterDirective` is the log filter that applies.
* `Environment.colorChoice` and `Environment.paints` decide whether output is colored.
-/

namespace ModuleGraph.CommandLine

/-- What the surroundings of a run say. -/
structure Environment where
  /-- A log filter, which goes before the one of the arguments. -/
  logFilter : Option String := none
  /-- No color is wanted, whatever the text. -/
  noColor : Option String := none
  /-- The kind of terminal. -/
  terminal : Option String := none
deriving DecidableEq, Repr, Inhabited

/-- When to color output. -/
inductive ColorChoice where
  | auto
  | always
  | never
deriving DecidableEq, Repr, Inhabited

namespace Environment

/-- The log filter: the one of the surroundings unless it is empty, else the one of the arguments,
else `info`. -/
def filterDirective (env : Environment) (level : Option String) : String :=
  match env.logFilter.filter (· != "") with
  | some filter => filter
  | none => level.getD "info"

/-- When to color output. A wish for no color goes before the word of the arguments, and words other
than `always` and `never` leave the choice to the terminal. -/
def colorChoice (env : Environment) (word : Option String) : ColorChoice :=
  if env.noColor.isSome then .never
  else
    match word with
    | some "always" => .always
    | some "never" => .never
    | _ => .auto

/-- Whether to color output. Left to the terminal, it is colored unless the terminal is unknown or
dumb. -/
def paints (env : Environment) : ColorChoice → Bool
  | .always => true
  | .never => false
  | .auto => env.noColor.isNone && env.terminal.any (· != "dumb")

end Environment

end ModuleGraph.CommandLine
