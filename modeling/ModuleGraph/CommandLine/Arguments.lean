import ModuleGraph.Text.Split

/-!
# Arguments of the command line

```text
modularizer build --classes FILE... [--config FILE] [--output DIR] [--format text|json] [--no-merge]
modularizer check [--classes FILE]... [--config FILE] [--no-merge]
```

`--log-level` and `--color` may stand before or after the command; what stands after it wins. A
value follows its switch as the next argument or after an equals sign, and a short switch also takes
it without a space. A next argument that starts with a hyphen is no value, unless it is a single
hyphen. Switches are not repeated, `--classes` excepted.

`Invocation.parse` reads the arguments. What it reads is one of the two commands; requests for help
or for the version, and arguments that make no sense, interrupt it.
-/

namespace ModuleGraph.CommandLine

/-- How a build reports. -/
inductive ReportFormat where
  | text
  | json
deriving DecidableEq, Repr, Inhabited

/-- What a command works on. -/
structure Inputs where
  config : String := "modules.toml"
  classes : List String := []
  merge : Bool := true
deriving DecidableEq, Repr, Inhabited

/-- What to do. -/
inductive Command where
  | build (inputs : Inputs) (output : Option String) (format : ReportFormat)
  | check (inputs : Inputs)
deriving DecidableEq, Repr, Inhabited

/-- What the arguments ask for. -/
structure Invocation where
  command : Command
  logLevel : Option String := none
  color : Option String := none
deriving DecidableEq, Repr, Inhabited

/-! ## Switches -/

/-- The switches. -/
inductive Switch where
  | config
  | classes
  | output
  | format
  | noMerge
  | logLevel
  | color
  | help
  | version
deriving DecidableEq, Repr, Inhabited

namespace Switch

/-- The name after two hyphens. -/
def long : Switch → String
  | config => "config"
  | classes => "classes"
  | output => "output"
  | format => "format"
  | noMerge => "no-merge"
  | logLevel => "log-level"
  | color => "color"
  | help => "help"
  | version => "version"

/-- The letter after one hyphen, if there is one. -/
def short? : Switch → Option Char
  | config => some 'c'
  | output => some 'o'
  | help => some 'h'
  | version => some 'V'
  | _ => none

/-- Whether a value belongs to the switch. -/
def takesValue : Switch → Bool
  | noMerge | help | version => false
  | _ => true

end Switch

/-- Where a switch may stand: before the command or after it. -/
inductive Level where
  | top
  | build
  | check
deriving DecidableEq, Repr, Inhabited

/-- The switches of a level. -/
def Level.switches : Level → List Switch
  | top => [.logLevel, .color, .help, .version]
  | build => [.config, .classes, .output, .format, .noMerge, .logLevel, .color, .help]
  | check => [.config, .classes, .noMerge, .logLevel, .color, .help]

/-- The word of a command. -/
def Level.ofWord? : String → Option Level
  | "build" => some build
  | "check" => some check
  | _ => none

/-! ## Reading -/

/-- Why arguments make no sense. -/
inductive UsageError where
  | unexpected (argument : String)
  | missingValue (switch : Switch)
  | unneededValue (switch : Switch)
  | badValue (switch : Switch) (value : String)
  | repeated (switch : Switch)
  | missingCommand
  | missingClasses
deriving DecidableEq, Repr, Inhabited

/-- The wording of a usage error. -/
def UsageError.message : UsageError → String
  | unexpected argument => s!"unexpected argument '{argument}'"
  | missingValue switch => s!"--{switch.long} needs a value"
  | unneededValue switch => s!"--{switch.long} takes no value"
  | badValue switch value => s!"invalid value '{value}' for --{switch.long}"
  | repeated switch => s!"--{switch.long} cannot be used more than once"
  | missingCommand => "a command is needed: build or check"
  | missingClasses => "--classes is needed"

/-- What keeps a command from being read. -/
inductive Interruption where
  | help
  | version
  | usage (error : UsageError)
deriving DecidableEq, Repr, Inhabited

/-- An argument, taken by itself. -/
inductive Token where
  /-- Two hyphens alone: no switch follows. -/
  | escape
  | long (name : List Char) (value : Option (List Char))
  | short (letters : List Char)
  | plain
deriving DecidableEq, Repr, Inhabited

/-- Tells the form of an argument. -/
def Token.ofArgument (argument : String) : Token :=
  match argument.toList with
  | ['-', '-'] => escape
  | '-' :: '-' :: rest =>
    match rest.dropWhile (· != '=') with
    | [] => long rest none
    | _ :: value => long (rest.takeWhile (· != '=')) (some value)
  | '-' :: c :: rest => short (c :: rest)
  | _ => plain

/-- The switches met so far at one level. -/
structure Given where
  config : Option String := none
  classes : List String := []
  output : Option String := none
  format : Option ReportFormat := none
  noMerge : Bool := false
  logLevel : Option String := none
  color : Option String := none
deriving DecidableEq, Repr, Inhabited

namespace Given

/-- An error of usage. -/
def refuse (error : UsageError) : Except Interruption α :=
  .error (.usage error)

/-- A value for a switch that holds at most one. -/
def once (switch : Switch) (held : Option α) (value : α) : Except Interruption (Option α) :=
  if held.isSome then refuse (.repeated switch) else .ok (some value)

/-- A path, which is not empty. -/
def path (switch : Switch) (value : String) : Except Interruption String :=
  if value == "" then refuse (.badValue switch value) else .ok value

/-- A report format. -/
def formatOf (value : String) : Except Interruption ReportFormat :=
  match value with
  | "text" => .ok .text
  | "json" => .ok .json
  | _ => refuse (.badValue .format value)

/-- Takes note of a switch that has a value. -/
def withValue (given : Given) (switch : Switch) (value : String) : Except Interruption Given := do
  match switch with
  | .config => return { given with config := ← once switch given.config (← path switch value) }
  | .classes => return { given with classes := given.classes ++ [← path switch value] }
  | .output => return { given with output := ← once switch given.output (← path switch value) }
  | .format => return { given with format := ← once switch given.format (← formatOf value) }
  | .logLevel => return { given with logLevel := ← once switch given.logLevel value }
  | .color => return { given with color := ← once switch given.color value }
  | .noMerge | .help | .version => refuse (.unneededValue switch)

/-- Takes note of a switch that has no value. -/
def withFlag (given : Given) (switch : Switch) : Except Interruption Given :=
  match switch with
  | .help => .error .help
  | .version => .error .version
  | .noMerge =>
    if given.noMerge then refuse (.repeated switch) else .ok { given with noMerge := true }
  | _ => refuse (.missingValue switch)

/-- Reads an argument with two hyphens. A switch that waits for a value is returned. -/
def readLong (level : Level) (given : Given) (name : List Char) (value : Option (List Char)) :
    Except Interruption (Given × Option Switch) :=
  match level.switches.find? (·.long == .ofList name), value with
  | none, _ => refuse (.unexpected ("--" ++ .ofList name))
  | some switch, some value => do
    if switch.takesValue then return (← given.withValue switch (.ofList value), none)
    else refuse (.unneededValue switch)
  | some switch, none => do
    if switch.takesValue then return (given, some switch)
    else return (← given.withFlag switch, none)

/-- Reads the letters after one hyphen. Letters after a switch that takes a value are the value, and
an equals sign before it is left out. -/
def readShort (level : Level) (given : Given) :
    List Char → Except Interruption (Given × Option Switch)
  | [] => .ok (given, none)
  | c :: rest =>
    match level.switches.find? (·.short? == some c) with
    | none => refuse (.unexpected (.ofList ['-', c]))
    | some switch =>
      if switch.takesValue then
        match rest with
        | [] => .ok (given, some switch)
        | '=' :: value => do return (← given.withValue switch (.ofList value), none)
        | value => do return (← given.withValue switch (.ofList value), none)
      else do
        let given ← given.withFlag switch
        given.readShort level rest

/-- Reads arguments up to a command. `waiting` is a switch whose value comes next. -/
def read (level : Level) :
    Given → (waiting : Option Switch) → List String → Except Interruption (Given × List String)
  | given, none, [] => .ok (given, [])
  | _, some switch, [] => refuse (.missingValue switch)
  | given, some switch, argument :: rest =>
    match Token.ofArgument argument with
    | .plain => do
      let given ← given.withValue switch argument
      read level given none rest
    | _ => refuse (.missingValue switch)
  | given, none, argument :: rest =>
    match Token.ofArgument argument with
    | .plain =>
      if level = .top ∧ (argument = "help" ∨ (Level.ofWord? argument).isSome) then
        .ok (given, argument :: rest)
      else refuse (.unexpected argument)
    | .escape =>
      match rest with
      | [] => .ok (given, [])
      | next :: _ => refuse (.unexpected next)
    | .long name value => do
      let (given, waiting) ← given.readLong level name value
      read level given waiting rest
    | .short letters => do
      let (given, waiting) ← given.readShort level letters
      read level given waiting rest

/-- What a command works on. -/
def inputs (given : Given) : Inputs where
  config := given.config.getD "modules.toml"
  classes := given.classes
  merge := !given.noMerge

/-- The command of a level. A build needs classes. -/
def command (given : Given) : Level → Except Interruption Command
  | .top => refuse .missingCommand
  | .check => .ok (.check given.inputs)
  | .build =>
    if given.classes.isEmpty then refuse .missingClasses
    else .ok (.build given.inputs given.output (given.format.getD .text))

end Given

namespace Invocation

/-- Reads what follows the word `help`: at most one word that help is there for. -/
def readHelp (words : List String) : Interruption :=
  match words with
  | [] => .help
  | word :: rest =>
    if word = "help" ∨ (Level.ofWord? word).isSome then
      match rest with
      | [] => .help
      | next :: _ => .usage (.unexpected next)
    else .usage (.unexpected word)

/-- Reads the arguments of the program. -/
def parse (arguments : List String) : Except Interruption Invocation := do
  let (outer, rest) ← Given.read .top {} none arguments
  match rest with
  | [] => .error (.usage .missingCommand)
  | word :: rest =>
    match Level.ofWord? word with
    | none => .error (readHelp rest)
    | some level =>
      let (inner, _) ← Given.read level {} none rest
      return {
        command := ← inner.command level
        logLevel := inner.logLevel.or outer.logLevel
        color := inner.color.or outer.color }

end Invocation

end ModuleGraph.CommandLine
