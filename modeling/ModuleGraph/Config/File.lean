import ModuleGraph.Config.Record
import ModuleGraph.Config.Validation
import ModuleGraph.Document.Toml.Reading
import ModuleGraph.Document.Toml.Writing
import ModuleGraph.Path

/-!
# Configuration files

A configuration file is a TOML document. `Configuration.parse` reads and validates its text, and
`Configuration.write` gives the text of a file.
-/

namespace ModuleGraph

open Document

/-- Why a configuration cannot be loaded. -/
inductive ConfigError where
  | unreadable (error : FileError)
  | malformed (error : Toml.TomlError)
  | misshapen (error : ShapeError)
  | invalid (fault : ConfigFault)
deriving DecidableEq, Repr, Inhabited

/-- The wording of a configuration error. -/
def ConfigError.message : ConfigError → String
  | unreadable error => s!"Failed to read config file: {error.message}"
  | malformed error => s!"Failed to parse config: {error.message}"
  | misshapen error => s!"Failed to parse config: {error.message}"
  | invalid fault => fault.message

namespace Configuration

/-- A validated configuration out of a document value. -/
def load (surplus : Bool) (value : Value) : Except ConfigError Configuration :=
  match ofValue surplus value with
  | .error e => .error (.misshapen e)
  | .ok c =>
    match c.validate with
    | .error fault => .error (.invalid fault)
    | .ok () => .ok c

/-- The configuration that the text of a file holds. -/
def parse (text : String) : Except ConfigError Configuration :=
  match Toml.parse text with
  | .error e => .error (.malformed e)
  | .ok value => load true value

/-- The configuration that the bytes of a file hold. -/
def parseBytes (bytes : ByteArray) : Except ConfigError Configuration :=
  match String.fromUTF8? bytes with
  | some text => parse text
  | none => .error (.unreadable .notText)

/-- The text of a configuration file. -/
def write (c : Configuration) : String :=
  Toml.write c.toValue

end Configuration

end ModuleGraph
