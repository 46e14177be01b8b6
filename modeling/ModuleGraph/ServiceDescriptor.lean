import ModuleGraph.QualifiedName
import ModuleGraph.Text.Blank
import ModuleGraph.Text.Letter

/-!
# Service descriptors

A file `META-INF/services/<service>` lists the classes that provide a service, one on a line; a
number sign starts a comment. A descriptor keeps each provider once, in the order of first
occurrence.
-/

namespace ModuleGraph

/-- What is wrong in a descriptor file; line 0 stands for a provider added by hand. -/
inductive ServiceError where
  | illegalSyntax (path : String) (line : Nat)
  | illegalProvider (path : String) (line : Nat) (name : String)
deriving DecidableEq, Repr, Inhabited

/-- The wording of a descriptor error. -/
def ServiceError.message : ServiceError → String
  | illegalSyntax path line => s!"{path}:{line}: illegal configuration-file syntax"
  | illegalProvider path line name =>
    s!"{path}:{line}: illegal provider-class name: {name}"

/-- A service and its providers. -/
structure ServiceDescriptor where
  service : String
  providers : List String := []
deriving DecidableEq, Repr, Inhabited

namespace ServiceDescriptor

/-- The directory of all descriptors. -/
def directory : String := "META-INF/services/"

/-- Whether a path names a descriptor: a file below `directory`. -/
def isDescriptorPath (path : String) : Bool :=
  match Text.stripStart? directory.toList path.toList with
  | some service => !service.isEmpty
  | none => false

/-- The descriptor of a path, without providers yet. A path outside `directory` is its own
service name. -/
def ofPath (path : String) : ServiceDescriptor :=
  match Text.stripStart? directory.toList path.toList with
  | some service => ⟨.ofList service, []⟩
  | none => ⟨path, []⟩

/-- A character that may stand in an identifier. -/
def isIdentifierChar (c : Char) : Bool :=
  Text.isAlphanumeric c || c == '_' || c == '$'

/-- A qualified identifier: it starts with a letter, underscore or dollar sign and goes on with
these, numerals and dots. -/
def isQualifiedIdentifier : List Char → Bool
  | [] => false
  | c :: cs =>
    (Text.isLetter c || c == '_' || c == '$') && cs.all fun d => isIdentifierChar d || d == '.'

/-- Adds a provider found on a line; a provider already listed changes nothing. -/
def addProviderAt (descriptor : ServiceDescriptor) (path : String) (line : Nat)
    (provider : String) : Except ServiceError ServiceDescriptor :=
  if !isQualifiedIdentifier provider.toList then
    .error (.illegalProvider path line provider)
  else if descriptor.providers.contains provider then .ok descriptor
  else .ok { descriptor with providers := descriptor.providers ++ [provider] }

/-- Adds a provider that comes from no line. -/
def addProvider (descriptor : ServiceDescriptor) (path provider : String) :
    Except ServiceError ServiceDescriptor :=
  descriptor.addProviderAt path 0 provider

/-- A line without its comment and the blanks around it. -/
def content (line : List Char) : List Char :=
  Text.trim (line.takeWhile (· != '#'))

/-- Reads one line. -/
def readLine (path : String) (number : Nat) (descriptor : ServiceDescriptor)
    (line : List Char) : Except ServiceError ServiceDescriptor :=
  let text := content line
  if text.isEmpty then .ok descriptor
  else if text.contains ' ' || text.contains '\t' then .error (.illegalSyntax path number)
  else descriptor.addProviderAt path number (.ofList text)

/-- Reads the lines of a file from the given line number on. -/
def readLines (path : String) (number : Nat) (descriptor : ServiceDescriptor) :
    List (List Char) → Except ServiceError ServiceDescriptor
  | [] => .ok descriptor
  | line :: rest =>
    match readLine path number descriptor line with
    | .ok next => readLines path (number + 1) next rest
    | .error e => .error e

/-- Reads a descriptor file. -/
def parse (path contents : String) : Except ServiceError ServiceDescriptor :=
  readLines path 1 (ofPath path) (Text.lines contents.toList)

/-- The name under which patterns select the descriptor: its first provider, or the service when
there is none. -/
def matchName (descriptor : ServiceDescriptor) : String :=
  descriptor.providers.headD descriptor.service

end ServiceDescriptor

end ModuleGraph
