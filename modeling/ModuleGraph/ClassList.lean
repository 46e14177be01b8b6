import ModuleGraph.Path
import ModuleGraph.Registry.Classes
import ModuleGraph.Registry.Resources

/-!
# Class lists

A class list feeds the registry line by line:

* `class com.foo.Main public 1024` defines a class; visibility and size may be left out,
* `resource com/foo/app.properties 12` adds a resource,
* `provider META-INF/services/com.foo.Spi com.foo.SpiImpl` adds a provider,
* `com.foo.Main -> com.bar.Helper` records a reference,
* `[optional] com.foo.Main -> com.baz.Opt` records a reference that is optional.

A size is an optional plus sign and at least one decimal digit, with a value that fits into 64 bits.
Blank lines and lines that start with a number sign are skipped. `ClassList.Entry.parse` tells
what a line says, `ClassList.Entry.record` enters it into the registry, and `ClassList.read` does
so for all lines up to the first bad one; what came before it stays registered.
-/

namespace ModuleGraph

/-! ## Sizes -/

namespace Text

/-- The value of a digit sequence, most significant digit first, going on from `n`. -/
def digitsFrom (n : Nat) : List Char → Nat
  | [] => n
  | c :: cs => digitsFrom (10 * n + (c.toNat - '0'.toNat)) cs

/-- Sizes are below this bound, the least number with more than 64 bits. -/
def sizeBound : Nat := 0x10000000000000000

/-- The size that a text denotes. -/
def readSize (cs : List Char) : Option Nat :=
  let digits := match cs with
    | '+' :: rest => rest
    | _ => cs
  if digits.isEmpty || !digits.all Char.isDigit then none
  else
    let n := digitsFrom 0 digits
    if n < sizeBound then some n else none

end Text

/-! ## Lists -/

/-- What is wrong with a class list. -/
inductive ClassListError where
  | unreadable (error : FileError)
  | unrecognized (line : Nat) (text : String)
  | badSize (line : Nat) (token : String)
  | refused (line : Nat) (error : RegistryError)
deriving DecidableEq, Repr, Inhabited

/-- The wording of a class-list error. -/
def ClassListError.message : ClassListError → String
  | unreadable error => s!"IO error: {error.message}"
  | unrecognized line text => s!"line {line}: unrecognized entry \"{text}\""
  | badSize line token => s!"line {line}: invalid size \"{token}\""
  | refused line error => s!"line {line}: {error.message}"

/-- What a class list contributed: the number of lines of each kind and the optional
references. -/
structure ClassList where
  classes : Nat := 0
  resources : Nat := 0
  providers : Nat := 0
  edges : Nat := 0
  optionalEdges : List (String × String) := []
deriving DecidableEq, Repr, Inhabited

namespace ClassList

/-- What one line says. -/
inductive Entry where
  | definition (name : String) (isPublic : Bool) (size : Nat)
  | resource (path : String) (size : Nat)
  | provider (path name : String)
  | edge (source target : String) (isOptional : Bool)
deriving DecidableEq, Repr, Inhabited

namespace Entry

/-- Reads the size in a line. -/
def readSize (line : Nat) (token : List Char) : Except ClassListError Nat :=
  match Text.readSize token with
  | some size => .ok size
  | none => .error (.badSize line (.ofList token))

/-- Reads what follows the name of a class: the word `public`, and sizes of which the last one
counts. -/
def readAttributes (line : Nat) (isPublic : Bool) (size : Nat) :
    List (List Char) → Except ClassListError (Bool × Nat)
  | [] => .ok (isPublic, size)
  | token :: rest =>
    if token = "public".toList then readAttributes line true size rest
    else
      match readSize line token with
      | .ok size => readAttributes line isPublic size rest
      | .error e => .error e

/-- The entry that the words of a line form, if the line is of a known form. -/
def ofWords (line : Nat) (words : List (List Char)) : Except ClassListError (Option Entry) :=
  let rest := words.drop 1
  if words.head? = some "class".toList ∧ rest ≠ [] then
    match readAttributes line false 0 (rest.drop 1) with
    | .ok (isPublic, size) =>
      .ok (some (.definition (.ofList (rest.headD [])) isPublic size))
    | .error e => .error e
  else
    match words with
    | [first, second, third] =>
      if first = "resource".toList then
        match readSize line third with
        | .ok size => .ok (some (.resource (.ofList second) size))
        | .error e => .error e
      else if first = "provider".toList then
        .ok (some (.provider (.ofList second) (.ofList third)))
      else if second = "->".toList then
        .ok (some (.edge (.ofList first) (.ofList third) false))
      else .ok none
    | [first, second, third, fourth] =>
      if first = "[optional]".toList ∧ third = "->".toList then
        .ok (some (.edge (.ofList second) (.ofList fourth) true))
      else .ok none
    | _ => .ok none

/-- Reads a line; blank lines and comments say nothing. -/
def parse (line : Nat) (cs : List Char) : Except ClassListError (Option Entry) :=
  let text := Text.trim cs
  if text.isEmpty || text.head? == some '#' then .ok none
  else
    match ofWords line (Text.words text) with
    | .ok (some entry) => .ok (some entry)
    | .ok none => .error (.unrecognized line (.ofList text))
    | .error e => .error e

/-- Enters into the registry what a line says. -/
def record (entry : Entry) (registry : Registry) : Registry × Except RegistryError Unit :=
  match entry with
  | definition name isPublic size =>
    let (registry, result) := registry.register { name, isPublic, size }
    (registry, result.map fun _ => ())
  | resource path size =>
    let (registry, result) := registry.addResource path size none
    (registry, result.map fun _ => ())
  | provider path name =>
    let (registry, result) := registry.addProvider path name
    (registry, result.map fun _ => ())
  | edge source target _ => (registry.addReferenceByName source target, .ok ())

/-- Counts a line. -/
def count (entry : Entry) (list : ClassList) : ClassList :=
  match entry with
  | definition .. => { list with classes := list.classes + 1 }
  | resource .. => { list with resources := list.resources + 1 }
  | provider .. => { list with providers := list.providers + 1 }
  | edge source target isOptional =>
    { list with
      edges := list.edges + 1
      optionalEdges :=
        if isOptional then list.optionalEdges ++ [(source, target)] else list.optionalEdges }

end Entry

/-- Reads lines, the first of which has the given number. -/
def readLines (registry : Registry) (line : Nat) (list : ClassList) :
    List (Except FileError (List Char)) → Registry × Except ClassListError ClassList
  | [] => (registry, .ok list)
  | .error e :: _ => (registry, .error (.unreadable e))
  | .ok cs :: rest =>
    match Entry.parse line cs with
    | .error e => (registry, .error e)
    | .ok none => readLines registry (line + 1) list rest
    | .ok (some entry) =>
      match entry.record registry with
      | (registry, .error e) => (registry, .error (.refused line e))
      | (registry, .ok ()) => readLines registry (line + 1) (entry.count list) rest

/-- Reads a class list into a registry. -/
def read (registry : Registry) (text : String) : Registry × Except ClassListError ClassList :=
  readLines registry 1 {} ((Text.lines text.toList).map .ok)

/-- The characters of a line, if its bytes are UTF-8. -/
def decodeLine (bytes : List UInt8) : Except FileError (List Char) :=
  match String.fromUTF8? ⟨bytes.toArray⟩ with
  | some text => .ok text.toList
  | none => .error .notText

/-- Reads a class list given as bytes. Lines are decoded one by one, so a line that is no UTF-8
does not keep the lines before it out of the registry. -/
def readBytes (registry : Registry) (bytes : ByteArray) :
    Registry × Except ClassListError ClassList :=
  readLines registry 1 {} ((Text.splitWhen (· == 10) bytes.toList).map decodeLine)

end ClassList

end ModuleGraph
