import ModuleGraph.QualifiedName
import ModuleGraph.Text.Bytes

/-!
# Name patterns

A pattern selects classes by their dotted names and resources by their paths:

* `com.foo.Bar` selects that name,
* `com.foo.*` the names directly in the package `com.foo`,
* `com.foo.**` the names in `com.foo` and in every package below it,
* `com.foo.Bar*` the names in `com.foo` whose simple name starts with `Bar`,
* `*` and `**` every name.

`Pattern.text` writes a pattern; everything is written as `**`.
-/

namespace ModuleGraph

/-- A set of names, given by one of the forms above. -/
inductive Pattern where
  | all
  | exact (name : String)
  | package (name : String)
  | subtree (name : String)
  | starting (package stem : String)
deriving DecidableEq, Repr, Inhabited

namespace Pattern

/-- Whether the pattern selects the name. Names are compared by their bytes; there is no answer if
that would cut a name within a character. -/
def selects? (pattern : Pattern) (name : QualifiedName) : Option Bool :=
  match pattern with
  | all => some true
  | exact full =>
    if name.package = "" then some (full == name.simple)
    else if full.utf8ByteSize == name.package.utf8ByteSize + 1 + name.simple.utf8ByteSize &&
        hasStart full name.package then
      (fromByte? full name.package.utf8ByteSize).map fun rest =>
        hasStart rest "." && hasEnd full name.simple
    else some false
  | package p => some (name.package == p)
  | subtree p =>
    if name.package == p then some true
    else if hasStart name.package p then
      (fromByte? name.package p.utf8ByteSize).map fun rest => hasStart rest "."
    else some false
  | starting p stem => some (name.package == p && hasStart name.simple stem)

/-- Whether the pattern selects the name. -/
def selects (pattern : Pattern) (name : QualifiedName) : Bool :=
  (pattern.selects? name).getD false

/-- Whether the pattern selects a class. -/
def selectsClass (pattern : Pattern) (name : String) : Bool :=
  pattern.selects (.ofClass name)

/-- Whether the pattern selects a resource. -/
def selectsResource (pattern : Pattern) (path : String) : Bool :=
  pattern.selects (.ofPath path)

/-- The written form. -/
def text : Pattern → String
  | all => "**"
  | exact name => name
  | package name => name ++ ".*"
  | subtree name => name ++ ".**"
  | starting p stem => (QualifiedName.mk p stem).joined ++ "*"

end Pattern

end ModuleGraph
