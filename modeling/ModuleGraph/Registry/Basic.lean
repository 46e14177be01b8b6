import ModuleGraph.QualifiedName
import ModuleGraph.ServiceDescriptor
import Std.Data.TreeMap.Basic
import Std.Data.TreeSet.Basic

/-!
# The registry of classes and resources

Classes and resources are numbered in the order in which they are first named. A class may be
known by name only, as a placeholder, until its definition is registered. References between
classes are kept in both directions, and each class and resource has at most one owning module.

* `Registry` holds the entries and finds them by name.
* `Registry.findClass` and `Registry.findResource` are the look-ups.
* `RegistryError` is why an entry is refused.
-/

namespace ModuleGraph

/-- Number of a class in the registry. -/
abbrev ClassId := Nat

/-- Number of a resource in the registry. -/
abbrev ResourceId := Nat

/-- Number of a module in the order of declaration. -/
abbrev ModuleId := Nat

/-- The module number that an index gives; numbers have 32 bits. -/
def ModuleId.ofIndex (index : Nat) : ModuleId :=
  index % 0x100000000

/-- What the registry knows of one class. -/
structure ClassEntry where
  name : String
  package : String
  isPublic : Bool := false
  size : Nat := 0
  /-- Registered with its own definition, not only referred to. -/
  isDefined : Bool := false
  references : Std.TreeSet ClassId := {}
  referrers : Std.TreeSet ClassId := {}
  owner : Option ModuleId := none
deriving Inhabited

/-- What the registry knows of one resource. -/
structure ResourceEntry where
  /-- The path, with slashes only. -/
  path : String
  size : Nat
  service : Option ServiceDescriptor := none
  owner : Option ModuleId := none
deriving Inhabited

/-- All classes and resources seen so far. -/
structure Registry where
  classes : Array ClassEntry := #[]
  classIndex : Std.TreeMap String ClassId := {}
  resources : Array ResourceEntry := #[]
  resourceIndex : Std.TreeMap String ResourceId := {}
deriving Inhabited

/-- Why the registry refuses an entry. -/
inductive RegistryError where
  | duplicateClass (name : String)
  | duplicateResource (path : String)
  | notAResource (path : String)
  | service (error : ServiceError)
deriving DecidableEq, Repr, Inhabited

/-- The wording of a registry error. -/
def RegistryError.message : RegistryError → String
  | duplicateClass name => s!"Class {name} is already registered"
  | duplicateResource path => s!"Resource {path} is already registered"
  | notAResource path => s!"\"{path}\" is not a resource file"
  | service error => error.message

namespace ClassEntry

/-- The entry of a class that nothing but its name is known of. -/
def placeholder (name : String) : ClassEntry :=
  { name, package := (QualifiedName.ofClass name).package }

/-- Nested classes have a dollar sign in their names. -/
def isInner (entry : ClassEntry) : Bool :=
  entry.name.toList.contains '$'

end ClassEntry

namespace ResourceEntry

/-- The package that the directory of the path denotes. -/
def package (entry : ResourceEntry) : String :=
  (QualifiedName.ofPath entry.path).package

end ResourceEntry

namespace Registry

/-- The number of a class, by its name. -/
def findClass (registry : Registry) (name : String) : Option ClassId :=
  registry.classIndex[name]?

/-- The number of a resource, by its path. -/
def findResource (registry : Registry) (path : String) : Option ResourceId :=
  registry.resourceIndex[path]?

/-- The name of a class; a number out of range has the empty name. -/
def className (registry : Registry) (id : ClassId) : String :=
  (registry.classes[id]?).elim "" (·.name)

/-- The path of a resource; a number out of range has the empty path. -/
def resourcePath (registry : Registry) (id : ResourceId) : String :=
  (registry.resources[id]?).elim "" (·.path)

/-- The classes that a class refers to, in increasing order. -/
def referencesOf (registry : Registry) (id : ClassId) : List ClassId :=
  (registry.classes[id]?).elim [] (·.references.toList)

/-- The owner of a class, if it has one. -/
def classOwner (registry : Registry) (id : ClassId) : Option ModuleId :=
  (registry.classes[id]?).bind (·.owner)

/-- The owner of a resource, if it has one. -/
def resourceOwner (registry : Registry) (id : ResourceId) : Option ModuleId :=
  (registry.resources[id]?).bind (·.owner)

/-- The numbers of all classes whose entries pass a test, in increasing order. -/
def classesWhere (registry : Registry) (test : ClassEntry → Bool) : List ClassId :=
  (List.range registry.classes.size).filter fun id => (registry.classes[id]?).any test

/-- The numbers of all resources whose entries pass a test, in increasing order. -/
def resourcesWhere (registry : Registry) (test : ResourceEntry → Bool) : List ResourceId :=
  (List.range registry.resources.size).filter fun id => (registry.resources[id]?).any test

end Registry

end ModuleGraph
