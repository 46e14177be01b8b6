import ModuleGraph.Registry.Basic
import Std.Data.TreeMap.AdditionalOperations

/-!
# Package summaries

`Packages.summarize` counts the classes and resources of a module by package. A package that holds
a class is exported if the exported packages admit it; none listed admits every package.
-/

namespace ModuleGraph

/-- What a module holds of one package. -/
structure PackageSummary where
  name : String
  classCount : Nat := 0
  classBytes : Nat := 0
  publicClassCount : Nat := 0
  innerClassCount : Nat := 0
  resourceCount : Nat := 0
  resourceBytes : Nat := 0
  /-- Exported by the module's default view. -/
  exported : Bool := false
deriving DecidableEq, Repr, Inhabited

/-- The packages of a module, by name. -/
abbrev Packages := Std.TreeMap String PackageSummary

/-- The packages that default views export. -/
structure ExportedPackages where
  names : Std.TreeSet String := {}
deriving Inhabited

namespace ExportedPackages

/-- Whether some packages are listed, so that the others are not exported. -/
def isRestricted (exported : ExportedPackages) : Bool :=
  !exported.names.isEmpty

/-- Whether a package is exported. -/
def admits (exported : ExportedPackages) (package : String) : Bool :=
  exported.names.isEmpty || exported.names.contains package

end ExportedPackages

namespace PackageSummary

/-- Whether a class lives in the package, and not only resources. -/
def hasClasses (summary : PackageSummary) : Bool :=
  0 < summary.classCount

/-- With one more class. -/
def addClass (entry : ClassEntry) (summary : PackageSummary) : PackageSummary :=
  { summary with
    classCount := summary.classCount + 1
    classBytes := summary.classBytes + entry.size
    publicClassCount := summary.publicClassCount + entry.isPublic.toNat
    innerClassCount := summary.innerClassCount + entry.isInner.toNat }

/-- With one more resource. -/
def addResource (entry : ResourceEntry) (summary : PackageSummary) : PackageSummary :=
  { summary with
    resourceCount := summary.resourceCount + 1
    resourceBytes := summary.resourceBytes + entry.size }

end PackageSummary

namespace Packages

/-- Changes the summary of a package, starting from an empty one. -/
def update (packages : Packages) (name : String) (change : PackageSummary → PackageSummary) :
    Packages :=
  packages.insert name (change (packages.getD name { name }))

/-- Counts a class. -/
def addClass (registry : Registry) (packages : Packages) (id : ClassId) : Packages :=
  match registry.classes[id]? with
  | some entry => packages.update entry.package (·.addClass entry)
  | none => packages

/-- Counts a resource. -/
def addResource (registry : Registry) (packages : Packages) (id : ResourceId) : Packages :=
  match registry.resources[id]? with
  | some entry => packages.update entry.package (·.addResource entry)
  | none => packages

/-- The packages of the given classes and resources. -/
def summarize (registry : Registry) (classes : List ClassId) (resources : List ResourceId)
    (exported : ExportedPackages) : Packages :=
  let packages := classes.foldl (addClass registry) {}
  let packages := resources.foldl (addResource registry) packages
  packages.map fun name summary =>
    { summary with exported := summary.hasClasses && exported.admits name }

end Packages

end ModuleGraph
