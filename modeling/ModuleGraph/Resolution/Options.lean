import ModuleGraph.Config.ModuleSpec
import ModuleGraph.Optionality
import ModuleGraph.Package

/-!
# What a build goes by

`BuildPlan` collects everything that decides a build beside the registry: the specifications of
the modules, the options, the test for optional references and the declared edges.
-/

namespace ModuleGraph

/-- The set of exported packages that a list gives. -/
def ExportedPackages.ofList (names : List String) : ExportedPackages :=
  ⟨stringSet names⟩

/-- The knobs of a build. -/
structure BuildOptions where
  /-- Merge members into their parents. -/
  merge : Bool := true
  /-- The version of modules that the engine adds. -/
  version : String := "1.0"
  /-- The foundational module. -/
  baseModule : Option String := some "base"
  /-- The module that takes what no module claims. -/
  unknownModule : Option String := none
  exported : ExportedPackages := {}
deriving Inhabited

/-- The options that settings ask for. -/
def BuildOptions.ofSettings (settings : Settings) : BuildOptions where
  version := settings.version
  baseModule := some settings.baseModule
  unknownModule := settings.unknownModule
  exported := .ofList settings.exportedPackages

/-- Everything that decides a build beside the registry. -/
structure BuildPlan where
  specs : List ModuleSpec
  options : BuildOptions := {}
  classifier : Classifier := neverOptional
  declared : DeclaredEdges := {}

/-- The plan of a configuration. -/
def BuildPlan.ofConfiguration (c : Configuration) : Except ConfigFault BuildPlan := do
  let specs ← c.specs
  let rules ← OptionalRules.ofDeclarations c.optional
  return {
    specs
    options := .ofSettings c.settings
    classifier := rules.isOptional
    declared := ⟨c.dependencies⟩ }

end ModuleGraph
