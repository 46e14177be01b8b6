import ModuleGraph.Resolution.Build

/-!
# Reports

A `BuildReport` is the outcome of a build in words: the order of the modules, a report for each of
them in that order, and the split packages.
-/

namespace ModuleGraph

/-- One dependence of a module. -/
structure RequiresReport where
  module : String
  /-- The view that the module is bound to. -/
  view : String
  modifiers : List String
deriving DecidableEq, Repr, Inhabited

/-- A reference that no module satisfied. -/
structure UnresolvedReport where
  source : String
  target : String
deriving DecidableEq, Repr, Inhabited

/-- What there is to tell of a module. -/
structure ModuleReport where
  name : String
  version : String
  mainClass : Option String := none
  requires : List RequiresReport := []
  permits : List String := []
  views : List View := []
  packages : List PackageSummary := []
  classes : List String := []
  resources : List String := []
  unresolved : List UnresolvedReport := []
deriving Inhabited

/-- A split package and the modules that share it. -/
structure SplitReport where
  package : String
  modules : List String
deriving DecidableEq, Repr, Inhabited

/-- What there is to tell of a build. -/
structure BuildReport where
  order : List String
  modules : List ModuleReport
  splitPackages : List SplitReport
deriving Inhabited

/-- Receives the reports of a build. -/
structure ReportSink (m : Type → Type) where
  /-- Called once with the names in order, before any report. -/
  begin : List String → m Unit
  module : ModuleReport → m Unit
  /-- Called once after the last report. -/
  finish : List SplitReport → m Unit

/-- The report of a dependence. -/
def Dependence.report (dep : Dependence) : RequiresReport where
  module := dep.moduleName
  view := dep.view.getD dep.target
  modifiers := dep.modifiers.keywords

namespace Outcome

/-- The modules of the outcome. -/
def table (outcome : Outcome) : ModuleTable :=
  outcome.partition.table

/-- The names of the modules in order. -/
def orderedNames (outcome : Outcome) : List String :=
  outcome.order.map outcome.table.name

/-- Strings in increasing order. -/
def sorted (names : List String) : List String :=
  names.mergeSort fun a b => a ≤ b

/-- The report of a top-level module. -/
def report? (outcome : Outcome) (id : ModuleId) : Option ModuleReport := do
  let info ← outcome.infos[id]?
  let m ← outcome.table.get? id
  let registry := outcome.partition.registry
  return {
    name := info.name
    version := info.version
    mainClass := info.mainClass
    requires := info.requires.map Dependence.report
    permits := info.permits.toList
    views := info.views
    packages := (outcome.surfaces.packages.getD id {}).values
    classes := sorted (m.classes.toList.map registry.className)
    resources := sorted (m.resources.toList.map registry.resourcePath)
    unresolved := m.unresolved.toList.map fun (source, target) =>
      { source := registry.className source, target := registry.className target } }

/-- The reports of all modules in order. -/
def reports (outcome : Outcome) : List ModuleReport :=
  outcome.order.filterMap outcome.report?

/-- The reports of the split packages. -/
def splitReports (outcome : Outcome) : List SplitReport :=
  outcome.split.toList.map fun (package, owners) =>
    { package, modules := owners.map outcome.table.name }

/-- The report of a build. -/
def report (outcome : Outcome) : BuildReport where
  order := outcome.orderedNames
  modules := outcome.reports
  splitPackages := outcome.splitReports

/-- Drives a sink over the whole outcome. -/
def emit {m : Type → Type} [Monad m] (sink : ReportSink m) (outcome : Outcome) : m Unit := do
  sink.begin outcome.orderedNames
  outcome.reports.forM sink.module
  sink.finish outcome.splitReports

end Outcome

end ModuleGraph
