import ModuleGraph.LoadOrder
import ModuleGraph.Members
import ModuleGraph.Partition.Closure
import ModuleGraph.Resolution.Finish
import ModuleGraph.SplitPackages

/-!
# Building the module graph

A build goes through these stages:

1. add the modules (`createModules`),
2. let every module claim its roots and then complete it (`assignUnits`),
3. merge members into their parents,
4. summarize packages, build views and collect dependences, and make edges between modules that
   share a package local (`collect`),
5. finish the modules, make permits agree with the dependences, and put the modules in order
   (`resolve`).
-/

namespace ModuleGraph

/-- The result of a build. -/
structure Outcome where
  partition : Partition
  surfaces : Surfaces
  infos : ModuleInfos
  /-- The top-level modules, each after those it requires. -/
  order : List ModuleId
  split : SplitPackages
deriving Inhabited

namespace BuildPlan

/-- The table of all specified modules. -/
def createModules (plan : BuildPlan) : Except BuildError ModuleTable := do
  let table ← plan.specs.foldlM (fun table spec => (table.add spec).map (·.1)) {}
  let table := match plan.options.baseModule.bind table.find with
    | some base => table.setBase base
    | none => table
  match plan.options.unknownModule with
  | some unknown =>
    let _ ← table.require unknown "settings.unknown-module"
    return table
  | none => return table

/-- Lets every module claim its roots, in order. -/
def seedAll (p : Partition) :
    Except BuildError (Partition × List (ModuleId × List ClassId)) :=
  p.table.ids.foldlM
    (fun (p, seeds) id => do
      let (p, roots) ← p.seedRoots id
      return (p, seeds ++ [(id, roots)]))
    (p, [])

/-- Completes a module that has claimed its roots. -/
def closeOne (p : Partition) (seeds : ModuleId × List ClassId) :
    Logged BuildError Partition := do
  let (p, stats) ← p.closeOver seeds.1 seeds.2
  Logged.emitIf (0 < stats.unresolved)
    (.referencesUnresolved (p.table.name seeds.1) stats.unresolved)
  return p

/-- Deals with what no module has claimed: it goes to the module for unknown items, if there is
one. -/
def assignRest (plan : BuildPlan) (p : Partition) : Logged BuildError Partition := do
  match plan.options.unknownModule with
  | some unknown =>
    let id ← p.table.require unknown "settings.unknown-module"
    let (p, count) ← p.assignUnclaimed id
    Logged.emitIf (0 < count) (.unclaimedAssigned unknown count)
    return p
  | none =>
    let count := (p.registry.classesWhere fun e => e.isDefined && e.owner.isNone).length
    Logged.emitIf (0 < count) (.unclaimedLeft count)
    return p

/-- Gives the classes and resources of a registry to the modules of a table. Every module claims
its roots before any is completed, so no closure takes the root of another module. -/
def assignUnits (plan : BuildPlan) (p : Partition) : Logged BuildError Partition := do
  let (p, seeds) ← seedAll p
  let p ← seeds.foldlM closeOne p
  plan.assignRest p

/-- Merges members, keeping the registry. -/
def mergeMembers (plan : BuildPlan) (p : Partition) : Except BuildError Partition :=
  match p.table.buildMembers plan.options.merge with
  | (table, .ok ()) => .ok { p with table }
  | (_, .error e) => .error e

/-- Tells which packages are split. -/
def reportSplit (table : ModuleTable) (split : SplitPackages) : Logged BuildError Unit :=
  split.toList.forM fun (package, owners) =>
    Logged.emit (.packageSplit package (owners.map table.name))

/-- What is known of the module graph before its modules are finished. -/
structure Collected where
  base : EvidenceBase
  edges : EdgeMap
  split : SplitPackages
  promoted : Nat
deriving Inhabited

/-- Collects packages, views and dependences of the top-level modules. -/
def collect (plan : BuildPlan) (p : Partition) : Logged BuildError Collected := do
  let table := p.table
  let top := table.topLevel
  Logged.emit (.aggregationComplete table.size top.length)
  let packages := top.map fun id => (id, table.packagesOf p.registry plan.options.exported id)
  let split := SplitPackages.detect packages
  reportSplit table split
  plan.declared.sources.forM fun source => do
    let _ ← table.require source "[[dependency]] from"
  let surfaces ← Logged.ofExcept (top.foldlM (Surfaces.addViews table) (.ofPackages packages))
  let base : EvidenceBase := { table, registry := p.registry, surfaces }
  let edges ← top.foldlM
    (fun (edges : EdgeMap) id => do
      let deps ← plan.dependencesOf base id
      return edges.insert id deps)
    {}
  let (edges, promoted) := split.promoteEdges edges
  return { base, edges, split, promoted }

/-- Finishes all modules and makes their permits agree with their dependences. -/
def finishAll (policy : ExporterPolicy) (collected : Collected) :
    Logged BuildError ModuleInfos := do
  let infos ← collected.edges.toList.foldlM (collected.base.finishInto policy) {}
  match infos.fixPermits with
  | (_, .error e) => Logged.fail e
  | (infos, .ok added) =>
    Logged.emit (.permitsFixed added)
    return infos.freeze

/-- Everything after the merging of members. The order starts with the given seeds. -/
def resolve (plan : BuildPlan) (p : Partition) (policy : ExporterPolicy) (seeds : List ModuleId) :
    Logged BuildError Outcome := do
  let collected ← plan.collect p
  let infos ← finishAll policy collected
  let order ← (Graph.ofInfos infos).loadOrder seeds
  Logged.emit (.graphResolved order.length collected.split.size collected.promoted)
  return {
    partition := p
    surfaces := collected.base.surfaces
    infos, order
    split := collected.split }

/-- Builds the module graph of a registry in which nothing has an owner yet. -/
def build (plan : BuildPlan) (registry : Registry) : Logged BuildError Outcome := do
  let table ← plan.createModules
  let p ← plan.assignUnits { registry, table }
  let p ← plan.mergeMembers p
  plan.resolve p {} []

end BuildPlan

end ModuleGraph
