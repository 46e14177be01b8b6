import ModuleGraph.Resolution.Build

/-!
# The platform variant

A platform keeps its internals apart from its public modules. On top of a plain build:

* every internal module with exported classes is handed on by a public module of the same name,
  which is added if need be, and permits it,
* the boot module is handed on by the base module,
* two aggregates hand on the public modules, the second one only those that are privileged or hold
  the tools of the runtime,
* dependences on a module that is handed on go to its exporter, unless the requester is privileged:
  the boot module, the base module and the modules that require the boot module.
-/

namespace ModuleGraph

/-- A plan and the names that the platform goes by. -/
structure PlatformPlan where
  plan : BuildPlan
  settings : PlatformSettings

namespace PlatformPlan

/-- The platform's base module is the foundational module of the build. -/
def new (plan : BuildPlan) (settings : PlatformSettings) : PlatformPlan :=
  { plan := { plan with
      options := { plan.options with baseModule := some settings.baseModule } }
    settings }

/-- The plan of a configuration that has platform settings. -/
def ofConfiguration (c : Configuration) : Except BuildError PlatformPlan :=
  match c.platform with
  | none => .error .platformTableMissing
  | some settings =>
    match BuildPlan.ofConfiguration c with
    | .ok plan => .ok (new plan settings)
    | .error fault => .error (.config fault)

/-- A public requirement. -/
def reexport (name : String) : Requirement :=
  { name, modifiers := { isPublic := true } }

/-- A module that the platform cannot do without. -/
def requireRole (table : ModuleTable) (name role : String) : Except BuildError ModuleId :=
  match table.find name with
  | some id => .ok id
  | none => .error (.platformModuleMissing role name)

/-- The group of the module of a name, which is added as an empty module if it is missing. -/
def ensureAggregate (platform : PlatformPlan) (table : ModuleTable) (name : String) :
    Logged BuildError (ModuleTable × ModuleId) := do
  match table.find name with
  | some id => return (table, table.group id)
  | none =>
    Logged.emit (.aggregateCreated name)
    table.add { name, version := platform.plan.options.version, allowEmpty := true }

/-- Whether a module holds a class of an exported package. -/
def holdsExported (platform : PlatformPlan) (registry : Registry) (table : ModuleTable)
    (id : ModuleId) : Bool :=
  (table.classes id).any fun c =>
    (registry.classes[c]?).any fun entry => platform.plan.options.exported.admits entry.package

/-- The public module that hands on an internal module, if there is one or there has to be. -/
def exporterOf (platform : PlatformPlan) (registry : Registry) (table : ModuleTable)
    (id : ModuleId) (publicName : String) :
    Logged BuildError (ModuleTable × Option ModuleId) := do
  match table.find publicName with
  | some existing => return (table, some (table.group existing))
  | none =>
    if platform.holdsExported registry table id then
      let (table, exporter) ← platform.ensureAggregate table publicName
      return (table, some exporter)
    else return (table, none)

/-- What is known of exporters so far. -/
structure Exporters where
  table : ModuleTable
  exporters : Std.TreeMap ModuleId ModuleId := {}
deriving Inhabited

/-- Pairs an internal module with its exporter. -/
def pairExporter (platform : PlatformPlan) (registry : Registry) (state : Exporters)
    (id : ModuleId) : Logged BuildError Exporters := do
  let name := state.table.name id
  match Text.stripStart? platform.settings.internalStart.toList name.toList with
  | none => return state
  | some rest =>
    let publicName := platform.settings.publicStart ++ .ofList rest
    let (table, exporter) ← platform.exporterOf registry state.table id publicName
    match exporter with
    | none => return { state with table }
    | some exporter =>
      if exporter = id then return { state with table }
      else
        let table := table.addPermit id (table.name exporter)
        let table := table.addRequirement exporter (reexport name)
        return { table, exporters := state.exporters.insert id exporter }

/-- Pairs every internal module with its exporter. -/
def pairExporters (platform : PlatformPlan) (registry : Registry) (table : ModuleTable) :
    Logged BuildError Exporters :=
  table.topLevel.foldlM (platform.pairExporter registry) { table }

/-- Whether a module of the group declares that it requires the boot module. -/
def isBootConnected (table : ModuleTable) (boot top : ModuleId) : Bool :=
  (table.groupModules top).any fun m =>
    m.spec.requires.any fun requirement =>
      (table.find requirement.name).any fun target => table.group target == boot

/-- The modules that depend on others directly. -/
def privileged (table : ModuleTable) (boot base : ModuleId) : List ModuleId :=
  table.topLevel.filter fun id => id == boot || id == base || isBootConnected table boot id

/-- The modules of the two aggregates. -/
structure Aggregates where
  jdk : ModuleId
  jre : ModuleId
deriving DecidableEq, Repr, Inhabited

/-- Lets the aggregates hand on a module of the platform. -/
def aggregate (platform : PlatformPlan) (exporters : Std.TreeMap ModuleId ModuleId)
    (privileged : Std.TreeSet ModuleId) (aggregates : Aggregates) (table : ModuleTable)
    (id : ModuleId) : ModuleTable :=
  let isAggregate := fun m => m == aggregates.jdk || m == aggregates.jre
  let name := table.name id
  let ofPlatform :=
    hasStart name platform.settings.publicStart || hasStart name platform.settings.internalStart
  let exporter := exporters.getD id id
  if isAggregate id || !ofPlatform || isAggregate exporter then table
  else
    let requirement := reexport (table.name exporter)
    let table := table.addRequirement aggregates.jdk requirement
    if privileged.contains id || name == platform.settings.jreToolsModule then
      table.addRequirement aggregates.jre requirement
    else table

/-- A table made ready for the platform, the policy that goes with it, and the modules that the load
order starts with. -/
structure Prepared where
  table : ModuleTable
  policy : ExporterPolicy
  seeds : List ModuleId
deriving Inhabited

/-- Adds the aggregates and their edges to a table whose members are merged. -/
def prepare (platform : PlatformPlan) (p : Partition) (boot base : ModuleId) :
    Logged BuildError Prepared := do
  let boot := p.table.group boot
  let base := p.table.group base
  if boot = base then
    Logged.fail (.bootMergedIntoBase platform.settings.bootModule platform.settings.baseModule)
  else
    let (table, jdk) ← platform.ensureAggregate p.table platform.settings.jdkModule
    let (table, jre) ← platform.ensureAggregate table platform.settings.jreModule
    let state ← platform.pairExporters p.registry table
    let exporters := state.exporters.insert boot base
    let table := state.table.addRequirement base (reexport (state.table.name boot))
    let privileged := Std.TreeSet.ofList (privileged table boot base)
    let table := table.topLevel.foldl
      (platform.aggregate exporters privileged { jdk, jre }) table
    Logged.emit (.aggregatesPrepared exporters.size privileged.size)
    return {
      table
      policy := { exporters, privileged, boot := some boot }
      seeds := [boot, base, jdk] }

/-- Builds the module graph of a registry in which nothing has an owner yet. -/
def build (platform : PlatformPlan) (registry : Registry) : Logged BuildError Outcome := do
  let plan := platform.plan
  let table ← plan.createModules
  let boot ← requireRole table platform.settings.bootModule "boot"
  let base ← requireRole table platform.settings.baseModule "base"
  let p ← plan.assignUnits { registry, table }
  let p ← plan.mergeMembers p
  let prepared ← platform.prepare p boot base
  plan.resolve { p with table := prepared.table } prepared.policy prepared.seeds

end PlatformPlan

/-- Builds the module graph that a configuration describes. Platform settings select the platform
variant, and what `optional` selects is optional beside what the declared rules say. -/
def Configuration.buildWith (c : Configuration) (registry : Registry) (optional : OptionalRules)
    (merge : Bool) : Logged BuildError Outcome := do
  match OptionalRules.ofDeclarations c.optional, BuildPlan.ofConfiguration c with
  | .error fault, _ => Logged.fail (.config fault)
  | _, .error fault => Logged.fail (.config fault)
  | .ok rules, .ok plan =>
    let plan := { plan with
      classifier := (rules.extend optional).isOptional
      options := { plan.options with merge } }
    match c.platform with
    | some settings => (PlatformPlan.new plan settings).build registry
    | none => plan.build registry

/-- Builds the module graph that a configuration describes, with marked references only beside the
declared rules. -/
def Configuration.build (c : Configuration) (registry : Registry)
    (optionalEdges : List (String × String)) (merge : Bool) : Logged BuildError Outcome :=
  c.buildWith registry { edges := optionalEdges } merge

end ModuleGraph
