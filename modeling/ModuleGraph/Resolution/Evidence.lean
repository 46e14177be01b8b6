import ModuleGraph.Event
import ModuleGraph.Resolution.Options
import ModuleGraph.Resolution.Surface

/-!
# Evidence for dependences

A top-level module depends on another one because a module of its group requires it, because one of
its classes refers to a class there, because its main class lies there, or because an edge to it is
declared. `BuildPlan.dependencesOf` collects the evidence in this order and merges what leads to
the same module.
-/

namespace ModuleGraph

/-- What dependences are collected from. -/
structure EvidenceBase where
  table : ModuleTable
  registry : Registry
  surfaces : Surfaces
deriving Inhabited

namespace EvidenceBase

/-- The dependence that a requirement asks for. -/
def named (base : EvidenceBase) (requirement : Requirement) (context : String) :
    Except BuildError Dependence :=
  match base.surfaces.resolve? base.table requirement.name with
  | none => .error (.unknownModule requirement.name context)
  | some (target, view) =>
    let dep := Dependence.onModule target (base.table.name target) requirement.modifiers
    .ok ((view.map dep.withTarget).getD dep)

/-- Adds a required module, unless it is the requester itself. -/
def addRequired (base : EvidenceBase) (top : ModuleId) (context : String) (deps : Dependences)
    (requirement : Requirement) : Logged BuildError Dependences := do
  let name := base.table.name top
  let dep ← base.named requirement context
  if dep.module = top then
    Logged.emit (.requirementOnItself name requirement.name)
    return deps
  else deps.add name dep

/-- The dependence that a reference from one class to another gives rise to, if it leads to another
group. -/
def ofReference? (base : EvidenceBase) (plan : BuildPlan) (top : ModuleId)
    (source target : ClassEntry) : Option Dependence :=
  target.owner.bind fun owner =>
    let group := base.table.group owner
    if group = top then none
    else
      let dep := Dependence.onModule group (base.table.name group)
        { isOptional := plan.classifier source target }
      let dep := { dep with isInternal := !plan.options.exported.admits target.package }
      match (View.forPackage? (base.surfaces.viewsOf group) target.package).filter
          (·.kind == .named) with
      | some view => some (dep.withTarget view.name)
      | none => some dep

/-- The references of a class that are known, as pairs of entries. -/
def referencePairs (base : EvidenceBase) (id : ClassId) : List (ClassEntry × ClassEntry) :=
  match base.registry.classes[id]? with
  | none => []
  | some source =>
    source.references.toList.filterMap fun target =>
      (base.registry.classes[target]?).map (source, ·)

/-- Adds the dependences that the references of a class give rise to. -/
def addReferences (base : EvidenceBase) (plan : BuildPlan) (top : ModuleId) (deps : Dependences)
    (id : ClassId) : Except BuildError Dependences :=
  ((base.referencePairs id).filterMap fun (source, target) =>
    base.ofReference? plan top source target).foldlM (·.add (base.table.name top) ·) deps

/-- Adds the module that owns a main class. -/
def addMainClass (base : EvidenceBase) (top : ModuleId) (deps : Dependences) (mainClass : String) :
    Logged BuildError Dependences := do
  let name := base.table.name top
  match (base.registry.findClass mainClass).bind base.registry.classOwner with
  | none =>
    Logged.emit (.mainClassNotFound name mainClass)
    return deps
  | some owner =>
    let target := base.table.group owner
    if target = top then return deps
    else deps.add name (.onModule target (base.table.name target) {})

/-- Adds a declared edge. A foundational module has no optional ones. -/
def addDeclared (base : EvidenceBase) (top : ModuleId) (context : String) (deps : Dependences)
    (edge : Requirement) : Logged BuildError Dependences := do
  let name := base.table.name top
  if base.table.isBase top && edge.modifiers.isOptional then
    Logged.emit (.optionalEdgeOfBaseDropped name edge.name)
    return deps
  else
    let dep ← base.named edge context
    if dep.module = top then return deps else deps.add name dep

end EvidenceBase

/-- The dependences of a top-level module. -/
def BuildPlan.dependencesOf (plan : BuildPlan) (base : EvidenceBase) (top : ModuleId) :
    Logged BuildError Dependences := do
  let members := base.table.groupModules top
  let deps ← members.foldlM
    (fun deps m =>
      m.requires.foldlM (base.addRequired top s!"requires of \"{m.name}\"") deps)
    {}
  let deps ← Logged.ofExcept ((base.table.classes top).foldlM (base.addReferences plan top) deps)
  let deps ← (members.filterMap (·.spec.mainClass)).foldlM (base.addMainClass top) deps
  let deps ← members.foldlM
    (fun deps m =>
      (plan.declared.leaving m.name).foldlM
        (base.addDeclared top s!"dependency from \"{m.name}\"") deps)
    deps
  Logged.emit (.dependencesCollected (base.table.name top) deps.size)
  return deps

end ModuleGraph
