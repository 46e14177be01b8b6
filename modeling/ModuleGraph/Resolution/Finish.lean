import ModuleGraph.ModuleInfo
import ModuleGraph.Resolution.Evidence
import ModuleGraph.Resolution.Exporters

/-!
# Finishing modules

The collected dependences of a module become final: what the exporter policy drops is dropped, what
it redirects is redirected, dependences on modules outside the graph are dropped, and the rest is
bound to views. The permits of a finished module are those declared for any module of its group.
-/

namespace ModuleGraph

namespace EvidenceBase

/-- The dependence as the policy wants it. A dependence that is internal, local or on a view is
left as it is. -/
def applyPolicy (base : EvidenceBase) (policy : ExporterPolicy) (top : ModuleId)
    (dep : Dependence) : Dependence :=
  if dep.isInternal || dep.modifiers.isLocal || dep.targetsView then dep
  else
    let exporter := policy.exporter dep.module top
    if exporter = dep.module then dep else dep.redirect exporter (base.table.name exporter)

/-- Keeps a dependence, unless it is dropped. -/
def keep (base : EvidenceBase) (policy : ExporterPolicy) (top : ModuleId) (kept : Dependences)
    (dep : Dependence) : Logged BuildError Dependences := do
  let name := base.table.name top
  if dep.modifiers.isOptional && policy.dropsOptional top then
    Logged.emit (.optionalDependenceDropped name dep.moduleName)
    return kept
  else
    let dep := base.applyPolicy policy top dep
    if base.table.isTopLevel dep.module then kept.add name dep
    else
      Logged.emit (.dependenceOutsideTopLevelDropped name dep.moduleName)
      return kept

/-- Binds a dependence to a view. -/
def bind (base : EvidenceBase) (top : ModuleId) (dep : Dependence) :
    Except BuildError Dependence := do
  let allowLocalDefault := (base.table.get? dep.module).any (·.spec.allowLocalDefault)
  let view ← View.select (base.surfaces.viewsOf dep.module) dep (base.table.name top)
    allowLocalDefault
  return { dep with view := some view.name }

/-- Adds the permits that a module declares. -/
def addPermits (base : EvidenceBase) (info : ModuleInfo) (m : Module) :
    Except BuildError ModuleInfo :=
  m.permits.foldlM
    (fun info permit => do
      let group ← base.table.requireGroup permit s!"permits of \"{m.name}\""
      let (info, _) ← info.addPermit group
      return info)
    info

/-- The finished module of a top-level module and its dependences. -/
def finish (base : EvidenceBase) (policy : ExporterPolicy) (top : ModuleId) (deps : Dependences) :
    Logged BuildError ModuleInfo := do
  let kept ← deps.values.foldlM (base.keep policy top) {}
  let bound ← Logged.ofExcept (kept.values.mapM (base.bind top))
  let views := base.surfaces.viewsOf top
  let version := (base.table.get? top).elim "" (·.spec.version)
  let info := {
    ModuleInfo.new top (base.table.name top) version bound with
    views
    mainClass := (View.ofKind? views .default).bind (·.mainClass) }
  Logged.ofExcept ((base.table.groupModules top).foldlM base.addPermits info)

/-- Finishes a module and enters it among the others. -/
def finishInto (base : EvidenceBase) (policy : ExporterPolicy) (infos : ModuleInfos)
    (entry : ModuleId × Dependences) : Logged BuildError ModuleInfos := do
  let info ← base.finish policy entry.1 entry.2
  if infos.contains entry.1 then Logged.fail (.duplicateModuleInfo info.name)
  else return infos.insert entry.1 info

end EvidenceBase

end ModuleGraph
