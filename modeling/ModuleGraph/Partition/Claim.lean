import ModuleGraph.ModuleTable

/-!
# Claiming classes and resources

A `Partition` is a registry together with the modules that divide it up. `claimClass` and
`claimResource` give an item to a module. An item has one owner for good: a second claim is an
error. Ownership is noted on both sides, in the registry and in the set of the module.
-/

namespace ModuleGraph

/-- A registry and the modules that divide it up. -/
structure Partition where
  registry : Registry := {}
  table : ModuleTable := {}
deriving Inhabited

namespace Registry

/-- Sets the owner of a class. -/
def setClassOwner (registry : Registry) (id : ClassId) (module : ModuleId) : Registry :=
  { registry with
    classes := registry.classes.modify id fun entry => { entry with owner := some module } }

/-- Sets the owner of a resource. -/
def setResourceOwner (registry : Registry) (id : ResourceId) (module : ModuleId) : Registry :=
  { registry with
    resources := registry.resources.modify id fun entry => { entry with owner := some module } }

end Registry

namespace Partition

/-- Gives a class to a module. -/
def claimClass (p : Partition) (module : ModuleId) (id : ClassId) :
    Except BuildError Partition :=
  match p.registry.classOwner id with
  | some owner =>
    .error (.ownershipViolation (p.registry.className id) (p.table.name owner)
      (p.table.name module))
  | none =>
    .ok {
      registry := p.registry.setClassOwner id module
      table := p.table.modify module fun m => { m with classes := m.classes.insert id } }

/-- Gives a resource to a module. -/
def claimResource (p : Partition) (module : ModuleId) (id : ResourceId) :
    Except BuildError Partition :=
  match p.registry.resourceOwner id with
  | some owner =>
    .error (.ownershipViolation (p.registry.resourcePath id) (p.table.name owner)
      (p.table.name module))
  | none =>
    .ok {
      registry := p.registry.setResourceOwner id module
      table := p.table.modify module fun m => { m with resources := m.resources.insert id } }

/-- Gives classes to a module, one after the other. -/
def claimClasses (p : Partition) (module : ModuleId) (ids : List ClassId) :
    Except BuildError Partition :=
  ids.foldlM (·.claimClass module ·) p

/-- Gives resources to a module, one after the other. -/
def claimResources (p : Partition) (module : ModuleId) (ids : List ResourceId) :
    Except BuildError Partition :=
  ids.foldlM (·.claimResource module ·) p

/-- Notes that a module leaves a reference unresolved. -/
def leaveUnresolved (p : Partition) (module : ModuleId) (reference : Reference) : Partition :=
  { p with
    table := p.table.modify module fun m =>
      { m with unresolved := m.unresolved.insert reference } }

end Partition

end ModuleGraph
