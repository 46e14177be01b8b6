import ModuleGraph.Registry.Basic

/-!
# Registering classes

`Registry.intern` finds a class or adds a placeholder for it, `Registry.register` records a
definition, and `Registry.addReference` records that one class refers to another. A class does
not refer to itself.
-/

namespace ModuleGraph

/-- The definition of a class, as a reader of compiled code delivers it. -/
structure ClassRecord where
  name : String
  /-- The package, where it is not the one that the name shows. -/
  package : Option String := none
  isPublic : Bool := false
  size : Nat := 0
  references : List String := []
deriving DecidableEq, Repr, Inhabited

namespace Registry

/-- The number of a class, and the registry with a placeholder for it if it was unknown. -/
def intern (registry : Registry) (name : String) : Registry × ClassId :=
  match registry.findClass name with
  | some id => (registry, id)
  | none =>
    let id := registry.classes.size
    ({ registry with
        classes := registry.classes.push (.placeholder name)
        classIndex := registry.classIndex.insert name id }, id)

/-- Records that the first class refers to the second. -/
def addReference (registry : Registry) (source target : ClassId) : Registry :=
  if source = target then registry
  else
    { registry with
      classes :=
        (registry.classes.modify source fun entry =>
          { entry with references := entry.references.insert target }).modify target fun entry =>
            { entry with referrers := entry.referrers.insert source } }

/-- Records a reference between classes given by name. -/
def addReferenceByName (registry : Registry) (source target : String) : Registry :=
  let (registry, s) := registry.intern source
  let (registry, t) := registry.intern target
  registry.addReference s t

/-- Records the references of one class to classes given by name. -/
def addReferences (registry : Registry) (source : ClassId) (targets : List String) : Registry :=
  targets.foldl
    (fun registry target =>
      let (registry, t) := registry.intern target
      registry.addReference source t)
    registry

/-- The entry of a class once its definition is known. -/
def define (record : ClassRecord) (entry : ClassEntry) : ClassEntry :=
  { entry with
    isDefined := true
    isPublic := record.isPublic
    size := record.size
    package := record.package.getD entry.package }

/-- Records the definition of a class, which must be its first. -/
def register (registry : Registry) (record : ClassRecord) :
    Registry × Except RegistryError ClassId :=
  let (registry, id) := registry.intern record.name
  if (registry.classes[id]?).any (·.isDefined) then
    (registry, .error (.duplicateClass record.name))
  else
    let registry := { registry with classes := registry.classes.modify id (define record) }
    (registry.addReferences id record.references, .ok id)

end Registry

end ModuleGraph
