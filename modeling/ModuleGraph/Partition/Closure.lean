import ModuleGraph.Event
import ModuleGraph.Partition.Claim
import ModuleGraph.Registry.Resources

/-!
# Roots and closure

A module first claims its roots: the unowned classes that its root patterns select. Its closure
then claims, breadth first, every unowned class that a claimed class refers to; after that the
unowned classes that its include patterns select, without following their references; and last the
unowned resources that its patterns select or that provide a service with one of its classes.

A reference that is followed to a class that is missing or excluded stays unresolved, and so does
a reference from an included class to a class without an owner.
-/

namespace ModuleGraph

/-- What one closure claimed, and how many references its module leaves unresolved. -/
structure ClosureStats where
  roots : Nat := 0
  reached : Nat := 0
  included : Nat := 0
  resources : Nat := 0
  unresolved : Nat := 0
deriving DecidableEq, Repr, Inhabited

namespace Partition

/-- The specification of a module. -/
def spec (p : Partition) (module : ModuleId) : ModuleSpec :=
  (p.table.get? module).elim default (·.spec)

/-- The unowned defined classes whose names pass a test, in order. -/
def unownedWhere (p : Partition) (test : String → Bool) : List ClassId :=
  p.registry.classesWhere fun entry => entry.owner.isNone && entry.isDefined && test entry.name

/-- Claims the roots of a module that nobody owns yet. -/
def seedRoots (p : Partition) (module : ModuleId) :
    Except BuildError (Partition × List ClassId) := do
  let roots := p.unownedWhere (p.spec module).hasRoot
  let p ← p.claimClasses module roots
  return (p, roots)

/-! ## Following references -/

/-- A closure under way: the partition, the number of classes reached, and the classes reached in
the current round, the last one first. -/
structure Closing where
  partition : Partition
  reached : Nat := 0
  fresh : List ClassId := []
deriving Inhabited

/-- Follows one reference of a class that the module holds. -/
def follow (module : ModuleId) (spec : ModuleSpec) (source : ClassId) (state : Closing)
    (target : ClassId) : Logged BuildError Closing := do
  let p := state.partition
  match p.registry.classes[target]? with
  | none => return state
  | some entry =>
    if entry.owner.isSome then return state
    else if !entry.isDefined || spec.excludesClass entry.name then
      Logged.emit (.referenceUnresolved spec.name (p.registry.className source) entry.name)
      return { state with partition := p.leaveUnresolved module (source, target) }
    else
      let p ← p.claimClass module target
      return { partition := p, reached := state.reached + 1, fresh := target :: state.fresh }

/-- Follows all references of a class. -/
def expand (module : ModuleId) (spec : ModuleSpec) (state : Closing) (source : ClassId) :
    Logged BuildError Closing :=
  (state.partition.registry.referencesOf source).foldlM (follow module spec source) state

/-- Follows references round by round: what one round reaches is expanded in the next. A round
that reaches nothing is the last, so `rounds` only has to exceed the number of classes. -/
def followRounds (module : ModuleId) (spec : ModuleSpec) :
    (rounds : Nat) → List ClassId → Closing → Logged BuildError Closing
  | 0, _, state => pure state
  | _ + 1, [], state => pure state
  | rounds + 1, sources, state => do
    let state ← sources.foldlM (expand module spec) { state with fresh := [] }
    followRounds module spec rounds state.fresh.reverse state

/-! ## Includes and resources -/

/-- Notes the references of an included class that nobody owns the target of. -/
def leaveUnowned (p : Partition) (module : ModuleId) (source : ClassId) : Partition :=
  (p.registry.referencesOf source).foldl
    (fun q target =>
      if (p.registry.classOwner target).isNone then q.leaveUnresolved module (source, target)
      else q)
    p

/-- Claims the unowned classes that the include patterns of a module select. -/
def claimIncluded (p : Partition) (module : ModuleId) (spec : ModuleSpec) :
    Except BuildError (Partition × Nat) := do
  let included := p.unownedWhere spec.includesClass
  let p ← p.claimClasses module included
  return (included.foldl (·.leaveUnowned module ·) p, included.length)

/-- The classes that a module holds. -/
def held (p : Partition) (module : ModuleId) : Std.TreeSet ClassId :=
  (p.table.get? module).elim {} (·.classes)

/-- The unowned resources that belong to a module by its patterns or by its classes. -/
def matchingResources (p : Partition) (module : ModuleId) (spec : ModuleSpec) :
    List ResourceId :=
  let held := p.held module
  p.registry.resourcesWhere fun entry =>
    entry.owner.isNone &&
      ((entry.selectedBy spec.includes && !entry.selectedBy spec.excludes) ||
        entry.providedBy p.registry held)

/-- Completes a module, beginning with the given classes. -/
def closeOver (p : Partition) (module : ModuleId) (seeds : List ClassId) :
    Logged BuildError (Partition × ClosureStats) := do
  let spec := p.spec module
  let rounds := p.registry.classes.size + 1
  let closing ← followRounds module spec rounds seeds { partition := p }
  let (p, included) ← closing.partition.claimIncluded module spec
  let resources := p.matchingResources module spec
  let p ← p.claimResources module resources
  let stats : ClosureStats := {
    roots := seeds.length
    reached := closing.reached
    included
    resources := resources.length
    unresolved := (p.table.get? module).elim 0 (·.unresolved.size) }
  Logged.emit (.closureComplete spec.name stats.roots stats.reached stats.included
    stats.resources stats.unresolved)
  return (p, stats)

/-- Claims the roots of a module and completes it. -/
def claimRootsAndClose (p : Partition) (module : ModuleId) :
    Logged BuildError (Partition × ClosureStats) := do
  let (p, roots) ← p.seedRoots module
  p.closeOver module roots

/-! ## The rest -/

/-- Gives everything that nobody owns to one module: the defined classes and all resources. Also
tells how many items there were. -/
def assignUnclaimed (p : Partition) (module : ModuleId) : Except BuildError (Partition × Nat) := do
  let classes := p.unownedWhere fun _ => true
  let resources := p.registry.resourcesWhere (·.owner.isNone)
  let p ← p.claimClasses module classes
  let p ← p.claimResources module resources
  return (p, classes.length + resources.length)

end Partition

end ModuleGraph
