import ModuleGraph.BuildError
import ModuleGraph.Registry.Basic

/-!
# Dependences

A `Dependence` is an edge to a top-level module. It is requested under the name of the module or
of one of its views, and bound to a view in the end. `Dependence.merge` folds a second edge to the
same module into a first one: an edge that is not optional makes the result not optional, public
and local are kept once set, and two different views of one module cannot be reconciled.
-/

namespace ModuleGraph

/-- An edge to a top-level module. -/
structure Dependence where
  /-- The name the edge was requested under: of the module or of one of its views. -/
  target : String
  module : ModuleId
  moduleName : String
  modifiers : Modifiers := {}
  /-- The edge reaches into packages that the module does not export. -/
  isInternal : Bool := false
  /-- The view the edge is bound to, once it is. -/
  view : Option String := none
deriving DecidableEq, Repr, Inhabited

namespace Dependence

/-- An edge to a module under the module's own name. -/
def onModule (module : ModuleId) (name : String) (modifiers : Modifiers) : Dependence :=
  { target := name, module, moduleName := name, modifiers }

/-- Requested under another name. -/
def withTarget (dep : Dependence) (target : String) : Dependence :=
  { dep with target }

/-- Whether the edge asks for a view instead of the module itself. -/
def targetsView (dep : Dependence) : Bool :=
  dep.target != dep.moduleName

/-- The keywords and the name of the view, each but the last followed by a space. -/
def text (dep : Dependence) : String :=
  dep.modifiers.keywords.foldr (fun word rest => word ++ " " ++ rest) (dep.view.getD dep.target)

/-- The order of requires lists: by module name, then by module. -/
def precedes (d e : Dependence) : Bool :=
  d.moduleName < e.moduleName || (d.moduleName == e.moduleName && d.module ≤ e.module)

/-- The edge pointed at another module under its own name, with the modifiers kept. -/
def redirect (dep : Dependence) (module : ModuleId) (name : String) : Dependence :=
  { dep with module, moduleName := name, target := name, view := none }

/-- The edge made local, and whether it was not before. -/
def promote (dep : Dependence) : Dependence × Bool :=
  ({ dep with modifiers := { dep.modifiers with isLocal := true } }, !dep.modifiers.isLocal)

/-- Whether the second edge brings the name of a view that the first one does not have. -/
def bringsView (dep other : Dependence) : Bool :=
  other.targetsView && dep.target != other.target

/-- Folds `other`, an edge of `requester` to the same module, into `dep`; also tells whether
anything changed. -/
def merge (dep : Dependence) (requester : String) (other : Dependence) :
    Except BuildError (Dependence × Bool) :=
  if dep.bringsView other && dep.targetsView then
    .error (.conflictingDependence requester dep.text other.text)
  else
    let upgraded := dep.bringsView other
    let cleared := !other.modifiers.isOptional && dep.modifiers.isOptional
    let opened := other.modifiers.isPublic && !dep.modifiers.isPublic
    let localized := other.modifiers.isLocal && !dep.modifiers.isLocal
    let internalized := other.isInternal && !dep.isInternal
    .ok ({ dep with
      target := if upgraded then other.target else dep.target
      modifiers := dep.modifiers.combine other.modifiers
      isInternal := dep.isInternal || other.isInternal },
      upgraded || cleared || opened || localized || internalized)

end Dependence

/-- The edges of one requester, by the module they lead to. -/
abbrev Dependences := Std.TreeMap ModuleId Dependence

namespace Dependences

/-- Adds an edge of `requester`, merging it into an edge to the same module. -/
def add (deps : Dependences) (requester : String) (dep : Dependence) :
    Except BuildError Dependences :=
  match deps[dep.module]? with
  | none => .ok (deps.insert dep.module dep)
  | some existing =>
    match existing.merge requester dep with
    | .ok (merged, _) => .ok (deps.insert dep.module merged)
    | .error e => .error e

end Dependences

end ModuleGraph
