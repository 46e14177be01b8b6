import ModuleGraph.ModuleTable
import ModuleGraph.View

/-!
# Surfaces of top-level modules

The surface of a top-level module is what others can see of it: its package summaries and its
views. The views declared for any module of a group are views of the group. Every view but a
default one has a name that no other view and no module of another group has, so it can be asked
for by name (`Surfaces.resolve?`).
-/

namespace ModuleGraph

/-- The surfaces of all top-level modules. -/
structure Surfaces where
  packages : Std.TreeMap ModuleId Packages := {}
  views : Std.TreeMap ModuleId (List View) := {}
  /-- The owners of all views but the default ones, by name. -/
  owners : Std.TreeMap String ModuleId := {}
deriving Inhabited

namespace ModuleTable

/-- The name of the group that a name belongs to, in some context. -/
def requireGroup (table : ModuleTable) (name context : String) : Except BuildError String := do
  let id ← table.require name context
  return table.name (table.group id)

/-- The permits of a declared view, as names of groups. -/
def resolveView (table : ModuleTable) (view : ViewSpec) : Except BuildError ViewSpec := do
  let context := s!"permits of view \"{view.name}\""
  let permits ← view.permits.mapM (table.requireGroup · context)
  return { view with permits }

/-- The package summaries of a module. -/
def packagesOf (table : ModuleTable) (registry : Registry) (exported : ExportedPackages)
    (id : ModuleId) : Packages :=
  match table.get? id with
  | some m => .summarize registry m.classes.toList m.resources.toList exported
  | none => {}

/-- The main class of a group: the first that one of its modules declares. -/
def mainClass? (table : ModuleTable) (top : ModuleId) : Option String :=
  (table.groupModules top).findSome? (·.spec.mainClass)

/-- The views of a top-level module. -/
def viewsOf (table : ModuleTable) (packages : Packages) (top : ModuleId) :
    Except BuildError (List View) := do
  let declared ← ((table.groupModules top).flatMap (·.spec.views)).mapM table.resolveView
  let internalView := (table.get? top).any (·.spec.internalView)
  return View.forModule (table.name top) (table.mainClass? top) internalView declared packages

end ModuleTable

namespace Surfaces

/-- Enters the name of a view, which must not be taken. -/
def claimName (table : ModuleTable) (top : ModuleId) (owners : Std.TreeMap String ModuleId)
    (view : View) : Except BuildError (Std.TreeMap String ModuleId) :=
  let takenByModule := (table.find view.name).any fun other => table.group other != top
  if takenByModule || owners.contains view.name then
    .error (.duplicateView (table.name top) view.name)
  else .ok (owners.insert view.name top)

/-- Adds the views of a top-level module. -/
def addViews (table : ModuleTable) (surfaces : Surfaces) (top : ModuleId) :
    Except BuildError Surfaces := do
  let views ← table.viewsOf (surfaces.packages.getD top {}) top
  let owners ← (views.filter (·.kind != .default)).foldlM (claimName table top) surfaces.owners
  return { surfaces with views := surfaces.views.insert top views, owners }

/-- The packages of modules, without views yet. -/
def ofPackages (packages : List (ModuleId × Packages)) : Surfaces :=
  { packages := .ofList packages }

/-- The views of a module, none if it is not top-level. -/
def viewsOf (surfaces : Surfaces) (top : ModuleId) : List View :=
  surfaces.views.getD top []

/-- The top-level module that a name leads to, and the view that it asks for, if it names one. -/
def resolve? (surfaces : Surfaces) (table : ModuleTable) (name : String) :
    Option (ModuleId × Option String) :=
  match table.find name with
  | some id => some (table.group id, none)
  | none => (surfaces.owners[name]?).map fun owner => (owner, some name)

end Surfaces

end ModuleGraph
