import ModuleGraph.Event
import ModuleGraph.View

/-!
# Finished modules and their permits

A `ModuleInfo` is what is known of a top-level module in the end: its dependences, sorted by name,
its views and the requesters it permits. No permit at all admits every requester.

`fixPermits` makes permits agree with the dependences in two passes: a module permits every
requester whose edge is local, and a module that permits anyone permits every requester. Once
permits are frozen, no new one can be added.
-/

namespace ModuleGraph

/-- What is known of a top-level module in the end. -/
structure ModuleInfo where
  module : ModuleId
  name : String
  version : String
  /-- The dependences, sorted by module name, one per module. -/
  requires : List Dependence := []
  permits : Std.TreeSet String := {}
  views : List View := []
  mainClass : Option String := none
  frozen : Bool := false
deriving Inhabited

/-- The modules of a graph, by number. -/
abbrev ModuleInfos := Std.TreeMap ModuleId ModuleInfo

/-- Of neighbours that lead to one module, only the first. -/
def dropRepeats : List Dependence → List Dependence
  | [] => []
  | d :: rest =>
    match dropRepeats rest with
    | [] => [d]
    | e :: kept => if d.module = e.module then d :: kept else d :: e :: kept

namespace ModuleInfo

/-- Dependences in the order of a requires list. -/
def sortRequires (deps : List Dependence) : List Dependence :=
  dropRepeats (deps.mergeSort Dependence.precedes)

/-- A module with dependences in any order. -/
def new (module : ModuleId) (name version : String) (requires : List Dependence) : ModuleInfo :=
  { module, name, version, requires := sortRequires requires }

/-- The dependence on the module of a name. -/
def dependenceOn? (info : ModuleInfo) (name : String) : Option Dependence :=
  info.requires.find? (·.moduleName == name)

/-- The packages that the default view exports. -/
def exports (info : ModuleInfo) : List String :=
  ((View.ofKind? info.views .default).elim {} (·.exports)).toList

/-- Permits a requester; also tells whether it was not permitted before. -/
def addPermit (info : ModuleInfo) (permit : String) : Except BuildError (ModuleInfo × Bool) :=
  if info.permits.contains permit then .ok (info, false)
  else if info.frozen then .error (.permitsFrozen info.name permit)
  else .ok ({ info with permits := info.permits.insert permit }, true)

/-- Lets no further permit be added. -/
def freeze (info : ModuleInfo) : ModuleInfo :=
  { info with frozen := true }

end ModuleInfo

namespace ModuleInfos

/-- A dependence as seen from both ends. -/
structure Edge where
  target : ModuleId
  targetName : String
  requester : String
  isLocal : Bool
deriving DecidableEq, Repr, Inhabited

/-- The edges of all modules, by requester and then in the order of its requires list. -/
def edges (infos : ModuleInfos) : List Edge :=
  infos.values.flatMap fun info =>
    info.requires.map fun dep =>
      { target := dep.module, targetName := dep.moduleName, requester := info.name,
        isLocal := dep.modifiers.isLocal }

/-- Lets the target of an edge permit the requester if the target passes a test; also counts a new
permit. -/
def permitIf (test : ModuleInfo → Bool) (infos : ModuleInfos) (edge : Edge) :
    Except BuildError (ModuleInfos × Nat) :=
  match infos[edge.target]? with
  | none => .error (.missingModuleInfo edge.targetName)
  | some info =>
    if test info then do
      let (info, added) ← info.addPermit edge.requester
      return (infos.insert edge.target info, added.toNat)
    else .ok (infos, 0)

/-- Goes through edges with `permitIf`, up to the first that fails; the permits added before it
stay. -/
def permitAll (test : ModuleInfo → Bool) :
    ModuleInfos → Nat → List Edge → ModuleInfos × Except BuildError Nat
  | infos, added, [] => (infos, .ok added)
  | infos, added, edge :: rest =>
    match permitIf test infos edge with
    | .ok (infos, more) => permitAll test infos (added + more) rest
    | .error e => (infos, .error e)

/-- Both passes; on success with the number of permits added. -/
def fixPermits (infos : ModuleInfos) : ModuleInfos × Except BuildError Nat :=
  let edges := infos.edges
  match permitAll (fun _ => true) infos 0 (edges.filter (·.isLocal)) with
  | (infos, .error e) => (infos, .error e)
  | (infos, .ok added) => permitAll (fun info => !info.permits.isEmpty) infos added edges

/-- Freezes the permits of all modules. -/
def freeze (infos : ModuleInfos) : ModuleInfos :=
  infos.map fun _ info => info.freeze

end ModuleInfos

end ModuleGraph
