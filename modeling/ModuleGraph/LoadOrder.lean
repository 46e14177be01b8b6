import ModuleGraph.ModuleInfo

/-!
# The load order

The module graph has an edge from a module to each module that it requires and that is not
optional. `ModuleGraph.Graph.loadOrder` lists the modules with every module after those it
requires; if that is impossible, it finds a cycle.

The search goes depth first and lists a module when all of its requirements are listed. It starts
from the given seeds and goes on with the remaining modules in the order of their numbers. A
requirement that is still on the path of the search closes a cycle.
-/

namespace ModuleGraph

/-- A module and the modules it requires, in the order in which they were added. -/
structure Graph.Node where
  name : String
  requires : List ModuleId := []
deriving DecidableEq, Repr, Inhabited

/-- Modules and the requirements between them. -/
structure Graph where
  nodes : Std.TreeMap ModuleId Graph.Node := {}
deriving Inhabited

namespace Graph

/-- Adds a module; a number already present keeps its name and requirements. -/
def addModule (graph : Graph) (id : ModuleId) (name : String) : Graph :=
  if graph.nodes.contains id then graph else ⟨graph.nodes.insert id { name }⟩

/-- Adds a requirement between two modules of the graph, once. With an end that is not in the
graph nothing is added. -/
def addRequirement (graph : Graph) (source target : ModuleId) : Graph :=
  if !graph.nodes.contains target then graph
  else
    match graph.nodes[source]? with
    | none => graph
    | some node =>
      if node.requires.contains target then graph
      else ⟨graph.nodes.insert source { node with requires := node.requires ++ [target] }⟩

/-- The graph of modules and their requirements, without the optional ones. -/
def ofInfos (infos : ModuleInfos) : Graph :=
  let modules := infos.values.foldl (fun graph info => graph.addModule info.module info.name) {}
  infos.values.foldl
    (fun graph info =>
      (info.requires.filter (!·.modifiers.isOptional)).foldl
        (fun graph dep => graph.addRequirement info.module dep.module) graph)
    modules

/-- The number of modules. -/
def size (graph : Graph) : Nat :=
  graph.nodes.size

/-- The name of a module, empty for one that is not in the graph. -/
def name (graph : Graph) (id : ModuleId) : String :=
  (graph.nodes[id]?).elim "" (·.name)

/-- The modules that a module requires. -/
def requires (graph : Graph) (id : ModuleId) : List ModuleId :=
  (graph.nodes[id]?).elim [] (·.requires)

/-- How far a search has come: the modules met, and those listed, the last one first. -/
structure Search where
  visited : Std.TreeSet ModuleId := {}
  listed : List ModuleId := []
deriving Inhabited

/-- The names along the cycle that leads from `id` along the path back to `id`. The path has the
latest module first. -/
def cycleNames (graph : Graph) (path : List ModuleId) (id : ModuleId) : List String :=
  let cycle := path.reverse.dropWhile (· != id)
  (cycle ++ [id]).map graph.name

/-- Searches from a module that has not been met; `path` leads to it. The depth of a search does
not exceed the number of modules. -/
def visit (graph : Graph) :
    (depth : Nat) → (path : List ModuleId) → Search → ModuleId → Except BuildError Search
  | 0, _, search, _ => .ok search
  | depth + 1, path, search, id => do
    let path := id :: path
    let search ← (graph.requires id).foldlM
      (fun search target =>
        if !search.visited.contains target then graph.visit depth path search target
        else if path.contains target then
          .error (.dependencyCycle (graph.cycleNames path target))
        else .ok search)
      { search with visited := search.visited.insert id }
    return { search with listed := id :: search.listed }

/-- Searches from a module unless it has been met. -/
def visitFrom (graph : Graph) (search : Search) (id : ModuleId) : Except BuildError Search :=
  if search.visited.contains id then .ok search else graph.visit (graph.size + 1) [] search id

/-- The modules, each after those it requires. -/
def loadOrder (graph : Graph) (seeds : List ModuleId) : Except BuildError (List ModuleId) := do
  let starts := seeds.filter graph.nodes.contains ++ graph.nodes.keys
  let search ← starts.foldlM graph.visitFrom {}
  return search.listed.reverse

end Graph

end ModuleGraph
