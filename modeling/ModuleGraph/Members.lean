import ModuleGraph.ModuleTable

/-!
# Merging members into their parents

A module may declare other modules its members. `ModuleTable.linkMembers` turns the declarations
into links; a module has at most one parent, and is not a member of itself. A module without a
parent is the root of a tree of members (`ModuleTable.descendants`), and a module outside all these
trees gives a cycle away. `ModuleTable.mergeMembers` then makes the root of each tree the group of
all its modules, and adds what a member holds to its parent, members before parents.

`ModuleTable.buildMembers` does both. It returns the table even when it fails, with the links made
so far.
-/

namespace ModuleGraph

/-- The module with the contents of a member added to its own. -/
def Module.absorb (m child : Module) : Module :=
  { m with
    classes := m.classes.insertMany child.classes.toList
    resources := m.resources.insertMany child.resources.toList
    unresolved := m.unresolved.insertMany child.unresolved.toList }

namespace ModuleTable

/-! ## Links -/

/-- Makes the module of a name a member of `parent`. -/
def link (table : ModuleTable) (parent : ModuleId) (name : String) :
    Except BuildError ModuleTable := do
  let child ← table.require name s!"members of \"{table.name parent}\""
  if child = parent then .error (.memberCycle name)
  else
    match (table.get? child).bind (·.parent) with
    | some other => .error (.multipleParents name (table.name other) (table.name parent))
    | none =>
      let table := table.modify child fun m => { m with parent := some parent }
      return table.modify parent fun m => { m with members := m.members ++ [child] }

/-- Makes links one after the other, up to the first that fails. -/
def linkAll : ModuleTable → List (ModuleId × String) → ModuleTable × Except BuildError Unit
  | table, [] => (table, .ok ())
  | table, (parent, name) :: rest =>
    match table.link parent name with
    | .ok table => linkAll table rest
    | .error e => (table, .error e)

/-- The declared members of all modules, with the module that declares them. -/
def declaredMembers (table : ModuleTable) : List (ModuleId × String) :=
  table.ids.flatMap fun id =>
    ((table.get? id).elim [] (·.spec.members)).map fun name => (id, name)

/-- Makes all declared links. -/
def linkMembers (table : ModuleTable) : ModuleTable × Except BuildError Unit :=
  table.linkAll table.declaredMembers

/-! ## Trees of members -/

/-- The modules without a parent. -/
def roots (table : ModuleTable) : List ModuleId :=
  table.ids.filter fun id => (table.get? id).any (·.parent.isNone)

/-- The modules of a tree, members before parents, down to the given depth. -/
def treeBelow (table : ModuleTable) : (depth : Nat) → ModuleId → List ModuleId
  | 0, _ => []
  | depth + 1, id => (table.members id).flatMap (table.treeBelow depth) ++ [id]

/-- The tree of a root, members before parents. No tree is deeper than there are modules. -/
def tree (table : ModuleTable) (root : ModuleId) : List ModuleId :=
  table.treeBelow table.size root

/-- The modules of all trees, members before parents. -/
def walk (table : ModuleTable) : List ModuleId :=
  table.roots.flatMap table.tree

/-- The first module outside all trees. -/
def stray? (table : ModuleTable) : Option ModuleId :=
  let reached := Std.TreeSet.ofList table.walk
  table.ids.find? fun id => !reached.contains id

/-! ## Groups and contents -/

/-- Puts a module into a group, and makes it foundational if its parent is. -/
def joinGroup (root : ModuleId) (table : ModuleTable) (id : ModuleId) : ModuleTable :=
  if id = root then table
  else
    let parentIsBase := ((table.get? id).bind (·.parent)).any table.isBase
    table.modify id fun m => { m with group := root, isBase := m.isBase || parentIsBase }

/-- Puts the modules of every tree into the group of the root, parents before members. -/
def assignGroups (table : ModuleTable) : ModuleTable :=
  table.roots.foldl (fun t root => (table.tree root).reverse.foldl (joinGroup root) t) table

/-- Adds what a module holds to its parent. -/
def passToParent (table : ModuleTable) (id : ModuleId) : ModuleTable :=
  match table.get? id with
  | none => table
  | some child =>
    match child.parent with
    | none => table
    | some parent => table.modify parent (·.absorb child)

/-- Adds what each module holds to its parent, members before parents. -/
def mergeContents (table : ModuleTable) : ModuleTable :=
  table.walk.foldl passToParent table

/-- Links members, and with `merge` set puts them into groups and merges their contents. -/
def buildMembers (table : ModuleTable) (merge : Bool) : ModuleTable × Except BuildError Unit :=
  match table.linkMembers with
  | (table, .error e) => (table, .error e)
  | (table, .ok ()) =>
    let table := if merge then table.assignGroups else table
    match table.stray? with
    | some id => (table, .error (.memberCycle (table.name id)))
    | none => (if merge then table.mergeContents else table, .ok ())

end ModuleTable

end ModuleGraph
