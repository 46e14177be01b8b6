import ModuleGraph.Dependence
import ModuleGraph.Package

/-!
# Split packages

A package is split if more than one module has a class in it; resource directories are shared as a
matter of course and do not count. Modules that share a split package are partners, and an edge
between partners becomes local (`promoteEdges`).
-/

namespace ModuleGraph

/-- The edges of all top-level modules, by requester. -/
abbrev EdgeMap := Std.TreeMap ModuleId Dependences

/-- The split packages, each with the modules that share it. -/
structure SplitPackages where
  owners : Std.TreeMap String (Std.TreeSet ModuleId) := {}
deriving Inhabited

namespace SplitPackages

/-- Notes that a module has classes in a package. -/
def note (owners : Std.TreeMap String (Std.TreeSet ModuleId)) (package : String)
    (module : ModuleId) : Std.TreeMap String (Std.TreeSet ModuleId) :=
  owners.insert package ((owners.getD package {}).insert module)

/-- The packages with classes of some module, each with all such modules. -/
def holders (modules : List (ModuleId × Packages)) : Std.TreeMap String (Std.TreeSet ModuleId) :=
  modules.foldl
    (fun owners (module, packages) =>
      (packages.values.filter (·.hasClasses)).foldl
        (fun owners summary => note owners summary.name module) owners)
    {}

/-- The packages that several of the modules have classes in. -/
def detect (modules : List (ModuleId × Packages)) : SplitPackages :=
  ⟨(holders modules).filter fun _ owners => 1 < owners.size⟩

/-- The number of split packages. -/
def size (split : SplitPackages) : Nat :=
  split.owners.size

/-- Whether a package is split. -/
def contains (split : SplitPackages) (package : String) : Bool :=
  split.owners.contains package

/-- The split packages in order, each with its modules in order. -/
def toList (split : SplitPackages) : List (String × List ModuleId) :=
  split.owners.toList.map fun (package, owners) => (package, owners.toList)

/-- The other modules that share a split package with a module. -/
def partners (split : SplitPackages) (module : ModuleId) : Std.TreeSet ModuleId :=
  split.owners.values.foldl
    (fun partners owners =>
      if owners.contains module then
        owners.toList.foldl
          (fun partners other => if other = module then partners else partners.insert other)
          partners
      else partners)
    {}

/-- Makes the edge to a partner local, if there is one, and counts it if it was not. -/
def promoteEdge (state : Dependences × Nat) (partner : ModuleId) : Dependences × Nat :=
  match state.1[partner]? with
  | some dep =>
    let (promoted, changed) := dep.promote
    (state.1.insert partner promoted, state.2 + changed.toNat)
  | none => state

/-- Makes every edge between partners local; also the number of edges that were not. -/
def promoteEdges (split : SplitPackages) (edges : EdgeMap) : EdgeMap × Nat :=
  edges.toList.foldl
    (fun (result, count) (module, deps) =>
      let (deps, count) := (split.partners module).toList.foldl promoteEdge (deps, count)
      (result.insert module deps, count))
    ({}, 0)

end SplitPackages

end ModuleGraph
