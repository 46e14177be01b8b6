import ModuleGraph.BuildError
import ModuleGraph.Config.ModuleSpec
import ModuleGraph.Registry.Basic

/-!
# The module table

Modules are numbered in the order in which they are added, under names of their own. A module
collects the classes and resources it has claimed; its group is the top-level module that it has
been merged into, at first itself.

* `ModuleTable.add` adds a module, `ModuleTable.find` and `ModuleTable.require` look one up.
* `ModuleTable.isTopLevel` tells which modules take part in the module graph.
-/

namespace ModuleGraph

/-- A reference that no module satisfied: it was followed and could not be claimed. -/
abbrev Reference := ClassId × ClassId

/-- The order of references: by source, then by target. -/
abbrev Reference.order : Reference → Reference → Ordering :=
  compareLex (compareOn Prod.fst) (compareOn Prod.snd)

/-- A set of references. -/
abbrev References := Std.TreeSet Reference Reference.order

instance : Std.LawfulEqCmp Reference.order where
  eq_of_compare {r s} h := by
    obtain ⟨h₁, h₂⟩ := compareLex_eq_eq.1 h
    exact Prod.ext (Std.LawfulEqCmp.eq_of_compare h₁) (Std.LawfulEqCmp.eq_of_compare h₂)

/-- A module and what it has come to hold. -/
structure Module where
  spec : ModuleSpec
  classes : Std.TreeSet ClassId := {}
  resources : Std.TreeSet ResourceId := {}
  unresolved : References := {}
  members : List ModuleId := []
  parent : Option ModuleId := none
  group : ModuleId
  isBase : Bool := false
  /-- Requirements added by the engine. -/
  extraRequires : List Requirement := []
  /-- Permits added by the engine. -/
  extraPermits : List String := []
deriving Inhabited

namespace Module

/-- The name of the module. -/
def name (m : Module) : String := m.spec.name

/-- The declared requirements, then those added by the engine. -/
def requires (m : Module) : List Requirement :=
  m.spec.requires ++ m.extraRequires

/-- The declared permits, then those added by the engine. -/
def permits (m : Module) : List String :=
  m.spec.permits ++ m.extraPermits

/-- Whether the module has neither classes nor resources nor a main class. -/
def isEmpty (m : Module) : Bool :=
  m.classes.isEmpty && m.resources.isEmpty && m.spec.mainClass.isNone

/-- Whether the module requires anything. -/
def hasRequires (m : Module) : Bool :=
  !m.requires.isEmpty

end Module

/-- All modules of a run. -/
structure ModuleTable where
  modules : Array Module := #[]
  index : Std.TreeMap String ModuleId := {}
deriving Inhabited

namespace ModuleTable

/-- The number of modules. -/
def size (table : ModuleTable) : Nat :=
  table.modules.size

/-- The numbers of all modules, in order. -/
def ids (table : ModuleTable) : List ModuleId :=
  List.range table.modules.size

/-- The module of a number. -/
def get? (table : ModuleTable) (id : ModuleId) : Option Module :=
  table.modules[id]?

/-- The number of a module, by its name. -/
def find (table : ModuleTable) (name : String) : Option ModuleId :=
  table.index[name]?

/-- The name of a module; a number out of range has the empty name. -/
def name (table : ModuleTable) (id : ModuleId) : String :=
  (table.get? id).elim "" (·.name)

/-- The top-level module that a module belongs to. -/
def group (table : ModuleTable) (id : ModuleId) : ModuleId :=
  (table.get? id).elim id (·.group)

/-- The modules merged directly into a module. -/
def members (table : ModuleTable) (id : ModuleId) : List ModuleId :=
  (table.get? id).elim [] (·.members)

/-- Whether a module is foundational. -/
def isBase (table : ModuleTable) (id : ModuleId) : Bool :=
  (table.get? id).any (·.isBase)

/-- The classes that a module holds, in order. -/
def classes (table : ModuleTable) (id : ModuleId) : List ClassId :=
  (table.get? id).elim [] (·.classes.toList)

/-- Changes a module. -/
def modify (table : ModuleTable) (id : ModuleId) (change : Module → Module) : ModuleTable :=
  { table with modules := table.modules.modify id change }

/-- Adds a module under a name not yet taken. -/
def add (table : ModuleTable) (spec : ModuleSpec) : Except BuildError (ModuleTable × ModuleId) :=
  if (table.find spec.name).isSome then .error (.duplicateModule spec.name)
  else
    let id := table.size
    .ok ({ modules := table.modules.push { spec, group := id }
           index := table.index.insert spec.name id }, id)

/-- The module that a name refers to in some context. -/
def require (table : ModuleTable) (name context : String) : Except BuildError ModuleId :=
  match table.find name with
  | some id => .ok id
  | none => .error (.unknownModule name context)

/-- Makes a module foundational. -/
def setBase (table : ModuleTable) (id : ModuleId) : ModuleTable :=
  table.modify id fun m => { m with isBase := true }

/-- Adds a requirement, unless the engine has added it before. -/
def addRequirement (table : ModuleTable) (id : ModuleId) (requirement : Requirement) :
    ModuleTable :=
  table.modify id fun m =>
    if m.extraRequires.contains requirement then m
    else { m with extraRequires := m.extraRequires ++ [requirement] }

/-- Adds a permit, unless the engine has added it before. -/
def addPermit (table : ModuleTable) (id : ModuleId) (permit : String) : ModuleTable :=
  table.modify id fun m =>
    if m.extraPermits.contains permit then m
    else { m with extraPermits := m.extraPermits ++ [permit] }

/-- A top-level module and then the other modules of its group, in order. -/
def groupMembers (table : ModuleTable) (top : ModuleId) : List ModuleId :=
  top :: table.ids.filter fun id => table.group id == top && id != top

/-- The modules of a group, in the same order. -/
def groupModules (table : ModuleTable) (top : ModuleId) : List Module :=
  (table.groupMembers top).filterMap table.get?

/-- Whether a module takes part in the module graph: it is its own group and is foundational, holds
something, may be empty, or belongs to a group that requires something. -/
def isTopLevel (table : ModuleTable) (id : ModuleId) : Bool :=
  match table.get? id with
  | none => false
  | some m =>
    m.group == id &&
      (m.isBase || !m.isEmpty || m.spec.allowEmpty ||
        (table.groupModules id).any (·.hasRequires))

/-- The modules that take part in the module graph, in order. -/
def topLevel (table : ModuleTable) : List ModuleId :=
  table.ids.filter table.isTopLevel

end ModuleTable

end ModuleGraph
