import ModuleGraph.Config.Validation
import Std.Data.TreeSet.Basic

/-!
# Module specifications

A `ModuleSpec` is a module declaration with its patterns read and its version settled. The engine
works on specifications only, so it never meets a malformed pattern.
-/

namespace ModuleGraph

/-- The set of the given strings. -/
def stringSet (items : List String) : Std.TreeSet String :=
  items.foldl (·.insert ·) {}

/-- A named view, with its exports as a set. -/
structure ViewSpec where
  name : String
  exports : Std.TreeSet String := {}
  permits : List String := []
  mainClass : Option String := none
deriving Inhabited

/-- What the engine needs to know of a module. -/
structure ModuleSpec where
  name : String
  version : String
  roots : PatternSet := {}
  includes : PatternSet := {}
  excludes : PatternSet := {}
  requires : List Requirement := []
  permits : List String := []
  members : List String := []
  mainClass : Option String := none
  allowEmpty : Bool := false
  allowLocalDefault : Bool := false
  internalView : Bool := true
  views : List ViewSpec := []
deriving Inhabited

/-- The specification of a declared view. -/
def ViewDeclaration.spec (view : ViewDeclaration) : ViewSpec where
  name := view.name
  exports := stringSet view.exports
  permits := view.permits
  mainClass := view.mainClass

/-- The specification of a declared module, once the declaration has passed validation. -/
def ModuleDeclaration.spec (m : ModuleDeclaration) (defaultVersion : String) :
    Except ConfigFault ModuleSpec := do
  m.validate
  let roots ← readPatterns m.name m.roots
  let includes ← readPatterns m.name m.includes
  let excludes ← readPatterns m.name m.excludes
  return {
    name := m.name
    version := m.version.getD defaultVersion
    roots, includes, excludes
    requires := m.requires
    permits := m.permits
    members := m.members
    mainClass := m.mainClass
    allowEmpty := m.allowEmpty
    allowLocalDefault := m.allowLocalDefault
    internalView := m.internalView
    views := m.views.map ViewDeclaration.spec }

/-- The specifications of all modules of a configuration. -/
def Configuration.specs (c : Configuration) : Except ConfigFault (List ModuleSpec) :=
  c.modules.mapM (·.spec c.settings.version)

namespace ModuleSpec

/-- Whether the exclude patterns select a class. -/
def excludesClass (spec : ModuleSpec) (name : String) : Bool :=
  spec.excludes.selectsClass name

/-- Whether a class is a root of the module. -/
def hasRoot (spec : ModuleSpec) (name : String) : Bool :=
  spec.roots.selectsClass name && !spec.excludesClass name

/-- Whether the module includes a class. -/
def includesClass (spec : ModuleSpec) (name : String) : Bool :=
  spec.includes.selectsClass name && !spec.excludesClass name

end ModuleSpec

end ModuleGraph
