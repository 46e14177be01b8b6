import ModuleGraph.Modifiers

/-!
# The configuration record

What a configuration file declares: global settings, modules with their patterns, requirements
and views, edges that no reference shows, rules for optional references, and the settings of the
platform variant.
-/

namespace ModuleGraph

/-- Settings that hold for the whole configuration. -/
structure Settings where
  /-- The version of every module that has none of its own. -/
  version : String := "1.0"
  /-- The foundational module. -/
  baseModule : String := "base"
  /-- The module that takes what no module claims. -/
  unknownModule : Option String := none
  /-- The packages that default views export; none listed means every package. -/
  exportedPackages : List String := []
deriving DecidableEq, Repr, Inhabited

/-- A required module or view, with the modifiers of the edge to it. -/
structure Requirement where
  name : String
  modifiers : Modifiers := {}
deriving DecidableEq, Repr, Inhabited

/-- A named view of a module. -/
structure ViewDeclaration where
  name : String
  exports : List String := []
  permits : List String := []
  mainClass : Option String := none
deriving DecidableEq, Repr, Inhabited

/-- A module. -/
structure ModuleDeclaration where
  name : String
  version : Option String := none
  roots : List String := []
  includes : List String := []
  excludes : List String := []
  /-- The modules merged into this one. -/
  members : List String := []
  mainClass : Option String := none
  allowEmpty : Bool := false
  /-- Local requesters may bind to the default view. -/
  allowLocalDefault : Bool := false
  internalView : Bool := true
  permits : List String := []
  requires : List Requirement := []
  views : List ViewDeclaration := []
deriving DecidableEq, Repr, Inhabited

/-- An edge between two modules that no reference shows. -/
structure EdgeDeclaration where
  source : String
  target : String
  modifiers : Modifiers := {}
deriving DecidableEq, Repr, Inhabited

/-- References from classes of the first pattern to classes of the second are optional. -/
structure OptionalDeclaration where
  source : String
  target : String
deriving DecidableEq, Repr, Inhabited

/-- The names that the platform variant goes by. -/
structure PlatformSettings where
  bootModule : String := "jdk.boot"
  baseModule : String := "jdk.base"
  jdkModule : String := "jdk"
  jreModule : String := "jdk.jre"
  jreToolsModule : String := "jdk.tools.jre"
  internalStart : String := "sun."
  publicStart : String := "jdk."
deriving DecidableEq, Repr, Inhabited

/-- A whole configuration file. -/
structure Configuration where
  settings : Settings := {}
  modules : List ModuleDeclaration := []
  dependencies : List EdgeDeclaration := []
  optional : List OptionalDeclaration := []
  platform : Option PlatformSettings := none
deriving DecidableEq, Repr, Inhabited

end ModuleGraph
