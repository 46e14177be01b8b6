import ModuleGraph.Config.Declaration
import ModuleGraph.Document.Value

/-!
# The configuration record as a document value

`Configuration.ofValue` reads a record out of a document value and `Configuration.toValue` writes
it. Fields that are left out get their defaults, fields of other names are ignored, and absent
optional fields are not written. `surplus` says whether a record that is given as an array may
hold more items than it has fields.
-/

namespace ModuleGraph

open Document

/-! ## Reading -/

/-- Reads the three flags of an edge. -/
def Modifiers.ofFields (field : String → Option Value) : Except ShapeError Modifiers := do
  let isOptional ← withDefault field "optional" false Value.asBool
  let isLocal ← withDefault field "local" false Value.asBool
  let isPublic ← withDefault field "reexport" false Value.asBool
  return { isPublic, isOptional, isLocal }

namespace Settings

/-- The fields, in order. -/
def fieldNames : List String :=
  ["version", "base-module", "unknown-module", "exported-packages"]

def ofValue (surplus : Bool) (value : Value) : Except ShapeError Settings := do
  let field ← value.record surplus fieldNames
  let version ← withDefault field "version" "1.0" Value.asString
  let baseModule ← withDefault field "base-module" "base" Value.asString
  let unknownModule ← withDefault field "unknown-module" none (Value.asOption Value.asString)
  let exportedPackages ← withDefault field "exported-packages" [] (Value.asList Value.asString)
  return { version, baseModule, unknownModule, exportedPackages }

end Settings

namespace Requirement

/-- The fields, in order. -/
def fieldNames : List String :=
  ["name", "optional", "local", "reexport"]

def ofValue (surplus : Bool) (value : Value) : Except ShapeError Requirement := do
  let field ← value.record surplus fieldNames
  let name ← required field "name" Value.asString
  let modifiers ← Modifiers.ofFields field
  return { name, modifiers }

end Requirement

namespace ViewDeclaration

/-- The fields, in order. -/
def fieldNames : List String :=
  ["name", "exports", "permits", "main-class"]

def ofValue (surplus : Bool) (value : Value) : Except ShapeError ViewDeclaration := do
  let field ← value.record surplus fieldNames
  let name ← required field "name" Value.asString
  let exports ← withDefault field "exports" [] (Value.asList Value.asString)
  let permits ← withDefault field "permits" [] (Value.asList Value.asString)
  let mainClass ← withDefault field "main-class" none (Value.asOption Value.asString)
  return { name, exports, permits, mainClass }

end ViewDeclaration

namespace ModuleDeclaration

/-- The fields, in order. -/
def fieldNames : List String :=
  ["name", "version", "roots", "includes", "excludes", "members", "main-class", "allow-empty",
    "allow-local-default", "internal-view", "permits", "requires", "view"]

def ofValue (surplus : Bool) (value : Value) : Except ShapeError ModuleDeclaration := do
  let field ← value.record surplus fieldNames
  let names := Value.asList Value.asString
  let name ← required field "name" Value.asString
  let version ← withDefault field "version" none (Value.asOption Value.asString)
  let roots ← withDefault field "roots" [] names
  let includes ← withDefault field "includes" [] names
  let excludes ← withDefault field "excludes" [] names
  let members ← withDefault field "members" [] names
  let mainClass ← withDefault field "main-class" none (Value.asOption Value.asString)
  let allowEmpty ← withDefault field "allow-empty" false Value.asBool
  let allowLocalDefault ← withDefault field "allow-local-default" false Value.asBool
  let internalView ← withDefault field "internal-view" true Value.asBool
  let permits ← withDefault field "permits" [] names
  let requires ← withDefault field "requires" [] (Value.asList (Requirement.ofValue surplus))
  let views ← withDefault field "view" [] (Value.asList (ViewDeclaration.ofValue surplus))
  return { name, version, roots, includes, excludes, members, mainClass, allowEmpty,
           allowLocalDefault, internalView, permits, requires, views }

end ModuleDeclaration

namespace EdgeDeclaration

/-- The fields, in order. -/
def fieldNames : List String :=
  ["from", "to", "optional", "local", "reexport"]

def ofValue (surplus : Bool) (value : Value) : Except ShapeError EdgeDeclaration := do
  let field ← value.record surplus fieldNames
  let source ← required field "from" Value.asString
  let target ← required field "to" Value.asString
  let modifiers ← Modifiers.ofFields field
  return { source, target, modifiers }

end EdgeDeclaration

namespace OptionalDeclaration

/-- The fields, in order. -/
def fieldNames : List String :=
  ["from", "to"]

def ofValue (surplus : Bool) (value : Value) : Except ShapeError OptionalDeclaration := do
  let field ← value.record surplus fieldNames
  let source ← required field "from" Value.asString
  let target ← required field "to" Value.asString
  return { source, target }

end OptionalDeclaration

namespace PlatformSettings

/-- The fields, in order. -/
def fieldNames : List String :=
  ["boot-module", "base-module", "jdk-module", "jre-module", "jre-tools-module",
    "internal-prefix", "public-prefix"]

def ofValue (surplus : Bool) (value : Value) : Except ShapeError PlatformSettings := do
  let field ← value.record surplus fieldNames
  let default : PlatformSettings := {}
  let bootModule ← withDefault field "boot-module" default.bootModule Value.asString
  let baseModule ← withDefault field "base-module" default.baseModule Value.asString
  let jdkModule ← withDefault field "jdk-module" default.jdkModule Value.asString
  let jreModule ← withDefault field "jre-module" default.jreModule Value.asString
  let jreToolsModule ← withDefault field "jre-tools-module" default.jreToolsModule Value.asString
  let internalStart ← withDefault field "internal-prefix" default.internalStart Value.asString
  let publicStart ← withDefault field "public-prefix" default.publicStart Value.asString
  return { bootModule, baseModule, jdkModule, jreModule, jreToolsModule, internalStart,
           publicStart }

end PlatformSettings

namespace Configuration

/-- The fields, in order. -/
def fieldNames : List String :=
  ["settings", "module", "dependency", "optional", "platform"]

def ofValue (surplus : Bool) (value : Value) : Except ShapeError Configuration := do
  let field ← value.record surplus fieldNames
  let settings ← withDefault field "settings" {} (Settings.ofValue surplus)
  let modules ← withDefault field "module" [] (Value.asList (ModuleDeclaration.ofValue surplus))
  let dependencies ←
    withDefault field "dependency" [] (Value.asList (EdgeDeclaration.ofValue surplus))
  let optional ←
    withDefault field "optional" [] (Value.asList (OptionalDeclaration.ofValue surplus))
  let platform ←
    withDefault field "platform" none (Value.asOption (PlatformSettings.ofValue surplus))
  return { settings, modules, dependencies, optional, platform }

end Configuration

/-! ## Writing -/

/-- A field that is written only if it has a value. -/
def optionalField (name : String) (value : Option String) : List (String × Value) :=
  match value with
  | some s => [(name, .string s)]
  | none => []

/-- The three flags of an edge. -/
def Modifiers.toFields (m : Modifiers) : List (String × Value) :=
  [("optional", .boolean m.isOptional), ("local", .boolean m.isLocal),
    ("reexport", .boolean m.isPublic)]

def Settings.toValue (s : Settings) : Value :=
  .table <|
    [("version", .string s.version), ("base-module", .string s.baseModule)] ++
      optionalField "unknown-module" s.unknownModule ++
      [("exported-packages", .strings s.exportedPackages)]

def Requirement.toValue (r : Requirement) : Value :=
  .table (("name", .string r.name) :: r.modifiers.toFields)

def ViewDeclaration.toValue (v : ViewDeclaration) : Value :=
  .table <|
    [("name", .string v.name), ("exports", .strings v.exports), ("permits", .strings v.permits)] ++
      optionalField "main-class" v.mainClass

def ModuleDeclaration.toValue (m : ModuleDeclaration) : Value :=
  .table <|
    [("name", .string m.name)] ++
      optionalField "version" m.version ++
      [("roots", .strings m.roots), ("includes", .strings m.includes),
        ("excludes", .strings m.excludes), ("members", .strings m.members)] ++
      optionalField "main-class" m.mainClass ++
      [("allow-empty", .boolean m.allowEmpty),
        ("allow-local-default", .boolean m.allowLocalDefault),
        ("internal-view", .boolean m.internalView), ("permits", .strings m.permits),
        ("requires", .array (m.requires.map Requirement.toValue)),
        ("view", .array (m.views.map ViewDeclaration.toValue))]

def EdgeDeclaration.toValue (d : EdgeDeclaration) : Value :=
  .table (("from", .string d.source) :: ("to", .string d.target) :: d.modifiers.toFields)

def OptionalDeclaration.toValue (d : OptionalDeclaration) : Value :=
  .table [("from", .string d.source), ("to", .string d.target)]

def PlatformSettings.toValue (p : PlatformSettings) : Value :=
  .table
    [("boot-module", .string p.bootModule), ("base-module", .string p.baseModule),
      ("jdk-module", .string p.jdkModule), ("jre-module", .string p.jreModule),
      ("jre-tools-module", .string p.jreToolsModule),
      ("internal-prefix", .string p.internalStart), ("public-prefix", .string p.publicStart)]

def Configuration.toValue (c : Configuration) : Value :=
  .table <|
    [("settings", c.settings.toValue),
      ("module", .array (c.modules.map ModuleDeclaration.toValue)),
      ("dependency", .array (c.dependencies.map EdgeDeclaration.toValue)),
      ("optional", .array (c.optional.map OptionalDeclaration.toValue))] ++
      (match c.platform with
        | some p => [("platform", p.toValue)]
        | none => [])

end ModuleGraph
