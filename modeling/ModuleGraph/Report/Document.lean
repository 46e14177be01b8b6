import ModuleGraph.Document.Json
import ModuleGraph.Report.Basic

/-!
# The report as a document

Reports become tables whose fields stand in a fixed order; `BuildReport.json` is the whole report of
a build as JSON.
-/

namespace ModuleGraph

open Document

def RequiresReport.toValue (r : RequiresReport) : Value :=
  .table
    [("module", .string r.module), ("view", .string r.view), ("modifiers", .strings r.modifiers)]

def UnresolvedReport.toValue (r : UnresolvedReport) : Value :=
  .table [("from", .string r.source), ("to", .string r.target)]

def View.toValue (v : View) : Value :=
  .table <|
    [("name", .string v.name), ("kind", .string v.kind.word),
      ("exports", .strings v.exports.toList), ("permits", .strings v.permits.toList)] ++
      (match v.mainClass with
        | some mainClass => [("main_class", .string mainClass)]
        | none => [])

def PackageSummary.toValue (p : PackageSummary) : Value :=
  .table
    [("name", .string p.name), ("class_count", .integer p.classCount),
      ("class_bytes", .integer p.classBytes), ("public_class_count", .integer p.publicClassCount),
      ("inner_class_count", .integer p.innerClassCount),
      ("resource_count", .integer p.resourceCount),
      ("resource_bytes", .integer p.resourceBytes), ("exported", .boolean p.exported)]

def ModuleReport.toValue (r : ModuleReport) : Value :=
  .table
    [("name", .string r.name), ("version", .string r.version),
      ("main_class", (r.mainClass.map Value.string).getD .null),
      ("requires", .array (r.requires.map RequiresReport.toValue)),
      ("permits", .strings r.permits), ("views", .array (r.views.map View.toValue)),
      ("packages", .array (r.packages.map PackageSummary.toValue)),
      ("classes", .strings r.classes), ("resources", .strings r.resources),
      ("unresolved", .array (r.unresolved.map UnresolvedReport.toValue))]

def SplitReport.toValue (r : SplitReport) : Value :=
  .table [("package", .string r.package), ("modules", .strings r.modules)]

def BuildReport.toValue (r : BuildReport) : Value :=
  .table
    [("order", .strings r.order), ("modules", .array (r.modules.map ModuleReport.toValue)),
      ("split_packages", .array (r.splitPackages.map SplitReport.toValue))]

/-- The JSON document of a build. -/
def BuildReport.json (r : BuildReport) : String :=
  Json.document r.toValue

end ModuleGraph
