import ModuleGraph.CommandLine.Style
import ModuleGraph.Report.Basic

/-!
# Summaries

What a command tells about its result.
-/

namespace ModuleGraph.CommandLine

/-- A line of a summary. -/
def line (pieces : List Piece) : List Piece :=
  pieces ++ [.newLine]

/-- The line of a dependence. -/
def requiresLine (r : RequiresReport) : List Piece :=
  line ([.plain "  requires "] ++ r.modifiers.flatMap (fun word => [.info word, .plain " "]) ++
    [.plain r.view])

/-- A module: its name and how much it holds, its dependences, its permits, and how many references
it leaves unresolved. -/
def moduleSummary (r : ModuleReport) : List Piece :=
  line [.bold r.name, .plain s!" ({r.classes.length} classes, {r.resources.length} resources)"] ++
    r.requires.flatMap requiresLine ++
    (if r.permits.isEmpty then []
      else line [.plain ("  permits " ++ ", ".intercalate r.permits)]) ++
    (if r.unresolved.isEmpty then []
      else line [.warning s!"  {r.unresolved.length} unresolved references"])

/-- The last line of a build, with the directory that the reports went to. -/
def buildSummary (report : BuildReport) (output : Option String) : List Piece :=
  line ([.success "Resolved",
      .plain s!" {report.order.length} modules ({report.splitPackages.length} split packages)"] ++
    (match output with
      | some directory => [.plain (" into " ++ directory)]
      | none => []))

/-- The line of a split package. -/
def splitLine (r : SplitReport) : List Piece :=
  line [.warning "split package ", .plain (r.package ++ " in " ++ ", ".intercalate r.modules)]

/-- What a check tells about a resolution. -/
def checkSummary (report : BuildReport) (unresolved : Nat) : List Piece :=
  line [.success "Resolution OK", .plain s!": {report.order.length} modules"] ++
    report.splitPackages.flatMap splitLine ++
    (if unresolved = 0 then [] else line [.warning s!"{unresolved} unresolved references"])

/-- What a check tells about a configuration alone. -/
def configSummary (modules : Nat) : List Piece :=
  line [.success "Config OK", .plain s!": {modules} modules declared"]

end ModuleGraph.CommandLine
