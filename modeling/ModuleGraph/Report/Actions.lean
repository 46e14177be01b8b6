import ModuleGraph.Path
import ModuleGraph.Report.Descriptor

/-!
# The report as a directory of files

`modules.list` holds the order, `split-packages.txt` the split packages, and every module has a list
of its classes, one of its resources, one of its unresolved references, and a descriptor in a
directory of its own. `BuildReport.actions` lists the steps in the order in which they are taken.
-/

namespace ModuleGraph

/-- A step that changes a directory; paths are relative to it. -/
inductive FileAction where
  /-- Also makes the directories above it that are missing. -/
  | makeDirectory (path : String)
  | write (path text : String)
deriving DecidableEq, Repr, Inhabited

/-- The steps for a module. -/
def ModuleReport.actions (r : ModuleReport) : List FileAction :=
  [.write (r.name ++ ".classlist") (unlines r.classes),
    .write (r.name ++ ".resources") (unlines r.resources),
    .write (r.name ++ ".unresolved")
      (unlines (r.unresolved.map fun u => u.source ++ " -> " ++ u.target)),
    .makeDirectory r.name,
    .write (Path.join r.name "module-info.java") r.descriptor]

/-- The line of a split package. -/
def SplitReport.line (r : SplitReport) : String :=
  r.package ++ ": " ++ " ".intercalate r.modules

/-- The steps for the whole report of a build. -/
def BuildReport.actions (r : BuildReport) : List FileAction :=
  [.write "modules.list" (unlines r.order)] ++ r.modules.flatMap ModuleReport.actions ++
    [.write "split-packages.txt" (unlines (r.splitPackages.map SplitReport.line))]

end ModuleGraph
