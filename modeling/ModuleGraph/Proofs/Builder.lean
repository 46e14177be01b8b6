import ModuleGraph.Proofs.Preparation
import ModuleGraph.Proofs.Registry.Population
import ModuleGraph.Proofs.Resolution

/-!
# Both variants of a build

A `Builder` is a plain plan or the plan of a platform. Whichever the variant, a build of a registry
without owners divides up its items between the groups (`BuildPlan.Divided`) and resolves the module
graph (`BuildPlan.Resolution`), or fails over the configuration (`BuildFailure`). This is
`Builder.ends_build`.
-/

namespace ModuleGraph

/-- How a build can fail: always over something that the configuration says or leaves out. -/
inductive BuildFailure : BuildError → Prop where
  | duplicateModule (name : String) : BuildFailure (.duplicateModule name)
  | duplicateView (name view : String) : BuildFailure (.duplicateView name view)
  | unknownModule (name context : String) : BuildFailure (.unknownModule name context)
  | memberCycle (name : String) : BuildFailure (.memberCycle name)
  | multipleParents (name first second : String) :
      BuildFailure (.multipleParents name first second)
  | dependencyCycle (names : List String) : BuildFailure (.dependencyCycle names)
  | conflictingDependence (name existing incoming : String) :
      BuildFailure (.conflictingDependence name existing incoming)
  | viewNotFound (name dependence : String) : BuildFailure (.viewNotFound name dependence)
  | platformModuleMissing (role name : String) : BuildFailure (.platformModuleMissing role name)
  | bootMergedIntoBase (boot base : String) : BuildFailure (.bootMergedIntoBase boot base)

namespace BuildFailure

variable {e : BuildError}

theorem of_creation (h : BuildPlan.CreationError e) : BuildFailure e := by
  cases h with
  | duplicateModule => exact .duplicateModule _
  | unknownModule => exact .unknownModule _ _

theorem of_member (h : ModuleTable.MemberError e) : BuildFailure e := by
  cases h with
  | unknownModule => exact .unknownModule _ _
  | memberCycle => exact .memberCycle _
  | multipleParents => exact .multipleParents _ _ _

theorem of_preparation (h : PlatformPlan.PreparationError e) : BuildFailure e := by
  cases h with
  | duplicateModule => exact .duplicateModule _
  | platformModuleMissing => exact .platformModuleMissing _ _
  | bootMergedIntoBase => exact .bootMergedIntoBase _ _

theorem of_resolution (h : BuildPlan.ResolutionError e) : BuildFailure e := by
  cases h with
  | unknownModule => exact .unknownModule _ _
  | duplicateView => exact .duplicateView _ _
  | conflictingDependence => exact .conflictingDependence _ _ _
  | viewNotFound => exact .viewNotFound _ _
  | dependencyCycle => exact .dependencyCycle _

end BuildFailure

/-! ## The stages before the resolution -/

namespace BuildPlan

variable {plan : BuildPlan} {registry : Registry} {table : ModuleTable}

/-- A registry is divided up, completely if there is a module for unknown items. -/
structure Divided (plan : BuildPlan) (registry : Registry) (p : Partition) : Prop where
  divides : p.Divides registry
  total : plan.options.unknownModule.isSome → p.Total

/-- Members are merged in a table that differs from a fresh one in what modules hold: there are
neither links nor groups yet. -/
theorem ends_mergeMembers_merged (plan : BuildPlan) {p : Partition} (hfresh : table.Fresh)
    (hi : table.Indexed) (hsame : table.SameBut Module.outline p.table) :
    Ends (plan.mergeMembers p) (fun q => q.registry = p.registry ∧ p.table.Merged q.table)
      ModuleTable.MemberError := by
  have hpi : p.table.Indexed := (hsame.less (·.spec)).indexed hi
  have hfresh' (id : ModuleId) (m : Module) (hm : p.table.get? id = some m) :
      m.parent = none ∧ m.members = [] ∧ m.group = id := by
    obtain ⟨m₀, hm₀, houtline⟩ := hsame.exists_get?_before hm
    have hplain := hfresh id m₀ hm₀
    have hparent : m₀.parent = m.parent := congrArg (·.parent) houtline
    have hmembers : m₀.members = m.members := congrArg (·.members) houtline
    have hgroup : m₀.group = m.group := congrArg (·.group) houtline
    rw [← hparent, ← hmembers, ← hgroup, hplain]
    exact ⟨rfl, rfl, rfl⟩
  have hlinked : p.table.Linked := ModuleTable.linked_of_unlinked fun id m hm => by
    obtain ⟨hparent, hmembers, -⟩ := hfresh' id m hm
    unfold Module.unlinked
    rw [← hparent, ← hmembers]
  have hself : ∀ y < p.table.size, p.table.group y = y := fun y hy => by
    obtain ⟨m, hm⟩ := ModuleTable.exists_get? hy
    rw [ModuleTable.group_of_get? hm]
    exact (hfresh' y m hm).2.2
  have hends := ModuleTable.ends_buildMembers hlinked hpi hself plan.options.merge
  unfold mergeMembers
  generalize p.table.buildMembers plan.options.merge = r at *
  obtain ⟨table', result⟩ := r
  cases result with
  | error e => exact hends
  | ok _ => exact ⟨rfl, hends⟩

/-- The merging of members divides up the registry of a consistent partition that has grown out of a
fresh table. -/
theorem ends_mergeMembers (plan : BuildPlan) {p : Partition} (hfresh : table.Fresh)
    (hi : table.Indexed) (hgrows : Partition.Grows ⟨registry, table⟩ p) (hp : p.Consistent)
    (htotal : plan.options.unknownModule.isSome → p.Total) :
    Ends (plan.mergeMembers p) (plan.Divided registry) BuildFailure := by
  refine (ends_mergeMembers_merged plan hfresh hi hgrows.table).mono
    (fun q ⟨hregistry, hmerged⟩ => ?_) fun _ => .of_member
  obtain ⟨_, table'⟩ := q
  subst hregistry
  exact ⟨(hp.divides (hgrows.indexed hi) hmerged).of_grows hgrows, htotal⟩

/-- The claims of all modules and the merging of members divide up a registry without owners. -/
theorem ends_divide (plan : BuildPlan) (hfresh : table.Fresh) (hi : table.Indexed)
    (hregistry : registry.Unowned) :
    Ends ((plan.assignUnits ⟨registry, table⟩).result >>= plan.mergeMembers)
      (plan.Divided registry) BuildFailure := by
  have hp := Partition.consistent_of_fresh hregistry hfresh
  refine ((ends_assignUnits plan hp hi).mono (fun _ h => h) fun _ => .of_creation).bind
    fun p ⟨hgrows, hp', htotal⟩ => ?_
  exact ends_mergeMembers plan hfresh hi hgrows hp' htotal

/-- A plain build. -/
theorem ends_build (plan : BuildPlan) (hregistry : registry.Unowned) :
    Ends (plan.build registry).result
      (fun outcome => plan.Divided registry outcome.partition ∧ plan.Resolution {} outcome)
      BuildFailure := by
  simp only [build, Logged.result_bind, Logged.result_liftM]
  refine ((ends_createModules plan).mono (fun _ h => h) fun _ => .of_creation).bind
    fun table ⟨hi, hfresh, _⟩ => ?_
  rw [← bind_assoc]
  refine (ends_divide plan hfresh hi hregistry).bind fun p hp => ?_
  refine ((ends_resolve plan hp.divides.indexed {} []).mono (fun outcome h => ?_)
    fun _ => .of_resolution)
  exact ⟨h.1 ▸ hp, h.2⟩

end BuildPlan

/-- A platform build. -/
theorem PlatformPlan.ends_build (platform : PlatformPlan) {registry : Registry}
    (hregistry : registry.Unowned) :
    Ends (platform.build registry).result
      (fun outcome => platform.plan.Divided registry outcome.partition ∧
        ∃ policy, platform.plan.Resolution policy outcome)
      BuildFailure := by
  simp only [build, Logged.result_bind, Logged.result_liftM]
  refine ((BuildPlan.ends_createModules platform.plan).mono (fun _ h => h)
    fun _ => .of_creation).bind fun table ⟨hi, hfresh, _⟩ => ?_
  refine ((ends_requireRole table _ _).mono (fun _ h => h) fun _ => .of_preparation).bind
    fun boot _ => ?_
  refine ((ends_requireRole table _ _).mono (fun _ h => h) fun _ => .of_preparation).bind
    fun base _ => ?_
  rw [← bind_assoc]
  refine (BuildPlan.ends_divide platform.plan hfresh hi hregistry).bind fun p hp => ?_
  refine ((ends_prepare platform hp.divides.indexed boot base).mono (fun _ h => h)
    fun _ => .of_preparation).bind fun prepared hext => ?_
  have hdivided : platform.plan.Divided registry { p with table := prepared.table } :=
    ⟨hp.divides.of_extends hext, hp.total⟩
  refine ((BuildPlan.ends_resolve platform.plan hdivided.divides.indexed prepared.policy
    prepared.seeds).mono (fun outcome h => ?_) fun _ => .of_resolution)
  exact ⟨h.1 ▸ hdivided, _, h.2⟩

/-! ## Either variant -/

/-- A plan for either variant of a build. -/
inductive Builder where
  | plain (plan : BuildPlan)
  | platform (plan : PlatformPlan)

namespace Builder

/-- What the build goes by. -/
def plan : Builder → BuildPlan
  | plain plan => plan
  | platform p => p.plan

/-- Builds the module graph of a registry in which nothing has an owner yet. -/
def build (builder : Builder) (registry : Registry) : Logged BuildError Outcome :=
  match builder with
  | plain plan => plan.build registry
  | platform p => p.build registry

/-- Either variant divides up the registry and resolves the module graph, or fails over the
configuration. -/
theorem ends_build (builder : Builder) {registry : Registry} (hregistry : registry.Unowned) :
    Ends (builder.build registry).result
      (fun outcome => builder.plan.Divided registry outcome.partition ∧
        ∃ policy, builder.plan.Resolution policy outcome)
      BuildFailure := by
  cases builder with
  | plain plan =>
    exact (plan.ends_build hregistry).weaken fun outcome h => ⟨h.1, {}, h.2⟩
  | platform p => exact p.ends_build hregistry

end Builder

/-! ## A small build -/

/-- A program of two classes, its library, and a class beside them. -/
def Registry.sample : Registry :=
  .populate [
    .register { name := "app.Main", references := ["app.cmd.Tool", "lib.Util"] },
    .register { name := "app.cmd.Tool", references := ["lib.Util", "absent.Type"] },
    .register { name := "lib.Util", isPublic := true },
    .register { name := "other.Rest" },
    .addResource "lib/util.txt" 4 none]

/-- The program has its tool as a member, and what is left over goes to the library. -/
def BuildPlan.sample : BuildPlan where
  specs := [
    { name := "app", version := "1.0", roots := ⟨[.package "app"]⟩, members := ["app.cmd"] },
    { name := "app.cmd", version := "1.0", roots := ⟨[.package "app.cmd"]⟩ },
    { name := "lib", version := "1.0", roots := ⟨[.package "lib"]⟩ }]
  options := { unknownModule := some "lib" }

end ModuleGraph
