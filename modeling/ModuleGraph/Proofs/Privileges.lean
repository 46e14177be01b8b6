import ModuleGraph.Proofs.RedirectedEdges

/-!
# Privileged modules

A platform decides which modules are privileged before any view is built, so it looks up required
names among modules only. Requirements are resolved later, when a name may also lead to a view. The
two look-ups agree on the names of modules: nothing that happens in between renames a module or
moves it to another group.

* `PlatformPlan.privileged_of_build`: a module is privileged if its group declares a requirement
  that leads to the boot module as such; and a privileged module is sent nowhere: its requires list
  leads exactly to the modules that it has evidence for.
* `PlatformPlan.not_privileged_acquainted`: a requirement that leads to a view of the boot module
  does not make a module privileged.
-/

namespace ModuleGraph

variable {outcome : Outcome} {plan : BuildPlan} {policy : ExporterPolicy} {X D : ModuleId}

/-! ## Requirements on the boot module -/

/-- Only the name of a module leads to a module as such. -/
theorem Surfaces.resolve?_eq_module_iff {surfaces : Surfaces} {table : ModuleTable}
    {name : String} :
    surfaces.resolve? table name = some (X, none) ↔ table.IsGroupOf X name := by
  unfold resolve? ModuleTable.IsGroupOf
  cases table.find name with
  | some id => simp
  | none => simp

/-- A module of the group declares a requirement that leads to a module, or to a view of it. -/
def Outcome.Requests (outcome : Outcome) (X D : ModuleId) (view : Option String) : Prop :=
  ∃ m ∈ outcome.table.groupModules X, ∃ r ∈ m.spec.requires,
    outcome.surfaces.resolve? outcome.table r.name = some (D, view)

/-- The two look-ups of a required name agree on the names of modules. -/
theorem Outcome.requests_module_iff :
    outcome.Requests X D none ↔ PlatformPlan.isBootConnected outcome.table D X := by
  unfold Requests PlatformPlan.isBootConnected
  simp only [Surfaces.resolve?_eq_module_iff, ModuleTable.IsGroupOf, List.any_eq_true,
    Option.any_eq_true, beq_iff_eq]

/-! ## Modules that are sent nowhere -/

/-- The requires list of the module leads exactly to the other top-level modules that there is
evidence for. The boot module leaves out those that it can do without. -/
def Outcome.Direct (outcome : Outcome) (platform : PlatformPlan) (X : ModuleId) : Prop :=
  ∀ D, outcome.infos.Leads X D ↔ D ∈ outcome.table.topLevel ∧ D ≠ X ∧
    ∃ e, outcome.base.Evidence platform.plan X e ∧ e.module = D ∧
      (platform.IsBoot outcome.table X → ¬e.modifiers.isOptional)

theorem EvidenceBase.applyPolicy_of_privileged {base : EvidenceBase} (hX : X ∈ policy.privileged)
    (dep : Dependence) : base.applyPolicy policy X dep = dep := by
  rcases base.applyPolicy_sends_or policy X dep with ⟨E, hsends, -⟩ | ⟨-, heq⟩
  · exact absurd hX hsends.unprivileged
  · exact heq

/-- Nothing is added to what a privileged module has evidence for, and nothing is taken away but
what the boot module can do without. -/
theorem BuildPlan.Resolution.leads_iff (h : plan.Resolution policy outcome)
    (hX : X ∈ outcome.table.topLevel) (hprivileged : X ∈ policy.privileged) :
    outcome.infos.Leads X D ↔ D ∈ outcome.table.topLevel ∧ D ≠ X ∧
      ∃ e, outcome.base.Evidence plan X e ∧ e.module = D ∧
        (policy.dropsOptional X → ¬e.modifiers.isOptional) := by
  obtain ⟨info, hinfo⟩ := (h.exists_info_iff X).2 hX
  obtain ⟨deps, hdeps, hfinished⟩ := h.finished X info hinfo
  constructor
  · rintro ⟨info', hinfo', dep, hdep, rfl⟩
    cases hinfo.symm.trans hinfo'
    obtain ⟨hne, htop, -⟩ := h.target hinfo hdep
    refine ⟨htop, hne, ?_⟩
    obtain ⟨e, ⟨he, hmodule⟩, -⟩ := (hfinished.sums hdep).named
    have hpiece := he.direct_or_sent hdeps.keyed
    rw [hmodule] at hpiece
    rcases hpiece with ⟨hd, -, hkept⟩ | ⟨_, _, -, hsends, -⟩
    · by_cases hdrops : policy.dropsOptional X
      · -- what is kept is not optional, so some piece of the evidence is not
        have hneeded : ¬e.modifiers.isOptional := fun hoptional => hkept ⟨hoptional, hdrops⟩
        rw [(hdeps.weighs hd).isOptional] at hneeded
        push Not at hneeded
        obtain ⟨e', he', hmodule', hneeded⟩ := hneeded
        exact ⟨e', he', hmodule', fun _ => hneeded⟩
      · obtain ⟨e', he', hmodule'⟩ := (hdeps.exists_iff.1 ⟨e, hd⟩).2
        exact ⟨e', he', hmodule', fun hdrops' => absurd hdrops' hdrops⟩
    · exact absurd hprivileged hsends.unprivileged
  · rintro ⟨htop, hne, e, he, hmodule, hneeded⟩
    obtain ⟨dep, hdep⟩ := hdeps.exists_iff.2 ⟨hne, e, he, hmodule⟩
    have hkey := (hdeps.keyed D dep hdep).1
    have hkept : ¬(dep.modifiers.isOptional ∧ policy.dropsOptional X) := fun hdrop =>
      hneeded hdrop.2 ((hdeps.weighs hdep).isOptional.1 hdrop.1 e he hmodule)
    obtain ⟨final, hfinal, htarget, -⟩ := hfinished.exists_mem_of_leaves
      ⟨D, dep, hdep, hkept, (EvidenceBase.applyPolicy_of_privileged hprivileged dep).symm,
        hkey.symm ▸ BuildPlan.mem_topLevel.1 htop⟩
    exact ⟨info, hinfo, final, hfinal, htarget.trans hkey⟩

/-! ## Platform builds -/

namespace PlatformPlan

variable {platform : PlatformPlan} {boot base : ModuleId} {aggregates : Aggregates}
  {ready final : ModuleTable}

/-- What a platform build resolves: the outcome of the preparation of a settled table with the boot
module and the base module. -/
structure Readied (platform : PlatformPlan) (policy : ExporterPolicy) (boot base : ModuleId)
    (aggregates : Aggregates) (ready final : ModuleTable) : Prop
    extends platform.Prepares policy boot base aggregates ready final where
  settled : ready.Settled
  isBoot : platform.IsBoot ready boot
  isBase : platform.IsBase ready base

theorem ends_prepared_readied (platform : PlatformPlan) (registry : Registry) :
    Ends (platform.prepared registry).result
      (fun r => ∃ boot base aggregates ready,
        platform.Readied r.2.policy boot base aggregates ready r.1.table) StageError := by
  refine ends_prepared_of registry fun _ p boot base _ hjoined hboot hbase hbootlt hbaselt => ?_
  have hp := hjoined.settled
  refine (ends_prepare_prepares platform hp hbootlt hbaselt).weaken
    fun prepared ⟨aggregates, ready, hready, h⟩ => ?_
  refine ⟨_, _, aggregates, ready, h, hp.of_extends hready.toExtends, ?_, ?_⟩
  · exact ModuleTable.IsGroupOf.of_keeps ⟨boot, hboot, rfl⟩ hp.indexed hready
  · exact ModuleTable.IsGroupOf.of_keeps ⟨base, hbase, rfl⟩ hp.indexed hready

/-- A build that succeeds has resolved a prepared table. -/
theorem exists_readied (platform : PlatformPlan) (registry : Registry) (outcome : Outcome)
    (hbuild : (platform.build registry).result = .ok outcome) :
    ∃ p prepared boot base aggregates ready,
      (platform.prepared registry).result = .ok (p, prepared) ∧
      platform.plan.Resolution prepared.policy outcome ∧
      platform.Readied prepared.policy boot base aggregates ready outcome.table := by
  obtain ⟨p, prepared, hprepared, rfl, hresolution, -, -⟩ :=
    exists_prepared platform registry outcome hbuild
  obtain ⟨boot, base, aggregates, ready, h⟩ :=
    (ends_prepared_readied platform registry).of_ok hprepared
  exact ⟨_, prepared, boot, base, aggregates, ready, hprepared, hresolution, h⟩

namespace Readied

/-- The module of a name, and its group, are known from the start. -/
theorem isGroupOf_iff (h : platform.Readied policy boot base aggregates ready final)
    {name : String} {G : ModuleId} (hG : ready.IsGroupOf G name) :
    final.IsGroupOf X name ↔ X = G := by
  obtain ⟨id, hid, hgroup⟩ := hG.of_keeps h.settled.indexed h.keeps
  constructor
  · rintro ⟨id', hid', rfl⟩
    cases hid.symm.trans hid'
    exact hgroup
  · rintro rfl
    exact ⟨id, hid, hgroup⟩

theorem isBoot_iff (h : platform.Readied policy boot base aggregates ready final) :
    platform.IsBoot final X ↔ X = boot :=
  h.isGroupOf_iff h.isBoot

theorem isBase_iff (h : platform.Readied policy boot base aggregates ready final) :
    platform.IsBase final X ↔ X = base :=
  h.isGroupOf_iff h.isBase

theorem dropsOptional_iff (h : platform.Readied policy boot base aggregates ready final) :
    policy.dropsOptional X ↔ platform.IsBoot final X := by
  rw [h.isBoot_iff, ExporterPolicy.dropsOptional, h.boot_eq, beq_iff_eq, Option.some.injEq]
  exact eq_comm

/-- A module that requires the boot module by its declaration took part in the module graph when
the privileges were given. -/
theorem mem_privileged_of_isBootConnected
    (h : platform.Readied policy boot base aggregates ready final)
    (hX : X ∈ final.topLevel) (hconnected : isBootConnected final boot X) :
    X ∈ policy.privileged := by
  refine h.mem_privileged_iff.2 ⟨?_, .inr (.inr hconnected)⟩
  have hready := isBootConnected_of_sameBut h.sameBut.symm hconnected
  obtain ⟨m, hm, hany⟩ := List.any_eq_true.1 hready
  obtain ⟨requirement, hrequirement, -⟩ := List.any_eq_true.1 hany
  have hne := List.ne_nil_of_mem hrequirement
  have htop := BuildPlan.mem_topLevel.1 hX
  have hsize := ModuleTable.lt_size_of_isTopLevel htop
  rw [h.sameBut.size] at hsize
  exact BuildPlan.mem_topLevel.2 <| ModuleTable.isTopLevel_of_hasRequires hsize
    ((h.keeps.group_eq X).symm.trans (ModuleTable.group_of_isTopLevel htop)) hm
    (by simp [Module.hasRequires, Module.requires, hne])

end Readied

/-- In a platform build, a module is privileged if its group declares a requirement that leads to
the boot module as such. Nobody else is, but the boot module and the base module. Whoever is
privileged is sent nowhere. -/
theorem privileged_of_build (platform : PlatformPlan) (registry : Registry) (outcome : Outcome)
    (hbuild : (platform.build registry).result = .ok outcome) :
    ∃ p prepared, (platform.prepared registry).result = .ok (p, prepared) ∧
      ∀ X ∈ outcome.table.topLevel,
        (∀ boot, platform.IsBoot outcome.table boot → outcome.Requests X boot none →
          X ∈ prepared.policy.privileged) ∧
        (X ∈ prepared.policy.privileged → platform.IsBoot outcome.table X ∨
          platform.IsBase outcome.table X ∨
          ∃ boot, platform.IsBoot outcome.table boot ∧ outcome.Requests X boot none) ∧
        (X ∈ prepared.policy.privileged → outcome.Direct platform X) := by
  obtain ⟨p, prepared, boot, base, aggregates, ready, hprepared, hresolution, h⟩ :=
    exists_readied platform registry outcome hbuild
  refine ⟨p, prepared, hprepared, fun X hX => ⟨?_, ?_, ?_⟩⟩
  · intro boot' hboot' hrequests
    rw [h.isBoot_iff] at hboot'
    subst hboot'
    exact h.mem_privileged_of_isBootConnected hX (Outcome.requests_module_iff.1 hrequests)
  · intro hprivileged
    rw [h.isBoot_iff, h.isBase_iff]
    rcases (h.mem_privileged_iff.1 hprivileged).2 with hboot | hbase | hconnected
    · exact .inl hboot
    · exact .inr (.inl hbase)
    · exact .inr (.inr ⟨boot, h.isBoot_iff.2 rfl, Outcome.requests_module_iff.2 hconnected⟩)
  · intro hprivileged D
    rw [hresolution.leads_iff hX hprivileged, h.dropsOptional_iff]

end PlatformPlan

/-- Two programs, one of which refers to a class of an internal module. -/
def Registry.acquainted : Registry :=
  .populate [
    .register { name := "app.Main" },
    .register { name := "tool.Main", references := ["q.Start"] },
    .register { name := "q.Start" },
    .register { name := "boot.Loader" },
    .register { name := "base.Object" }]

/-- One of the programs requires the boot module, the other one its internal view. The boot module
exports an internal module. -/
def PlatformPlan.acquainted : PlatformPlan :=
  .new { specs := [
    { name := "app", version := "1.0", roots := ⟨[.package "app"]⟩
      requires := [{ name := "jdk.boot" }] },
    { name := "tool", version := "1.0", roots := ⟨[.package "tool"]⟩
      requires := [{ name := "jdk.boot.internal" }] },
    { name := "sun.boot", version := "1.0", roots := ⟨[.package "q"]⟩ },
    { name := "jdk.boot", version := "1.0", roots := ⟨[.package "boot"]⟩ },
    { name := "jdk.base", version := "1.0", roots := ⟨[.package "base"]⟩ }] } {}

namespace PlatformPlan

/-- What the module of a number declares leads to the boot module. -/
theorem requests_acquainted {table : ModuleTable} {surfaces : Surfaces} {X : ModuleId}
    {requirement : Requirement} {view : Option String}
    (hrequires : (table.get? X).map (·.spec.requires) = some [requirement])
    (hleads : surfaces.resolve? table requirement.name = some (3, view)) :
    ∃ m ∈ table.groupModules X, ∃ r ∈ m.spec.requires,
      surfaces.resolve? table r.name = some (3, view) := by
  obtain ⟨m, hm, hrequires⟩ := Option.map_eq_some_iff.1 hrequires
  exact ⟨m, ModuleTable.mem_groupModules.2 ⟨X, hm, .inl rfl⟩, requirement,
    hrequires ▸ List.mem_singleton.2 rfl, hleads⟩

/-- The program that requires the boot module is privileged. -/
theorem privileged_acquainted :
    ∃ outcome, (PlatformPlan.acquainted.build .acquainted).result = .ok outcome ∧
      PlatformPlan.acquainted.IsBoot outcome.table 3 ∧ outcome.Requests 0 3 none ∧
      ∃ p prepared, (PlatformPlan.acquainted.prepared .acquainted).result = .ok (p, prepared) ∧
        0 ∈ prepared.policy.privileged ∧ outcome.Direct .acquainted 0 := by
  have hrun : ∃ outcome, (PlatformPlan.acquainted.build .acquainted).result = .ok outcome ∧
      0 ∈ outcome.table.topLevel ∧ outcome.table.find "jdk.boot" = some 3 ∧
      outcome.table.group 3 = 3 ∧
      (outcome.table.get? 0).map (·.spec.requires) = some [{ name := "jdk.boot" }] ∧
      outcome.surfaces.resolve? outcome.table "jdk.boot" = some (3, none) := by
    decide +kernel
  obtain ⟨outcome, hbuild, htop, hfind, hgroup, hrequires, hleads⟩ := hrun
  have hboot : PlatformPlan.acquainted.IsBoot outcome.table 3 := ⟨3, hfind, hgroup⟩
  have hrequests : outcome.Requests 0 3 none := requests_acquainted hrequires hleads
  obtain ⟨p, prepared, hprepared, h⟩ := privileged_of_build .acquainted .acquainted outcome hbuild
  obtain ⟨hmem, -, hdirect⟩ := h 0 htop
  have hprivileged := hmem 3 hboot hrequests
  exact ⟨outcome, hbuild, hboot, hrequests, p, prepared, hprepared, hprivileged,
    hdirect hprivileged⟩

/-- The program that requires the internal view of the boot module is not privileged, and it is sent
from the internal module to the boot module. -/
theorem not_privileged_acquainted :
    ∃ outcome, (PlatformPlan.acquainted.build .acquainted).result = .ok outcome ∧
      ∃ p prepared, (PlatformPlan.acquainted.prepared .acquainted).result = .ok (p, prepared) ∧
        ¬∀ X ∈ outcome.table.topLevel, ∀ boot view,
          PlatformPlan.acquainted.IsBoot outcome.table boot → outcome.Requests X boot view →
          X ∈ prepared.policy.privileged ∨ outcome.Direct .acquainted X := by
  have hrun : ∃ outcome, (PlatformPlan.acquainted.build .acquainted).result = .ok outcome ∧
      (1 ∈ outcome.table.topLevel ∧ 2 ∈ outcome.table.topLevel ∧
        outcome.table.find "jdk.boot" = some 3 ∧ outcome.table.group 3 = 3) ∧
      ((outcome.table.get? 1).map (·.spec.requires) = some [{ name := "jdk.boot.internal" }] ∧
        outcome.surfaces.resolve? outcome.table "jdk.boot.internal" =
          some (3, some "jdk.boot.internal")) ∧
      (1 ∈ outcome.table.classes 1 ∧
        (outcome.partition.registry.classes[1]?).map (·.references.toList) = some [2] ∧
        outcome.partition.registry.classOwner 2 = some 2 ∧ outcome.table.group 2 = 2) ∧
      (outcome.infos[1]?).map (fun info => info.requires.map (·.module)) = some [3] := by
    decide +kernel
  have hprepared : ∃ r, (PlatformPlan.acquainted.prepared .acquainted).result = .ok r ∧
      1 ∉ r.2.policy.privileged := by
    decide +kernel
  obtain ⟨outcome, hbuild, ⟨htop, hinternal, hfind, hgroup⟩, ⟨hrequires, hleads⟩,
    ⟨hmain, hreferences, howner, hgroup'⟩, hlist⟩ := hrun
  obtain ⟨⟨p, prepared⟩, hprepared, hunprivileged⟩ := hprepared
  refine ⟨outcome, hbuild, p, prepared, hprepared, fun hall => ?_⟩
  refine (hall 1 htop 3 _ ⟨3, hfind, hgroup⟩ (requests_acquainted hrequires hleads)).elim
    hunprivileged fun hdirect => ?_
  -- the program refers to a class of the internal module
  obtain ⟨main, hsource, hmainReferences⟩ := Option.map_eq_some_iff.1 hreferences
  obtain ⟨target, htarget, htargetOwner⟩ := Registry.classOwner_eq_some_iff.1 howner
  have href : 2 ∈ main.references := by
    rw [← Std.TreeSet.mem_toList, hmainReferences]
    exact List.mem_singleton.2 rfl
  have hevidence : outcome.base.Evidence PlatformPlan.acquainted.plan 1
      (outcome.base.across PlatformPlan.acquainted.plan main target (outcome.table.group 2)) :=
    .referenced hmain hsource href htarget htargetOwner
  have hnotBoot : ¬PlatformPlan.acquainted.IsBoot outcome.table 1 := by
    rintro ⟨id, hid, hone⟩
    cases hfind.symm.trans hid
    exact absurd (hgroup.symm.trans hone) (by decide)
  -- and yet it does not require that module
  obtain ⟨info, hinfo, dep, hdep, hmodule⟩ := (hdirect 2).2
    ⟨hinternal, by decide, _, hevidence, hgroup', fun hboot => absurd hboot hnotBoot⟩
  rw [hinfo, Option.map_some, Option.some.injEq] at hlist
  have hmem : dep.module ∈ info.requires.map (·.module) := List.mem_map_of_mem hdep
  rw [hlist, hmodule] at hmem
  exact absurd hmem (by decide)

end PlatformPlan

end ModuleGraph
