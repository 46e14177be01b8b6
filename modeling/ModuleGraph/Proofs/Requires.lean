import ModuleGraph.Proofs.Builder

/-!
# Requires lists in closed form

The requires list of a finished module says what the evidence of the module amounts to, and does not
show in which order the evidence came: neither the merging of dependences, nor the pass over split
packages, nor the last filter leaves a trace.

* `Outcome.Requires`: the closed form.
* `BuildPlan.requires_of_build`: a plain build gives every top-level module such a list.
-/

namespace ModuleGraph

namespace EvidenceBase

variable {base : EvidenceBase} {plan : BuildPlan} {X D : ModuleId} {deps kept : Dependences}
  {d e : Dependence}

/-- A class of the first module refers to a class of the second one, in a package that is not
exported. -/
def Intrudes (base : EvidenceBase) (plan : BuildPlan) (X D : ModuleId) : Prop :=
  ∃ c ∈ base.table.classes X, ∃ (source target : ClassEntry) (d : ClassId) (owner : ModuleId),
    base.registry.classes[c]? = some source ∧ d ∈ source.references ∧
      base.registry.classes[d]? = some target ∧ target.owner = some owner ∧
      base.table.group owner = D ∧ plan.options.exported.admits target.package = false

/-- Only a reference makes a dependence internal. -/
theorem exists_internal_iff :
    (∃ e, base.Evidence plan X e ∧ e.module = D ∧ e.isInternal) ↔ base.Intrudes plan X D := by
  constructor
  · intro h
    obtain ⟨e, he, hmodule, hinternal⟩ := h
    cases he with
    | required _ _ hasks =>
      obtain ⟨target, -, rfl⟩ := hasks
      cases hinternal
    | @referenced c d source target owner hc hsource hd htarget howner =>
      have hadmits : plan.options.exported.admits target.package = false := by
        simpa [across] using hinternal
      exact ⟨c, hc, source, target, d, owner, hsource, hd, htarget, howner, hmodule, hadmits⟩
    | mainClass => cases hinternal
    | declared _ _ _ hasks =>
      obtain ⟨target, -, rfl⟩ := hasks
      cases hinternal
  · intro h
    obtain ⟨c, hc, source, target, d, owner, hsource, hd, htarget, howner, hgroup, hadmits⟩ := h
    refine ⟨_, .referenced hc hsource hd htarget howner, hgroup, ?_⟩
    simp [across, hadmits]

/-! ## Without a policy -/

theorem applyPolicy_empty (base : EvidenceBase) (X : ModuleId) (dep : Dependence) :
    base.applyPolicy {} X dep = dep := by
  have hexporter : ({} : ExporterPolicy).exporter dep.module X = dep.module := by
    simp [ExporterPolicy.exporter]
  simp [applyPolicy, hexporter]

/-- Without a policy, what leads to top-level modules is left. -/
theorem leaves_empty_iff :
    base.Leaves {} X deps e ↔
      ∃ D : ModuleId, deps[D]? = some e ∧ base.table.isTopLevel e.module := by
  unfold Leaves
  simp only [applyPolicy_empty, ExporterPolicy.dropsOptional]
  constructor
  · intro h
    obtain ⟨D, dep, hD, -, rfl, htop⟩ := h
    exact ⟨D, hD, htop⟩
  · intro h
    obtain ⟨D, hD, htop⟩ := h
    exact ⟨D, e, hD, by simp, rfl, htop⟩

/-- Without a policy, a kept dependence is the sum of the one that was collected. -/
theorem Keyed.sums_of_kept (h : base.Keyed X deps)
    (hkept : kept.Summarizes (base.Leaves {} X deps)) (hd : kept[D]? = some d) :
    ∃ e, deps[D]? = some e ∧ base.table.isTopLevel D ∧ d.Sums fun e' => e' = e := by
  have hsums := hkept.sums hd
  obtain ⟨e, ⟨he, hmodule⟩, -⟩ := hsums.named
  have hleft (e' : Dependence) (he' : base.Leaves {} X deps e') (hmodule' : e'.module = D) :
      deps[D]? = some e' ∧ base.table.isTopLevel D := by
    obtain ⟨D', hD', htop⟩ := leaves_empty_iff.1 he'
    have hkey := (h D' e' hD').1
    rw [hmodule'] at hkey htop
    subst hkey
    exact ⟨hD', htop⟩
  obtain ⟨hget, htop⟩ := hleft e he hmodule
  refine ⟨e, hget, htop, hsums.congr fun e' => ?_⟩
  constructor
  · intro he'
    have hget' := (hleft e' he'.1 he'.2).1
    rw [hget] at hget'
    exact (Option.some.inj hget').symm
  · intro heq
    rw [heq]
    exact ⟨he, hmodule⟩

theorem Keyed.eq_of_kept (h : base.Keyed X deps)
    (hkept : kept.Summarizes (base.Leaves {} X deps)) (hd : kept[D]? = some d) :
    ∃ e, deps[D]? = some e ∧ base.table.isTopLevel D ∧ d.modifiers = e.modifiers ∧
      d.isInternal = e.isInternal := by
  obtain ⟨e, hget, htop, hsum⟩ := h.sums_of_kept hkept hd
  exact ⟨e, hget, htop, hsum.modifiers_eq, hsum.isInternal_eq⟩

theorem Keyed.exists_kept (h : base.Keyed X deps)
    (hkept : kept.Summarizes (base.Leaves {} X deps)) (he : deps[D]? = some e)
    (htop : base.table.isTopLevel D) : ∃ d, kept[D]? = some d := by
  have hmodule := (h D e he).1
  have hcovers := hkept.covers (leaves_empty_iff.2 ⟨D, he, by rwa [hmodule]⟩)
  rwa [hmodule] at hcovers

end EvidenceBase

namespace BuildPlan

variable {plan : BuildPlan} {p : Partition} {base : EvidenceBase} {split : SplitPackages}
  {X D : ModuleId} {deps : Dependences} {e : Dependence}

/-- A collected dependence in terms of the evidence: promotion adds nothing but the local flag. -/
structure Weighs (plan : BuildPlan) (base : EvidenceBase) (split : SplitPackages) (X D : ModuleId)
    (e : Dependence) : Prop where
  isOptional : e.modifiers.isOptional ↔
    ∀ e', base.Evidence plan X e' → e'.module = D → e'.modifiers.isOptional
  isPublic : e.modifiers.isPublic ↔
    ∃ e', base.Evidence plan X e' ∧ e'.module = D ∧ e'.modifiers.isPublic
  isLocal : e.modifiers.isLocal ↔
    (∃ e', base.Evidence plan X e' ∧ e'.module = D ∧ e'.modifiers.isLocal) ∨ D ∈ split.partners X
  isInternal : e.isInternal ↔ base.Intrudes plan X D

theorem Gathered.exists_iff (h : plan.Gathered base split X deps) :
    (∃ e, deps[D]? = some e) ↔ D ≠ X ∧ ∃ e, base.Evidence plan X e ∧ e.module = D := by
  obtain ⟨raw, hraw, hget⟩ := h
  have hsome : (∃ e, deps[D]? = some e) ↔ ∃ r, raw[D]? = some r := by
    rw [hget]
    cases raw[D]? <;> simp
  rw [hsome, hraw.exists_iff]
  constructor
  · intro hex
    obtain ⟨e, ⟨he, hne⟩, rfl⟩ := hex
    exact ⟨hne, e, he, rfl⟩
  · intro hex
    obtain ⟨hne, e, he, rfl⟩ := hex
    exact ⟨e, ⟨he, hne⟩, rfl⟩

theorem Gathered.weighs (h : plan.Gathered base split X deps) (he : deps[D]? = some e) :
    plan.Weighs base split X D e := by
  have hne : D ≠ X := (h.exists_iff.1 ⟨e, he⟩).1
  obtain ⟨raw, hraw, hget⟩ := h
  rw [hget, Option.map_eq_some_iff] at he
  obtain ⟨r, hr, rfl⟩ := he
  have hsums : r.Sums fun e' => base.Evidence plan X e' ∧ e'.module = D :=
    (hraw.sums hr).congr fun e' => by
      constructor
      · intro he'
        exact ⟨he'.1.1, he'.2⟩
      · intro he'
        exact ⟨⟨he'.1, by rwa [he'.2]⟩, he'.2⟩
  unfold SplitPackages.promoteIf
  constructor
  case isOptional =>
    have hsame : (if D ∈ split.partners X then r.promote.1 else r).modifiers.isOptional =
        r.modifiers.isOptional := by
      split_ifs <;> rfl
    rw [hsame, hsums.isOptional]
    simp only [and_imp]
  case isPublic =>
    have hsame : (if D ∈ split.partners X then r.promote.1 else r).modifiers.isPublic =
        r.modifiers.isPublic := by
      split_ifs <;> rfl
    rw [hsame, hsums.isPublic]
    simp only [and_assoc]
  case isLocal =>
    by_cases hpartner : D ∈ split.partners X
    · simp [hpartner, Dependence.promote]
    · rw [if_neg hpartner, hsums.isLocal]
      simp only [hpartner, or_false, and_assoc]
  case isInternal =>
    have hsame : (if D ∈ split.partners X then r.promote.1 else r).isInternal =
        r.isInternal := by
      split_ifs <;> rfl
    rw [hsame, hsums.isInternal, ← EvidenceBase.exists_internal_iff]
    simp only [and_assoc]

/-- Top-level modules are partners if they are different and have classes in a common package. -/
theorem mem_partners_iff (hX : X ∈ p.table.topLevel) (hD : D ∈ p.table.topLevel) (hne : D ≠ X) :
    D ∈ (SplitPackages.detect (plan.topPackages p)).partners X ↔
      ∃ package, ReachesInto p X package ∧ ReachesInto p D package := by
  rw [SplitPackages.mem_partners_detect]
  simp only [has_topPackages_iff, hX, hD, hne, true_and, ne_eq, not_false_eq_true]

end BuildPlan

/-! ## The closed form -/

/-- The requires list of a finished module is what the evidence of the module amounts to: it is in
strictly increasing order of names, has an entry for each other top-level module that there is
evidence for, and the flags of an entry are those of the evidence. -/
structure Outcome.Requires (outcome : Outcome) (plan : BuildPlan) (X : ModuleId)
    (info : ModuleInfo) : Prop where
  increasing : info.requires.Pairwise fun d e => d.moduleName < e.moduleName
  named : ∀ dep ∈ info.requires, dep.moduleName = outcome.table.name dep.module
  exists_iff : ∀ D, (∃ dep ∈ info.requires, dep.module = D) ↔
    D ∈ outcome.table.topLevel ∧ D ≠ X ∧ ∃ e, outcome.base.Evidence plan X e ∧ e.module = D
  isOptional : ∀ dep ∈ info.requires, (dep.modifiers.isOptional ↔
    ∀ e, outcome.base.Evidence plan X e → e.module = dep.module → e.modifiers.isOptional)
  isPublic : ∀ dep ∈ info.requires, (dep.modifiers.isPublic ↔
    ∃ e, outcome.base.Evidence plan X e ∧ e.module = dep.module ∧ e.modifiers.isPublic)
  isLocal : ∀ dep ∈ info.requires, (dep.modifiers.isLocal ↔
    (∃ e, outcome.base.Evidence plan X e ∧ e.module = dep.module ∧ e.modifiers.isLocal) ∨
      ∃ package, BuildPlan.ReachesInto outcome.partition X package ∧
        BuildPlan.ReachesInto outcome.partition dep.module package)
  isInternal : ∀ dep ∈ info.requires,
    (dep.isInternal ↔ outcome.base.Intrudes plan X dep.module)

namespace BuildPlan

variable {plan : BuildPlan} {outcome : Outcome} {X D : ModuleId} {info : ModuleInfo}

/-- An entry of a requires list weighs the evidence for its module. -/
theorem Resolution.weighs_of_mem (h : plan.Resolution {} outcome)
    (hinfo : outcome.infos[X]? = some info) {dep : Dependence} (hdep : dep ∈ info.requires) :
    plan.Weighs outcome.base outcome.split X dep.module dep ∧
      ∃ e, outcome.base.Evidence plan X e ∧ e.module = dep.module := by
  obtain ⟨deps, hdeps, hfinished⟩ := h.finished X info hinfo
  obtain ⟨kept, hkept, -, hmem⟩ := hfinished.kept
  obtain ⟨D, d, hd, view, -, rfl⟩ := (hmem dep).1 hdep
  have hmodule : d.module = D := hkept.module_eq hd
  obtain ⟨e, he, -, hmodifiers, hinternal⟩ := hdeps.keyed.eq_of_kept hkept hd
  have hweighs := hdeps.weighs he
  have hevidence := (hdeps.exists_iff.1 ⟨e, he⟩).2
  dsimp only
  subst hmodule
  refine ⟨⟨?_, ?_, ?_, ?_⟩, hevidence⟩
  · rw [hmodifiers]
    exact hweighs.isOptional
  · rw [hmodifiers]
    exact hweighs.isPublic
  · rw [hmodifiers]
    exact hweighs.isLocal
  · rw [hinternal]
    exact hweighs.isInternal

/-- Evidence for another top-level module has its entry. -/
theorem Gathered.exists_mem {base : EvidenceBase} {split : SplitPackages} {deps : Dependences}
    (hdeps : plan.Gathered base split X deps) (hfinished : base.Finished {} X deps info)
    (hD : D ∈ base.table.topLevel) (hne : D ≠ X)
    (he : ∃ e, base.Evidence plan X e ∧ e.module = D) :
    ∃ dep ∈ info.requires, dep.module = D := by
  obtain ⟨kept, hkept, hbound, hmem⟩ := hfinished.kept
  obtain ⟨e, hget⟩ := hdeps.exists_iff.2 ⟨hne, he⟩
  obtain ⟨d, hd⟩ := hdeps.keyed.exists_kept hkept hget (mem_topLevel.1 hD)
  have hmodule : d.module = D := hkept.module_eq hd
  obtain ⟨bound, hbinds⟩ := hbound D d hd
  refine ⟨bound, (hmem bound).2 ⟨D, d, hd, hbinds⟩, ?_⟩
  obtain ⟨view, -, rfl⟩ := hbinds
  exact hmodule

theorem Resolution.mem_of_evidence (h : plan.Resolution {} outcome)
    (hinfo : outcome.infos[X]? = some info) (hD : D ∈ outcome.table.topLevel) (hne : D ≠ X)
    (he : ∃ e, outcome.base.Evidence plan X e ∧ e.module = D) :
    ∃ dep ∈ info.requires, dep.module = D := by
  obtain ⟨deps, hdeps, hfinished⟩ := h.finished X info hinfo
  exact hdeps.exists_mem hfinished hD hne he

/-- Without a policy, every top-level module has a requires list in closed form. -/
theorem Resolution.exists_requires (h : plan.Resolution {} outcome)
    (hX : X ∈ outcome.table.topLevel) :
    ∃ info, outcome.infos[X]? = some info ∧ outcome.Requires plan X info := by
  obtain ⟨info, hinfo⟩ := (h.exists_info_iff X).2 hX
  obtain ⟨deps, hdeps, hfinished⟩ := h.finished X info hinfo
  refine ⟨info, hinfo, hfinished.increasing, ?_, ?_, ?_, ?_, ?_, ?_⟩
  · intro dep hdep
    exact (h.target hinfo hdep).2.2
  · intro D
    constructor
    · intro hex
      obtain ⟨dep, hdep, rfl⟩ := hex
      obtain ⟨hne, htop, -⟩ := h.target hinfo hdep
      exact ⟨htop, hne, (h.weighs_of_mem hinfo hdep).2⟩
    · intro hex
      obtain ⟨hD, hne, he⟩ := hex
      exact h.mem_of_evidence hinfo hD hne he
  · intro dep hdep
    exact (h.weighs_of_mem hinfo hdep).1.isOptional
  · intro dep hdep
    exact (h.weighs_of_mem hinfo hdep).1.isPublic
  · intro dep hdep
    obtain ⟨hne, htop, -⟩ := h.target hinfo hdep
    rw [(h.weighs_of_mem hinfo hdep).1.isLocal, h.split_eq, mem_partners_iff hX htop hne]
  · intro dep hdep
    exact (h.weighs_of_mem hinfo hdep).1.isInternal

/-- Whatever the configuration, a plain build of a registry without owners gives each top-level
module a requires list in closed form. -/
theorem requires_of_build (plan : BuildPlan) (registry : Registry) (outcome : Outcome)
    (hregistry : registry.Unowned) (hbuild : (plan.build registry).result = .ok outcome)
    (X : ModuleId) (hX : X ∈ outcome.table.topLevel) :
    ∃ info, outcome.infos[X]? = some info ∧ outcome.Requires plan X info := by
  obtain ⟨-, hresolution⟩ := (plan.ends_build hregistry).of_ok hbuild
  exact hresolution.exists_requires hX

/-- The program of the sample requires its library. -/
theorem requires_sample :
    ∃ outcome, (BuildPlan.sample.build .sample).result = .ok outcome ∧
      ∃ info, outcome.infos[0]? = some info ∧ info.requires.map (·.module) = [2] ∧
        outcome.Requires .sample 0 info := by
  have hrun : ∃ outcome, (BuildPlan.sample.build .sample).result = .ok outcome ∧
      0 ∈ outcome.table.topLevel ∧
      (outcome.infos[0]?).map (fun info => info.requires.map (·.module)) = some [2] := by
    decide +kernel
  obtain ⟨outcome, hbuild, htop, hrequires⟩ := hrun
  have hregistry : Registry.sample.Unowned := (Registry.pristine_populate _).unowned
  obtain ⟨info, hinfo, hclosed⟩ := requires_of_build .sample .sample outcome hregistry hbuild 0 htop
  rw [hinfo] at hrequires
  exact ⟨outcome, hbuild, info, hinfo, Option.some.inj hrequires, hclosed⟩

end BuildPlan

end ModuleGraph
