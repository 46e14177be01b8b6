import ModuleGraph.Proofs.Redirection

/-!
# Redirected edges

The policy sends an edge one step, from a module to its exporter, and it does so after the edges
between partners have been made local. So a redirected edge escapes two rules that hold of edges as
they are collected:

* It is not local, even if its new target shares a package with the requester. An edge between
  modules that share a package is local exactly if the requester has evidence for the target itself
  (`PlatformPlan.local_iff_of_build`, `PlatformPlan.not_local_of_share_shared`).
* Its new target may have an exporter of its own. A plain edge of an ordinary requester ends on an
  exported module only if that module is the exporter of another one that the requester has evidence
  for (`PlatformPlan.exporter_of_plain`, `PlatformPlan.not_ends_on_exporter_chained`).
-/

namespace ModuleGraph

/-! ## One step of the policy -/

/-- The dependence is on a module as such: not local, not on packages that are not exported, and not
on a view. -/
structure Dependence.Plain (dep : Dependence) : Prop where
  not_internal : ¬dep.isInternal
  not_local : ¬dep.modifiers.isLocal
  not_view : ¬dep.targetsView

/-- The policy sends a dependence of a requester to an exporter. -/
structure ExporterPolicy.Sends (policy : ExporterPolicy) (top : ModuleId) (dep : Dependence)
    (E : ModuleId) : Prop where
  plain : dep.Plain
  unprivileged : top ∉ policy.privileged
  exporter : policy.exporters[dep.module]? = some E
  ne_requester : E ≠ top
  ne_module : E ≠ dep.module

namespace EvidenceBase

variable {base : EvidenceBase} {policy : ExporterPolicy} {top : ModuleId} {deps : Dependences}
  {info : ModuleInfo} {dep : Dependence} {E : ModuleId}

/-- A dependence that is sent to an exporter is redirected, and every other one stays. -/
theorem applyPolicy_sends_or (base : EvidenceBase) (policy : ExporterPolicy) (top : ModuleId)
    (dep : Dependence) :
    (∃ E, policy.Sends top dep E ∧
      base.applyPolicy policy top dep = dep.redirect E (base.table.name E)) ∨
    ((∀ E, ¬policy.Sends top dep E) ∧ base.applyPolicy policy top dep = dep) := by
  by_cases hsends : ∃ E, policy.Sends top dep E
  · obtain ⟨E, h⟩ := hsends
    have hexporter : policy.exporter dep.module top = E := by
      unfold ExporterPolicy.exporter
      rw [if_neg fun hcontains => h.unprivileged (Std.TreeSet.contains_iff_mem.1 hcontains),
        h.exporter]
      exact if_neg h.ne_requester
    refine .inl ⟨E, h, ?_⟩
    unfold applyPolicy
    simp only [h.plain.not_internal, h.plain.not_local, h.plain.not_view, Bool.or_self,
      hexporter, h.ne_module, if_false, Bool.false_eq_true]
  · refine .inr ⟨not_exists.1 hsends, ?_⟩
    unfold applyPolicy
    dsimp only
    split_ifs with hfixed hsame
    · rfl
    · rfl
    · -- a plain dependence that does not stay has been sent somewhere
      simp only [Bool.or_eq_true, not_or] at hfixed
      unfold ExporterPolicy.exporter at hsame
      split_ifs at hsame with hprivileged
      · exact absurd rfl hsame
      · split at hsame
        · rename_i E hE
          split_ifs at hsame with hself
          · exact absurd rfl hsame
          · refine absurd ⟨E, ?_⟩ hsends
            exact ⟨⟨hfixed.1.1, hfixed.1.2, hfixed.2⟩,
              fun hmem => hprivileged (Std.TreeSet.contains_iff_mem.2 hmem), hE, hself, hsame⟩
        · exact absurd rfl hsame

/-- An entry of a requires list is the sum of what the policy leaves for its module. -/
theorem Finished.sums (h : base.Finished policy top deps info) (hdep : dep ∈ info.requires) :
    dep.Sums fun e => base.Leaves policy top deps e ∧ e.module = dep.module := by
  obtain ⟨kept, hkept, -, hmem⟩ := h.kept
  obtain ⟨D, d, hd, view, -, rfl⟩ := (hmem dep).1 hdep
  have hmodule : d.module = D := hkept.module_eq hd
  have hsums := hkept.sums hd
  rw [← hmodule] at hsums
  exact ⟨hsums.module_eq, hsums.named, hsums.targeted, hsums.isOptional, hsums.isPublic,
    hsums.isLocal, hsums.isInternal⟩

/-- What the policy leaves has been collected as it is, or has been sent to an exporter. -/
theorem Leaves.direct_or_sent (h : base.Leaves policy top deps dep) (hdeps : base.Keyed top deps) :
    (deps[dep.module]? = some dep ∧ (∀ E, ¬policy.Sends top dep E) ∧
      ¬(dep.modifiers.isOptional ∧ policy.dropsOptional top)) ∨
    ∃ (D : ModuleId) (d : Dependence), deps[D]? = some d ∧ policy.Sends top d dep.module ∧
      dep = d.redirect dep.module (base.table.name dep.module) := by
  obtain ⟨D, d, hd, hkept, rfl, -⟩ := h
  rcases base.applyPolicy_sends_or policy top d with ⟨E, hsends, heq⟩ | ⟨hstays, heq⟩
  · rw [heq]
    exact .inr ⟨D, d, hd, hsends, rfl⟩
  · rw [heq]
    refine .inl ⟨?_, hstays, hkept⟩
    rw [(hdeps D d hd).1, hd]

end EvidenceBase

/-! ## Privileged modules -/

namespace PlatformPlan

/-- The group of the base module. -/
def IsBase (platform : PlatformPlan) (table : ModuleTable) (X : ModuleId) : Prop :=
  ∃ id, table.find platform.settings.baseModule = some id ∧ table.group id = X

/-- The module is neither the boot module nor the base module, and does not require the boot
module. -/
structure Ordinary (platform : PlatformPlan) (table : ModuleTable) (X : ModuleId) : Prop where
  not_boot : ¬platform.IsBoot table X
  not_base : ¬platform.IsBase table X
  not_connected : ∀ boot, platform.IsBoot table boot → ¬isBootConnected table boot X

variable {platform : PlatformPlan} {p : Partition} {table table' : ModuleTable}
  {boot base X : ModuleId}

/-- What the engine adds to a module does not connect it to the boot module. -/
theorem isBootConnected_of_sameBut (h : table.SameBut Module.plain table')
    (hconnected : isBootConnected table boot X) : isBootConnected table' boot X := by
  have hgroup (x : ModuleId) : table'.group x = table.group x := h.extends.group_eq x
  obtain ⟨m, hm, hany⟩ := List.any_eq_true.1 hconnected
  obtain ⟨requirement, hrequirement, htarget⟩ := List.any_eq_true.1 hany
  obtain ⟨x, hx, hget⟩ := List.mem_filterMap.1 hm
  obtain ⟨m', hget', hplain⟩ := h.exists_get? hget
  have hspec : m'.spec = m.spec := congrArg (·.spec) hplain
  refine List.any_eq_true.2 ⟨m', List.mem_filterMap.2 ⟨x, ?_, hget'⟩, ?_⟩
  · unfold ModuleTable.groupMembers at hx ⊢
    simp only [List.mem_cons, List.mem_filter, ModuleTable.mem_ids, hgroup, h.size] at hx ⊢
    exact hx
  · rw [hspec]
    refine List.any_eq_true.2 ⟨requirement, hrequirement, ?_⟩
    rw [h.find]
    simpa only [hgroup] using htarget

/-- Which modules of a prepared table are privileged: none but the boot module, the base module and
those that require the boot module; and the boot module is, once it holds a class. -/
structure Privileges (p : Partition) (boot base : ModuleId) (prepared : Prepared) : Prop where
  cases : ∀ X ∈ prepared.policy.privileged, X = p.table.group boot ∨ X = p.table.group base ∨
    isBootConnected prepared.table (p.table.group boot) X
  boot_mem : ∀ c, c ∈ prepared.table.classes (p.table.group boot) →
    p.table.group boot ∈ prepared.policy.privileged

/-- The privileges are given before the aggregates get their notes, which connect nobody. -/
theorem Prepares.mem_privileged_iff {policy : ExporterPolicy} {aggregates : Aggregates}
    {ready final : ModuleTable} (h : platform.Prepares policy boot base aggregates ready final) :
    X ∈ policy.privileged ↔
      X ∈ ready.topLevel ∧ (X = boot ∨ X = base ∨ isBootConnected final boot X) := by
  have hconnected : isBootConnected ready boot X ↔ isBootConnected final boot X :=
    ⟨isBootConnected_of_sameBut h.sameBut, isBootConnected_of_sameBut h.sameBut.symm⟩
  rw [h.privileged_eq, Std.TreeSet.mem_ofList, List.contains_iff_mem, privileged, List.mem_filter]
  simp only [Bool.or_eq_true, beq_iff_eq, or_assoc, hconnected]

theorem ends_prepare_privileges (platform : PlatformPlan) (hp : p.table.Settled)
    (hboot : boot < p.table.size) (hbase : base < p.table.size) :
    Ends (platform.prepare p boot base).result (Privileges p boot base) fun _ => True := by
  refine (ends_prepare_prepares platform hp hboot hbase).weaken
    fun prepared ⟨_, ready, hready, h⟩ => ?_
  refine ⟨fun X hX => (h.mem_privileged_iff.1 hX).2, fun c hc => ?_⟩
  refine h.mem_privileged_iff.2 ⟨?_, .inl rfl⟩
  -- the boot module is on top: it holds a class from before
  cases hm' : prepared.table.get? (p.table.group boot) with
  | none =>
    rw [ModuleTable.classes, hm'] at hc
    cases hc
  | some m' =>
    rw [ModuleTable.classes_of_get? hm'] at hc
    obtain ⟨m, hm, hplain⟩ := h.sameBut.exists_get?_before hm'
    have hclasses : m.classes = m'.classes := congrArg (·.classes) hplain
    have hmem : c ∈ m.classes := hclasses ▸ Std.TreeSet.mem_toList.1 hc
    refine BuildPlan.mem_topLevel_of_not_isEmpty ?_ hm (Module.isEmpty_of_mem_classes hmem)
    rw [hready.group_eq, hp.group_group hboot]

/-- An ordinary module is not privileged, and the boot module is, once it holds a class. -/
structure Exempts (platform : PlatformPlan) (r : Partition × Prepared) : Prop where
  not_ordinary : ∀ X ∈ r.2.policy.privileged, ¬platform.Ordinary r.1.table X
  boot_mem : ∀ X, platform.IsBoot r.1.table X → ∀ c ∈ r.1.table.classes X,
    X ∈ r.2.policy.privileged

theorem ends_prepared_exempts (platform : PlatformPlan) (registry : Registry) :
    Ends (platform.prepared registry).result platform.Exempts StageError := by
  refine ends_prepared_of registry fun _ p boot base _ hjoined hboot hbase hbootlt hbaselt => ?_
  have hp := hjoined.settled
  have hends := ends_prepare_handsOn platform hp hbootlt hbaselt
  have hends' : Ends (platform.prepare p boot base).result (Privileges p boot base)
      fun _ => True := ends_prepare_privileges platform hp hbootlt hbaselt
  cases hprepare : (platform.prepare p boot base).result with
  | error e => trivial
  | ok prepared =>
    have hkeeps := (hends.of_ok hprepare).keeps
    have hprivileges := hends'.of_ok hprepare
    have hfind {name : String} {id : ModuleId} (h : p.table.find name = some id) :
        prepared.table.find name = some id := hkeeps.find_eq hp.indexed h
    have hisBoot : platform.IsBoot prepared.table (p.table.group boot) :=
      ⟨boot, hfind hboot, hkeeps.group_eq boot⟩
    refine ⟨fun X hX hordinary => ?_, fun X hX c hc => ?_⟩
    · rcases hprivileges.cases X hX with rfl | rfl | hconnected
      · exact hordinary.not_boot hisBoot
      · exact hordinary.not_base ⟨base, hfind hbase, hkeeps.group_eq base⟩
      · exact hordinary.not_connected _ hisBoot hconnected
    · obtain ⟨id, hid, rfl⟩ := hX
      replace hid : prepared.table.find platform.settings.bootModule = some id := hid
      rw [hfind hboot, Option.some.injEq] at hid
      subst hid
      replace hc : c ∈ prepared.table.classes (prepared.table.group boot) := hc
      show prepared.table.group boot ∈ prepared.policy.privileged
      rw [hkeeps.group_eq boot] at hc ⊢
      exact hprivileges.boot_mem c hc

end PlatformPlan

/-! ## Edges of the outcome -/

/-- The module has evidence for a module that the policy sends to another one. -/
def Outcome.Sent (outcome : Outcome) (plan : BuildPlan) (policy : ExporterPolicy)
    (X E : ModuleId) : Prop :=
  ∃ D, policy.exporters[D]? = some E ∧ ∃ e, outcome.base.Evidence plan X e ∧ e.module = D

/-- Two modules have classes in a common package. -/
def Outcome.Share (outcome : Outcome) (X D : ModuleId) : Prop :=
  ∃ package, BuildPlan.ReachesInto outcome.partition X package ∧
    BuildPlan.ReachesInto outcome.partition D package

namespace BuildPlan

variable {plan : BuildPlan} {policy : ExporterPolicy} {outcome : Outcome} {X E : ModuleId}
  {info : ModuleInfo} {dep : Dependence}

/-- An edge between modules that share a package is local if there is evidence for its target, and
otherwise has been sent there. -/
theorem Resolution.local_iff (h : plan.Resolution policy outcome)
    (hboot : policy.boot = some X → X ∈ policy.privileged)
    (hinfo : outcome.infos[X]? = some info) (hdep : dep ∈ info.requires)
    (hshare : outcome.Share X dep.module) :
    (dep.modifiers.isLocal ↔
      ∃ e, outcome.base.Evidence plan X e ∧ e.module = dep.module) ∧
    (dep.modifiers.isLocal ∨ outcome.Sent plan policy X dep.module) := by
  obtain ⟨hne, htop, -⟩ := h.target hinfo hdep
  have hX : X ∈ outcome.table.topLevel := (h.exists_info_iff X).1 ⟨info, hinfo⟩
  obtain ⟨deps, hdeps, hfinished⟩ := h.finished X info hinfo
  have hsums := hfinished.sums hdep
  have hpartner : dep.module ∈ outcome.split.partners X := by
    rw [h.split_eq]
    exact (mem_partners_iff hX htop hne).2 hshare
  -- What is collected for a partner is local.
  have hcollected (d : Dependence) (hd : deps[dep.module]? = some d) : d.modifiers.isLocal :=
    (hdeps.weighs hd).isLocal.2 (.inr hpartner)
  obtain ⟨e, ⟨he, hmodule⟩, -⟩ := hsums.named
  have hpiece := he.direct_or_sent hdeps.keyed
  rw [hmodule] at hpiece
  refine ⟨⟨fun hlocal => ?_, fun hevidence => ?_⟩, ?_⟩
  · obtain ⟨e', ⟨he', hmodule'⟩, hlocal'⟩ := hsums.isLocal.1 hlocal
    have hpiece' := he'.direct_or_sent hdeps.keyed
    rw [hmodule'] at hpiece'
    rcases hpiece' with ⟨hd, -⟩ | ⟨D, d, -, hsends, heq⟩
    · exact (hdeps.exists_iff.1 ⟨e', hd⟩).2
    · -- what is sent is not local
      rw [heq] at hlocal'
      exact absurd hlocal' hsends.plain.not_local
  · obtain ⟨d, hd⟩ := hdeps.exists_iff.2 ⟨hne, hevidence⟩
    have hlocal := hcollected d hd
    -- The boot module may drop it; but that is privileged, so nothing is sent to the target.
    have hkept : ¬(d.modifiers.isOptional ∧ policy.dropsOptional X) := by
      intro hdrop
      rcases hpiece with ⟨hd', -, hkept⟩ | ⟨D, d', -, hsends, -⟩
      · rw [hd] at hd'
        cases hd'
        exact hkept hdrop
      · refine hsends.unprivileged (hboot ?_)
        simpa [ExporterPolicy.dropsOptional] using hdrop.2
    have hstays : outcome.base.applyPolicy policy X d = d := by
      unfold EvidenceBase.applyPolicy
      rw [hlocal, Bool.or_true, Bool.true_or, if_pos rfl]
    have hkey := (hdeps.keyed _ d hd).1
    exact hsums.isLocal.2 ⟨d, ⟨⟨dep.module, d, hd, hkept, hstays.symm,
      hkey ▸ mem_topLevel.1 htop⟩, hkey⟩, hlocal⟩
  · rcases hpiece with ⟨hd, -⟩ | ⟨D, d, hd, hsends, -⟩
    · exact .inl (hsums.isLocal.2 ⟨e, ⟨he, hmodule⟩, hcollected e hd⟩)
    · refine .inr ⟨D, ?_, (hdeps.exists_iff.1 ⟨d, hd⟩).2⟩
      rw [← (hdeps.keyed D d hd).1]
      exact hsends.exporter

/-- A plain edge that escapes the exporter of its target has been sent there. -/
theorem Resolution.sent_of_plain (h : plan.Resolution policy outcome)
    (hunprivileged : X ∉ policy.privileged)
    (hinfo : outcome.infos[X]? = some info) (hdep : dep ∈ info.requires) (hplain : dep.Plain)
    (hE : policy.exporters[dep.module]? = some E) (hne : E ≠ X) (hself : E ≠ dep.module) :
    outcome.Sent plan policy X dep.module := by
  obtain ⟨deps, hdeps, hfinished⟩ := h.finished X info hinfo
  have hsums := hfinished.sums hdep
  by_contra hnone
  -- Otherwise all pieces are the edge that was collected for the target.
  have hpiece (e : Dependence) (he : outcome.base.Leaves policy X deps e)
      (hmodule : e.module = dep.module) :
      deps[dep.module]? = some e ∧ ∀ E, ¬policy.Sends X e E := by
    have hcases := he.direct_or_sent hdeps.keyed
    rw [hmodule] at hcases
    rcases hcases with ⟨hd, hstays, -⟩ | ⟨D, d, hd, hsends, -⟩
    · exact ⟨hd, hstays⟩
    · refine absurd ⟨D, ?_, (hdeps.exists_iff.1 ⟨d, hd⟩).2⟩ hnone
      rw [← (hdeps.keyed D d hd).1]
      exact hsends.exporter
  obtain ⟨e, ⟨he, hmodule⟩, hname⟩ := hsums.named
  obtain ⟨e', ⟨he', hmodule'⟩, htarget⟩ := hsums.targeted
  obtain ⟨hget, hstays⟩ := hpiece e he hmodule
  have hsame : e' = e := by
    have hget' := (hpiece e' he' hmodule').1
    rw [hget] at hget'
    exact (Option.some.inj hget').symm
  subst hsame
  have hplain' : e'.Plain := by
    refine ⟨fun hinternal => hplain.not_internal ?_, fun hlocal => hplain.not_local ?_, ?_⟩
    · exact hsums.isInternal.2 ⟨e', ⟨he, hmodule⟩, hinternal⟩
    · exact hsums.isLocal.2 ⟨e', ⟨he, hmodule⟩, hlocal⟩
    · rw [Dependence.targetsView, htarget, hname]
      exact hplain.not_view
  -- That edge is plain as well, so the policy would have sent it.
  exact hstays E ⟨hplain', hunprivileged, hmodule ▸ hE, hne, hmodule ▸ hself⟩

end BuildPlan

/-! ## Platform builds -/

namespace PlatformPlan

/-- A build that succeeds has gone through the preparation, and has resolved its result. -/
theorem exists_prepared (platform : PlatformPlan) (registry : Registry) (outcome : Outcome)
    (hbuild : (platform.build registry).result = .ok outcome) :
    ∃ p prepared, (platform.prepared registry).result = .ok (p, prepared) ∧
      outcome.partition = p ∧ platform.plan.Resolution prepared.policy outcome ∧
      platform.Ready (p, prepared) ∧ platform.Exempts (p, prepared) := by
  rw [result_build] at hbuild
  obtain ⟨⟨p, prepared⟩, hprepared, hresolve⟩ := exists_of_bind_ok hbuild
  have hready := (ends_prepared platform registry).of_ok hprepared
  obtain ⟨hpartition, hresolution⟩ :=
    (BuildPlan.ends_resolve platform.plan hready.indexed _ _).of_ok hresolve
  exact ⟨p, prepared, hprepared, hpartition, hresolution, hready,
    (ends_prepared_exempts platform registry).of_ok hprepared⟩

/-- In a platform build, an edge between modules with classes in a common package is local exactly
if the requester has evidence for the target itself. It is not, if the requester has been sent
there. -/
theorem local_iff_of_build (platform : PlatformPlan) (registry : Registry) (outcome : Outcome)
    (hbuild : (platform.build registry).result = .ok outcome) :
    ∃ p prepared, (platform.prepared registry).result = .ok (p, prepared) ∧
      ∀ (X : ModuleId) (info : ModuleInfo) (dep : Dependence), outcome.infos[X]? = some info →
        dep ∈ info.requires → outcome.Share X dep.module →
        (dep.modifiers.isLocal ↔
          ∃ e, outcome.base.Evidence platform.plan X e ∧ e.module = dep.module) ∧
        (dep.modifiers.isLocal ∨ outcome.Sent platform.plan prepared.policy X dep.module) := by
  obtain ⟨p, prepared, hprepared, rfl, hresolution, hready, hexempts⟩ :=
    exists_prepared platform registry outcome hbuild
  refine ⟨_, prepared, hprepared, fun X info dep hinfo hdep hshare => ?_⟩
  refine hresolution.local_iff (fun hX => ?_) hinfo hdep hshare
  obtain ⟨_, ⟨c, hc, -⟩, -⟩ := hshare
  exact hexempts.boot_mem X (hready.isBoot X hX) c hc

end PlatformPlan

/-- A program that refers to a class of an internal module, and shares its package with the public
counterpart of that module. -/
def Registry.shared : Registry :=
  .populate [
    .register { name := "p.Main", references := ["q.Socket"] },
    .register { name := "p.Helper" },
    .register { name := "q.Socket" },
    .register { name := "boot.Loader" },
    .register { name := "base.Object" }]

/-- A platform with an internal module and its public counterpart. -/
def PlatformPlan.shared : PlatformPlan :=
  .new { specs := [
    { name := "app", version := "1.0", roots := ⟨[.exact "p.Main"]⟩ },
    { name := "jdk.net", version := "1.0", roots := ⟨[.exact "p.Helper"]⟩ },
    { name := "sun.net", version := "1.0", roots := ⟨[.package "q"]⟩ },
    { name := "boot", version := "1.0", roots := ⟨[.package "boot"]⟩ },
    { name := "base", version := "1.0", roots := ⟨[.package "base"]⟩ }] }
    { bootModule := "boot", baseModule := "base" }

namespace PlatformPlan

/-- The program is sent to the public counterpart, with which it shares a package. -/
theorem run_shared :
    ∃ outcome, (PlatformPlan.shared.build .shared).result = .ok outcome ∧
      outcome.Share 0 1 ∧ ∃ info, outcome.infos[0]? = some info ∧
        info.requires.map (fun dep => (dep.module, dep.modifiers.isLocal)) = [(1, false)] := by
  have hrun : ∃ outcome, (PlatformPlan.shared.build .shared).result = .ok outcome ∧
      (0 ∈ outcome.table.classes 0 ∧ 2 ∈ outcome.table.classes 1 ∧
        (outcome.partition.registry.classes[0]?).map (·.package) = some "p" ∧
        (outcome.partition.registry.classes[2]?).map (·.package) = some "p") ∧
      (outcome.infos[0]?).map (fun info =>
        info.requires.map fun dep => (dep.module, dep.modifiers.isLocal)) = some [(1, false)] := by
    decide +kernel
  obtain ⟨outcome, hbuild, ⟨hmain, hhelper, hpackage, hpackage'⟩, hrequires⟩ := hrun
  obtain ⟨main, hmainEntry, hmainPackage⟩ := Option.map_eq_some_iff.1 hpackage
  obtain ⟨helper, hhelperEntry, hhelperPackage⟩ := Option.map_eq_some_iff.1 hpackage'
  obtain ⟨info, hinfo, hlist⟩ := Option.map_eq_some_iff.1 hrequires
  exact ⟨outcome, hbuild, ⟨"p", ⟨0, hmain, main, hmainEntry, hmainPackage⟩,
    ⟨2, hhelper, helper, hhelperEntry, hhelperPackage⟩⟩, info, hinfo, hlist⟩

/-- The only edge of the program is not local, and the program has been sent along it. -/
theorem local_iff_shared :
    ∃ outcome, (PlatformPlan.shared.build .shared).result = .ok outcome ∧
      ∃ p prepared, (PlatformPlan.shared.prepared .shared).result = .ok (p, prepared) ∧
        (¬∃ e, outcome.base.Evidence PlatformPlan.shared.plan 0 e ∧ e.module = 1) ∧
        outcome.Sent PlatformPlan.shared.plan prepared.policy 0 1 := by
  obtain ⟨outcome, hbuild, hshare, info, hinfo, hlist⟩ := run_shared
  obtain ⟨dep, hrequires, hdep⟩ := List.map_eq_singleton_iff.1 hlist
  obtain ⟨hmodule, hlocal⟩ := Prod.mk.inj hdep
  obtain ⟨p, prepared, hprepared, h⟩ := local_iff_of_build .shared .shared outcome hbuild
  obtain ⟨hiff, hsent⟩ := h 0 info dep hinfo (hrequires ▸ List.mem_singleton.2 rfl)
    (hmodule.symm ▸ hshare)
  rw [hmodule, hlocal] at hiff hsent
  refine ⟨outcome, hbuild, p, prepared, hprepared, fun hevidence => ?_, ?_⟩
  · exact Bool.false_ne_true (hiff.2 hevidence)
  · exact hsent.resolve_left Bool.false_ne_true

/-- So not every edge between modules with classes in a common package is local. -/
theorem not_local_of_share_shared :
    ∃ outcome, (PlatformPlan.shared.build .shared).result = .ok outcome ∧
      ¬∀ (X : ModuleId) (info : ModuleInfo) (dep : Dependence), outcome.infos[X]? = some info →
        dep ∈ info.requires → outcome.Share X dep.module → dep.modifiers.isLocal := by
  obtain ⟨outcome, hbuild, hshare, info, hinfo, hlist⟩ := run_shared
  obtain ⟨dep, hrequires, hdep⟩ := List.map_eq_singleton_iff.1 hlist
  obtain ⟨hmodule, hlocal⟩ := Prod.mk.inj hdep
  refine ⟨outcome, hbuild, fun hall => ?_⟩
  have hpromised := hall 0 info dep hinfo (hrequires ▸ List.mem_singleton.2 rfl)
    (hmodule.symm ▸ hshare)
  rw [hlocal] at hpromised
  exact Bool.false_ne_true hpromised

/-- In a platform build, an ordinary module is on plain terms with an exported one only if it has
been sent there: if it has evidence for yet another module, which the exported one exports. -/
theorem exporter_of_plain (platform : PlatformPlan) (registry : Registry) (outcome : Outcome)
    (hbuild : (platform.build registry).result = .ok outcome) :
    ∃ p prepared, (platform.prepared registry).result = .ok (p, prepared) ∧
      ∀ (X E : ModuleId) (info : ModuleInfo) (dep : Dependence), outcome.infos[X]? = some info →
        platform.Ordinary outcome.table X → dep ∈ info.requires → dep.Plain →
        prepared.policy.exporters[dep.module]? = some E → E ≠ X →
        outcome.Sent platform.plan prepared.policy X dep.module := by
  obtain ⟨p, prepared, hprepared, rfl, hresolution, hready, hexempts⟩ :=
    exists_prepared platform registry outcome hbuild
  refine ⟨_, prepared, hprepared, fun X E info dep hinfo hordinary hdep hplain hE hne => ?_⟩
  exact hresolution.sent_of_plain (fun hX => hexempts.not_ordinary X hX hordinary) hinfo hdep hplain
    hE hne (hready.handsOn _ E hE).ne

end PlatformPlan

/-- A program that refers to a class of an internal module. -/
def Registry.chained : Registry :=
  .populate [
    .register { name := "p.Main", references := ["q.Start"] },
    .register { name := "q.Start" },
    .register { name := "boot.Loader" },
    .register { name := "base.Object" }]

/-- A platform whose boot module is the public counterpart of an internal module. -/
def PlatformPlan.chained : PlatformPlan :=
  .new { specs := [
    { name := "app", version := "1.0", roots := ⟨[.package "p"]⟩ },
    { name := "sun.boot", version := "1.0", roots := ⟨[.package "q"]⟩ },
    { name := "jdk.boot", version := "1.0", roots := ⟨[.package "boot"]⟩ },
    { name := "jdk.base", version := "1.0", roots := ⟨[.package "base"]⟩ }] } {}

namespace PlatformPlan

/-- The program is an ordinary module, and ends on the boot module, which has an exporter. -/
theorem run_chained :
    ∃ outcome, (PlatformPlan.chained.build .chained).result = .ok outcome ∧
      PlatformPlan.chained.Ordinary outcome.table 0 ∧
      (∃ p prepared, (PlatformPlan.chained.prepared .chained).result = .ok (p, prepared) ∧
        prepared.policy.exporters[2]? = some 3) ∧
      ∃ info, outcome.infos[0]? = some info ∧
        ∃ dep ∈ info.requires, dep.module = 2 ∧ dep.Plain := by
  have hrun : ∃ outcome, (PlatformPlan.chained.build .chained).result = .ok outcome ∧
      (outcome.table.find "jdk.boot" = some 2 ∧ outcome.table.find "jdk.base" = some 3 ∧
        outcome.table.group 2 = 2 ∧ outcome.table.group 3 = 3 ∧
        isBootConnected outcome.table 2 0 = false) ∧
      (outcome.infos[0]?).map (fun info => info.requires.map fun dep => (dep.module,
        dep.isInternal || dep.modifiers.isLocal || dep.targetsView)) = some [(2, false)] := by
    decide +kernel
  have hprepared : ∃ r, (PlatformPlan.chained.prepared .chained).result = .ok r ∧
      r.2.policy.exporters[2]? = some 3 := by
    decide +kernel
  obtain ⟨outcome, hbuild, ⟨hboot, hbase, hgroup, hgroup', hconnected⟩, hrequires⟩ := hrun
  obtain ⟨⟨p, prepared⟩, hprepared, hexporter⟩ := hprepared
  obtain ⟨info, hinfo, hlist⟩ := Option.map_eq_some_iff.1 hrequires
  obtain ⟨dep, hrequires, hdep⟩ := List.map_eq_singleton_iff.1 hlist
  obtain ⟨hmodule, hflags⟩ := Prod.mk.inj hdep
  have hisBoot (X : ModuleId) (hX : PlatformPlan.chained.IsBoot outcome.table X) : X = 2 := by
    obtain ⟨id, hid, rfl⟩ := hX
    cases hboot.symm.trans hid
    exact hgroup
  have hordinary : PlatformPlan.chained.Ordinary outcome.table 0 := by
    refine ⟨fun h => ?_, fun h => ?_, fun boot h hboot => ?_⟩
    · exact absurd (hisBoot 0 h) (by decide)
    · obtain ⟨id, hid, hzero⟩ := h
      cases hbase.symm.trans hid
      exact absurd (hgroup'.symm.trans hzero) (by decide)
    · rw [hisBoot boot h, hconnected] at hboot
      cases hboot
  simp only [Bool.or_eq_false_iff] at hflags
  refine ⟨outcome, hbuild, hordinary, ⟨p, prepared, hprepared, hexporter⟩, info, hinfo, dep,
    hrequires ▸ List.mem_singleton.2 rfl, hmodule, ?_⟩
  exact ⟨by simp [hflags], by simp [hflags], by simp [hflags]⟩

/-- The program has been sent to the boot module, for a module that this one exports. -/
theorem exporter_of_plain_chained :
    ∃ outcome, (PlatformPlan.chained.build .chained).result = .ok outcome ∧
      ∃ p prepared, (PlatformPlan.chained.prepared .chained).result = .ok (p, prepared) ∧
        prepared.policy.exporters[2]? = some 3 ∧
        outcome.Sent PlatformPlan.chained.plan prepared.policy 0 2 := by
  obtain ⟨outcome, hbuild, hordinary, ⟨p, prepared, hprepared, hexporter⟩, info, hinfo, dep, hdep,
    hmodule, hplain⟩ := run_chained
  obtain ⟨p', prepared', hprepared', h⟩ := exporter_of_plain .chained .chained outcome hbuild
  cases hprepared.symm.trans hprepared'
  have hsent := h 0 3 info dep hinfo hordinary hdep hplain (hmodule.symm ▸ hexporter) (by decide)
  rw [hmodule] at hsent
  exact ⟨outcome, hbuild, p, prepared, hprepared, hexporter, hsent⟩

/-- So not every plain edge of an ordinary module ends on a module without another exporter. -/
theorem not_ends_on_exporter_chained :
    ∃ outcome, (PlatformPlan.chained.build .chained).result = .ok outcome ∧
      ∃ p prepared, (PlatformPlan.chained.prepared .chained).result = .ok (p, prepared) ∧
        ¬∀ (X E : ModuleId) (info : ModuleInfo) (dep : Dependence),
          outcome.infos[X]? = some info → PlatformPlan.chained.Ordinary outcome.table X →
          dep ∈ info.requires → dep.Plain → prepared.policy.exporters[dep.module]? = some E →
          E = X := by
  obtain ⟨outcome, hbuild, hordinary, ⟨p, prepared, hprepared, hexporter⟩, info, hinfo, dep, hdep,
    hmodule, hplain⟩ := run_chained
  refine ⟨outcome, hbuild, p, prepared, hprepared, fun hall => ?_⟩
  have hself := hall 0 3 info dep hinfo hordinary hdep hplain (hmodule.symm ▸ hexporter)
  exact absurd hself (by decide)

end PlatformPlan

end ModuleGraph
