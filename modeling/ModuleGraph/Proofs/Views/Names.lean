import ModuleGraph.Proofs.Easing.Builds
import ModuleGraph.Proofs.Members.Rearranging
import ModuleGraph.Proofs.Specifications
import ModuleGraph.Proofs.Views.Surfaces

/-!
# Views and their names

The names of the views beside the default ones are unique in a module graph, and no such name is
that of a module of another group. A module of the same group may have it: once members are merged,
a view that is declared for one module of the group may bear the name of another one. Such a view
cannot be asked for by its name, which leads to the group as a module.

* `Builder.build_of_clash`: all other clashes of names are rejected.
* `Outcome.Addressable`: which views can be asked for by name, and what becomes of the others.
* `Configuration.addressable_of_buildWith`: both, for the build of a configuration.
-/

namespace ModuleGraph

theorem internalViewName_ne (name : String) : internalViewName name ≠ name := by
  intro h
  have hlength := congrArg String.length h
  rw [internalViewName, String.length_append] at hlength
  have hword : ".internal".length = 9 := by decide
  omega

/-! ## Clashes -/

namespace Surfaces

variable {table : ModuleTable} {tops : List ModuleId} {packages : Std.TreeMap ModuleId Packages}
  {views : ModuleId → List View}

/-- The name of some view is that of another view or of a module of another group. -/
def Clash (table : ModuleTable) (tops : List ModuleId) (views : ModuleId → List View) : Prop :=
  ∃ t ∈ tops, ¬((View.extra (views t)).map (·.name)).Nodup ∨
    ∃ v ∈ View.extra (views t), ¬Apart table t v.name ∨
      ∃ u ∈ tops, u ≠ t ∧ ∃ w ∈ View.extra (views u), w.name = v.name

/-- Surfaces that have been built are without clashes. -/
theorem Displays.not_clash {s : Surfaces} (h : Displays table packages tops s) :
    ¬Clash table tops s.viewsOf := by
  rintro ⟨t, -, hdouble | ⟨v, hv, hmodule | ⟨u, -, hne, w, hw, hname⟩⟩⟩
  · exact hdouble (h.nodup t)
  · exact hmodule (h.apart t v hv)
  · exact hne (h.top_unique hw hv hname)

/-- With a clash among the views, the first name that is taken already is rejected. -/
theorem foldlM_addViews_of_clash (htops : tops.Nodup)
    (hviews : ∀ t ∈ tops, table.viewsOf (packages.getD t {}) t = .ok (views t))
    (hclash : Clash table tops views) :
    ∃ t ∈ tops, ∃ v ∈ View.extra (views t),
      tops.foldlM (Surfaces.addViews table) { packages } =
        .error (.duplicateView (table.name t) v.name) := by
  have hends := ends_addAllViews table packages htops
  cases hrun : tops.foldlM (Surfaces.addViews table) { packages } with
  | ok s =>
    have h := hends.of_ok hrun
    have hsame : ∀ t ∈ tops, s.viewsOf t = views t := fun t ht => by
      have hmade := h.made t ht
      rw [hviews t ht] at hmade
      exact (Except.ok.inj hmade).symm
    refine absurd ?_ h.not_clash
    obtain ⟨t, ht, hclash⟩ := hclash
    refine ⟨t, ht, ?_⟩
    rw [hsame t ht]
    refine hclash.imp_right fun ⟨v, hv, hclash⟩ => ⟨v, hv, hclash.imp_right ?_⟩
    rintro ⟨u, hu, hne, hw⟩
    exact ⟨u, hu, hne, (hsame u hu).symm ▸ hw⟩
  | error e =>
    obtain ⟨t, ht, hmade | ⟨found, hfound, v, hv, rfl⟩⟩ := hends.of_error hrun
    · rw [hviews t ht] at hmade
      cases hmade
    · rw [hviews t ht] at hfound
      cases hfound
      exact ⟨t, ht, v, hv, rfl⟩

end Surfaces

/-- A clash among the views of the top-level modules is rejected before any dependence is
collected, if everything that the configuration names is known. -/
theorem BuildPlan.collect_of_clash (plan : BuildPlan) (p : Partition) (views : ModuleId → List View)
    (hsources : ∀ source ∈ plan.declared.sources, ∃ id, p.table.find source = some id)
    (hviews : ∀ t ∈ p.table.topLevel, p.table.viewsOf
      (p.table.packagesOf p.registry plan.options.exported t) t = .ok (views t))
    (hclash : Surfaces.Clash p.table p.table.topLevel views) :
    ∃ t ∈ p.table.topLevel, ∃ v ∈ View.extra (views t),
      (plan.collect p).result = .error (.duplicateView (p.table.name t) v.name) := by
  have hpackages (t : ModuleId) (ht : t ∈ p.table.topLevel) :
      (Surfaces.ofPackages (plan.topPackages p)).packages.getD t {} =
        p.table.packagesOf p.registry plan.options.exported t := by
    have hget := Surfaces.getD_ofPackages (nodup_topLevel p.table)
      (p.table.packagesOf p.registry plan.options.exported) t
    rw [if_pos ht] at hget
    exact hget
  have hmade (t : ModuleId) (ht : t ∈ p.table.topLevel) : p.table.viewsOf
      ((Surfaces.ofPackages (plan.topPackages p)).packages.getD t {}) t = .ok (views t) := by
    rw [hpackages t ht]
    exact hviews t ht
  obtain ⟨t, ht, v, hv, hrun⟩ :=
    Surfaces.foldlM_addViews_of_clash (nodup_topLevel p.table) hmade hclash
  refine ⟨t, ht, v, hv, ?_⟩
  have hknown : (plan.declared.sources.forM fun source => do
      let _ ← p.table.require source "[[dependency]] from"
      return ()) = .ok () := by
    refine forM_eq_ok fun source hsource => ?_
    obtain ⟨id, hid⟩ := hsources source hsource
    rw [ModuleTable.require, hid]
    rfl
  simp only [collect, Logged.result_bind, Logged.result_emit, Logged.result_forM,
    Logged.result_foldlM, Logged.result_ofExcept, Logged.result_pure, Logged.result_liftM,
    result_reportSplit]
  exact bind_eq_of_ok rfl (bind_eq_of_ok rfl (bind_eq_of_ok hknown (bind_eq_of_error hrun)))

/-- With such a clash in what the stages before the resolution hand over, either variant of a build
fails. -/
theorem Builder.build_of_clash (builder : Builder) {registry : Registry}
    {r : Partition × PlatformPlan.Prepared} (hstages : builder.stages registry = .ok r)
    (views : ModuleId → List View)
    (hsources : ∀ source ∈ builder.plan.declared.sources, ∃ id, r.1.table.find source = some id)
    (hviews : ∀ t ∈ r.1.table.topLevel, r.1.table.viewsOf
      (r.1.table.packagesOf r.1.registry builder.plan.options.exported t) t = .ok (views t))
    (hclash : Surfaces.Clash r.1.table r.1.table.topLevel views) :
    ∃ t ∈ r.1.table.topLevel, ∃ v ∈ View.extra (views t),
      (builder.build registry).result = .error (.duplicateView (r.1.table.name t) v.name) := by
  obtain ⟨t, ht, v, hv, hcollect⟩ :=
    builder.plan.collect_of_clash r.1 views hsources hviews hclash
  refine ⟨t, ht, v, hv, ?_⟩
  rw [result_build, hstages]
  show (builder.plan.resolve r.1 r.2.policy r.2.seeds).result = _
  simp only [BuildPlan.resolve, Logged.result_bind]
  exact bind_eq_of_error hcollect

/-! ## Views of an outcome -/

/-- What the names of the views of an outcome lead to. -/
structure Outcome.Addressable (outcome : Outcome) : Prop where
  /-- Views of different modules have different names. -/
  apart : ∀ {t u v w}, v ∈ outcome.surfaces.viewsOf t → w ∈ outcome.surfaces.viewsOf u →
    v.name = w.name → t = u
  /-- So have the views of one module beside the default one. -/
  nodup : ∀ t, ((View.extra (outcome.surfaces.viewsOf t)).map (·.name)).Nodup
  /-- A view that does not bear the name of a module is found by its name. -/
  addressed : ∀ {t v}, v ∈ View.extra (outcome.surfaces.viewsOf t) →
    outcome.table.find v.name = none →
    outcome.surfaces.resolve? outcome.table v.name = some (t, some v.name) ∧
      View.find? (outcome.surfaces.viewsOf t) v.name = some v
  /-- The name of any other view leads to its own module, which other modules have been merged
  into; among the views of the module it is that of the view, unless the module itself bears it. -/
  shadowed : ∀ {t v id}, v ∈ View.extra (outcome.surfaces.viewsOf t) →
    outcome.table.find v.name = some id →
    outcome.table.group id = t ∧ (∃ member, member ≠ t ∧ outcome.table.group member = t) ∧
      outcome.surfaces.resolve? outcome.table v.name = some (t, none) ∧
      (v.name ≠ outcome.table.name t →
        View.find? (outcome.surfaces.viewsOf t) v.name = some v)

namespace Outcome.Surfaced

variable {outcome : Outcome} {exported : ExportedPackages} {t u : ModuleId} {v w : View}

theorem topLevel (h : outcome.Surfaced exported) (hv : v ∈ outcome.surfaces.viewsOf t) :
    t < outcome.table.size ∧ outcome.table.group t = t := by
  have htop := BuildPlan.mem_topLevel.1 (h.displays.mem_done hv)
  exact ⟨ModuleTable.lt_size_of_isTopLevel htop, ModuleTable.group_of_isTopLevel htop⟩

/-- A default view has the name of its module, and no view of another module has it. -/
theorem eq_of_default (h : outcome.Surfaced exported) (hi : outcome.table.Indexed)
    (hv : v ∈ outcome.surfaces.viewsOf t) (hkind : v.kind = .default)
    (hw : w ∈ outcome.surfaces.viewsOf u) (hname : v.name = w.name) : t = u := by
  obtain ⟨htlt, htgroup⟩ := h.topLevel hv
  obtain ⟨hult, -⟩ := h.topLevel hw
  have hvname : v.name = outcome.table.name t := by
    rw [(h.displays.shows_of_mem hv).eq_ofModule hv hkind]
    rfl
  have hfind : outcome.table.find w.name = some t := by
    rw [← hname, hvname]
    exact hi.find_name htlt
  by_cases hwkind : w.kind = .default
  · have hwname : w.name = outcome.table.name u := by
      rw [(h.displays.shows_of_mem hw).eq_ofModule hw hwkind]
      rfl
    rw [hwname, hi.find_name hult] at hfind
    exact (Option.some.inj hfind).symm
  · rw [← htgroup]
    exact h.displays.apart u w (View.mem_extra.2 ⟨hw, hwkind⟩) t hfind

/-- A view under the name of its own module has been declared for a module that was merged into
it. -/
theorem exists_member (h : outcome.Surfaced exported) (hproper : outcome.table.Proper)
    (hv : v ∈ View.extra (outcome.surfaces.viewsOf t)) (hname : v.name = outcome.table.name t) :
    ∃ member, member ≠ t ∧ outcome.table.group member = t := by
  obtain ⟨hmem, -⟩ := View.mem_extra.1 hv
  rcases (h.displays.shows_of_mem hmem).exists_of_extra hv with
    ⟨-, rfl⟩ | ⟨-, m, hm, spec, hspec, hspecname, -⟩
  · exact absurd hname (internalViewName_ne _)
  · obtain ⟨id, hid, hgroup⟩ := ModuleTable.mem_groupModules.1 hm
    have hne : id ≠ t := by
      rintro rfl
      rw [ModuleTable.name_of_get? hid, hspecname] at hname
      exact hproper.spec hid spec hspec hname
    exact ⟨id, hne, hgroup.resolve_left hne⟩

theorem addressable (h : outcome.Surfaced exported) (hproper : outcome.table.Proper) :
    outcome.Addressable where
  apart {t u v w} hv hw hname := by
    by_cases hvkind : v.kind = .default
    · exact h.eq_of_default hproper.indexed hv hvkind hw hname
    · by_cases hwkind : w.kind = .default
      · exact (h.eq_of_default hproper.indexed hw hwkind hv hname.symm).symm
      · exact h.displays.top_unique (View.mem_extra.2 ⟨hv, hvkind⟩)
          (View.mem_extra.2 ⟨hw, hwkind⟩) hname
  nodup := h.displays.nodup
  addressed {t v} hv hnone := by
    obtain ⟨hlt, -⟩ := h.topLevel (View.mem_extra.1 hv).1
    constructor
    · unfold Surfaces.resolve?
      rw [hnone, (h.displays.owners_iff v.name t).2 ⟨v, hv, rfl⟩]
      rfl
    · refine h.displays.find?_eq_some hv fun hname => ?_
      rw [hname, hproper.indexed.find_name hlt] at hnone
      cases hnone
  shadowed {t v id} hv hsome := by
    have hgroup := h.displays.apart t v hv id hsome
    refine ⟨hgroup, ?_, ?_, h.displays.find?_eq_some hv⟩
    · by_cases hid : id = t
      · subst hid
        exact h.exists_member hproper hv (hproper.indexed.name_of_find hsome).symm
      · exact ⟨id, hid, hgroup⟩
    · unfold Surfaces.resolve?
      rw [hsome]
      dsimp only
      rw [hgroup]

end Outcome.Surfaced

/-- Either variant of a build gives its views names that lead to them. -/
theorem Builder.ends_build_addressable (builder : Builder) (registry : Registry)
    (hspecs : ∀ spec ∈ builder.plan.specs, spec.Proper) :
    Ends (builder.build registry).result Outcome.Addressable fun _ => True := by
  rw [result_build]
  refine ((builder.ends_stages_proper registry hspecs).mono (fun _ h => h)
    fun _ _ => trivial).bind fun r hproper => ?_
  have hsurfaced := builder.plan.ends_resolve_surfaced r.1 r.2.policy r.2.seeds
  have hresolved := builder.plan.ends_resolve hproper.indexed r.2.policy r.2.seeds
  cases hrun : (builder.plan.resolve r.1 r.2.policy r.2.seeds).result with
  | error e => trivial
  | ok outcome =>
    obtain ⟨hpartition, -⟩ := hresolved.of_ok hrun
    have htable : outcome.table.Proper := by
      rw [Outcome.table, hpartition]
      exact hproper
    exact (hsurfaced.of_ok hrun).addressable htable

/-! ## Configurations -/

namespace Configuration

variable {c : Configuration} {registry : Registry} {optional : OptionalRules} {merge : Bool}
  {outcome : Outcome}

/-- The plan that a configuration is built by, for a platform or not. -/
def builderWith (c : Configuration) (optional : OptionalRules) (merge : Bool) :
    Except ConfigFault Builder := do
  let rules ← OptionalRules.ofDeclarations c.optional
  let plan ← BuildPlan.ofConfiguration c
  let plan := { plan with
    classifier := (rules.extend optional).isOptional
    options := { plan.options with merge } }
  match c.platform with
  | some settings => return .platform (.new plan settings)
  | none => return .plain plan

theorem buildWith_of_builderWith {builder : Builder}
    (h : c.builderWith optional merge = .ok builder) (registry : Registry) :
    c.specs = .ok builder.plan.specs ∧
      c.buildWith registry optional merge = builder.build registry := by
  unfold builderWith at h
  obtain ⟨rules, hrules, h⟩ := exists_of_bind_ok h
  obtain ⟨plan, hplan, h⟩ := exists_of_bind_ok h
  unfold buildWith
  rw [hrules, hplan]
  unfold BuildPlan.ofConfiguration at hplan
  obtain ⟨specs, hspecs, hplan⟩ := exists_of_bind_ok hplan
  obtain ⟨_, -, hplan⟩ := exists_of_bind_ok hplan
  cases hplan
  cases hplatform : c.platform with
  | none =>
    rw [hplatform] at h
    cases h
    exact ⟨hspecs, rfl⟩
  | some settings =>
    rw [hplatform] at h
    cases h
    exact ⟨hspecs, rfl⟩

/-- The builder has the declared edges and the platform settings of the configuration. -/
theorem traits_of_builderWith {builder : Builder}
    (h : c.builderWith optional merge = .ok builder) :
    builder.plan.declared.edges = c.dependencies ∧
      ∀ platform, builder = .platform platform → c.platform = some platform.settings := by
  unfold builderWith BuildPlan.ofConfiguration at h
  obtain ⟨rules, -, h⟩ := exists_of_bind_ok h
  obtain ⟨plan, hplan, h⟩ := exists_of_bind_ok h
  obtain ⟨specs, -, hplan⟩ := exists_of_bind_ok hplan
  obtain ⟨_, -, hplan⟩ := exists_of_bind_ok hplan
  cases hplan
  cases hplatform : c.platform with
  | none =>
    rw [hplatform] at h
    cases h
    exact ⟨rfl, fun platform hplain => by cases hplain⟩
  | some settings =>
    rw [hplatform] at h
    cases h
    refine ⟨rfl, fun platform hsame => ?_⟩
    cases hsame
    rfl

theorem buildWith_of_fault {fault : ConfigFault}
    (h : c.builderWith optional merge = .error fault) (registry : Registry) :
    (c.buildWith registry optional merge).result = .error (.config fault) := by
  unfold builderWith at h
  unfold buildWith
  cases hrules : OptionalRules.ofDeclarations c.optional with
  | error e =>
    rw [hrules] at h
    cases h
    rfl
  | ok rules =>
    rw [hrules] at h
    cases hplan : BuildPlan.ofConfiguration c with
    | error e =>
      rw [hplan] at h
      cases h
      rfl
    | ok plan =>
      rw [hplan] at h
      cases hplatform : c.platform <;> rw [hplatform] at h <;> cases h

theorem exists_builderWith
    (hbuild : (c.buildWith registry optional merge).result = .ok outcome) :
    ∃ builder, c.builderWith optional merge = .ok builder := by
  obtain ⟨specs, rules, hspecs, hrules⟩ := exists_of_buildWith hbuild
  unfold builderWith BuildPlan.ofConfiguration
  rw [hrules, hspecs]
  cases c.platform with
  | none => exact ⟨_, rfl⟩
  | some settings => exact ⟨_, rfl⟩

/-- Whatever the configuration, the registry and the merge setting, the views of a successful build
can be asked for by their names, up to views under the name of a module of their own group. A build
with a clash of another kind among the names of its views fails over one of them, if it names no
unknown module before. -/
theorem addressable_of_buildWith (c : Configuration) (registry : Registry)
    (optional : OptionalRules) (merge : Bool) :
    (∀ outcome, (c.buildWith registry optional merge).result = .ok outcome →
      outcome.Addressable) ∧
    ∀ builder r, c.builderWith optional merge = .ok builder → builder.stages registry = .ok r →
      ∀ views : ModuleId → List View,
        (∀ source ∈ builder.plan.declared.sources, ∃ id, r.1.table.find source = some id) →
        (∀ t ∈ r.1.table.topLevel, r.1.table.viewsOf
          (r.1.table.packagesOf r.1.registry builder.plan.options.exported t) t = .ok (views t)) →
        Surfaces.Clash r.1.table r.1.table.topLevel views →
        ∃ t ∈ r.1.table.topLevel, ∃ v ∈ View.extra (views t),
          (c.buildWith registry optional merge).result =
            .error (.duplicateView (r.1.table.name t) v.name) := by
  constructor
  · intro outcome hbuild
    obtain ⟨builder, hbuilder⟩ := exists_builderWith hbuild
    obtain ⟨hspecs, hsame⟩ := buildWith_of_builderWith hbuilder registry
    rw [hsame] at hbuild
    refine (builder.ends_build_addressable registry fun spec hspec => ?_).of_ok hbuild
    obtain ⟨m, -, hm⟩ := exists_of_forall₂ (specifies_of_specs hspecs) hspec
    exact hm.proper
  · intro builder r hbuilder hstages views hsources hviews hclash
    rw [(buildWith_of_builderWith hbuilder registry).2]
    exact builder.build_of_clash hstages views hsources hviews hclash

/-- A program that declares a view under the name of its tool, and whose commands declare one under
the name of the program. -/
def shadowing : Configuration where
  modules := [
    { name := "app", roots := ["app.*"], members := ["app.util", "app.cmd"],
      views := [{ name := "app.util", exports := ["app.util"] }] },
    { name := "app.util", roots := ["app.util.*"] },
    { name := "app.cmd", roots := ["app.cmd.*"], views := [{ name := "app" }] }]

/-- The classes of the program. -/
def shadowed : Registry :=
  .populate [
    .register { name := "app.Main" },
    .register { name := "app.util.Tool" },
    .register { name := "app.cmd.Run" }]

/-- Two modules, one of which declares a view under the name of the other. -/
def clashing : Configuration where
  modules := [{ name := "a", allowEmpty := true, views := [{ name := "b" }] },
    { name := "b", allowEmpty := true }]

/-- With members merged, the names of both views lead to the program as a module. The name of
another module is rejected. -/
theorem addressable_shadowing :
    (∃ outcome, (shadowing.buildWith shadowed {} true).result = .ok outcome ∧
      outcome.surfaces.owners.toList = [("app", 0), ("app.internal", 0), ("app.util", 0)] ∧
      outcome.Addressable) ∧
    ∃ name view, (clashing.buildWith {} {} true).result = .error (.duplicateView name view) := by
  constructor
  · have hrun : ∃ outcome, (shadowing.buildWith shadowed {} true).result = .ok outcome ∧
        outcome.surfaces.owners.toList = [("app", 0), ("app.internal", 0), ("app.util", 0)] := by
      decide +kernel
    obtain ⟨outcome, hbuild, howners⟩ := hrun
    exact ⟨outcome, hbuild, howners,
      (addressable_of_buildWith shadowing shadowed {} true).1 outcome hbuild⟩
  · have hrun : ∃ builder, clashing.builderWith {} true = .ok builder ∧
        (∀ source ∈ builder.plan.declared.sources, False) ∧
        ∃ r, builder.stages {} = .ok r ∧
          (∀ t ∈ r.1.table.topLevel, ∃ views, r.1.table.viewsOf
            (r.1.table.packagesOf r.1.registry builder.plan.options.exported t) t = .ok views ∧
              True) ∧
          0 ∈ r.1.table.topLevel ∧ r.1.table.find "b" = some 1 ∧ r.1.table.group 1 = 1 ∧
          ∃ views, r.1.table.viewsOf
            (r.1.table.packagesOf r.1.registry builder.plan.options.exported 0) 0 = .ok views ∧
              ∃ v ∈ View.extra views, v.name = "b" := by
      decide +kernel
    obtain ⟨builder, hbuilder, hsources, r, hstages, hmade, htop, hfind, hgroup, views₀, hviews₀, v,
      hv, hname⟩ := hrun
    choose! views hviews using hmade
    have hsame := (hviews 0 htop).1
    rw [hviews₀] at hsame
    cases hsame
    have hclash : Surfaces.Clash r.1.table r.1.table.topLevel views := by
      refine ⟨0, htop, .inr ⟨v, hv, .inl fun hapart => ?_⟩⟩
      have hzero := hapart 1 (by rw [hname, hfind])
      rw [hgroup] at hzero
      cases hzero
    obtain ⟨t, -, w, -, herror⟩ := (addressable_of_buildWith clashing {} {} true).2 builder r
      hbuilder hstages views (fun source hsource => (hsources source hsource).elim)
      (fun t ht => (hviews t ht).1) hclash
    exact ⟨r.1.table.name t, w.name, herror⟩

/-- Not every view of this program can be asked for by its name: the name of one leads to the
program without the view, and the look-up of the other one finds the default view. -/
theorem not_addressed_shadowing :
    shadowing.validate = .ok () ∧
    ∃ outcome, (shadowing.buildWith shadowed {} true).result = .ok outcome ∧
      0 ∈ outcome.table.topLevel ∧
      (∃ v ∈ View.extra (outcome.surfaces.viewsOf 0), v.name = "app.util" ∧
        outcome.surfaces.resolve? outcome.table v.name ≠ some (0, some v.name)) ∧
      (∃ v ∈ View.extra (outcome.surfaces.viewsOf 0), v.name = "app" ∧
        View.find? (outcome.surfaces.viewsOf 0) v.name ≠ some v) ∧
      ∃ v ∈ View.extra (outcome.surfaces.viewsOf 0), (outcome.table.find v.name).isSome := by
  have hvalid : shadowing.validate = .ok () := by decide +kernel
  have hrun : ∃ outcome, (shadowing.buildWith shadowed {} true).result = .ok outcome ∧
      0 ∈ outcome.table.topLevel ∧
      (∃ v ∈ View.extra (outcome.surfaces.viewsOf 0), v.name = "app.util" ∧
        outcome.surfaces.resolve? outcome.table v.name ≠ some (0, some v.name)) ∧
      (∃ v ∈ View.extra (outcome.surfaces.viewsOf 0), v.name = "app" ∧
        (View.find? (outcome.surfaces.viewsOf 0) v.name).map (·.kind) ≠ some v.kind) ∧
      ∃ v ∈ View.extra (outcome.surfaces.viewsOf 0), (outcome.table.find v.name).isSome := by
    decide +kernel
  obtain ⟨outcome, hbuild, htop, hutil, ⟨v, hv, hname, hkind⟩, hmodule⟩ := hrun
  refine ⟨hvalid, outcome, hbuild, htop, hutil, ⟨v, hv, hname, fun hfound => hkind ?_⟩, hmodule⟩
  rw [hfound, Option.map_some]

end Configuration

end ModuleGraph
