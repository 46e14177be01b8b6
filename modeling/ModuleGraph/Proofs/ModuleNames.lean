import ModuleGraph.Proofs.Order
import ModuleGraph.Proofs.Paths
import ModuleGraph.Proofs.Views.Names
import ModuleGraph.Report.Actions

/-!
# The names of modules and the files of a report

Validation admits a name of a module or a view only if it is a sequence of segments between dots.
Such a name begins with neither a dot nor a slash and holds no slash, so the files of the module lie
in the directory that the report goes to. A platform adds modules under names that validation does
not look at: those of the aggregates stand in the platform settings, and those of exporters are put
together from a prefix and the rest of a declared name.

* `ModuleReport.confined`: the steps for a module of a proper name stay in the directory.
* `Configuration.names_of_buildWith`: names are proper unless the platform settings make them.
* `Configuration.not_isModuleName_astray`: platform settings that lead out of the directory.
-/

namespace ModuleGraph

/-! ## Proper names -/

variable {name : String}

/-- The name of the internal view of a module is as proper as that of the module. -/
theorem isModuleName_internalViewName (h : isModuleName name) :
    isModuleName (internalViewName name) := by
  unfold isModuleName at h ⊢
  have happend : (internalViewName name).toList = name.toList ++ '.' :: "internal".toList := by
    rw [internalViewName, String.toList_append]
    rfl
  rw [happend, Text.splitWhen_append_cons (by decide), List.all_append, h, Bool.true_and]
  decide

/-- A proper name begins with a character other than a dot. -/
theorem exists_head_of_isModuleName (h : isModuleName name) :
    ∃ c cs, name.toList = c :: cs ∧ c ≠ '.' := by
  unfold isModuleName at h
  cases hlist : name.toList with
  | nil =>
    rw [hlist] at h
    cases h
  | cons c cs =>
    refine ⟨c, cs, rfl, ?_⟩
    rintro rfl
    rw [hlist, Text.splitWhen_cons_pos (by decide)] at h
    cases h

theorem not_slash_of_isModuleName (h : isModuleName name) : '/' ∉ name.toList := by
  intro hslash
  obtain ⟨segment, hsegment, hmem⟩ :=
    Text.exists_piece_of_mem (p := (· == '.')) hslash (by decide)
  have hall := List.all_eq_true.1 h segment hsegment
  rw [Bool.and_eq_true] at hall
  have hchar := List.all_eq_true.1 hall.2 '/' hmem
  revert hchar
  decide

/-- A proper name is one segment of a path, also with an ending. -/
theorem exists_head_append (h : isModuleName name) {ending : String}
    (hending : '/' ∉ ending.toList) :
    ∃ c cs, (name ++ ending).toList = c :: cs ∧ c ≠ '.' ∧ '/' ∉ (name ++ ending).toList := by
  obtain ⟨c, cs, hlist, hdot⟩ := exists_head_of_isModuleName h
  refine ⟨c, cs ++ ending.toList, ?_, hdot, ?_⟩
  · rw [String.toList_append, hlist, List.cons_append]
  · rw [String.toList_append, List.mem_append, not_or]
    exact ⟨not_slash_of_isModuleName h, hending⟩

/-- A proper name leads down, also with an ending. -/
theorem descends_of_isModuleName (h : isModuleName name) (ending : String)
    (hending : '/' ∉ ending.toList) : Path.Descends (name ++ ending) := by
  obtain ⟨c, cs, hlist, hdot, hslash⟩ := exists_head_append h hending
  exact Path.descends_of_segment hlist hdot hslash

/-! ## The steps of a report -/

theorem ModuleReport.descends {r : ModuleReport} (h : isModuleName r.name) :
    ∀ action ∈ r.actions, Path.Descends action.path := by
  have hname : Path.Descends r.name := by
    simpa using descends_of_isModuleName h "" (by decide)
  have hinfo : Path.Descends "module-info.java" :=
    Path.descends_of_segment (by rfl) (by decide) (by decide)
  intro action haction
  simp only [actions, List.mem_cons, List.not_mem_nil, or_false] at haction
  rcases haction with rfl | rfl | rfl | rfl | rfl
  · exact descends_of_isModuleName h _ (by decide)
  · exact descends_of_isModuleName h _ (by decide)
  · exact descends_of_isModuleName h _ (by decide)
  · exact hname
  · exact hname.join hinfo

/-- The steps for a module of a proper name stay in the directory. -/
theorem ModuleReport.confined {r : ModuleReport} (h : isModuleName r.name) :
    ∀ action ∈ r.actions, action.Confined :=
  fun action haction => FileAction.confined (ModuleReport.descends h action haction)

theorem BuildReport.descends {report : BuildReport}
    (h : ∀ r ∈ report.modules, isModuleName r.name) : ∀ action ∈ report.actions,
      Path.Descends action.path := by
  have horder : Path.Descends "modules.list" :=
    Path.descends_of_segment (by rfl) (by decide) (by decide)
  have hsplit : Path.Descends "split-packages.txt" :=
    Path.descends_of_segment (by rfl) (by decide) (by decide)
  intro action haction
  rw [actions, List.mem_append, List.mem_append, List.mem_singleton, List.mem_singleton] at haction
  rcases haction with (rfl | hmodule) | rfl
  · exact horder
  · obtain ⟨r, hr, haction⟩ := List.mem_flatMap.1 hmodule
    exact ModuleReport.descends (h r hr) action haction
  · exact hsplit

/-- If all modules have proper names, no step leaves the directory. -/
theorem BuildReport.confined {report : BuildReport}
    (h : ∀ r ∈ report.modules, isModuleName r.name) : ∀ action ∈ report.actions,
      action.Confined :=
  fun action haction => FileAction.confined (BuildReport.descends h action haction)

/-! ## The names of an outcome -/

namespace BuildPlan.Resolution

variable {plan : BuildPlan} {policy : ExporterPolicy} {outcome : Outcome}

/-- A report is that of a module of the order. -/
theorem exists_of_mem_reports (h : plan.Resolution policy outcome)
    (hsurfaced : outcome.Surfaced plan.options.exported) {r : ModuleReport}
    (hr : r ∈ outcome.reports) : ∃ X ∈ outcome.order, r.name = outcome.table.name X ∧
      r.views = outcome.surfaces.viewsOf X := by
  obtain ⟨X, hX, hreport⟩ := List.mem_filterMap.1 hr
  obtain ⟨info, hinfo, hreport⟩ := Option.bind_eq_some_iff.1 hreport
  obtain ⟨m, -, hreport⟩ := Option.bind_eq_some_iff.1 hreport
  cases hreport
  obtain ⟨deps, -, hfinished⟩ := h.finished X info hinfo
  exact ⟨X, hX, hfinished.name_eq, hsurfaced.views_eq X info hinfo⟩

end BuildPlan.Resolution

/-- A view is named after its module, or has been declared for a module. -/
theorem Outcome.Surfaced.name_of_mem {outcome : Outcome} {exported : ExportedPackages}
    (h : outcome.Surfaced exported) {X : ModuleId} {v : View}
    (hv : v ∈ outcome.surfaces.viewsOf X) :
    v.name = outcome.table.name X ∨ v.name = internalViewName (outcome.table.name X) ∨
      ∃ id m, outcome.table.get? id = some m ∧ ∃ spec ∈ m.spec.views, v.name = spec.name := by
  have hshows := h.displays.shows_of_mem hv
  by_cases hkind : v.kind = .default
  · rw [hshows.eq_ofModule hv hkind]
    exact .inl rfl
  · rcases hshows.exists_of_extra (View.mem_extra.2 ⟨hv, hkind⟩) with
      ⟨-, rfl⟩ | ⟨-, m, hm, spec, hspec, hname, -⟩
    · exact .inr (.inl rfl)
    · obtain ⟨id, hid, -⟩ := ModuleTable.mem_groupModules.1 hm
      exact .inr (.inr ⟨id, m, hid, spec, hspec, hname⟩)

namespace Configuration

variable {c : Configuration} {registry : Registry} {optional : OptionalRules} {merge : Bool}
  {outcome : Outcome}

/-- A name that the platform settings make. -/
def Makes (c : Configuration) (name : String) : Prop :=
  ∃ settings, c.platform = some settings ∧ settings.Makes (c.modules.map (·.name)) name

theorem map_name_specs {modules : List ModuleDeclaration} {specs : List ModuleSpec}
    (h : List.Forall₂ ModuleDeclaration.Specifies modules specs) :
    specs.map (·.name) = modules.map (·.name) := by
  induction h with
  | nil => rfl
  | cons hm _ ih => rw [List.map_cons, List.map_cons, hm.name_eq, ih]

/-- A module has names that have been checked, or one that the platform settings make and no
views. -/
def Vouches (c : Configuration) (m : Module) : Prop :=
  isModuleName m.name ∧ (∀ view ∈ m.spec.views, isModuleName view.name) ∨
    c.Makes m.name ∧ m.spec.views = []

theorem vouches_of_accounts {builder : Builder} {t : ModuleTable}
    (hbuilder : c.builderWith optional merge = .ok builder) (h : builder.Accounts t) {id : ModuleId}
    {m : Module} (hm : t.get? id = some m) : c.Vouches m := by
  have hspecs := specifies_of_specs (buildWith_of_builderWith hbuilder {}).1
  rcases h.spec hm with hspec | ⟨platform, name, rfl, hmakes, hspec⟩
  · obtain ⟨declared, -, hdeclared⟩ := exists_of_forall₂ hspecs hspec
    exact .inl ⟨hdeclared.names.1, fun view hview => (hdeclared.names.2 view hview).1⟩
  · refine .inr ⟨⟨platform.settings, (traits_of_builderWith hbuilder).2 platform rfl, ?_⟩, ?_⟩
    · have hnames : platform.plan.specs.map (·.name) = c.modules.map (·.name) :=
        map_name_specs hspecs
      rw [← hnames, Module.name, hspec]
      exact hmakes
    · rw [hspec]
      rfl

/-- What is known of the names of a build. -/
structure Names (c : Configuration) (outcome : Outcome) : Prop where
  /-- A module of the order has a proper name, or one that the platform settings make. -/
  ordered : ∀ name ∈ outcome.orderedNames, isModuleName name ∨ c.Makes name
  /-- A view has a proper name, or it is named after a module whose name is not proper. -/
  views : ∀ r ∈ outcome.reports, r.name ∈ outcome.orderedNames ∧ ∀ view ∈ r.views,
    isModuleName view.name ∨ ¬isModuleName r.name ∧
      (view.name = r.name ∨ view.name = internalViewName r.name)
  /-- The steps for a module of a proper name stay in the directory. -/
  confined : ∀ r ∈ outcome.reports, isModuleName r.name → ∀ action ∈ r.actions, action.Confined
  /-- If the platform settings make proper names only, all names are proper and no step leaves the
  directory. -/
  sound : (∀ name ∈ outcome.orderedNames, c.Makes name → isModuleName name) →
    (∀ name ∈ outcome.orderedNames, isModuleName name) ∧
      (∀ r ∈ outcome.reports, ∀ view ∈ r.views, isModuleName view.name) ∧
      ∀ action ∈ outcome.report.actions, action.Confined

/-- The views of a module have proper names, or are named after a module whose name is not
proper. -/
theorem views_of_vouches {plan : BuildPlan} {policy : ExporterPolicy}
    (h : plan.Resolution policy outcome) (hsurfaced : outcome.Surfaced plan.options.exported)
    (hvouches : ∀ {id m}, outcome.table.get? id = some m → c.Vouches m) {r : ModuleReport}
    (hr : r ∈ outcome.reports) :
    r.name ∈ outcome.orderedNames ∧ ∀ view ∈ r.views,
      isModuleName view.name ∨ ¬isModuleName r.name ∧
        (view.name = r.name ∨ view.name = internalViewName r.name) := by
  obtain ⟨X, hX, hname, hviews⟩ := h.exists_of_mem_reports hsurfaced hr
  refine ⟨hname ▸ List.mem_map_of_mem hX, fun view hview => ?_⟩
  rw [hviews] at hview
  have hcases := hsurfaced.name_of_mem hview
  rw [← hname] at hcases
  rcases hcases with hdefault | hinternal | ⟨id, m, hm, spec, hspec, hdeclared⟩
  · by_cases hvalid : isModuleName r.name
    · exact .inl (hdefault ▸ hvalid)
    · exact .inr ⟨hvalid, .inl hdefault⟩
  · by_cases hvalid : isModuleName r.name
    · exact .inl (hinternal ▸ isModuleName_internalViewName hvalid)
    · exact .inr ⟨hvalid, .inr hinternal⟩
  · -- a declared view; aggregates have none
    rcases hvouches hm with ⟨-, hchecked⟩ | ⟨-, hnone⟩
    · exact .inl (hdeclared ▸ hchecked spec hspec)
    · rw [hnone] at hspec
      cases hspec

theorem names_of_vouches {plan : BuildPlan} {policy : ExporterPolicy}
    (h : plan.Resolution policy outcome) (hsurfaced : outcome.Surfaced plan.options.exported)
    (hvouches : ∀ {id m}, outcome.table.get? id = some m → c.Vouches m) : c.Names outcome := by
  have hordered : ∀ name ∈ outcome.orderedNames, isModuleName name ∨ c.Makes name := by
    intro name hname
    obtain ⟨X, hX, rfl⟩ := List.mem_map.1 hname
    obtain ⟨m, hm⟩ := h.exists_module hX
    rw [ModuleTable.name_of_get? hm]
    exact (hvouches hm).imp (·.1) (·.1)
  have hviews {r : ModuleReport} (hr : r ∈ outcome.reports) :=
    views_of_vouches h hsurfaced hvouches hr
  refine ⟨hordered, fun r hr => hviews hr, fun r _ => ModuleReport.confined, fun hmade => ?_⟩
  have hproper : ∀ name ∈ outcome.orderedNames, isModuleName name := fun name hname =>
    (hordered name hname).elim id (hmade name hname)
  have hreports : ∀ r ∈ outcome.reports, isModuleName r.name := fun r hr =>
    hproper r.name (hviews hr).1
  refine ⟨hproper, fun r hr view hview => ?_, BuildReport.confined hreports⟩
  exact ((hviews hr).2 view hview).resolve_right fun h => h.1 (hreports r hr)

/-- In a build that succeeds, only platform settings can give rise to a name that is not proper, or
to a step that leaves the directory of the report. -/
theorem names_of_buildWith (hbuild : (c.buildWith registry optional merge).result = .ok outcome) :
    c.Names outcome := by
  obtain ⟨builder, hbuilder⟩ := exists_builderWith hbuild
  rw [(buildWith_of_builderWith hbuilder registry).2, Builder.result_build] at hbuild
  obtain ⟨r, hstages, hresolve⟩ := exists_of_bind_ok hbuild
  have haccounts := (builder.ends_stages_accounts registry).of_ok hstages
  obtain ⟨hpartition, hresolution⟩ :=
    (builder.plan.ends_resolve haccounts.indexed r.2.policy r.2.seeds).of_ok hresolve
  have hsurfaced :=
    (builder.plan.ends_resolve_surfaced r.1 r.2.policy r.2.seeds).of_ok hresolve
  refine names_of_vouches hresolution hsurfaced fun {id m} hm => ?_
  rw [Outcome.table, hpartition] at hm
  exact vouches_of_accounts hbuilder haccounts hm

/-- A platform of two modules. -/
def ordinary : Configuration where
  modules := [
    { name := "jdk.boot", roots := ["boot.*"] },
    { name := "jdk.base", roots := ["base.*"] }]
  platform := some {}

/-- A class for each of the two modules. -/
def ordinaryClasses : Registry :=
  .populate [.register { name := "boot.Loader" }, .register { name := "base.Object" }]

/-- The same platform with an aggregate above the directory. -/
def astray : Configuration :=
  { ordinary with platform := some { jdkModule := "../jdk" } }

/-- The names of the platform are proper, those of its aggregates included. -/
theorem names_ordinary :
    ∃ outcome, (ordinary.buildWith ordinaryClasses {} true).result = .ok outcome ∧
      "jdk" ∈ outcome.orderedNames ∧ ordinary.Names outcome ∧
      ∀ action ∈ outcome.report.actions, action.Confined := by
  have hrun : ∃ outcome, (ordinary.buildWith ordinaryClasses {} true).result = .ok outcome ∧
      "jdk" ∈ outcome.orderedNames ∧ ∀ name ∈ outcome.orderedNames, isModuleName name := by
    decide +kernel
  obtain ⟨outcome, hbuild, hjdk, hproper⟩ := hrun
  have hnames := names_of_buildWith hbuild
  exact ⟨outcome, hbuild, hjdk, hnames, (hnames.sound fun name hname _ => hproper name hname).2.2⟩

/-- A valid configuration whose aggregate has no proper name: its list of classes is written beside
the directory, not into it. -/
theorem not_isModuleName_astray :
    astray.validate = .ok () ∧
    ∃ outcome, (astray.buildWith ordinaryClasses {} true).result = .ok outcome ∧
      "../jdk" ∈ outcome.orderedNames ∧ ¬isModuleName "../jdk" ∧
      ∃ action ∈ outcome.report.actions, ¬action.Confined := by
  have hvalid : astray.validate = .ok () := by decide +kernel
  have hrun : ∃ outcome, (astray.buildWith ordinaryClasses {} true).result = .ok outcome ∧
      "../jdk" ∈ outcome.orderedNames ∧
      ∃ action ∈ outcome.report.actions, action.path = "../jdk.classlist" := by
    decide +kernel
  obtain ⟨outcome, hbuild, hname, action, haction, hpath⟩ := hrun
  refine ⟨hvalid, outcome, hbuild, hname, by decide +kernel, action, haction, fun hconfined => ?_⟩
  let tree : FileTree := ({} : FileTree).put ["out"] .directory
  have hplace : tree.placeOf "out" = .ok ["out"] := by decide +kernel
  have htarget : tree.locate (Path.join "out" action.path) = .ok ["jdk.classlist"] := by
    rw [hpath]
    decide +kernel
  obtain ⟨here, names, hhere, -, heq⟩ := hconfined tree "out" _ htarget
  rw [hplace] at hhere
  cases hhere
  exact absurd (List.cons.inj heq).1 (by decide)

end Configuration

end ModuleGraph
