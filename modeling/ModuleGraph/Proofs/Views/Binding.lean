import ModuleGraph.Proofs.Dependences.Exact
import ModuleGraph.Proofs.Order
import ModuleGraph.Proofs.RedirectedEdges
import ModuleGraph.Proofs.Views.Surfaces

/-!
# The view that a dependence is bound to

A dependence that asks for a view by its name keeps the name through the merging of evidence, the
pass over split packages and the exporter policy, and a redirected one asks for no view. So the name
is that of a view when views are selected, and the module that has the view is in the graph. Every
dependence of a finished module is bound by the same rules (`View.Serves`).

* `EvidenceBase.Answered`: a view that a dependence asks for exists.
* `Displays.serves_of_select`: what is selected from the views of a module.
* `Builder.bound_of_build`: every dependence of a successful build of either variant is bound, and
  what the reports say of it can be found in them.
-/

namespace ModuleGraph

/-! ## The view that serves a dependence -/

namespace View

/-- Whether the internal view serves a dependence on a module: if it reaches into packages that are
not exported, or if it is local, the module has an internal view and local dependences are not
allowed the default one. -/
def WantsInternal (views : List View) (allowLocalDefault : Bool) (dep : Dependence) : Prop :=
  dep.isInternal ∨
    dep.modifiers.isLocal ∧ (∃ v ∈ views, v.kind = .internal) ∧ ¬allowLocalDefault

/-- The view of a module that serves a dependence: the view that it asks for by name, else the
internal view where that is wanted, else the default view. -/
structure Serves (views : List View) (allowLocalDefault : Bool) (dep : Dependence) (w : View) :
    Prop where
  mem : w ∈ views
  named : dep.targetsView → w.name = dep.target ∧ ∀ v ∈ views, v.name = dep.target → v = w
  internal : ¬dep.targetsView → WantsInternal views allowLocalDefault dep →
    w.kind = .internal ∧ ∀ v ∈ views, v.kind = .internal → v = w
  default : ¬dep.targetsView → ¬WantsInternal views allowLocalDefault dep →
    w.kind = .default ∧ ∀ v ∈ views, v.kind = .default → v = w

/-- A view is selected by its name. Where there is none of the name, the internal view is selected
if it is wanted, and the default view if it is not. -/
theorem cases_of_select {views : List View} {dep : Dependence} {requester : String}
    {allowLocalDefault : Bool} {usual w : View} (husual : ofKind? views .default = some usual)
    (h : select views dep requester allowLocalDefault = .ok w) :
    (dep.targetsView ∧ find? views dep.target = some w) ∨
      (dep.targetsView → find? views dep.target = none) ∧
        (WantsInternal views allowLocalDefault dep ∧ ofKind? views .internal = some w ∨
          ¬WantsInternal views allowLocalDefault dep ∧ w = usual) := by
  have hexists : (∃ v ∈ views, v.kind = .internal) ↔ ofKind? views .internal ≠ none := by
    simp [ofKind?]
  unfold select at h
  dsimp only at h
  cases hname : (if dep.targetsView then find? views dep.target else none) with
  | some v =>
    rw [hname] at h
    cases h
    split_ifs at hname with htarget
    exact .inl ⟨htarget, hname⟩
  | none =>
    refine .inr ⟨fun htarget => by rwa [if_pos htarget] at hname, ?_⟩
    rw [hname, Option.none_or, husual] at h
    by_cases hinternal : dep.isInternal
    · -- the default view does not stand in for the internal one
      simp only [hinternal, Bool.true_or, if_true, Option.or_none] at h
      refine .inl ⟨.inl hinternal, ?_⟩
      split at h
      · cases h
        assumption
      · cases h
    · by_cases hlocal : dep.modifiers.isLocal ∧ ¬allowLocalDefault
      · rw [if_pos (by simpa [hinternal] using hlocal), if_neg hinternal] at h
        cases hview : ofKind? views .internal with
        | some view =>
          rw [hview] at h
          cases h
          exact .inl ⟨.inr ⟨hlocal.1, hexists.2 (by simp [hview]), hlocal.2⟩, rfl⟩
        | none =>
          rw [hview] at h
          cases h
          refine .inr ⟨?_, rfl⟩
          rintro (hin | ⟨-, hex, -⟩)
          · exact hinternal hin
          · exact hexists.1 hex hview
      · have hwants : ¬WantsInternal views allowLocalDefault dep := by
          rintro (hin | ⟨hloc, -, hallow⟩)
          · exact hinternal hin
          · exact hlocal ⟨hloc, hallow⟩
        rw [if_neg (by simpa [hinternal] using hlocal)] at h
        cases h
        exact .inr ⟨hwants, rfl⟩

end View

namespace Surfaces.Displays

variable {table : ModuleTable} {s : Surfaces} {done : List ModuleId} {top : ModuleId}
  {packages : Std.TreeMap ModuleId Packages} {dep : Dependence} {v w : View}

/-- There is one internal view. -/
theorem eq_of_internal (h : Displays table packages done s) (hv : v ∈ s.viewsOf top)
    (hw : w ∈ s.viewsOf top) (hvk : v.kind = .internal) (hwk : w.kind = .internal) : v = w := by
  have hshows := h.shows_of_mem hv
  rw [hshows.eq_internalOf hv hvk, hshows.eq_internalOf hw hwk]

theorem eq_of_default (h : Displays table packages done s) (hv : v ∈ s.viewsOf top)
    (hw : w ∈ s.viewsOf top) (hvk : v.kind = .default) (hwk : w.kind = .default) : v = w := by
  have hshows := h.shows_of_mem hv
  rw [hshows.eq_ofModule hv hvk, hshows.eq_ofModule hw hwk]

/-- The name of a view other than that of the module is the name of no other view. -/
theorem eq_of_name (h : Displays table packages done s) (hv : v ∈ s.viewsOf top)
    (hw : w ∈ s.viewsOf top) (hname : v.name = w.name) (hne : w.name ≠ table.name top) : v = w := by
  have hextra {v : View} (hv : v ∈ s.viewsOf top) (hne : v.name ≠ table.name top) :
      v ∈ View.extra (s.viewsOf top) := by
    refine View.mem_extra.2 ⟨hv, fun hkind => hne ?_⟩
    rw [(h.shows_of_mem hv).eq_ofModule hv hkind]
    rfl
  exact h.view_unique (hextra hv (hname ▸ hne)) (hextra hw hne) hname

theorem exists_default (h : Displays table packages done s) (htop : top ∈ done) :
    ∃ w, View.ofKind? (s.viewsOf top) .default = some w :=
  ⟨_, (h.shows htop).ofKind?_default⟩

/-- A view that is selected from the views of a module serves the dependence, if a view that the
dependence asks for exists. -/
theorem serves_of_select (h : Displays table packages done s) (htop : top ∈ done)
    (hname : dep.moduleName = table.name top)
    (hanswered : dep.targetsView → ∃ v ∈ s.viewsOf top, v.name = dep.target) {requester : String}
    {allowLocalDefault : Bool}
    (hselect : View.select (s.viewsOf top) dep requester allowLocalDefault = .ok w) :
    View.Serves (s.viewsOf top) allowLocalDefault dep w := by
  obtain ⟨usual, husual⟩ := h.exists_default htop
  have hplain (hnone : dep.targetsView → View.find? (s.viewsOf top) dep.target = none) :
      ¬dep.targetsView := by
    intro htarget
    obtain ⟨v, hv, hvname⟩ := hanswered htarget
    obtain ⟨found, hfound⟩ := View.exists_find? hv
    rw [hvname, hnone htarget] at hfound
    cases hfound
  rcases View.cases_of_select husual hselect with
    ⟨htarget, hfind⟩ | ⟨hnone, ⟨hwant, hinternal⟩ | ⟨hnot, rfl⟩⟩
  · obtain ⟨hmem, hwname⟩ := View.mem_of_find? hfind
    refine ⟨hmem, fun _ => ⟨hwname, fun u hu huname => ?_⟩, fun hnot => absurd htarget hnot,
      fun hnot => absurd htarget hnot⟩
    refine h.eq_of_name hu hmem (huname.trans hwname.symm) ?_
    rw [Dependence.targetsView_iff, hname] at htarget
    rwa [hwname]
  · obtain ⟨hmem, hkind⟩ := View.mem_of_ofKind? hinternal
    exact ⟨hmem, fun hyes => absurd hyes (hplain hnone),
      fun _ _ => ⟨hkind, fun u hu huk => h.eq_of_internal hu hmem huk hkind⟩,
      fun _ hnot => absurd hwant hnot⟩
  · obtain ⟨hmem, hkind⟩ := View.mem_of_ofKind? husual
    exact ⟨hmem, fun hyes => absurd hyes (hplain hnone), fun _ hwant => absurd hwant hnot,
      fun _ _ => ⟨hkind, fun u hu huk => h.eq_of_default hu hmem huk hkind⟩⟩

end Surfaces.Displays

/-! ## Views that are asked for exist -/

/-- A sum that asks for a view has evidence that asks for it. -/
theorem Dependence.Sums.exists_targetsView {d : Dependence} {P : Dependence → Prop} (h : d.Sums P)
    (hnames : ∀ e, P e → e.moduleName = d.moduleName) (htarget : d.targetsView) :
    ∃ e, P e ∧ e.targetsView ∧ e.target = d.target := by
  obtain ⟨e, he, heq⟩ := h.targeted
  refine ⟨e, he, ?_, heq⟩
  rw [Dependence.targetsView_iff] at htarget ⊢
  rwa [heq, hnames e he]

namespace EvidenceBase

variable {base : EvidenceBase} {plan : BuildPlan} {policy : ExporterPolicy} {X D : ModuleId}
  {deps : Dependences} {dep e : Dependence} {info : ModuleInfo} {split : SplitPackages}

/-- If the dependence asks for a view, its module has a view of that name beside the default one. -/
def Answered (base : EvidenceBase) (dep : Dependence) : Prop :=
  dep.targetsView → ∃ v ∈ View.extra (base.surfaces.viewsOf dep.module), v.name = dep.target

/-- Names agree with the names of modules and views. -/
abbrev Displayed (base : EvidenceBase) : Prop :=
  Surfaces.Displays base.table base.surfaces.packages base.table.topLevel base.surfaces

theorem Asks.answered (h : base.Displayed) {requirement : Requirement}
    (hasks : base.Asks requirement dep) : base.Answered dep := by
  obtain ⟨⟨D, view⟩, hresolve, rfl⟩ := hasks
  intro htarget
  unfold Surfaces.resolve? at hresolve
  cases hfind : base.table.find requirement.name with
  | some id =>
    rw [hfind] at hresolve
    cases hresolve
    -- the name of a module asks for no view
    simp [Dependence.targetsView, towards] at htarget
  | none =>
    rw [hfind, Option.map_eq_some_iff] at hresolve
    obtain ⟨owner, howner, heq⟩ := hresolve
    cases heq
    exact (h.owners_iff _ _).1 howner

theorem Evidence.answered (h : base.Displayed) (he : base.Evidence plan X e) :
    base.Answered e := by
  cases he with
  | required _ _ hasks => exact hasks.answered h
  | mainClass =>
    intro htarget
    simp [Dependence.targetsView, towards] at htarget
  | declared _ _ _ hasks => exact hasks.answered h
  | @referenced _ _ source target owner _ _ _ _ _ =>
    intro htarget
    cases hview : (View.forPackage? (base.surfaces.viewsOf (base.table.group owner))
        target.package).filter (·.kind == .named) with
    | none => simp [Dependence.targetsView, across, hview] at htarget
    | some view =>
      obtain ⟨hfor, hkind⟩ := Option.filter_eq_some_iff.1 hview
      rw [beq_iff_eq] at hkind
      refine ⟨view, View.mem_extra.2 ⟨?_, by rw [hkind]; decide⟩, by simp [across, hview]⟩
      unfold View.forPackage? at hfor
      rcases Option.or_eq_some_iff.1 hfor with hfound | ⟨-, hrest⟩
      · exact List.mem_of_find?_eq_some hfound
      · rcases Option.or_eq_some_iff.1 hrest with hdefault | ⟨-, hinternal⟩
        · exact (View.mem_of_ofKind? (Option.filter_eq_some_iff.1 hdefault).1).1
        · exact (View.mem_of_ofKind? hinternal).1

/-- A sum of dependences that are answered is answered. -/
theorem answered_of_sums {P : Dependence → Prop} (hsums : dep.Sums P)
    (hP : ∀ e, P e → e.moduleName = dep.moduleName ∧ base.Answered e) : base.Answered dep := by
  intro htarget
  obtain ⟨e, he, hview, heq⟩ := hsums.exists_targetsView (fun e he => (hP e he).1) htarget
  obtain ⟨v, hv, hname⟩ := (hP e he).2 hview
  rw [hsums.module_eq he] at hv
  exact ⟨v, hv, hname.trans heq⟩

end EvidenceBase

namespace BuildPlan

variable {base : EvidenceBase} {plan : BuildPlan} {policy : ExporterPolicy} {X D : ModuleId}
  {deps : Dependences} {dep e : Dependence} {info : ModuleInfo} {split : SplitPackages}
  {outcome : Outcome}

/-- What is gathered asks for views that exist. -/
theorem Gathered.answered (h : base.Displayed) (hdeps : plan.Gathered base split X deps)
    (hdep : deps[D]? = some dep) : base.Answered dep := by
  obtain ⟨raw, hraw, hget⟩ := hdeps
  rw [hget, Option.map_eq_some_iff] at hdep
  obtain ⟨r, hr, rfl⟩ := hdep
  have hsums := hraw.sums hr
  have hanswered : base.Answered r := by
    obtain ⟨e₀, ⟨⟨he₀, -⟩, hmodule₀⟩, hname₀⟩ := hsums.named
    refine EvidenceBase.answered_of_sums hsums fun e ⟨⟨he, _⟩, hmodule⟩ => ⟨?_, he.answered h⟩
    rw [← hname₀, he.moduleName_eq, he₀.moduleName_eq, hmodule, hmodule₀]
  -- promotion leaves names alone
  unfold SplitPackages.promoteIf
  split_ifs
  · exact hanswered
  · exact hanswered

/-- What the policy leaves asks for views that exist: what it redirects asks for none. -/
theorem Gathered.answered_of_leaves (h : base.Displayed)
    (hdeps : plan.Gathered base split X deps) (he : base.Leaves policy X deps e) :
    base.Answered e := by
  rcases he.direct_or_sent hdeps.keyed with ⟨hget, -⟩ | ⟨D, d, -, -, heq⟩
  · exact hdeps.answered h hget
  · intro htarget
    rw [heq, Dependence.targetsView_iff] at htarget
    exact absurd rfl htarget

/-- A finished module asks for views that exist. -/
theorem Resolution.answered (h : plan.Resolution policy outcome)
    (hdisplayed : outcome.base.Displayed) (hinfo : outcome.infos[X]? = some info)
    (hdep : dep ∈ info.requires) : outcome.base.Answered dep := by
  obtain ⟨deps, hdeps, hfinished⟩ := h.finished X info hinfo
  refine EvidenceBase.answered_of_sums (hfinished.sums hdep) fun e ⟨he, hmodule⟩ => ?_
  refine ⟨?_, hdeps.answered_of_leaves hdisplayed he⟩
  rw [(hdeps.keyed.of_leaves he).1, (h.target hinfo hdep).2.2, hmodule]

end BuildPlan

/-! ## Bound dependences -/

/-- A dependence of a finished module leads to another finished module and is bound to the view of
it that serves the dependence. -/
structure Outcome.Bound (outcome : Outcome) (X : ModuleId) (dep : Dependence) : Prop where
  ne : dep.module ≠ X
  topLevel : dep.module ∈ outcome.table.topLevel
  bound : ∃ target, outcome.infos[dep.module]? = some target ∧ ∃ w,
    View.Serves target.views
      ((outcome.table.get? dep.module).any (·.spec.allowLocalDefault)) dep w ∧
    dep.view = some w.name

namespace BuildPlan.Resolution

variable {plan : BuildPlan} {policy : ExporterPolicy} {outcome : Outcome} {X : ModuleId}
  {info : ModuleInfo} {dep : Dependence}

theorem bound (h : plan.Resolution policy outcome)
    (hsurfaced : outcome.Surfaced plan.options.exported)
    (hinfo : outcome.infos[X]? = some info) (hdep : dep ∈ info.requires) :
    outcome.Bound X dep := by
  obtain ⟨hne, htop, hname⟩ := h.target hinfo hdep
  have hanswered := h.answered hsurfaced.displays hinfo hdep
  obtain ⟨target, htarget⟩ := (h.exists_info_iff dep.module).2 htop
  obtain ⟨deps, -, hfinished⟩ := h.finished X info hinfo
  obtain ⟨kept, -, -, hmem⟩ := hfinished.kept
  obtain ⟨D, d, -, w, hselect, rfl⟩ := (hmem dep).1 hdep
  refine ⟨hne, htop, target, htarget, w, ?_, rfl⟩
  rw [hsurfaced.views_eq _ _ htarget]
  have hexists (hview : d.targetsView) : ∃ v ∈ outcome.surfaces.viewsOf d.module,
      v.name = d.target :=
    (hanswered hview).imp fun v hv => ⟨(View.mem_extra.1 hv.1).1, hv.2⟩
  change d.module ∈ outcome.table.topLevel at htop
  change d.moduleName = outcome.table.name d.module at hname
  have hserves := hsurfaced.displays.serves_of_select htop hname hexists hselect
  exact ⟨hserves.mem, hserves.named, hserves.internal, hserves.default⟩

/-- A finished module is reported, with its name, its views and its dependences. -/
theorem exists_report_of_info (h : plan.Resolution policy outcome)
    (hinfo : outcome.infos[X]? = some info) :
    ∃ report ∈ outcome.reports, report.name = outcome.table.name X ∧
      report.views = info.views := by
  have hX : X ∈ outcome.order := h.order_perm.mem_iff.2 ((h.exists_info_iff X).1 ⟨info, hinfo⟩)
  obtain ⟨m, hm⟩ := h.exists_module hX
  obtain ⟨deps, -, hfinished⟩ := h.finished X info hinfo
  have hreport : ∃ report, outcome.report? X = some report ∧
      report.name = outcome.table.name X ∧ report.views = info.views := by
    unfold Outcome.report?
    rw [hinfo, hm]
    exact ⟨_, rfl, hfinished.name_eq, rfl⟩
  obtain ⟨report, hreport, hname, hviews⟩ := hreport
  exact ⟨report, List.mem_filterMap.2 ⟨X, hX, hreport⟩, hname, hviews⟩

/-- A line of a report tells of a dependence of a finished module. -/
theorem exists_dependence_of_report {report : ModuleReport} (hreport : report ∈ outcome.reports)
    {line : RequiresReport} (hline : line ∈ report.requires) :
    ∃ (X : ModuleId) (info : ModuleInfo) (dep : Dependence), outcome.infos[X]? = some info ∧
      dep ∈ info.requires ∧ line = dep.report := by
  obtain ⟨X, -, hX⟩ := List.mem_filterMap.1 hreport
  obtain ⟨info, hinfo, hX⟩ := Option.bind_eq_some_iff.1 hX
  obtain ⟨m, -, hX⟩ := Option.bind_eq_some_iff.1 hX
  cases hX
  obtain ⟨dep, hdep, rfl⟩ := List.mem_map.1 hline
  exact ⟨X, info, dep, hinfo, hdep, rfl⟩

end BuildPlan.Resolution

/-- Whatever the configuration and the registry, a successful build of either variant binds every
dependence, and every dependence in a report is on a reported module and through a view that is
reported for it. -/
theorem Builder.bound_of_build (builder : Builder) (registry : Registry) (outcome : Outcome)
    (hbuild : (builder.build registry).result = .ok outcome) :
    (∀ (X : ModuleId) info, outcome.infos[X]? = some info → ∀ dep ∈ info.requires,
      outcome.Bound X dep) ∧
    ∀ report ∈ outcome.reports, ∀ line ∈ report.requires,
      ∃ target ∈ outcome.reports, target.name = line.module ∧
        ∃ v ∈ target.views, v.name = line.view := by
  obtain ⟨p, policy, seeds, hi, hresolve⟩ := (builder.ends_stages registry).of_ok hbuild
  obtain ⟨-, hresolution⟩ := (builder.plan.ends_resolve hi policy seeds).of_ok hresolve
  have hsurfaced := (builder.plan.ends_resolve_surfaced p policy seeds).of_ok hresolve
  refine ⟨fun X info hinfo dep hdep => hresolution.bound hsurfaced hinfo hdep,
    fun report hreport line hline => ?_⟩
  obtain ⟨X, info, dep, hinfo, hdep, rfl⟩ :=
    BuildPlan.Resolution.exists_dependence_of_report hreport hline
  obtain ⟨-, -, target, htarget, w, hserves, hview⟩ := hresolution.bound hsurfaced hinfo hdep
  obtain ⟨there, hthere, hname, hviews⟩ := hresolution.exists_report_of_info htarget
  refine ⟨there, hthere, ?_, w, hviews ▸ hserves.mem, ?_⟩
  · rw [hname]
    exact (hresolution.target hinfo hdep).2.2.symm
  · simp [Dependence.report, hview]

/-- Three programs that each refer to another package of a library. -/
def Registry.viewed : Registry :=
  .populate [
    .register { name := "app.Main", references := ["lib.api.Api"] },
    .register { name := "tool.Main", references := ["lib.core.Core"] },
    .register { name := "rest.Main", references := ["lib.base.Base"] },
    .register { name := "lib.api.Api" },
    .register { name := "lib.core.Core" },
    .register { name := "lib.base.Base" }]

/-- The library exports one package, another one through a view of its own, and the third not at
all. -/
def BuildPlan.viewed : BuildPlan where
  specs := [
    { name := "app", version := "1.0", roots := ⟨[.package "app"]⟩ },
    { name := "tool", version := "1.0", roots := ⟨[.package "tool"]⟩ },
    { name := "rest", version := "1.0", roots := ⟨[.package "rest"]⟩ },
    { name := "lib", version := "1.0", roots := ⟨[.subtree "lib"]⟩,
      views := [{ name := "lib.api", exports := stringSet ["lib.api"] }] }]
  options := { exported := .ofList ["lib.base"] }

/-- Each program is bound to the view that its package is in. -/
theorem Builder.bound_viewed :
    ∃ outcome, ((Builder.plain .viewed).build .viewed).result = .ok outcome ∧
      outcome.infos.values.map (·.requires.map fun dep => (dep.module, dep.view)) =
        [[(3, some "lib.api")], [(3, some "lib.internal")], [(3, some "lib")], []] ∧
      (∀ (X : ModuleId) info, outcome.infos[X]? = some info → ∀ dep ∈ info.requires,
        outcome.Bound X dep) ∧
      ∀ report ∈ outcome.reports, ∀ line ∈ report.requires,
        ∃ target ∈ outcome.reports, target.name = line.module ∧
          ∃ v ∈ target.views, v.name = line.view := by
  have hrun : ∃ outcome, ((Builder.plain .viewed).build .viewed).result = .ok outcome ∧
      outcome.infos.values.map (·.requires.map fun dep => (dep.module, dep.view)) =
        [[(3, some "lib.api")], [(3, some "lib.internal")], [(3, some "lib")], []] := by
    decide +kernel
  obtain ⟨outcome, hbuild, hviews⟩ := hrun
  exact ⟨outcome, hbuild, hviews, bound_of_build _ _ outcome hbuild⟩

end ModuleGraph
