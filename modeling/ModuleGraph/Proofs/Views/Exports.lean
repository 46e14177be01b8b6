import ModuleGraph.Proofs.Dependences.Settled
import ModuleGraph.Proofs.Views.Binding

/-!
# References and the packages that their views export

All references from one module into another one share a dependence, and the dependence is bound to
one view. If the module asks for no view by its name, the view exports whatever the references lead
to: the default view exports the packages that are admitted, and one reference into another package
is enough for the internal view, which exports all packages. A reference into a package of a
declared view asks for that view by name, and so may a requirement or a declared edge. Then the
dependence is bound to that view and exports its packages only, whatever else is referred to.

* `BuildPlan.exports_of_build`: what the bound view exports in a plain build, and which builds fail.
* `BuildPlan.not_exports_mixed`: two packages of which the bound view exports one.
-/

namespace ModuleGraph

/-! ## What views export -/

theorem mem_stringSet {items : List String} {name : String} :
    name ∈ stringSet items ↔ name ∈ items := by
  have hfold (set : Std.TreeSet String) :
      name ∈ items.foldl (·.insert ·) set ↔ name ∈ set ∨ name ∈ items := by
    induction items generalizing set with
    | nil => simp
    | cons item items ih =>
      rw [List.foldl_cons, ih, mem_treeSet_insert, Set.mem_singleton_iff, or_assoc, List.mem_cons]
  rw [stringSet, hfold]
  simp

namespace View

theorem mem_packagesWhere {packages : Packages} {test : PackageSummary → Bool} {name : String} :
    name ∈ packagesWhere packages test ↔ ∃ s ∈ packages.values, test s ∧ s.name = name := by
  simp only [packagesWhere, mem_stringSet, List.mem_map, List.mem_filter, and_assoc]

/-- The first declared view that exports a package. -/
def declaredFor? (views : List View) (package : String) : Option View :=
  views.find? fun v => v.kind == .named && v.exports.contains package

theorem mem_of_declaredFor? {views : List View} {package : String} {v : View}
    (h : declaredFor? views package = some v) :
    v ∈ views ∧ v.kind = .named ∧ package ∈ v.exports := by
  have hv := List.find?_some h
  rw [Bool.and_eq_true, beq_iff_eq] at hv
  exact ⟨List.mem_of_find?_eq_some h, hv.1, Std.TreeSet.contains_iff_mem.1 hv.2⟩

/-- A reference goes through a declared view if there is one for its package. -/
theorem filter_forPackage? (views : List View) (package : String) :
    (forPackage? views package).filter (·.kind == .named) = declaredFor? views package := by
  unfold forPackage?
  cases h : declaredFor? views package with
  | some v =>
    have hkind := (mem_of_declaredFor? h).2.1
    unfold declaredFor? at h
    rw [h, Option.some_or, Option.filter_some, hkind]
    rfl
  | none =>
    unfold declaredFor? at h
    rw [h, Option.none_or, Option.filter_eq_none_iff]
    intro v hv
    rcases Option.or_eq_some_iff.1 hv with hdefault | ⟨-, hinternal⟩
    · rw [(mem_of_ofKind? (Option.filter_eq_some_iff.1 hdefault).1).2]
      decide
    · rw [(mem_of_ofKind? hinternal).2]
      decide

end View

namespace Outcome.Surfaced

open BuildPlan

variable {outcome : Outcome} {exported : ExportedPackages} {D : ModuleId} {w : View}
  {package : String}

/-- The summaries of a top-level module tell of the packages that its classes lie in. -/
theorem exists_summary (h : outcome.Surfaced exported) (hD : D ∈ outcome.table.topLevel)
    (hreach : ReachesInto outcome.partition D package) :
    ∃ s ∈ (outcome.surfaces.packages.getD D {}).values, s.hasClasses ∧ s.name = package ∧
      s.exported = exported.admits package := by
  obtain ⟨m, hm⟩ := ModuleTable.exists_get? (ModuleTable.lt_size_of_isTopLevel (mem_topLevel.1 hD))
  have hpackages : outcome.surfaces.packages.getD D {} =
      .summarize outcome.partition.registry m.classes.toList m.resources.toList exported := by
    rw [h.packages_eq D hD]
    unfold ModuleTable.packagesOf
    rw [hm]
  have hclasses : outcome.partition.table.classes D = m.classes.toList :=
    ModuleTable.classes_of_get? hm
  unfold ReachesInto at hreach
  rw [hclasses] at hreach
  rw [hpackages]
  obtain ⟨s, hs, hhas, rfl⟩ : ∃ s ∈ (Packages.summarize outcome.partition.registry
      m.classes.toList m.resources.toList exported).values, s.hasClasses ∧ s.name = package :=
    Packages.exists_hasClasses_iff.2 hreach
  refine ⟨s, hs, hhas, rfl, ?_⟩
  rw [Packages.exported_eq hs, hhas, Bool.true_and]

theorem mem_exports_of_internal (h : outcome.Surfaced exported)
    (hw : w ∈ outcome.surfaces.viewsOf D) (hkind : w.kind = .internal)
    (hreach : ReachesInto outcome.partition D package) : package ∈ w.exports := by
  have hD := h.displays.mem_done hw
  obtain ⟨s, hs, hclasses, hname, -⟩ := h.exists_summary hD hreach
  rw [(h.displays.shows_of_mem hw).eq_internalOf hw hkind]
  exact View.mem_packagesWhere.2 ⟨s, hs, hclasses, hname⟩

theorem mem_exports_of_default (h : outcome.Surfaced exported)
    (hw : w ∈ outcome.surfaces.viewsOf D) (hkind : w.kind = .default)
    (hreach : ReachesInto outcome.partition D package) (hadmits : exported.admits package) :
    package ∈ w.exports := by
  have hD := h.displays.mem_done hw
  obtain ⟨s, hs, -, hname, hexported⟩ := h.exists_summary hD hreach
  rw [(h.displays.shows_of_mem hw).eq_ofModule hw hkind]
  exact View.mem_packagesWhere.2 ⟨s, hs, by rw [hexported, hadmits], hname⟩

end Outcome.Surfaced

/-! ## References into a package -/

namespace EvidenceBase

variable {base : EvidenceBase} {plan : BuildPlan} {X D : ModuleId} {package : String}

/-- A class of the first module refers to a class of the second one, in the given package. -/
def RefersInto (base : EvidenceBase) (X D : ModuleId) (package : String) : Prop :=
  ∃ c ∈ base.table.classes X, ∃ (source target : ClassEntry) (d : ClassId) (owner : ModuleId),
    base.registry.classes[c]? = some source ∧ d ∈ source.references ∧
      base.registry.classes[d]? = some target ∧ target.owner = some owner ∧
      base.table.group owner = D ∧ target.package = package

instance : Decidable (base.RefersInto X D package) :=
  decidable_of_iff (∃ c ∈ base.table.classes X, ∃ pair ∈ base.referencePairs c,
      pair.2.owner.any (base.table.group · == D) ∧ pair.2.package = package) <| by
    simp only [RefersInto, Prod.exists, mem_referencePairs, Option.any_eq_true, beq_iff_eq]
    constructor
    · rintro ⟨c, hc, source, target, ⟨hs, d, hd, ht⟩, ⟨owner, ho, hgroup⟩, hpackage⟩
      exact ⟨c, hc, source, target, d, owner, hs, hd, ht, ho, hgroup, hpackage⟩
    · rintro ⟨c, hc, source, target, d, owner, hs, hd, ht, ho, hgroup, hpackage⟩
      exact ⟨c, hc, source, target, ⟨hs, d, hd, ht⟩, ⟨owner, ho, hgroup⟩, hpackage⟩

/-- A reference is evidence. It asks for the declared view that exports the package, under the name
of the view. -/
theorem RefersInto.exists_evidence (h : base.RefersInto X D package) (plan : BuildPlan) :
    ∃ e, base.Evidence plan X e ∧ e.module = D ∧
      e.target = (View.declaredFor? (base.surfaces.viewsOf D) package).elim (base.table.name D)
        (·.name) := by
  obtain ⟨c, hc, source, target, d, owner, hs, hd, ht, ho, rfl, rfl⟩ := h
  refine ⟨_, .referenced hc hs hd ht ho, rfl, ?_⟩
  rw [across, View.filter_forPackage?]

theorem RefersInto.seeks (h : base.RefersInto X D package) (plan : BuildPlan) {v : View}
    (hv : View.declaredFor? (base.surfaces.viewsOf D) package = some v)
    (hne : v.name ≠ base.table.name D) : base.Seeks plan X D v.name := by
  obtain ⟨e, he, rfl, htarget⟩ := h.exists_evidence plan
  rw [hv, Option.elim_some] at htarget
  refine ⟨e, he, rfl, ?_, htarget⟩
  rwa [Dependence.targetsView_iff, htarget, he.moduleName_eq]

theorem RefersInto.intrudes (h : base.RefersInto X D package)
    (hadmits : ¬plan.options.exported.admits package) : base.Intrudes plan X D := by
  obtain ⟨c, hc, source, target, d, owner, hs, hd, ht, ho, hgroup, rfl⟩ := h
  exact ⟨c, hc, source, target, d, owner, hs, hd, ht, ho, hgroup, by simpa using hadmits⟩

/-- No view of the second module serves the first one: different views are asked for, or none is,
and a reference leads into a package that is not exported while there is no internal view. -/
inductive Unserved (base : EvidenceBase) (plan : BuildPlan) (X D : ModuleId) : Prop where
  | torn {name name' : String} (h : base.Seeks plan X D name) (h' : base.Seeks plan X D name')
      (hne : name ≠ name') : Unserved base plan X D
  | barred (h : base.Intrudes plan X D) (hseeks : ∀ name, ¬base.Seeks plan X D name)
      (hviews : ∀ v ∈ base.surfaces.viewsOf D, v.kind ≠ .internal) : Unserved base plan X D

end EvidenceBase

/-! ## The view of a dependence -/

/-- A view of a module as far as references of another module into one of its packages are
concerned. It is the view that is asked for, if one is, and exports the package if none is. It is
the declared view that exports the package, if there is one under a name of its own. -/
structure Outcome.Opens (outcome : Outcome) (plan : BuildPlan) (X D : ModuleId) (package : String)
    (w : View) : Prop where
  sought : ∀ name, outcome.base.Seeks plan X D name → w.name = name
  exports : (∀ name, ¬outcome.base.Seeks plan X D name) → package ∈ w.exports
  declared : ∀ v, View.declaredFor? (outcome.surfaces.viewsOf D) package = some v →
    v.name ≠ outcome.table.name D → w = v ∧ package ∈ w.exports

namespace BuildPlan

variable {plan : BuildPlan} {outcome : Outcome} {X D : ModuleId} {dep : Dependence} {w : View}
  {package : String} {info : ModuleInfo} {registry : Registry} {p : Partition}

/-- A settled dependence is bound to the view that its references need, or to the one that is asked
for. -/
theorem opens_of_serves (hsurfaced : outcome.Surfaced plan.options.exported)
    (hrefers : outcome.base.RefersInto X D package)
    (hreach : ReachesInto outcome.partition D package)
    (hsettled : outcome.base.Settled plan X D dep) {allowLocalDefault : Bool}
    (hserves : View.Serves (outcome.surfaces.viewsOf D) allowLocalDefault dep w) :
    outcome.Opens plan X D package w := by
  constructor
  case sought =>
    intro name hseeks
    obtain ⟨hview, rfl⟩ := (hsettled.seeks_iff name).1 hseeks
    exact (hserves.named hview).1
  case exports =>
    intro hseeks
    have hview : ¬dep.targetsView := fun hview =>
      hseeks dep.target ((hsettled.seeks_iff _).2 ⟨hview, rfl⟩)
    by_cases hwants : View.WantsInternal (outcome.surfaces.viewsOf D) allowLocalDefault dep
    · exact hsurfaced.mem_exports_of_internal hserves.mem (hserves.internal hview hwants).1 hreach
    · -- a reference into a package that is not exported would want the internal view
      have hadmits : plan.options.exported.admits package := by
        by_contra hadmits
        exact hwants (.inl (hsettled.isInternal.2 (hrefers.intrudes hadmits)))
      exact hsurfaced.mem_exports_of_default hserves.mem (hserves.default hview hwants).1 hreach
        hadmits
  case declared =>
    intro v hv hne
    obtain ⟨hview, htarget⟩ := (hsettled.seeks_iff _).1 (hrefers.seeks plan hv hne)
    obtain ⟨hmem, -, hexports⟩ := View.mem_of_declaredFor? hv
    obtain rfl := (hserves.named hview).2 v hmem htarget.symm
    exact ⟨rfl, hexports⟩

/-- In a requires list every module stands once. -/
theorem Resolution.eq_of_mem_requires {policy : ExporterPolicy} (h : plan.Resolution policy outcome)
    (hinfo : outcome.infos[X]? = some info) {d e : Dependence} (hd : d ∈ info.requires)
    (he : e ∈ info.requires) (hmodule : d.module = e.module) : d = e := by
  obtain ⟨deps, -, hfinished⟩ := h.finished X info hinfo
  by_contra hne
  have hnames : info.requires.Pairwise fun d e => d.moduleName ≠ e.moduleName :=
    hfinished.increasing.imp fun hlt => ne_of_lt hlt
  have hsymm : Std.Symm fun d e : Dependence => d.moduleName ≠ e.moduleName :=
    ⟨fun _ _ => Ne.symm⟩
  refine hnames.forall hd he hne ?_
  rw [(h.target hinfo hd).2.2, (h.target hinfo he).2.2, hmodule]

/-! ## Plain builds -/

/-- With surfaces but no view that serves, modules cannot be finished. -/
theorem Concludes.not_unserved {surfaces : Surfaces} {infos : ModuleInfos}
    (h : plan.Concludes p surfaces infos) (hX : X ∈ p.table.topLevel) (hD : D ∈ p.table.topLevel)
    (hne : D ≠ X) : ¬EvidenceBase.Unserved ⟨p.table, p.registry, surfaces⟩ plan X D := by
  obtain ⟨info, -, split, deps, hreconciled, hfinished⟩ := h.finished X hX
  rintro (⟨hseeks, hseeks', hnames⟩ | ⟨hintrudes, hseeks, hviews⟩)
  · exact hnames (hreconciled.eq_of_seeks hne hseeks hseeks')
  · obtain ⟨e, he, heD, -⟩ := EvidenceBase.exists_internal_iff.2 hintrudes
    obtain ⟨dep, hdep, rfl⟩ := hreconciled.gathered.exists_mem hfinished hD hne ⟨e, he, heD⟩
    obtain ⟨hsettled, d, w, hselect, rfl⟩ := hreconciled.settled_and_bound hfinished hdep
    have hview : ¬d.targetsView := fun hview =>
      hseeks d.target ((hsettled.seeks_iff _).2 ⟨hview, rfl⟩)
    have hinternal : d.isInternal := hsettled.isInternal.2 hintrudes
    have hnone : View.ofKind? (surfaces.viewsOf d.module) .internal = none := by
      rw [View.ofKind?, List.find?_eq_none]
      intro v hv
      simpa using hviews v hv
    unfold View.select at hselect
    simp [hview, hinternal, hnone] at hselect

/-- The references of a resolved plain build are served by the views that their dependences are
bound to. -/
theorem Resolution.exists_opens (h : plan.Resolution {} outcome)
    (hsurfaced : outcome.Surfaced plan.options.exported)
    (hconcludes : plan.Concludes outcome.partition outcome.surfaces outcome.infos)
    (hX : X ∈ outcome.table.topLevel) (hD : D ∈ outcome.table.topLevel) (hne : D ≠ X)
    (hrefers : outcome.base.RefersInto X D package)
    (hreach : ReachesInto outcome.partition D package) :
    ∃ info dep w, outcome.infos[X]? = some info ∧
      (∀ d, d ∈ info.requires ∧ d.module = D ↔ d = dep) ∧
      View.Serves (outcome.surfaces.viewsOf D)
        ((outcome.table.get? D).any (·.spec.allowLocalDefault)) dep w ∧
      dep.view = some w.name ∧ outcome.Opens plan X D package w := by
  obtain ⟨info, hinfo, split, deps, hreconciled, hfinished⟩ := hconcludes.finished X hX
  obtain ⟨e, he, heD, -⟩ := hrefers.exists_evidence plan
  obtain ⟨dep, hdep, rfl⟩ := hreconciled.gathered.exists_mem hfinished hD hne ⟨e, he, heD⟩
  have hsettled := (hreconciled.settled_and_bound hfinished hdep).1
  obtain ⟨-, -, target, htarget, w, hserves, hview⟩ := h.bound hsurfaced hinfo hdep
  rw [hsurfaced.views_eq _ _ htarget] at hserves
  refine ⟨info, dep, w, hinfo, fun d => ⟨?_, ?_⟩, hserves, hview,
    opens_of_serves hsurfaced hrefers hreach hsettled hserves⟩
  · rintro ⟨hmem, hmodule⟩
    exact h.eq_of_mem_requires hinfo hmem hdep hmodule
  · rintro rfl
    exact ⟨hdep, rfl⟩

/-- Without owners from before, the group of the owner of a class holds it. -/
theorem Divided.reachesInto (h : plan.Divided registry outcome.partition)
    (hD : D ∈ outcome.table.topLevel) (hrefers : outcome.base.RefersInto X D package) :
    ReachesInto outcome.partition D package := by
  obtain ⟨c, -, source, target, d, owner, -, -, htarget, howner, hgroup, rfl⟩ := hrefers
  have hself := ModuleTable.group_of_isTopLevel (mem_topLevel.1 hD)
  have hholds := (h.divides.holds_class hself d).2
    ⟨owner, Registry.classOwner_eq_some_iff.2 ⟨target, htarget, howner⟩, hgroup⟩
  exact ⟨d, ModuleTable.mem_classes.2 hholds, target, htarget, rfl⟩

/-- Whatever the configuration, a successful plain build binds the one dependence of a module on
another one to a view that exports the packages of all references, as long as no view is asked for
by its name. If one is, the dependence is bound to it, and it exports the packages whose declared
view it is. A build in which different views are asked for, or no view serves, fails over a
dependence, unless it fails over a name before. -/
theorem exports_of_build (plan : BuildPlan) (registry : Registry) :
    (∀ outcome, (plan.build registry).result = .ok outcome →
      ∀ X ∈ outcome.table.topLevel, ∀ D ∈ outcome.table.topLevel, D ≠ X →
        ∀ package, outcome.base.RefersInto X D package →
          registry.Unowned ∨ ReachesInto outcome.partition D package →
          ∃ info dep w, outcome.infos[X]? = some info ∧
            (∀ d, d ∈ info.requires ∧ d.module = D ↔ d = dep) ∧
            View.Serves (outcome.surfaces.viewsOf D)
              ((outcome.table.get? D).any (·.spec.allowLocalDefault)) dep w ∧
            dep.view = some w.name ∧ outcome.Opens plan X D package w) ∧
    (∀ p surfaces, plan.partitionOf registry = .ok p → plan.surfacesOf p = .ok surfaces →
      ∀ X ∈ p.table.topLevel, ∀ D ∈ p.table.topLevel, D ≠ X →
        EvidenceBase.Unserved ⟨p.table, p.registry, surfaces⟩ plan X D →
        ∃ e, (plan.build registry).result = .error e ∧ FinishError e) := by
  constructor
  · intro outcome hbuild X hX D hD hne package hrefers hreach
    replace hreach : ReachesInto outcome.partition D package := by
      rcases hreach with hregistry | hreach
      · exact ((plan.ends_build hregistry).of_ok hbuild).1.reachesInto hD hrefers
      · exact hreach
    rw [result_build] at hbuild
    obtain ⟨p, hp, hresolve⟩ := exists_of_bind_ok hbuild
    have hi := ((plan.ends_partitionOf registry).of_ok hp).indexed
    obtain ⟨rfl, hresolution⟩ := (plan.ends_resolve hi {} []).of_ok hresolve
    exact hresolution.exists_opens ((plan.ends_resolve_surfaced _ {} []).of_ok hresolve)
      ((plan.ends_resolve_concludes hi []).of_ok hresolve) hX hD hne hrefers hreach
  · intro p surfaces hp hsurfaces X hX D hD hne hunserved
    have hends := plan.ends_resolve_concludes
      ((plan.ends_partitionOf registry).of_ok hp).indexed []
    have hnot {s : Surfaces} {infos : ModuleInfos} : ¬plan.Concludes p s infos := by
      intro h
      have hsame := h.surfaces_eq
      rw [hsurfaces] at hsame
      cases hsame
      exact h.not_unserved hX hD hne hunserved
    have hbuild : (plan.build registry).result = (plan.resolve p {} []).result := by
      rw [result_build, hp]
      rfl
    rw [hbuild]
    cases hresolve : (plan.resolve p {} []).result with
    | ok outcome => exact absurd (hends.of_ok hresolve) hnot
    | error e =>
      rcases hends.of_error hresolve with herror | hfinish | ⟨s, infos, hconcludes⟩
      · rw [hsurfaces] at herror
        cases herror
      · exact ⟨e, rfl, hfinish⟩
      · exact absurd hconcludes hnot

end BuildPlan

/-- A program that refers to two packages of a library. -/
def Registry.mixed : Registry :=
  .populate [
    .register { name := "com.foo.Main", references := ["com.bar.api.Api", "com.bar.core.Core"] },
    .register { name := "com.bar.api.Api" },
    .register { name := "com.bar.core.Core" }]

namespace BuildPlan

/-- One package of the library is exported, and the other one through a view of its own. -/
def mixed : BuildPlan where
  specs := [
    { name := "foo", version := "1.0", roots := ⟨[.subtree "com.foo"]⟩ },
    { name := "bar", version := "1.0", roots := ⟨[.subtree "com.bar"]⟩, internalView := false,
      views := [{ name := "bar.api", exports := stringSet ["com.bar.api"] }] }]
  options := { exported := .ofList ["com.bar.core"] }

/-- Both packages of the library have views of their own. -/
def torn : BuildPlan where
  specs := [
    { name := "foo", version := "1.0", roots := ⟨[.subtree "com.foo"]⟩ },
    { name := "bar", version := "1.0", roots := ⟨[.subtree "com.bar"]⟩,
      views := [{ name := "bar.api", exports := stringSet ["com.bar.api"] },
        { name := "bar.core", exports := stringSet ["com.bar.core"] }] }]

/-- The program is bound to the view of the one package, and cannot be bound to two views. -/
theorem exports_mixed :
    (∃ outcome info dep w, (BuildPlan.mixed.build .mixed).result = .ok outcome ∧
      outcome.infos[0]? = some info ∧ (∀ d, d ∈ info.requires ∧ d.module = 1 ↔ d = dep) ∧
      dep.view = some w.name ∧ outcome.Opens .mixed 0 1 "com.bar.api" w) ∧
    ∃ e, (BuildPlan.torn.build .mixed).result = .error e ∧ FinishError e := by
  have hrun : ∃ outcome, (BuildPlan.mixed.build .mixed).result = .ok outcome ∧
      0 ∈ outcome.table.topLevel ∧ 1 ∈ outcome.table.topLevel ∧
      outcome.base.RefersInto 0 1 "com.bar.api" := by decide +kernel
  have htorn : ∃ p, BuildPlan.torn.partitionOf .mixed = .ok p ∧
      0 ∈ p.table.topLevel ∧ 1 ∈ p.table.topLevel ∧
      ∃ surfaces, BuildPlan.torn.surfacesOf p = .ok surfaces ∧
        EvidenceBase.RefersInto ⟨p.table, p.registry, surfaces⟩ 0 1 "com.bar.api" ∧
        EvidenceBase.RefersInto ⟨p.table, p.registry, surfaces⟩ 0 1 "com.bar.core" ∧
        (View.declaredFor? (surfaces.viewsOf 1) "com.bar.api").map (·.name) = some "bar.api" ∧
        (View.declaredFor? (surfaces.viewsOf 1) "com.bar.core").map (·.name) = some "bar.core" ∧
        p.table.name 1 = "bar" := by decide +kernel
  constructor
  · obtain ⟨outcome, hbuild, hX, hD, hrefers⟩ := hrun
    have hregistry : Registry.mixed.Unowned := (Registry.pristine_populate _).unowned
    obtain ⟨info, dep, w, hinfo, honly, -, hview, hopens⟩ :=
      (exports_of_build .mixed .mixed).1 outcome hbuild 0 hX 1 hD (by decide) _ hrefers
        (.inl hregistry)
    exact ⟨outcome, info, dep, w, hbuild, hinfo, honly, hview, hopens⟩
  · obtain ⟨p, hp, hX, hD, surfaces, hsurfaces, hapi, hcore, hapiView, hcoreView, hname⟩ := htorn
    obtain ⟨api, hapiView, hapiName⟩ := Option.map_eq_some_iff.1 hapiView
    obtain ⟨core, hcoreView, hcoreName⟩ := Option.map_eq_some_iff.1 hcoreView
    have hapiSeeks := hapi.seeks .torn hapiView (by rw [hapiName]; simp [hname])
    have hcoreSeeks := hcore.seeks .torn hcoreView (by rw [hcoreName]; simp [hname])
    have hunserved : EvidenceBase.Unserved ⟨p.table, p.registry, surfaces⟩ .torn 0 1 :=
      .torn hapiSeeks hcoreSeeks (by rw [hapiName, hcoreName]; decide)
    exact (exports_of_build .torn .mixed).2 p surfaces hp hsurfaces 0 hX 1 hD (by decide) hunserved

/-- The view that the program is bound to does not export the other package, and no view of the
library exports both. -/
theorem not_exports_mixed :
    ∃ outcome, (BuildPlan.mixed.build .mixed).result = .ok outcome ∧
      0 ∈ outcome.table.topLevel ∧ 1 ∈ outcome.table.topLevel ∧
      outcome.base.RefersInto 0 1 "com.bar.api" ∧ outcome.base.RefersInto 0 1 "com.bar.core" ∧
      (outcome.infos[0]?).map (·.requires.map fun dep => (dep.module, dep.view)) =
        some [(1, some "bar.api")] ∧
      (∀ w ∈ outcome.surfaces.viewsOf 1, w.name = "bar.api" → "com.bar.core" ∉ w.exports) ∧
      ∀ w ∈ outcome.surfaces.viewsOf 1,
        ¬("com.bar.api" ∈ w.exports ∧ "com.bar.core" ∈ w.exports) := by
  decide +kernel

end BuildPlan

end ModuleGraph
