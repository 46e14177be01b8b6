import ModuleGraph.Proofs.PermitPasses
import ModuleGraph.Proofs.Renaming.Surfaces
import ModuleGraph.Proofs.Stages

/-!
# The views of the top-level modules

A top-level module shows a default view, an internal view unless that is switched off, and the views
that are declared for any module of its group, with only their permits rewritten
(`ModuleTable.Shows`). All but the default view are asked for by name. `Surfaces.Displays` says what
the names of these views satisfy after some modules have been added: each belongs to one view of one
module, and to no module of another group.

* `Surfaces.ends_claimNames`: the names of one module.
* `Surfaces.Displays.ends_addViews`: one more module keeps the invariant, or one of its names is
  taken.
* `Surfaces.ends_addAllViews`: all modules.
* `BuildPlan.ends_resolve_surfaced`: the outcome of a resolution.
-/

namespace ModuleGraph

/-! ## The views of one module -/

namespace View

variable {views : List View} {name : String} {mainClass : Option String} {internalView : Bool}
  {declared : List ViewSpec} {packages : Packages} {v : View} {kind : ViewKind}

/-- The views that are asked for by name: all but the default one. -/
def extra (views : List View) : List View :=
  views.filter (·.kind != .default)

@[simp] theorem mem_extra : v ∈ extra views ↔ v ∈ views ∧ v.kind ≠ .default := by
  simp [extra]

theorem mem_of_ofKind? (h : ofKind? views kind = some v) : v ∈ views ∧ v.kind = kind :=
  ⟨List.mem_of_find?_eq_some h, by simpa using List.find?_some h⟩

theorem mem_of_find? (h : find? views name = some v) : v ∈ views ∧ v.name = name :=
  ⟨List.mem_of_find?_eq_some h, by simpa using List.find?_some h⟩

/-- Some view of a name is found if there is one. -/
theorem exists_find? (h : v ∈ views) : ∃ w, find? views v.name = some w := by
  rw [← Option.isSome_iff_exists, find?, List.find?_isSome]
  exact ⟨v, h, by simp⟩

theorem mem_forModule : v ∈ forModule name mainClass internalView declared packages ↔
    v = ofModule name mainClass packages ∨ (internalView ∧ v = internalOf name packages) ∨
      ∃ spec ∈ declared, v = ofSpec spec := by
  cases internalView <;> simp [forModule, eq_comm]

theorem ofKind?_default_forModule :
    ofKind? (forModule name mainClass internalView declared packages) .default =
      some (ofModule name mainClass packages) := rfl

end View

namespace ModuleTable

variable {table : ModuleTable} {packages : Packages} {top : ModuleId} {views : List View} {v : View}

/-- The views of a top-level module: those of its own, and those declared for any module of its
group with their permits rewritten. -/
def Shows (table : ModuleTable) (packages : Packages) (top : ModuleId) (views : List View) : Prop :=
  ∃ declared, List.Forall₂ (fun spec spec' : ViewSpec => spec' = { spec with
      permits := spec'.permits }) ((table.groupModules top).flatMap (·.spec.views)) declared ∧
    views = View.forModule (table.name top) (table.mainClass? top)
      ((table.get? top).any (·.spec.internalView)) declared packages

theorem shows_of_viewsOf (h : table.viewsOf packages top = .ok views) :
    table.Shows packages top views := by
  unfold viewsOf at h
  obtain ⟨declared, hdeclared, h⟩ := exists_of_bind_ok h
  cases h
  have hresolved : Ends (((table.groupModules top).flatMap (·.spec.views)).mapM table.resolveView)
      (List.Forall₂ (fun spec spec' : ViewSpec => spec' = { spec with permits := spec'.permits })
        ((table.groupModules top).flatMap (·.spec.views))) fun _ => True := by
    refine Ends.mapM fun spec _ => ?_
    unfold resolveView
    exact (Ends.self _).bind fun _ _ => rfl
  exact ⟨declared, hresolved.of_ok hdeclared, rfl⟩

namespace Shows

theorem ofKind?_default (h : table.Shows packages top views) :
    View.ofKind? views .default =
      some (View.ofModule (table.name top) (table.mainClass? top) packages) := by
  obtain ⟨declared, -, rfl⟩ := h
  exact View.ofKind?_default_forModule

/-- There is one default view, under the name of the module. -/
theorem eq_ofModule (h : table.Shows packages top views) (hv : v ∈ views)
    (hkind : v.kind = .default) :
    v = View.ofModule (table.name top) (table.mainClass? top) packages := by
  obtain ⟨declared, -, rfl⟩ := h
  rcases View.mem_forModule.1 hv with hmodule | ⟨-, rfl⟩ | ⟨spec, -, rfl⟩
  · exact hmodule
  · cases hkind
  · cases hkind

/-- There is one internal view, if any. -/
theorem eq_internalOf (h : table.Shows packages top views) (hv : v ∈ views)
    (hkind : v.kind = .internal) : v = View.internalOf (table.name top) packages := by
  obtain ⟨declared, -, rfl⟩ := h
  rcases View.mem_forModule.1 hv with rfl | ⟨-, hinternal⟩ | ⟨spec, -, rfl⟩
  · cases hkind
  · exact hinternal
  · cases hkind

/-- A view other than the default one is the internal view, or was declared for a module of the
group under its name and with its exports. -/
theorem exists_of_extra (h : table.Shows packages top views) (hv : v ∈ View.extra views) :
    ((table.get? top).any (·.spec.internalView) ∧ v = View.internalOf (table.name top) packages) ∨
      v.kind = .named ∧ ∃ m ∈ table.groupModules top, ∃ spec ∈ m.spec.views,
        v.name = spec.name ∧ v.exports = spec.exports := by
  obtain ⟨hv, hkind⟩ := View.mem_extra.1 hv
  obtain ⟨declared, hdeclared, rfl⟩ := h
  rcases View.mem_forModule.1 hv with rfl | hinternal | ⟨spec', hspec', rfl⟩
  · exact absurd rfl hkind
  · exact .inl hinternal
  · obtain ⟨spec, hspec, heq⟩ : ∃ spec ∈ (table.groupModules top).flatMap (·.spec.views),
        spec' = { spec with permits := spec'.permits } := by
      exact exists_of_forall₂ hdeclared hspec'
    obtain ⟨m, hm, hspec⟩ := List.mem_flatMap.1 hspec
    have hname : spec'.name = spec.name := congrArg (·.name) heq
    have hexports : spec'.exports = spec.exports := congrArg (·.exports) heq
    exact .inr ⟨rfl, m, hm, spec, hspec, hname, hexports⟩

end Shows

end ModuleTable

namespace Surfaces

variable {table : ModuleTable} {s : Surfaces} {done : List ModuleId} {top other : ModuleId}
  {packages : Std.TreeMap ModuleId Packages} {name : String} {v w : View}

/-! ## The names of one module -/

/-- A name leads to no module outside the group. -/
def Apart (table : ModuleTable) (top : ModuleId) (name : String) : Prop :=
  ∀ other, table.find name = some other → table.group other = top

theorem claimName_eq (table : ModuleTable) (top : ModuleId) (owners : Std.TreeMap String ModuleId)
    (v : View) [Decidable (Apart table top v.name ∧ owners[v.name]? = none)] :
    claimName table top owners v =
      if Apart table top v.name ∧ owners[v.name]? = none then .ok (owners.insert v.name top)
      else .error (.duplicateView (table.name top) v.name) := by
  have howned : owners.contains v.name = true ↔ ¬owners[v.name]? = none := by
    rw [Std.TreeMap.contains_eq_isSome_getElem?, Option.isSome_iff_ne_none]
  have hmodule : (table.find v.name).any (fun other => table.group other != top) = true ↔
      ¬Apart table top v.name := by
    unfold Apart
    cases table.find v.name <;> simp
  unfold claimName
  simp only [Bool.or_eq_true, hmodule, howned, ← not_and_or, ite_not]

/-- All names of a module are entered, or one of them is taken already. -/
theorem ends_claimNames (table : ModuleTable) (top : ModuleId) (views : List View)
    (owners : Std.TreeMap String ModuleId) :
    Ends (views.foldlM (claimName table top) owners)
      (fun owners' => (views.map (·.name)).Nodup ∧
        (∀ v ∈ views, Apart table top v.name ∧ owners[v.name]? = none) ∧
        ∀ name, owners'[name]? =
          if name ∈ views.map (·.name) then some top else owners[name]?)
      (fun e => ∃ v ∈ views, e = .duplicateView (table.name top) v.name) := by
  classical
  induction views generalizing owners with
  | nil => simp
  | cons v views ih =>
    rw [List.foldlM_cons, claimName_eq]
    split_ifs with hfree
    · refine (ih (owners.insert v.name top)).mono (fun owners' h => ?_) fun e he => ?_
      · obtain ⟨hnodup, hviews, howners⟩ := h
        have hget (name : String) : (owners.insert v.name top)[name]? =
            if v.name = name then some top else owners[name]? := treeMap_getElem?_insert _ _ _ _
        refine ⟨?_, ?_, fun name => ?_⟩
        · refine List.nodup_cons.2 ⟨fun hmem => ?_, hnodup⟩
          obtain ⟨w, hw, hname⟩ := List.mem_map.1 hmem
          have hnone := (hviews w hw).2
          rw [hget, if_pos hname.symm] at hnone
          cases hnone
        · intro w hw
          rcases List.mem_cons.1 hw with rfl | hw
          · exact hfree
          · obtain ⟨hapart, hnone⟩ := hviews w hw
            rw [hget] at hnone
            split_ifs at hnone
            exact ⟨hapart, hnone⟩
        · rw [howners, hget, List.map_cons]
          by_cases hv : v.name = name
          · simp [hv]
          · simp [hv, Ne.symm hv]
      · obtain ⟨w, hw, he⟩ := he
        exact ⟨w, List.mem_cons_of_mem _ hw, he⟩
    · exact ⟨v, List.mem_cons_self, rfl⟩

/-! ## The names of all modules -/

/-- The surfaces of the modules that are done. A name is owned exactly by the module that has a view
of that name, which is the only one, and leads to no module of another group. -/
structure Displays (table : ModuleTable) (packages : Std.TreeMap ModuleId Packages)
    (done : List ModuleId) (s : Surfaces) : Prop where
  packages_eq : s.packages = packages
  made : ∀ top ∈ done, table.viewsOf (packages.getD top {}) top = .ok (s.viewsOf top)
  viewsOf_eq_nil : ∀ top ∉ done, s.viewsOf top = []
  owners_iff : ∀ name top, s.owners[name]? = some top ↔
    ∃ v ∈ View.extra (s.viewsOf top), v.name = name
  nodup : ∀ top, ((View.extra (s.viewsOf top)).map (·.name)).Nodup
  apart : ∀ top, ∀ v ∈ View.extra (s.viewsOf top), Apart table top v.name

theorem displays_nil (table : ModuleTable) (packages : Std.TreeMap ModuleId Packages) :
    Displays table packages [] { packages } := by
  have hnil (top : ModuleId) : viewsOf { packages } top = [] := by
    simp [viewsOf, Std.TreeMap.getD_eq_getD_getElem?]
  constructor
  case packages_eq => rfl
  case made => simp
  case viewsOf_eq_nil => exact fun top _ => hnil top
  case owners_iff => simp [hnil, View.extra]
  case nodup => simp [hnil, View.extra]
  case apart => simp [hnil, View.extra]

/-- An error in the views of a module: they cannot be made, or the name of one of them is taken. -/
def Misnamed (table : ModuleTable) (packages : Std.TreeMap ModuleId Packages) (top : ModuleId)
    (e : BuildError) : Prop :=
  table.viewsOf (packages.getD top {}) top = .error e ∨
    ∃ views, table.viewsOf (packages.getD top {}) top = .ok views ∧
      ∃ v ∈ View.extra views, e = .duplicateView (table.name top) v.name

/-- One more module. -/
theorem Displays.ends_addViews (h : Displays table packages done s) (hnew : top ∉ done) :
    Ends (s.addViews table top) (Displays table packages (done ++ [top]))
      (Misnamed table packages top) := by
  unfold addViews
  rw [h.packages_eq]
  have hmade : Ends (table.viewsOf (packages.getD top {}) top)
      (fun views => table.viewsOf (packages.getD top {}) top = .ok views)
      (Misnamed table packages top) := by
    cases hviews : table.viewsOf (packages.getD top {}) top with
    | ok views => rfl
    | error e => exact .inl hviews
  refine hmade.bind fun views hviews => ?_
  refine ((ends_claimNames table top (View.extra views) s.owners).mono (fun _ h => h)
    fun e he => .inr ⟨views, hviews, he⟩).bind fun owners howners => ?_
  obtain ⟨hnodup, hfree, hget⟩ := howners
  have hviewsOf (other : ModuleId) : viewsOf { packages, views := s.views.insert top views, owners }
      other = if top = other then views else s.viewsOf other := by
    unfold viewsOf
    rw [Std.TreeMap.getD_eq_getD_getElem?, treeMap_getElem?_insert]
    split_ifs
    · rfl
    · rw [Std.TreeMap.getD_eq_getD_getElem?]
  have hnone : s.viewsOf top = [] := h.viewsOf_eq_nil top hnew
  constructor
  case packages_eq => rfl
  case made =>
    intro other hother
    rw [hviewsOf]
    split_ifs with heq
    · exact heq ▸ hviews
    · rcases List.mem_append.1 hother with hdone | htop
      · exact h.made other hdone
      · exact absurd (List.mem_singleton.1 htop).symm heq
  case viewsOf_eq_nil =>
    intro other hother
    rw [List.mem_append, not_or, List.mem_singleton] at hother
    rw [hviewsOf, if_neg (Ne.symm hother.2), h.viewsOf_eq_nil other hother.1]
  case owners_iff =>
    intro name other
    rw [hviewsOf]
    show owners[name]? = some other ↔ _
    rw [hget]
    split_ifs with hmem heq heq
    · simpa [heq] using hmem
    · -- a view of the new module bears the name, so no module owned it before
      obtain ⟨v, hv, rfl⟩ := List.mem_map.1 hmem
      rw [← h.owners_iff, (hfree v hv).2]
      simp [heq]
    · subst heq
      rw [h.owners_iff, hnone]
      simp only [View.extra, List.filter_nil, List.not_mem_nil, false_and, exists_false, false_iff]
      rintro ⟨v, hv, rfl⟩
      exact hmem (List.mem_map_of_mem hv)
    · exact h.owners_iff name other
  case nodup =>
    intro other
    rw [hviewsOf]
    split_ifs
    · exact hnodup
    · exact h.nodup other
  case apart =>
    intro other
    rw [hviewsOf]
    split_ifs with heq
    · exact fun v hv => heq ▸ (hfree v hv).1
    · exact h.apart other

/-- The views of all modules have names of their own, or one of them has not. -/
theorem ends_addAllViews (table : ModuleTable) (packages : Std.TreeMap ModuleId Packages)
    {tops : List ModuleId} (htops : tops.Nodup) :
    Ends (tops.foldlM (Surfaces.addViews table) { packages }) (Displays table packages tops)
      (fun e => ∃ top ∈ tops, Misnamed table packages top e) := by
  refine Ends.foldlM_prefix (Displays table packages) [] tops _ (displays_nil table packages)
    fun before top after hsplit s h => ?_
  rw [List.nil_append] at hsplit
  subst hsplit
  refine (h.ends_addViews fun hbefore => ?_).mono (fun _ h => h) fun e he => ⟨top, by simp, he⟩
  exact (List.nodup_append.1 htops).2.2 top hbefore top List.mem_cons_self rfl

namespace Displays

/-! ## Views by name -/

theorem shows (h : Displays table packages done s) (htop : top ∈ done) :
    table.Shows (packages.getD top {}) top (s.viewsOf top) :=
  ModuleTable.shows_of_viewsOf (h.made top htop)

/-- Only modules that are done have views. -/
theorem mem_done (h : Displays table packages done s) (hv : v ∈ s.viewsOf top) : top ∈ done := by
  by_contra hnot
  rw [h.viewsOf_eq_nil top hnot] at hv
  cases hv

theorem shows_of_mem (h : Displays table packages done s) (hv : v ∈ s.viewsOf top) :
    table.Shows (packages.getD top {}) top (s.viewsOf top) :=
  h.shows (h.mem_done hv)

/-- The name of a view is that of no view of another module. -/
theorem top_unique (h : Displays table packages done s) (hv : v ∈ View.extra (s.viewsOf top))
    (hw : w ∈ View.extra (s.viewsOf other)) (hname : v.name = w.name) : top = other := by
  have htop := (h.owners_iff v.name top).2 ⟨v, hv, rfl⟩
  rw [(h.owners_iff v.name other).2 ⟨w, hw, hname.symm⟩] at htop
  exact (Option.some.inj htop).symm

/-- The name of a view is that of no other view of the module, the default one excepted. -/
theorem view_unique (h : Displays table packages done s) (hv : v ∈ View.extra (s.viewsOf top))
    (hw : w ∈ View.extra (s.viewsOf top)) (hname : v.name = w.name) : v = w :=
  List.inj_on_of_nodup_map (h.nodup top) hv hw hname

/-- Under any name but that of the module, a view is found by its name. -/
theorem find?_eq_some (h : Displays table packages done s) (hv : v ∈ View.extra (s.viewsOf top))
    (hne : v.name ≠ table.name top) : View.find? (s.viewsOf top) v.name = some v := by
  obtain ⟨hmem, -⟩ := View.mem_extra.1 hv
  obtain ⟨w, hw⟩ := View.exists_find? hmem
  obtain ⟨hwmem, hname⟩ := View.mem_of_find? hw
  rw [hw]
  by_cases hkind : w.kind = .default
  · rw [(h.shows_of_mem hmem).eq_ofModule hwmem hkind] at hname
    exact absurd hname.symm hne
  · rw [h.view_unique (View.mem_extra.2 ⟨hwmem, hkind⟩) hv hname]

end Displays

end Surfaces

/-! ## The views of an outcome -/

namespace EvidenceBase

/-- A module is finished with the views of its surface. -/
theorem ends_finish_views (base : EvidenceBase) (policy : ExporterPolicy) (top : ModuleId)
    (deps : Dependences) :
    Ends (base.finish policy top deps).result (fun info => info.views = base.surfaces.viewsOf top)
      fun _ => True := by
  simp only [finish, Logged.result_bind, Logged.result_foldlM, Logged.result_ofExcept]
  refine (Ends.self _).bind fun kept _ => ?_
  refine (Ends.self _).bind fun bound _ => ?_
  refine (Ends.foldlM (fun info : ModuleInfo =>
    info.views = base.surfaces.viewsOf top ∧ info.frozen = false) ⟨rfl, rfl⟩
    fun info hinfo m _ => ?_).weaken fun info h => h.1
  obtain ⟨hviews, hfrozen⟩ := hinfo
  refine (ends_addPermits base m hfrozen).mono (fun info' h => ⟨?_, h.2⟩) fun _ _ => trivial
  have heq : info'.views = info.views := congrArg (·.views) h.1
  rw [heq, hviews]

end EvidenceBase

namespace BuildPlan

theorem ends_finishAll_views (policy : ExporterPolicy) (collected : Collected) :
    Ends (finishAll policy collected).result
      (fun infos => ∀ (X : ModuleId) info, infos[X]? = some info →
        info.views = collected.base.surfaces.viewsOf X) fun _ => True := by
  simp only [finishAll, Logged.result_bind, Logged.result_foldlM]
  have hfold : Ends (collected.edges.toList.foldlM
      (fun infos entry => (collected.base.finishInto policy infos entry).result) {})
      (fun infos : ModuleInfos => ∀ (X : ModuleId) info, infos[X]? = some info →
        info.views = collected.base.surfaces.viewsOf X) fun _ => True := by
    refine Ends.foldlM (fun infos : ModuleInfos => ∀ (X : ModuleId) info, infos[X]? = some info →
      info.views = collected.base.surfaces.viewsOf X) (by simp) fun infos hinfos entry _ => ?_
    simp only [EvidenceBase.finishInto, Logged.result_bind]
    refine (collected.base.ends_finish_views policy entry.1 entry.2).bind fun info hinfo => ?_
    split_ifs
    · trivial
    · intro X info' hX
      replace hX : (Std.TreeMap.insert infos entry.1 info)[X]? = some info' := hX
      rw [treeMap_getElem?_insert] at hX
      split_ifs at hX with heq
      · cases hX
        exact heq ▸ hinfo
      · exact hinfos X info' hX
  refine hfold.bind fun infos hinfos => ?_
  cases hfix : infos.fixPermits with
  | mk fixed result =>
    cases result with
    | error e => trivial
    | ok added =>
      -- what follows changes nothing but permits
      have hsame := (ModuleInfos.fixPermits_permits hfix).1.trans fixed.sameButPermits_freeze
      intro X final hX
      obtain ⟨info, hinfo, heq⟩ := hsame.exists_before hX
      have hviews : info.views = final.views := congrArg (·.views) heq
      rw [← hviews, hinfos X info hinfo]

theorem ends_collect_displays (plan : BuildPlan) (p : Partition) :
    Ends (plan.collect p).result
      (fun collected => Surfaces.Displays p.table collected.base.surfaces.packages p.table.topLevel
          collected.base.surfaces ∧
        ∀ top ∈ p.table.topLevel, collected.base.surfaces.packages.getD top {} =
          p.table.packagesOf p.registry plan.options.exported top) fun _ => True := by
  simp only [collect, Logged.result_bind, Logged.result_emit, Logged.result_forM,
    Logged.result_foldlM, Logged.result_ofExcept, Logged.result_pure, Logged.result_liftM,
    result_reportSplit]
  refine .ok_bind (.ok_bind ((Ends.self _).bind fun _ _ => ?_))
  refine ((Surfaces.ends_addAllViews p.table _ (nodup_topLevel p.table)).mono (fun _ h => h)
    fun _ _ => trivial).bind fun surfaces h => ?_
  refine (Ends.self _).bind fun edges _ => ⟨h.packages_eq ▸ h, fun top htop => ?_⟩
  show surfaces.packages.getD top {} = _
  rw [h.packages_eq]
  have hget := Surfaces.getD_ofPackages (nodup_topLevel p.table)
    (p.table.packagesOf p.registry plan.options.exported) top
  rw [if_pos htop] at hget
  exact hget

end BuildPlan

/-- The surfaces of an outcome are those of its top-level modules, made of what these hold, and
every finished module has the views of its surface. -/
structure Outcome.Surfaced (outcome : Outcome) (exported : ExportedPackages) : Prop where
  displays : Surfaces.Displays outcome.table outcome.surfaces.packages outcome.table.topLevel
    outcome.surfaces
  packages_eq : ∀ top ∈ outcome.table.topLevel, outcome.surfaces.packages.getD top {} =
    outcome.table.packagesOf outcome.partition.registry exported top
  views_eq : ∀ (X : ModuleId) info, outcome.infos[X]? = some info →
    info.views = outcome.surfaces.viewsOf X

theorem BuildPlan.ends_resolve_surfaced (plan : BuildPlan) (p : Partition) (policy : ExporterPolicy)
    (seeds : List ModuleId) :
    Ends (plan.resolve p policy seeds).result
      (fun outcome => outcome.Surfaced plan.options.exported) fun _ => True := by
  simp only [resolve, Logged.result_bind, Logged.result_liftM, Logged.result_emit,
    Logged.result_pure]
  refine (Ends.self _).bind fun collected hcollected => ?_
  obtain ⟨hdisplays, hpackages⟩ := (plan.ends_collect_displays p).of_ok hcollected
  refine (ends_finishAll_views policy collected).bind fun infos hinfos => ?_
  refine (Ends.self _).bind fun order _ => ?_
  exact .ok_bind ⟨hdisplays, hpackages, hinfos⟩

end ModuleGraph
