import ModuleGraph.Proofs.Dependences.Evidence
import ModuleGraph.Proofs.LoadOrder
import ModuleGraph.Proofs.ModuleInfos
import ModuleGraph.Proofs.SplitPackages
import ModuleGraph.Report.Basic

/-!
# What the resolution of a module graph establishes

`BuildPlan.Resolution` says what an outcome tells of the partition that it was made from: the
finished modules are the top-level ones, each requires what the evidence for it amounts to after the
promotion of split packages and the exporter policy, and the order is a rearrangement of them that
lists every module after those it requires. `BuildPlan.ends_resolve` proves it of every outcome.
-/

namespace ModuleGraph

namespace BuildPlan

open EvidenceBase

/-- The errors of resolving a module graph. -/
inductive ResolutionError : BuildError → Prop where
  | unknownModule (name context : String) : ResolutionError (.unknownModule name context)
  | duplicateView (name view : String) : ResolutionError (.duplicateView name view)
  | conflictingDependence (name existing incoming : String) :
      ResolutionError (.conflictingDependence name existing incoming)
  | viewNotFound (name dependence : String) : ResolutionError (.viewNotFound name dependence)
  | dependencyCycle (names : List String) : ResolutionError (.dependencyCycle names)

theorem ResolutionError.of_evidence {e : BuildError} (h : EvidenceError e) : ResolutionError e := by
  cases h with
  | unknownModule name context => exact .unknownModule _ _
  | conflict h => cases h; exact .conflictingDependence _ _ _

theorem ResolutionError.of_finish {e : BuildError} (h : FinishError e) : ResolutionError e := by
  cases h with
  | unknownModule name context => exact .unknownModule _ _
  | viewNotFound name dependence => exact .viewNotFound _ _
  | conflict h => cases h; exact .conflictingDependence _ _ _

theorem ResolutionError.of_cycle {e : BuildError} (h : Graph.CycleError e) : ResolutionError e := by
  cases h
  exact .dependencyCycle _

variable {plan : BuildPlan} {base : EvidenceBase} {p : Partition} {policy : ExporterPolicy}
  {X : ModuleId}

/-! ## Surfaces -/

theorem ends_requireGroup (table : ModuleTable) (name context : String) :
    Ends (table.requireGroup name context) (fun _ => True) ResolutionError := by
  unfold ModuleTable.requireGroup ModuleTable.require
  cases table.find name with
  | none => exact .unknownModule _ _
  | some id => exact trivial

theorem ends_viewsOf (table : ModuleTable) (packages : Packages) (top : ModuleId) :
    Ends (table.viewsOf packages top) (fun _ => True) ResolutionError := by
  unfold ModuleTable.viewsOf
  refine (Ends.mapM_errors fun view _ => ?_).bind fun views _ => trivial
  unfold ModuleTable.resolveView
  refine (Ends.mapM_errors fun permit _ => ?_).bind fun permits _ => trivial
  exact ends_requireGroup _ _ _

theorem ends_addViews (table : ModuleTable) (surfaces : Surfaces) (top : ModuleId) :
    Ends (surfaces.addViews table top) (fun _ => True) ResolutionError := by
  unfold Surfaces.addViews
  refine (ends_viewsOf _ _ _).bind fun views _ => ?_
  refine (Ends.foldlM (fun _ => True) trivial fun owners _ view _ => ?_).bind fun _ _ => trivial
  unfold Surfaces.claimName
  dsimp only
  split_ifs
  · exact .duplicateView _ _
  · exact trivial

/-! ## Collected dependences -/

/-- The packages of the top-level modules. -/
def topPackages (plan : BuildPlan) (p : Partition) : List (ModuleId × Packages) :=
  p.table.topLevel.map fun id => (id, p.table.packagesOf p.registry plan.options.exported id)

/-- Some class of a module lies in a package. -/
def ReachesInto (p : Partition) (X : ModuleId) (package : String) : Prop :=
  ∃ c ∈ p.table.classes X, ∃ entry, p.registry.classes[c]? = some entry ∧ entry.package = package

theorem has_topPackages_iff {package : String} :
    SplitPackages.Has (plan.topPackages p) X package ↔
      X ∈ p.table.topLevel ∧ ReachesInto p X package := by
  unfold SplitPackages.Has topPackages
  simp only [List.mem_map, Prod.mk.injEq]
  constructor
  · intro h
    obtain ⟨packages, ⟨id, htop, rfl, rfl⟩, hs⟩ := h
    refine ⟨htop, ?_⟩
    unfold ModuleTable.packagesOf at hs
    cases hm : p.table.get? id with
    | none =>
      rw [hm] at hs
      obtain ⟨s, hs, -⟩ := hs
      obtain ⟨key, hkey⟩ := mem_treeMap_values.1 hs
      simp at hkey
    | some m =>
      rw [hm] at hs
      unfold ReachesInto
      rw [ModuleTable.classes_of_get? hm]
      exact Packages.exists_hasClasses_iff.1 hs
  · intro h
    obtain ⟨htop, c, hc, hentry⟩ := h
    refine ⟨_, ⟨X, htop, rfl, rfl⟩, ?_⟩
    unfold ModuleTable.packagesOf
    cases hm : p.table.get? X with
    | none =>
      unfold ModuleTable.classes at hc
      rw [hm] at hc
      cases hc
    | some m =>
      rw [ModuleTable.classes_of_get? hm] at hc
      exact Packages.exists_hasClasses_iff.2 ⟨c, hc, hentry⟩

/-- The dependences of a requester: what its evidence amounts to, with the edges to its partners
made local. -/
def Gathered (plan : BuildPlan) (base : EvidenceBase) (split : SplitPackages) (X : ModuleId)
    (deps : Dependences) : Prop :=
  ∃ raw : Dependences,
    raw.Summarizes (fun e => base.Evidence plan X e ∧ e.module ≠ X) ∧
    ∀ D : ModuleId, deps[D]? = raw[D]?.map (SplitPackages.promoteIf (D ∈ split.partners X))

/-- What is collected from a partition. -/
structure Collects (plan : BuildPlan) (p : Partition) (collected : Collected) : Prop where
  table_eq : collected.base.table = p.table
  registry_eq : collected.base.registry = p.registry
  split_eq : collected.split = SplitPackages.detect (plan.topPackages p)
  edges : EdgesOf collected.base collected.edges
  gathered : ∀ (X : ModuleId) deps, collected.edges[X]? = some deps →
    plan.Gathered collected.base collected.split X deps

theorem Gathered.keyed {split : SplitPackages} {deps : Dependences}
    (h : plan.Gathered base split X deps) : base.Keyed X deps := by
  obtain ⟨raw, hraw, hget⟩ := h
  intro D d hd
  rw [hget, Option.map_eq_some_iff] at hd
  obtain ⟨d', hd', rfl⟩ := hd
  obtain ⟨e, ⟨⟨he, hne⟩, rfl⟩, hname⟩ := (hraw.sums hd').named
  have hmodule : (SplitPackages.promoteIf (e.module ∈ split.partners X) d').module = d'.module := by
    unfold SplitPackages.promoteIf Dependence.promote
    split_ifs <;> rfl
  have hmoduleName :
      (SplitPackages.promoteIf (e.module ∈ split.partners X) d').moduleName = d'.moduleName := by
    unfold SplitPackages.promoteIf Dependence.promote
    split_ifs <;> rfl
  refine ⟨hmodule.trans (hraw.module_eq hd'), ?_, hne⟩
  rw [hmoduleName, ← hname, he.moduleName_eq]

theorem mem_topLevel {table : ModuleTable} : X ∈ table.topLevel ↔ table.isTopLevel X := by
  unfold ModuleTable.topLevel
  rw [List.mem_filter]
  constructor
  · exact fun h => h.2
  · exact fun h => ⟨ModuleTable.mem_ids.2 (ModuleTable.lt_size_of_isTopLevel h), h⟩

/-- A module of its own group that holds something is top-level. -/
theorem mem_topLevel_of_not_isEmpty {table : ModuleTable} (hgroup : table.group X = X) {m : Module}
    (hm : table.get? X = some m) (hne : m.isEmpty = false) : X ∈ table.topLevel := by
  rw [ModuleTable.group_of_get? hm] at hgroup
  rw [mem_topLevel, ModuleTable.isTopLevel, hm]
  simp [hgroup, hne]

/-- The edges of the top-level modules that are done. -/
structure EdgesSome (plan : BuildPlan) (base : EvidenceBase) (done : List ModuleId)
    (edges : EdgeMap) : Prop where
  covers : ∀ X ∈ done, ∃ deps, edges[X]? = some deps
  known : ∀ (X : ModuleId) deps, edges[X]? = some deps → X ∈ done
  summarizes : ∀ (X : ModuleId) deps, edges[X]? = some deps →
    deps.Summarizes fun e => base.Evidence plan X e ∧ e.module ≠ X

theorem ends_collectEdges (plan : BuildPlan) (base : EvidenceBase) (tops : List ModuleId) :
    Ends (tops.foldlM
        (fun (edges : EdgeMap) id => do
          let deps ← (plan.dependencesOf base id).result
          return edges.insert id deps)
        {})
      (EdgesSome plan base tops) ResolutionError := by
  refine Ends.foldlM_prefix (EdgesSome plan base) [] tops {} ⟨by simp, by simp, fun X deps hX => by
    simp at hX⟩ fun before id after _ edges h => ?_
  refine ((plan.ends_dependencesOf base id).mono (fun _ h => h) fun _ => .of_evidence).bind
    fun deps hdeps => ?_
  have hget (Y : ModuleId) : (Std.TreeMap.insert edges id deps)[Y]? =
      if id = Y then some deps else edges[Y]? := treeMap_getElem?_insert _ _ _ _
  constructor
  · intro Y hY
    show ∃ deps', (Std.TreeMap.insert edges id deps)[Y]? = some deps'
    rw [hget]
    split_ifs with hid
    · exact ⟨deps, rfl⟩
    · rcases List.mem_append.1 hY with hY | hY
      · exact h.covers Y hY
      · exact absurd (List.mem_singleton.1 hY).symm hid
  · intro Y deps' hY
    replace hY : (Std.TreeMap.insert edges id deps)[Y]? = some deps' := hY
    rw [hget] at hY
    split_ifs at hY with hid
    · exact List.mem_append_right _ (List.mem_singleton.2 hid.symm)
    · exact List.mem_append_left _ (h.known Y deps' hY)
  · intro Y deps' hY
    replace hY : (Std.TreeMap.insert edges id deps)[Y]? = some deps' := hY
    rw [hget] at hY
    split_ifs at hY with hid
    · cases hY
      subst hid
      exact hdeps
    · exact h.summarizes Y deps' hY

theorem result_reportSplit (table : ModuleTable) (split : SplitPackages) :
    (reportSplit table split).result = .ok () := by
  unfold reportSplit
  rw [Logged.result_forM]
  induction split.toList with
  | nil => rfl
  | cons entry rest ih =>
    show (Except.ok () : Except BuildError Unit) >>= (fun _ => _) = _
    exact ih

theorem ends_requireSources (table : ModuleTable) (sources : List String) :
    Ends (sources.forM fun source => do
        let _ ← table.require source "[[dependency]] from"
        return ())
      (fun _ => True) ResolutionError := by
  refine Ends.forM fun source _ => ?_
  unfold ModuleTable.require
  cases table.find source with
  | none => exact .unknownModule _ _
  | some id => exact trivial

/-- Whatever is collected, is collected from all evidence. -/
theorem ends_collect (plan : BuildPlan) (p : Partition) :
    Ends (plan.collect p).result (plan.Collects p) ResolutionError := by
  simp only [collect, Logged.result_bind, Logged.result_emit, Logged.result_forM,
    Logged.result_foldlM, Logged.result_ofExcept, Logged.result_pure, Logged.result_liftM,
    result_reportSplit]
  refine .ok_bind (.ok_bind ((ends_requireSources p.table _).bind fun _ _ => ?_))
  refine (Ends.foldlM (fun _ => True) trivial fun surfaces _ top _ =>
    ends_addViews p.table surfaces top).bind fun surfaces _ => ?_
  refine (ends_collectEdges plan ⟨p.table, p.registry, surfaces⟩ p.table.topLevel).bind
    fun edges h => ?_
  have hgathered (X : ModuleId) (deps : Dependences)
      (hX : ((SplitPackages.detect (plan.topPackages p)).promoteEdges edges).1[X]? = some deps) :
      ∃ raw, edges[X]? = some raw ∧
        deps = (SplitPackages.detect (plan.topPackages p)).promoted X raw := by
    rw [SplitPackages.getElem?_promoteEdges, Option.map_eq_some_iff] at hX
    obtain ⟨raw, hraw, heq⟩ := hX
    exact ⟨raw, hraw, heq.symm⟩
  have hall (X : ModuleId) (deps : Dependences)
      (hX : ((SplitPackages.detect (plan.topPackages p)).promoteEdges edges).1[X]? = some deps) :
      plan.Gathered ⟨p.table, p.registry, surfaces⟩ (SplitPackages.detect (plan.topPackages p)) X
        deps := by
    obtain ⟨raw, hraw, rfl⟩ := hgathered X deps hX
    exact ⟨raw, h.summarizes X raw hraw, fun D => SplitPackages.getElem?_promoted _ X raw D⟩
  refine ⟨rfl, rfl, rfl, ⟨fun X hX => ?_, fun X deps hX => ?_, fun X deps hX => ?_⟩, hall⟩
  · obtain ⟨raw, hraw⟩ := h.covers X (mem_topLevel.2 hX)
    refine ⟨(SplitPackages.detect (plan.topPackages p)).promoted X raw, ?_⟩
    show ((SplitPackages.detect (plan.topPackages p)).promoteEdges edges).1[X]? = _
    rw [SplitPackages.getElem?_promoteEdges, hraw]
    rfl
  · obtain ⟨raw, hraw, -⟩ := hgathered X deps hX
    exact mem_topLevel.1 (h.known X raw hraw)
  · exact (hall X deps hX).keyed

/-! ## The outcome -/

theorem nodup_topLevel (table : ModuleTable) : table.topLevel.Nodup :=
  List.nodup_range.filter _

end BuildPlan

/-- What the evidence for the dependences of an outcome is read from. -/
def Outcome.base (outcome : Outcome) : EvidenceBase :=
  ⟨outcome.table, outcome.partition.registry, outcome.surfaces⟩

namespace BuildPlan

variable {plan : BuildPlan} {policy : ExporterPolicy} {X : ModuleId}

/-- The finished modules are the top-level ones, each made of what was gathered for it. -/
structure Finishes (plan : BuildPlan) (policy : ExporterPolicy) (base : EvidenceBase)
    (split : SplitPackages) (infos : ModuleInfos) : Prop where
  exists_info_iff : ∀ X : ModuleId, (∃ info, infos[X]? = some info) ↔ X ∈ base.table.topLevel
  finished : ∀ (X : ModuleId) info, infos[X]? = some info →
    ∃ deps, plan.Gathered base split X deps ∧ base.Finished policy X deps info

namespace Finishes

variable {base : EvidenceBase} {split : SplitPackages} {infos : ModuleInfos} {info : ModuleInfo}

/-- A finished module requires other top-level modules, under their names. -/
theorem target (h : plan.Finishes policy base split infos) (hinfo : infos[X]? = some info)
    {dep : Dependence} (hdep : dep ∈ info.requires) :
    dep.module ≠ X ∧ dep.module ∈ base.table.topLevel ∧
      dep.moduleName = base.table.name dep.module := by
  obtain ⟨deps, hdeps, hfinished⟩ := h.finished X info hinfo
  obtain ⟨hne, htop, hname⟩ := hfinished.target hdeps.keyed hdep
  exact ⟨hne, mem_topLevel.2 htop, hname⟩

theorem numbered (h : plan.Finishes policy base split infos) : Graph.Numbered infos := by
  intro X info hinfo
  obtain ⟨deps, -, hfinished⟩ := h.finished X info hinfo
  exact hfinished.module_eq

theorem closed (h : plan.Finishes policy base split infos) : infos.Closed := by
  intro X info hinfo dep hdep
  exact (h.exists_info_iff _).2 (h.target hinfo hdep).2.1

/-- No edge of the graph leads out of it. -/
theorem closed_ofInfos (h : plan.Finishes policy base split infos) :
    (Graph.ofInfos infos).Closed := by
  intro X t ht
  obtain ⟨info, hX, dep, hdep, -, rfl⟩ :=
    (Graph.mem_requires_ofInfos h.numbered h.closed).1 ht
  exact (Graph.mem_nodes_ofInfos h.numbered).2 (h.closed X info hX dep hdep)

/-- The nodes of the graph are the top-level modules. -/
theorem perm_keys (h : plan.Finishes policy base split infos) :
    (Graph.ofInfos infos).nodes.keys.Perm base.table.topLevel := by
  refine (List.perm_ext_iff_of_nodup (treeMap_keys_nodup _) (nodup_topLevel _)).2 fun X => ?_
  rw [Std.TreeMap.mem_keys, Graph.mem_nodes_ofInfos h.numbered, h.exists_info_iff]

end Finishes

theorem Collects.ends_finish {p : Partition} (hi : p.table.Indexed) (policy : ExporterPolicy)
    {collected : Collected} (h : plan.Collects p collected) :
    Ends (finishAll policy collected).result
      (plan.Finishes policy collected.base collected.split) ResolutionError := by
  refine (ends_finishAll policy collected (h.table_eq ▸ hi) h.edges).mono
    (fun infos hinfos => ⟨fun X => ?_, fun X info hX => ?_⟩) fun _ => .of_finish
  · rw [mem_topLevel]
    constructor
    · intro hex
      obtain ⟨info, hinfo⟩ := hex
      obtain ⟨deps, hdeps, -⟩ := hinfos.finished X info hinfo
      exact h.edges.topLevel X deps hdeps
    · intro htop
      obtain ⟨deps, hdeps⟩ := h.edges.covers X htop
      exact hinfos.covers X deps hdeps
  · obtain ⟨deps, hdeps, hfinished⟩ := hinfos.finished X info hX
    exact ⟨deps, h.gathered X deps hdeps, hfinished⟩

/-- What the resolution of a module graph establishes. -/
structure Resolution (plan : BuildPlan) (policy : ExporterPolicy) (outcome : Outcome) : Prop
    extends plan.Finishes policy outcome.base outcome.split outcome.infos where
  split_eq : outcome.split = SplitPackages.detect (plan.topPackages outcome.partition)
  order_perm : outcome.order.Perm outcome.table.topLevel
  resolved : (Graph.ofInfos outcome.infos).Resolved outcome.order.reverse

/-- A resolution that succeeds resolves the whole graph, and one that fails blames a name, a view or
a cycle. -/
theorem ends_resolve (plan : BuildPlan) {p : Partition} (hi : p.table.Indexed)
    (policy : ExporterPolicy) (seeds : List ModuleId) :
    Ends (plan.resolve p policy seeds).result
      (fun outcome => outcome.partition = p ∧ plan.Resolution policy outcome) ResolutionError := by
  simp only [resolve, Logged.result_bind, Logged.result_liftM, Logged.result_emit,
    Logged.result_pure]
  refine (ends_collect plan p).bind fun collected hcollected => ?_
  have hbase : collected.base = ⟨p.table, p.registry, collected.base.surfaces⟩ := by
    rw [← hcollected.table_eq, ← hcollected.registry_eq]
  refine (Collects.ends_finish hi policy hcollected).bind fun infos hinfos => ?_
  refine ((Graph.ends_loadOrder hinfos.closed_ofInfos seeds).mono (fun _ h => h)
    fun _ => .of_cycle).bind fun order ⟨hperm, hresolved⟩ => ?_
  rw [hbase] at hinfos
  exact .ok_bind ⟨rfl, hinfos, hcollected.split_eq, hperm.trans hinfos.perm_keys, hresolved⟩

end BuildPlan

end ModuleGraph
