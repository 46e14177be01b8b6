import ModuleGraph.Proofs.Renaming.Evidence
import ModuleGraph.Proofs.RelatedMaps
import ModuleGraph.Proofs.Renaming.Surfaces
import ModuleGraph.Proofs.Resolution

/-!
# Resolution up to the numbers of classes

What is collected from two partitions that are the same up to a renaming is the same: split packages
and views literally, dependences entry by entry. From there on no class is mentioned any more, so
the finished modules and their order are literally the same (`BuildPlan.alike_resolve`).
-/

namespace ModuleGraph

variable {σ : Equiv.Perm ClassId}

/-! ## Collecting -/

/-- The same evidence and edges, with the classes renumbered. -/
structure BuildPlan.Collected.Renamed (σ : Equiv.Perm ClassId) (a b : BuildPlan.Collected) :
    Prop where
  base : a.base.Renamed σ b.base
  packages : ∀ id, Std.TreeMap.Equiv (a.base.surfaces.packages.getD id {})
    (b.base.surfaces.packages.getD id {})
  edges : ∀ X : ModuleId, Option.Rel Std.TreeMap.Equiv a.edges[X]? b.edges[X]?
  split_eq : b.split = a.split

theorem SplitPackages.equiv_promoted (split : SplitPackages) (X : ModuleId)
    {deps deps' : Dependences} (h : Std.TreeMap.Equiv deps deps') :
    Std.TreeMap.Equiv (split.promoted X deps) (split.promoted X deps') := by
  refine .of_forall_constGet?_eq fun D => ?_
  rw [getElem?_promoted, getElem?_promoted, h.getElem?_eq]

namespace EvidenceBase.Renamed

open Dependences

variable {b b' : EvidenceBase} {plan : BuildPlan} {policy : ExporterPolicy} {top : ModuleId}

theorem alike_collectEdges (h : b.Renamed σ b') (hplan : plan.ByName) (tops : List ModuleId) :
    Alike (fun edges edges' : EdgeMap =>
        ∀ X : ModuleId, Option.Rel (Match b.table.name) edges[X]? edges'[X]?)
      (tops.foldlM
        (fun (edges : EdgeMap) id => do
          let deps ← (plan.dependencesOf b id).result
          return edges.insert id deps)
        {})
      (tops.foldlM
        (fun (edges : EdgeMap) id => do
          let deps ← (plan.dependencesOf b' id).result
          return edges.insert id deps)
        {}) := by
  refine Alike.foldlM_same tops (fun X => ?_) fun edges edges' id hedges _ => ?_
  · rw [Std.TreeMap.getElem?_emptyc]
    exact .none
  · refine (h.alike_dependencesOf hplan id).bind fun deps deps' hdeps X => ?_
    show Option.Rel _ (Std.TreeMap.insert edges id deps)[X]?
      (Std.TreeMap.insert edges' id deps')[X]?
    rw [treeMap_getElem?_insert, treeMap_getElem?_insert]
    split_ifs
    · exact .some hdeps
    · exact hedges X

/-! ## Finishing -/

theorem keep_eq (h : b.Renamed σ b') : b'.keep policy top = b.keep policy top := by
  funext kept dep
  unfold keep applyPolicy
  simp only [h.table.name_eq, h.table.isTopLevel_eq]

theorem bind_eq (h : b.Renamed σ b') : b'.bind top = b.bind top := by
  funext dep
  unfold EvidenceBase.bind
  rw [h.table.any_eq (·.spec.allowLocalDefault) (fun _ => rfl), h.viewsOf_eq, h.table.name_eq]

theorem addPermits_eq (h : b.Renamed σ b') : b'.addPermits = b.addPermits := by
  funext info m
  unfold addPermits
  simp only [h.table.requireGroup_eq]

theorem finish_eq (h : b.Renamed σ b') {deps deps' : Dependences}
    (hdeps : deps'.values = deps.values) :
    b'.finish policy top deps' = b.finish policy top deps := by
  have hpermits (info : ModuleInfo) : (b'.table.groupModules top).foldlM b.addPermits info =
      (b.table.groupModules top).foldlM b.addPermits info :=
    h.table.groupModules_congr (fun l => l.foldlM b.addPermits info)
      (fun l => by rw [List.foldlM_map]; rfl) top
  unfold finish
  simp only [h.keep_eq, h.bind_eq, h.addPermits_eq, h.viewsOf_eq, h.table.name_eq, hdeps,
    h.table.elim_eq "" (·.spec.version) (fun _ => rfl), hpermits]

end EvidenceBase.Renamed

namespace BuildPlan

variable {a b : Collected} {p q : Partition} {plan : BuildPlan}

theorem alike_finishAll (h : a.Renamed σ b) (policy : ExporterPolicy) :
    Alike (fun infos infos' => infos' = infos) (finishAll policy a).result
      (finishAll policy b).result := by
  simp only [finishAll, Logged.result_bind, Logged.result_foldlM]
  refine (Alike.foldlM (MapRel.forall₂_toList h.edges) rfl fun infos infos' x y heq hxy => ?_).bind
    fun infos infos' heq => ?_
  · obtain ⟨X, deps⟩ := x
    obtain ⟨_, deps'⟩ := y
    obtain ⟨rfl, hdeps⟩ := hxy
    refine Alike.of_eq ?_ fun _ => rfl
    unfold EvidenceBase.finishInto
    rw [heq, h.base.finish_eq hdeps.values_eq.symm]
  · exact Alike.of_eq (by rw [heq]) fun _ => rfl

theorem alike_collect (h : p.Renamed σ q) (hplan : plan.ByName) :
    Alike (Collected.Renamed σ) (plan.collect p).result (plan.collect q).result := by
  have hpackages (id : ModuleId) := h.equiv_packagesOf plan.options.exported id
  simp only [collect, Logged.result_bind, Logged.result_emit, Logged.result_forM,
    Logged.result_foldlM, Logged.result_ofExcept, Logged.result_pure, Logged.result_liftM,
    result_reportSplit, h.table.topLevel_eq, h.table.require_eq,
    SplitPackages.detect_eq p.table.topLevel hpackages]
  refine Alike.bind_same _ fun _ => Alike.bind_same _ fun _ => Alike.bind_same _ fun _ => ?_
  refine (Alike.foldlM_same _ (Surfaces.same_ofPackages (nodup_topLevel _) hpackages)
    fun a b top hab _ => Surfaces.alike_addViews h.table hab top).bind
    fun surfaces surfaces' hsurfaces => ?_
  have hbase : EvidenceBase.Renamed σ ⟨p.table, p.registry, surfaces⟩
      ⟨q.table, q.registry, surfaces'⟩ :=
    ⟨h.table, h.registry, hsurfaces.views_eq, hsurfaces.owners_eq⟩
  refine (hbase.alike_collectEdges hplan _).bind fun edges edges' hedges => ?_
  refine ⟨hbase, hsurfaces.packages, fun X => ?_, rfl⟩
  show Option.Rel _ (SplitPackages.promoteEdges _ edges).1[X]?
    (SplitPackages.promoteEdges _ edges').1[X]?
  rw [SplitPackages.getElem?_promoteEdges, SplitPackages.getElem?_promoteEdges]
  exact rel_map (hedges X) fun deps deps' hdeps => SplitPackages.equiv_promoted _ X hdeps.equiv

end BuildPlan

/-! ## The whole resolution -/

/-- The same outcome, with the classes renumbered. -/
structure Outcome.Renamed (σ : Equiv.Perm ClassId) (a b : Outcome) : Prop where
  partition : a.partition.Renamed σ b.partition
  packages : ∀ id, Std.TreeMap.Equiv (a.surfaces.packages.getD id {})
    (b.surfaces.packages.getD id {})
  infos_eq : b.infos = a.infos
  order_eq : b.order = a.order
  split_eq : b.split = a.split

namespace BuildPlan

variable {p q : Partition} {plan : BuildPlan}

theorem alike_resolve (h : p.Renamed σ q) (hplan : plan.ByName) (policy : ExporterPolicy)
    (seeds : List ModuleId) :
    Alike (Outcome.Renamed σ) (plan.resolve p policy seeds).result
      (plan.resolve q policy seeds).result := by
  simp only [resolve, Logged.result_bind, Logged.result_liftM, Logged.result_emit,
    Logged.result_pure]
  refine (alike_collect h hplan).bind fun a b hab => ?_
  refine (alike_finishAll hab policy).bind fun infos _ hinfos => ?_
  subst hinfos
  refine Alike.bind_same _ fun order => ?_
  exact ⟨h, hab.packages, rfl, rfl, hab.split_eq⟩

end BuildPlan

end ModuleGraph
