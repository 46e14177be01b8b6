import ModuleGraph.Platform
import ModuleGraph.Proofs.Renaming.Partitions

/-!
# The preparation up to the numbers of classes

The preparation of a platform asks of classes only whether a module holds one of an exported
package. So it turns tables that are the same up to a renaming into such tables, with one exporter
policy for both (`PlatformPlan.alike_prepare`).
-/

namespace ModuleGraph

variable {σ : Equiv.Perm ClassId}

namespace ModuleTable.Renamed

variable {t u : ModuleTable}

theorem addRequirement (h : t.Renamed σ u) (id : ModuleId) (requirement : Requirement) :
    (t.addRequirement id requirement).Renamed σ (u.addRequirement id requirement) := by
  refine h.modify id fun m n hmn => ?_
  have heq : n.extraRequires = m.extraRequires := congrArg (·.extraRequires) hmn.outline_eq
  rw [heq]
  split_ifs
  · exact hmn
  · exact hmn.change (f := fun k => { k with extraRequires := m.extraRequires ++ [requirement] })
      (fun _ => rfl) (fun _ => rfl) (fun _ => rfl) (fun _ => rfl)

theorem addPermit (h : t.Renamed σ u) (id : ModuleId) (permit : String) :
    (t.addPermit id permit).Renamed σ (u.addPermit id permit) := by
  refine h.modify id fun m n hmn => ?_
  have heq : n.extraPermits = m.extraPermits := congrArg (·.extraPermits) hmn.outline_eq
  rw [heq]
  split_ifs
  · exact hmn
  · exact hmn.change (f := fun k => { k with extraPermits := m.extraPermits ++ [permit] })
      (fun _ => rfl) (fun _ => rfl) (fun _ => rfl) (fun _ => rfl)

end ModuleTable.Renamed

namespace PlatformPlan

variable {t u : ModuleTable} {r s : Registry} {platform : PlatformPlan}

/-! ## Exporters -/

theorem alike_ensureAggregate (platform : PlatformPlan) (h : t.Renamed σ u) (name : String) :
    Alike (fun a b => a.1.Renamed σ b.1 ∧ b.2 = a.2) (platform.ensureAggregate t name).result
      (platform.ensureAggregate u name).result := by
  unfold ensureAggregate
  rw [h.find_eq]
  cases t.find name with
  | some id => exact ⟨h, h.group_eq id⟩
  | none =>
    simp only [Logged.result_bind, Logged.result_emit, Logged.result_liftM]
    exact h.alike_add _

theorem holdsExported_eq (platform : PlatformPlan) (h : t.Renamed σ u) (hr : r.Renamed σ s)
    (id : ModuleId) : platform.holdsExported s u id = platform.holdsExported r t id := by
  have hclass (c : ClassId) :
      ((s.classes[σ c]?).any fun entry => platform.plan.options.exported.admits entry.package) =
        (r.classes[c]?).any fun entry => platform.plan.options.exported.admits entry.package := by
    rw [Bool.eq_iff_iff, Option.any_eq_true, Option.any_eq_true]
    exact (hr.exists_class_iff fun e f hef => by rw [hef.package_eq]).symm
  unfold holdsExported
  rw [Bool.eq_iff_iff, List.any_eq_true, List.any_eq_true]
  constructor
  · rintro ⟨c, hc, hadmits⟩
    rw [← σ.apply_symm_apply c] at hc hadmits
    exact ⟨σ.symm c, h.mem_classes.2 hc, (hclass _).symm.trans hadmits⟩
  · rintro ⟨c, hc, hadmits⟩
    exact ⟨σ c, h.mem_classes.1 hc, (hclass c).trans hadmits⟩

theorem alike_exporterOf (platform : PlatformPlan) (h : t.Renamed σ u) (hr : r.Renamed σ s)
    (id : ModuleId) (publicName : String) :
    Alike (fun a b => a.1.Renamed σ b.1 ∧ b.2 = a.2)
      (platform.exporterOf r t id publicName).result
      (platform.exporterOf s u id publicName).result := by
  unfold exporterOf
  rw [h.find_eq, platform.holdsExported_eq h hr]
  cases t.find publicName with
  | some existing => exact ⟨h, congrArg some (h.group_eq existing)⟩
  | none =>
    dsimp only
    split_ifs
    · simp only [Logged.result_bind]
      refine (platform.alike_ensureAggregate h publicName).bind fun a b ⟨hab, heq⟩ => ?_
      exact ⟨hab, congrArg some heq⟩
    · exact ⟨h, rfl⟩

/-- The same exporters, with tables that are the same up to a renaming. -/
def Exporters.Renamed (σ : Equiv.Perm ClassId) (a b : Exporters) : Prop :=
  a.table.Renamed σ b.table ∧ b.exporters = a.exporters

theorem alike_pairExporter (platform : PlatformPlan) (hr : r.Renamed σ s) {a b : Exporters}
    (h : a.Renamed σ b) (id : ModuleId) :
    Alike (Exporters.Renamed σ) (platform.pairExporter r a id).result
      (platform.pairExporter s b id).result := by
  obtain ⟨htable, hexporters⟩ := h
  unfold pairExporter
  simp only [htable.name_eq, hexporters]
  split
  · exact ⟨htable, hexporters⟩
  · simp only [Logged.result_bind]
    refine (platform.alike_exporterOf htable hr id _).bind fun x y ⟨hxy, heq⟩ => ?_
    obtain ⟨t', exporter⟩ := x
    obtain ⟨u', exporter'⟩ := y
    cases heq
    cases exporter with
    | none => exact ⟨hxy, rfl⟩
    | some E =>
      have hxy' : t'.Renamed σ u' := hxy
      simp only [hxy'.name_eq]
      split_ifs
      · exact ⟨hxy, rfl⟩
      · exact ⟨(hxy.addPermit _ _).addRequirement _ _, rfl⟩

theorem alike_pairExporters (platform : PlatformPlan) (h : t.Renamed σ u) (hr : r.Renamed σ s) :
    Alike (Exporters.Renamed σ) (platform.pairExporters r t).result
      (platform.pairExporters s u).result := by
  unfold pairExporters
  rw [Logged.result_foldlM, Logged.result_foldlM, h.topLevel_eq]
  exact Alike.foldlM_same _ ⟨h, rfl⟩ fun a b id hab _ => platform.alike_pairExporter hr hab id

/-! ## Aggregates -/

theorem privileged_eq (h : t.Renamed σ u) (boot base : ModuleId) :
    privileged u boot base = privileged t boot base := by
  have hconnected (top : ModuleId) : isBootConnected u boot top = isBootConnected t boot top := by
    unfold isBootConnected
    simp only [h.find_eq, h.group_eq]
    exact h.groupModules_congr
      (List.any · fun m => m.spec.requires.any fun requirement =>
        (t.find requirement.name).any fun target => t.group target == boot)
      (fun l => by rw [List.any_map]; rfl) top
  unfold privileged
  rw [h.topLevel_eq]
  simp only [hconnected]

theorem renamed_aggregate (platform : PlatformPlan) (h : t.Renamed σ u)
    (exporters : Std.TreeMap ModuleId ModuleId) (privileged : Std.TreeSet ModuleId)
    (aggregates : Aggregates) (id : ModuleId) :
    (platform.aggregate exporters privileged aggregates t id).Renamed σ
      (platform.aggregate exporters privileged aggregates u id) := by
  unfold aggregate
  simp only [h.name_eq]
  split_ifs
  · exact h
  · exact (h.addRequirement _ _).addRequirement _ _
  · exact h.addRequirement _ _

/-! ## The whole preparation -/

/-- The same preparation, with tables that are the same up to a renaming. -/
structure Prepared.Renamed (σ : Equiv.Perm ClassId) (a b : Prepared) : Prop where
  table : a.table.Renamed σ b.table
  policy_eq : b.policy = a.policy
  seeds_eq : b.seeds = a.seeds

theorem alike_prepare (platform : PlatformPlan) {p q : Partition} (h : p.Renamed σ q)
    (boot base : ModuleId) :
    Alike (Prepared.Renamed σ) (platform.prepare p boot base).result
      (platform.prepare q boot base).result := by
  unfold prepare
  simp only [h.table.group_eq]
  split_ifs
  · exact .error
  · simp only [Logged.result_bind, Logged.result_emit, Logged.result_pure]
    refine (platform.alike_ensureAggregate h.table _).bind fun jdk jdk' ⟨hjdk, heq⟩ => ?_
    refine (platform.alike_ensureAggregate hjdk _).bind fun jre jre' ⟨hjre, heq'⟩ => ?_
    refine (platform.alike_pairExporters hjre h.registry).bind fun a b ⟨htable, hexporters⟩ => ?_
    have hboot := htable.addRequirement (p.table.group base)
      (reexport (a.table.name (p.table.group boot)))
    rw [heq, heq', hexporters, htable.name_eq, privileged_eq hboot, hboot.topLevel_eq]
    refine ⟨?_, rfl, rfl⟩
    exact List.foldl_rel hboot fun id _ t u htu => platform.renamed_aggregate htu _ _ _ id

end PlatformPlan

end ModuleGraph
