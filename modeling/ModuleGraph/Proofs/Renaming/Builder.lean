import Mathlib.Data.List.Sort
import Mathlib.Data.String.Basic
import ModuleGraph.Proofs.Builder
import ModuleGraph.Proofs.Renaming.Claims
import ModuleGraph.Proofs.Renaming.Members
import ModuleGraph.Proofs.Renaming.Preparation
import ModuleGraph.Proofs.Renaming.Resolution
import ModuleGraph.Report.Basic

/-!
# Builds up to the numbers of classes

Builds of registries that are the same up to a renaming go alike: both fail, or their outcomes are
the same up to that renaming (`Builder.alike_build`). Reports speak of classes by their names, so
they are the same, but for the order of the unresolved references (`Outcome.Renamed.agrees`).
-/

namespace ModuleGraph

variable {σ : Equiv.Perm ClassId}

/-! ## Both variants -/

/-- A table without claims is the same under every renaming. -/
theorem ModuleTable.Fresh.renamed {t : ModuleTable} (h : t.Fresh) (σ : Equiv.Perm ClassId) :
    t.Renamed σ t where
  index_eq := rfl
  modules id := by
    cases hm : t.get? id with
    | none => exact .none
    | some m =>
      rw [h id m hm]
      exact .some ⟨rfl, by simp, by simp, by simp⟩

theorem BuildPlan.alike_createModules (plan : BuildPlan) (σ : Equiv.Perm ClassId) :
    Alike (fun t u : ModuleTable => u = t ∧ t.Renamed σ t ∧ t.Indexed) plan.createModules
      plan.createModules := by
  have hends := ends_createModules plan
  cases hcreate : plan.createModules with
  | error e => exact .error
  | ok table =>
    obtain ⟨hi, hfresh, -⟩ := hends.of_ok hcreate
    exact ⟨rfl, hfresh.renamed σ, hi⟩

namespace Builder

variable {r s : Registry}

theorem alike_build (builder : Builder) (hplan : builder.plan.ByName) (h : r.Renamed σ s) :
    Alike (Outcome.Renamed σ) (builder.build r).result (builder.build s).result := by
  cases builder with
  | plain plan =>
    simp only [build, BuildPlan.build, Logged.result_bind, Logged.result_liftM]
    refine (plan.alike_createModules σ).bind fun table _ hcreated => ?_
    obtain ⟨rfl, htable, hi⟩ := hcreated
    refine (Partition.Renamed.alike_assignUnits ⟨h, htable⟩ hi plan).bind fun p q hpq => ?_
    refine (hpq.alike_mergeMembers plan).bind fun p q hpq => ?_
    exact BuildPlan.alike_resolve hpq hplan _ _
  | platform platform =>
    simp only [build, PlatformPlan.build, Logged.result_bind, Logged.result_liftM]
    refine (platform.plan.alike_createModules σ).bind fun table _ hcreated => ?_
    obtain ⟨rfl, htable, hi⟩ := hcreated
    refine Alike.bind_same _ fun boot => Alike.bind_same _ fun base => ?_
    refine (Partition.Renamed.alike_assignUnits ⟨h, htable⟩ hi platform.plan).bind
      fun p q hpq => ?_
    refine (hpq.alike_mergeMembers platform.plan).bind fun p q hpq => ?_
    refine (platform.alike_prepare hpq boot base).bind fun a b hab => ?_
    rw [hab.policy_eq, hab.seeds_eq]
    have hprepared : Partition.Renamed σ { p with table := a.table } { q with table := b.table } :=
      ⟨hpq.registry, hab.table⟩
    exact BuildPlan.alike_resolve hprepared hplan _ _

end Builder

/-! ## Outcomes by name -/

/-- Both modules hold classes and resources of the same names, and have unresolved references
between classes of the same names. -/
structure Module.Agrees (r s : Registry) (m n : Module) : Prop where
  outline_eq : n.outline = m.outline
  classes : (m.classes.toList.map r.className).Perm (n.classes.toList.map s.className)
  resources_eq : n.resources.toList.map s.resourcePath = m.resources.toList.map r.resourcePath
  unresolved : (m.unresolved.toList.map fun u => (r.className u.1, r.className u.2)).Perm
    (n.unresolved.toList.map fun u => (s.className u.1, s.className u.2))

theorem Module.Renamed.agrees {m n : Module} (h : m.Renamed σ n) {r s : Registry}
    (hr : r.Renamed σ s) : m.Agrees r s n where
  outline_eq := h.outline_eq
  classes := by
    have hperm := h.perm_classes.map s.className
    rw [List.map_map] at hperm
    rwa [← List.map_congr_left fun c _ => hr.className_eq c]
  resources_eq := by
    rw [h.resources_eq]
    refine List.map_congr_left fun i _ => ?_
    unfold Registry.resourcePath
    rw [hr.resources]
  unresolved := by
    have hperm := h.perm_unresolved.map fun u => (s.className u.1, s.className u.2)
    rw [List.map_map] at hperm
    have hnames (u : Reference) : (s.className (σ u.1), s.className (σ u.2)) =
        (r.className u.1, r.className u.2) := by
      rw [hr.className_eq, hr.className_eq]
    rwa [← List.map_congr_left fun u _ => hnames u]

/-- The same report but for the order of the unresolved references. -/
structure ModuleReport.Agrees (r s : ModuleReport) : Prop where
  resolved_eq : { s with unresolved := [] } = { r with unresolved := [] }
  unresolved : r.unresolved.Perm s.unresolved

/-- Both outcomes have the same modules in the same order, with the same dependences, views, permits
and packages and with classes, resources and unresolved references of the same names, and the same
split packages. -/
structure Outcome.Agrees (a b : Outcome) : Prop where
  order_eq : b.order = a.order
  orderedNames_eq : b.orderedNames = a.orderedNames
  infos_eq : b.infos = a.infos
  modules : ∀ id, Option.Rel (Module.Agrees a.partition.registry b.partition.registry)
    (a.table.get? id) (b.table.get? id)
  reports : List.Forall₂ ModuleReport.Agrees a.reports b.reports
  splitReports_eq : b.splitReports = a.splitReports

namespace Outcome

theorem sorted_eq_of_perm {l l' : List String} (h : l.Perm l') : sorted l' = sorted l := by
  have hsorted (l : List String) : (sorted l).SortedLE := List.sortedLE_mergeSort
  have hperm : (sorted l').Perm (sorted l) :=
    (List.mergeSort_perm ..).trans (h.symm.trans (List.mergeSort_perm ..).symm)
  exact hperm.eq_of_sortedLE (hsorted l') (hsorted l)

namespace Renamed

variable {a b : Outcome}

theorem modules (h : a.Renamed σ b) (id : ModuleId) :
    Option.Rel (Module.Agrees a.partition.registry b.partition.registry) (a.table.get? id)
      (b.table.get? id) :=
  rel_imp (h.partition.table.modules id) fun _ _ hmn => hmn.agrees h.partition.registry

theorem report? (h : a.Renamed σ b) (id : ModuleId) :
    Option.Rel ModuleReport.Agrees (a.report? id) (b.report? id) := by
  have hmodule := h.modules id
  have hpackages := (h.packages id).values_eq
  unfold Outcome.report?
  rw [h.infos_eq, hpackages]
  cases a.infos[id]? with
  | none => exact .none
  | some info =>
    generalize a.table.get? id = x at *
    generalize b.table.get? id = y at *
    cases hmodule with
    | none => exact .none
    | some hmn =>
      refine .some ⟨?_, ?_⟩
      · dsimp only
        rw [sorted_eq_of_perm hmn.classes, hmn.resources_eq]
      · have hunresolved := hmn.unresolved.map fun u => UnresolvedReport.mk u.1 u.2
        rwa [List.map_map, List.map_map] at hunresolved

/-- Outcomes that are the same up to the numbers of classes tell the same. -/
theorem agrees (h : a.Renamed σ b) : a.Agrees b where
  order_eq := h.order_eq
  orderedNames_eq := by
    unfold orderedNames
    rw [h.order_eq]
    exact List.map_congr_left fun id _ => h.partition.table.name_eq id
  infos_eq := h.infos_eq
  modules := h.modules
  reports := by
    unfold reports
    rw [h.order_eq]
    exact List.rel_filterMap (R := Eq) (fun id _ hid => hid ▸ h.report? id)
      (List.forall₂_same.2 fun _ _ => rfl)
  splitReports_eq := by
    unfold splitReports
    rw [h.split_eq]
    refine List.map_congr_left fun split _ => ?_
    exact congrArg (SplitReport.mk split.1)
      (List.map_congr_left fun id _ => h.partition.table.name_eq id)

end Renamed

end Outcome

end ModuleGraph
