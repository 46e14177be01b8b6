import ModuleGraph.Proofs.Builder

/-!
# The order of a build

The order of a successful build lists the top-level modules, each once and after every module that
it requires and does not call optional. The report of the build has one report for each of them, in
this order.

* `Outcome.Ordered`: the statement, in terms of the outcome alone.
* `Builder.ordered_of_build`: the outcome of either variant is ordered.
-/

namespace ModuleGraph

/-- A module of an outcome stands after all modules that it requires and does not call optional, and
the graph that the order was made from has all of these requirements. -/
structure Outcome.Placed (outcome : Outcome) (X : ModuleId) (info : ModuleInfo)
    (before after : List ModuleId) : Prop where
  info_eq : outcome.infos[X]? = some info
  split : outcome.order = before ++ X :: after
  other : ∀ dep ∈ info.requires, dep.modifiers.isOptional = false → dep.module ≠ X
  earlier : ∀ dep ∈ info.requires, dep.modifiers.isOptional = false → dep.module ∈ before
  recorded : ∀ dep ∈ info.requires, dep.modifiers.isOptional = false →
    dep.module ∈ (Graph.ofInfos outcome.infos).requires X

/-- The order lists the top-level modules, each once and in its place, and there is one report for
each of them in this order. -/
structure Outcome.Ordered (outcome : Outcome) : Prop where
  perm : outcome.order.Perm outcome.table.topLevel
  nodup : outcome.order.Nodup
  placed : ∀ X ∈ outcome.order, ∃ info before after, outcome.Placed X info before after
  reports : outcome.reports.map some = outcome.order.map outcome.report?
  names : outcome.reports.map (·.name) = outcome.orderedNames
  emitted : ∀ {m : Type → Type} [Monad m] (sink : ReportSink m), outcome.emit sink = do
    sink.begin outcome.orderedNames
    outcome.order.forM fun X => (outcome.report? X).forM sink.module
    sink.finish outcome.splitReports

/-! ## Lists of which nothing is filtered out -/

section

variable {α β : Type} {f : α → Option β} {xs : List α}

theorem map_filterMap_of_forall {γ : Type} {g : β → γ} {k : α → γ}
    (h : ∀ x ∈ xs, ∃ y, f x = some y ∧ g y = k x) : (xs.filterMap f).map g = xs.map k := by
  induction xs with
  | nil => rfl
  | cons x xs ih =>
    obtain ⟨y, hy, hk⟩ := h x (List.mem_cons_self ..)
    rw [List.filterMap_cons_some hy, List.map_cons, List.map_cons, hk,
      ih fun x hx => h x (List.mem_cons_of_mem _ hx)]

theorem forM_filterMap {m : Type → Type} [Monad m] {act : β → m Unit}
    (h : ∀ x ∈ xs, ∃ y, f x = some y) :
    (xs.filterMap f).forM act = xs.forM fun x => (f x).forM act := by
  induction xs with
  | nil => rfl
  | cons x xs ih =>
    obtain ⟨y, hy⟩ := h x (List.mem_cons_self ..)
    have hrest := ih fun x hx => h x (List.mem_cons_of_mem _ hx)
    rw [List.filterMap_cons_some hy]
    simp only [List.forM_eq_forM, List.forM_cons, hy] at hrest ⊢
    rw [hrest]
    rfl

end

/-! ## The order and the reports -/

namespace BuildPlan.Resolution

variable {plan : BuildPlan} {policy : ExporterPolicy} {outcome : Outcome} {X : ModuleId}

theorem nodup_order (h : plan.Resolution policy outcome) : outcome.order.Nodup :=
  h.order_perm.nodup_iff.2 (nodup_topLevel _)

theorem exists_info (h : plan.Resolution policy outcome) (hX : X ∈ outcome.order) :
    ∃ info, outcome.infos[X]? = some info :=
  (h.exists_info_iff X).2 (h.order_perm.mem_iff.1 hX)

theorem exists_module (h : plan.Resolution policy outcome) (hX : X ∈ outcome.order) :
    ∃ m, outcome.table.get? X = some m := by
  have htop := List.mem_filter.1 (h.order_perm.mem_iff.1 hX)
  exact ModuleTable.exists_get? (ModuleTable.mem_ids.1 htop.1)

/-- A module of the order and its place. -/
theorem exists_placed (h : plan.Resolution policy outcome) (hX : X ∈ outcome.order) :
    ∃ info before after, outcome.Placed X info before after := by
  obtain ⟨info, hinfo⟩ := h.exists_info hX
  obtain ⟨before, after, hsplit⟩ := List.append_of_mem hX
  have hrecorded (dep : Dependence) (hdep : dep ∈ info.requires)
      (hfirm : dep.modifiers.isOptional = false) :
      dep.module ∈ (Graph.ofInfos outcome.infos).requires X := by
    rw [Graph.mem_requires_ofInfos h.numbered h.closed]
    exact ⟨info, hinfo, dep, hdep, hfirm, rfl⟩
  refine ⟨info, before, after, hinfo, hsplit, ?_, ?_, hrecorded⟩
  · intro dep hdep _
    exact (h.target hinfo hdep).1
  · intro dep hdep hfirm
    -- seen from its end, the order lists the requirements of a module after it
    have hreverse : outcome.order.reverse = after.reverse ++ X :: before.reverse := by
      rw [hsplit]
      simp
    have hmem := h.resolved.mem_after hreverse (hrecorded dep hdep hfirm)
    exact List.mem_reverse.1 hmem

/-- Every module of the order has a report under its name. -/
theorem exists_report (h : plan.Resolution policy outcome) (hX : X ∈ outcome.order) :
    ∃ report, outcome.report? X = some report ∧ report.name = outcome.table.name X := by
  obtain ⟨info, hinfo⟩ := h.exists_info hX
  obtain ⟨deps, -, hfinished⟩ := h.finished X info hinfo
  obtain ⟨m, hm⟩ := h.exists_module hX
  unfold Outcome.report?
  rw [hinfo, hm]
  exact ⟨_, rfl, hfinished.name_eq⟩

/-- No module of the order is left out of the reports. -/
theorem exists_report? (h : plan.Resolution policy outcome) :
    ∀ X ∈ outcome.order, ∃ report, outcome.report? X = some report := by
  intro X hX
  obtain ⟨report, hreport, -⟩ := h.exists_report hX
  exact ⟨report, hreport⟩

theorem ordered (h : plan.Resolution policy outcome) : outcome.Ordered where
  perm := h.order_perm
  nodup := h.nodup_order
  placed _ hX := h.exists_placed hX
  reports := map_filterMap_of_forall fun X hX =>
    (h.exists_report? X hX).imp fun _ hreport => ⟨hreport, hreport.symm⟩
  names := map_filterMap_of_forall fun _ hX => h.exists_report hX
  emitted sink := by
    unfold Outcome.emit Outcome.reports
    rw [forM_filterMap h.exists_report?]

end BuildPlan.Resolution

/-- Whatever the configuration, a successful build of a registry without owners puts the top-level
modules in order. -/
theorem Builder.ordered_of_build (builder : Builder) (registry : Registry) (outcome : Outcome)
    (hregistry : registry.Unowned) (hbuild : (builder.build registry).result = .ok outcome) :
    outcome.Ordered := by
  obtain ⟨-, policy, hresolution⟩ := (builder.ends_build hregistry).of_ok hbuild
  exact hresolution.ordered

/-- The library stands before the program, and the tool has no place of its own. -/
theorem Builder.ordered_sample :
    ∃ outcome, ((Builder.plain .sample).build .sample).result = .ok outcome ∧
      outcome.orderedNames = ["lib", "app"] ∧ outcome.Ordered := by
  have hrun : ∃ outcome, ((Builder.plain .sample).build .sample).result = .ok outcome ∧
      outcome.orderedNames = ["lib", "app"] := by decide +kernel
  obtain ⟨outcome, hbuild, hnames⟩ := hrun
  have hregistry : Registry.sample.Unowned := (Registry.pristine_populate _).unowned
  exact ⟨outcome, hbuild, hnames, ordered_of_build _ _ outcome hregistry hbuild⟩

end ModuleGraph
