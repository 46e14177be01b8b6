import ModuleGraph.Platform
import ModuleGraph.Proofs.Ownership.Division

/-!
# Preparing a table for the platform

The preparation adds empty modules, each its own group, and notes requirements and permits of the
engine beside the declared ones. So it keeps the division of a registry
(`PlatformPlan.ends_prepare`).
-/

namespace ModuleGraph

/-- The module without what the engine adds to its declaration. -/
def Module.plain (m : Module) : Module :=
  { m with extraRequires := [], extraPermits := [] }

namespace ModuleTable

variable {t t' t'' : ModuleTable}

/-- The second table has the modules of the first one, and then new ones that are empty. -/
structure Extends (t t' : ModuleTable) : Prop where
  indexed : t.Indexed → t'.Indexed
  size_le : t.size ≤ t'.size
  old : ∀ {x}, x < t.size → (t'.get? x).map Module.plain = (t.get? x).map Module.plain
  new : ∀ {x m}, t'.get? x = some m → t.size ≤ x → m.plain = { spec := m.spec, group := x }

theorem SameBut.extends (h : t.SameBut Module.plain t') : t.Extends t' where
  indexed ht := (h.less (·.spec)).indexed ht
  size_le := Nat.le_of_eq h.size.symm
  old _ := h.get? _
  new hm hx := absurd (lt_size_of_get? hm) (by rw [h.size]; exact Nat.not_lt_of_ge hx)

theorem Extends.refl (t : ModuleTable) : t.Extends t := (SameBut.refl _ t).extends

theorem Extends.trans (h₁ : t.Extends t') (h₂ : t'.Extends t'') : t.Extends t'' where
  indexed ht := h₂.indexed (h₁.indexed ht)
  size_le := Nat.le_trans h₁.size_le h₂.size_le
  old hx := (h₂.old (Nat.lt_of_lt_of_le hx h₁.size_le)).trans (h₁.old hx)
  new {x m} hm hx := by
    rcases Nat.lt_or_ge x t'.size with hlt | hge
    · have hold := h₂.old hlt
      rw [hm, Option.map_some, eq_comm, Option.map_eq_some_iff] at hold
      obtain ⟨m', hm', hplain⟩ := hold
      have hspec : m'.spec = m.spec := congrArg (·.spec) hplain
      rw [← hplain, ← hspec]
      exact h₁.new hm' hx
    · exact h₂.new hm hge

theorem sameBut_addRequirement (t : ModuleTable) (id : ModuleId) (requirement : Requirement) :
    t.SameBut Module.plain (t.addRequirement id requirement) := by
  refine .modify _ _ fun m => ?_
  split_ifs
  · rfl
  · rfl

theorem extends_addRequirement (t : ModuleTable) (id : ModuleId) (requirement : Requirement) :
    t.Extends (t.addRequirement id requirement) :=
  (sameBut_addRequirement t id requirement).extends

theorem sameBut_addPermit (t : ModuleTable) (id : ModuleId) (permit : String) :
    t.SameBut Module.plain (t.addPermit id permit) := by
  refine .modify _ _ fun m => ?_
  split_ifs
  · rfl
  · rfl

theorem extends_addPermit (t : ModuleTable) (id : ModuleId) (permit : String) :
    t.Extends (t.addPermit id permit) :=
  (sameBut_addPermit t id permit).extends

/-- A module is added at the end, empty and its own group. -/
theorem ends_add_extends (ht : t.Indexed) (spec : ModuleSpec) :
    Ends (t.add spec) (fun r => t.Extends r.1) (fun e => e = .duplicateModule spec.name) := by
  refine (ends_add ht spec).weaken fun r ⟨hi, hget⟩ => ?_
  have hsize : r.1.get? t.size = some { spec, group := t.size } := by rw [hget, if_pos rfl]
  refine ⟨fun _ => hi, Nat.le_of_lt (lt_size_of_get? hsize), fun {x} hx => ?_,
    fun {x m} hm hx => ?_⟩
  · rw [hget, if_neg (Nat.ne_of_lt hx)]
  · rw [hget] at hm
    split_ifs at hm with heq
    · cases hm
      rw [heq]
      rfl
    · exact absurd (lt_size_of_get? hm) (Nat.not_lt_of_ge hx)

namespace Extends

variable {x : ModuleId} {m : Module}

theorem exists_get? (h : t.Extends t') (hm : t.get? x = some m) :
    ∃ m', t'.get? x = some m' ∧ m'.plain = m.plain := by
  have hold := h.old (lt_size_of_get? hm)
  rw [hm, Option.map_some, Option.map_eq_some_iff] at hold
  exact hold

/-- A module outside a table counts as its own group, and so does a new one. -/
theorem group_eq (h : t.Extends t') (x : ModuleId) : t'.group x = t.group x := by
  rcases Nat.lt_or_ge x t.size with hlt | hge
  · obtain ⟨m, hm⟩ := ModuleTable.exists_get? hlt
    obtain ⟨m', hm', hplain⟩ := h.exists_get? hm
    rw [group_of_get? hm, group_of_get? hm']
    exact congrArg (·.group) hplain
  · rw [group_of_size_le hge]
    cases hm : t'.get? x with
    | none => simp [group, hm]
    | some m =>
      rw [group_of_get? hm]
      exact congrArg (·.group) (h.new hm hge)

/-- New modules hold nothing. -/
theorem holds_iff (h : t.Extends t') (item : Item) : t'.Holds x item ↔ t.Holds x item := by
  constructor
  · intro hex
    obtain ⟨m, hm, hitem⟩ := hex
    rcases Nat.lt_or_ge x t.size with hlt | hge
    · obtain ⟨m₀, hm₀⟩ := ModuleTable.exists_get? hlt
      obtain ⟨m', hm', hplain⟩ := h.exists_get? hm₀
      rw [hm] at hm'
      cases hm'
      have hcontents := congrArg Module.contents hplain
      exact ⟨m₀, hm₀, (Module.holds_congr hcontents item).1 hitem⟩
    · have hcontents := congrArg Module.contents (h.new hm hge)
      exact absurd hitem (Module.not_holds_of_contents_eq hcontents item)
  · intro hex
    obtain ⟨m, hm, hitem⟩ := hex
    obtain ⟨m', hm', hplain⟩ := h.exists_get? hm
    have hcontents := congrArg Module.contents hplain
    exact ⟨m', hm', (Module.holds_congr hcontents item).2 hitem⟩

end Extends

end ModuleTable

/-- Names tell modules apart, and groups are modules of their own group. -/
structure ModuleTable.Settled (t : ModuleTable) : Prop where
  indexed : t.Indexed
  group_lt : ∀ {x}, x < t.size → t.group x < t.size
  group_group : ∀ {x}, x < t.size → t.group (t.group x) = t.group x

/-- The merging of members settles a table. -/
theorem ModuleTable.Merged.settled {t t' : ModuleTable} (h : t.Merged t') (hi : t.Indexed) :
    t'.Settled where
  indexed := h.same.indexed hi
  group_lt {x} hx := by
    rw [h.same.size] at hx ⊢
    exact h.group_lt hx
  group_group hx := h.group_group (h.same.size ▸ hx)

theorem ModuleTable.Settled.group_idem {t : ModuleTable} (h : t.Settled) (x : ModuleId) :
    t.group (t.group x) = t.group x := by
  rcases Nat.lt_or_ge x t.size with hlt | hge
  · exact h.group_group hlt
  · rw [group_of_size_le hge, group_of_size_le hge]

theorem ModuleTable.Settled.of_extends {t t' : ModuleTable} (h : t.Settled) (hext : t.Extends t') :
    t'.Settled where
  indexed := hext.indexed h.indexed
  group_lt {x} hx := by
    rw [hext.group_eq]
    rcases Nat.lt_or_ge x t.size with hlt | hge
    · exact Nat.lt_of_lt_of_le (h.group_lt hlt) hext.size_le
    · rw [ModuleTable.group_of_size_le hge]
      exact hx
  group_group {x} _ := by
    rw [hext.group_eq, hext.group_eq]
    exact h.group_idem x

theorem Partition.Divides.settled {p : Partition} {registry : Registry} (h : p.Divides registry) :
    p.table.Settled :=
  ⟨h.indexed, h.group_lt, h.group_group⟩

/-- New empty modules and notes of the engine keep a division. -/
theorem Partition.Divides.of_extends {p : Partition} {registry : Registry}
    (h : p.Divides registry) {table : ModuleTable} (hext : p.table.Extends table) :
    Partition.Divides ⟨p.registry, table⟩ registry where
  indexed := hext.indexed h.indexed
  classes := h.classes
  resources := h.resources
  group_lt := (h.settled.of_extends hext).group_lt
  group_group := (h.settled.of_extends hext).group_group
  holds_class {top} htop c := by
    rw [hext.group_eq] at htop
    rw [hext.holds_iff, h.holds_class htop]
    simp only [hext.group_eq]
  holds_resource {top} htop r := by
    rw [hext.group_eq] at htop
    rw [hext.holds_iff, h.holds_resource htop]
    simp only [hext.group_eq]
  class_owner_lt howner := Nat.lt_of_lt_of_le (h.class_owner_lt howner) hext.size_le
  resource_owner_lt howner := Nat.lt_of_lt_of_le (h.resource_owner_lt howner) hext.size_le
  defined := h.defined

namespace PlatformPlan

variable {platform : PlatformPlan} {table t : ModuleTable}

/-- The errors of the preparation. -/
inductive PreparationError : BuildError → Prop where
  | duplicateModule (name : String) : PreparationError (.duplicateModule name)
  | platformModuleMissing (role name : String) :
      PreparationError (.platformModuleMissing role name)
  | bootMergedIntoBase (boot base : String) : PreparationError (.bootMergedIntoBase boot base)

theorem ends_ensureAggregate (platform : PlatformPlan) (ht : t.Indexed) (hext : t.Extends table)
    (name : String) :
    Ends (platform.ensureAggregate table name).result (fun r => t.Extends r.1)
      PreparationError := by
  unfold ensureAggregate
  cases table.find name with
  | some id => exact hext
  | none =>
    simp only [Logged.result_bind, Logged.result_emit, Logged.result_liftM]
    refine .ok_bind ?_
    exact (ModuleTable.ends_add_extends (hext.indexed ht) _).mono (fun r hr => hext.trans hr)
      fun e he => he ▸ .duplicateModule _

theorem ends_exporterOf (platform : PlatformPlan) (registry : Registry) (ht : t.Indexed)
    (hext : t.Extends table) (id : ModuleId) (publicName : String) :
    Ends (platform.exporterOf registry table id publicName).result (fun r => t.Extends r.1)
      PreparationError := by
  unfold exporterOf
  cases table.find publicName with
  | some existing => exact hext
  | none =>
    dsimp only
    split_ifs
    · simp only [Logged.result_bind]
      exact (ends_ensureAggregate platform ht hext publicName).bind fun r hr => hr
    · exact hext

theorem ends_pairExporter (platform : PlatformPlan) (registry : Registry) (ht : t.Indexed)
    {state : Exporters} (hext : t.Extends state.table) (id : ModuleId) :
    Ends (platform.pairExporter registry state id).result (fun s => t.Extends s.table)
      PreparationError := by
  unfold pairExporter
  dsimp only
  split
  · exact hext
  · simp only [Logged.result_bind]
    refine (ends_exporterOf platform registry ht hext id _).bind fun r hr => ?_
    obtain ⟨table, exporter⟩ := r
    cases exporter with
    | none => exact hr
    | some exporter =>
      dsimp only
      split_ifs
      · exact hr
      · exact (hr.trans (ModuleTable.extends_addPermit _ _ _)).trans
          (ModuleTable.extends_addRequirement _ _ _)

theorem ends_pairExporters (platform : PlatformPlan) (registry : Registry) (ht : t.Indexed)
    (hext : t.Extends table) :
    Ends (platform.pairExporters registry table).result (fun s => t.Extends s.table)
      PreparationError := by
  unfold pairExporters
  rw [Logged.result_foldlM]
  exact Ends.foldlM (fun s : Exporters => t.Extends s.table) hext fun state hstate id _ =>
    ends_pairExporter platform registry ht hstate id

theorem sameBut_aggregate (platform : PlatformPlan) (exporters : Std.TreeMap ModuleId ModuleId)
    (privileged : Std.TreeSet ModuleId) (aggregates : Aggregates) (table : ModuleTable)
    (id : ModuleId) :
    table.SameBut Module.plain (platform.aggregate exporters privileged aggregates table id) := by
  unfold aggregate
  dsimp only
  split_ifs
  · exact .refl _ table
  · exact (ModuleTable.sameBut_addRequirement _ _ _).trans
      (ModuleTable.sameBut_addRequirement _ _ _)
  · exact ModuleTable.sameBut_addRequirement _ _ _

theorem sameBut_foldl_aggregate (platform : PlatformPlan)
    (exporters : Std.TreeMap ModuleId ModuleId) (privileged : Std.TreeSet ModuleId)
    (aggregates : Aggregates) (table : ModuleTable) (ids : List ModuleId) :
    table.SameBut Module.plain
      (ids.foldl (platform.aggregate exporters privileged aggregates) table) :=
  List.foldlRecOn (motive := table.SameBut Module.plain) _ _ (.refl _ table)
    fun table' hsame id _ =>
      hsame.trans (sameBut_aggregate platform exporters privileged aggregates table' id)

/-- A table that is ready for the platform extends the one that it is made from. -/
theorem ends_prepare (platform : PlatformPlan) {p : Partition} (hi : p.table.Indexed)
    (boot base : ModuleId) :
    Ends (platform.prepare p boot base).result (fun prepared => p.table.Extends prepared.table)
      PreparationError := by
  unfold prepare
  dsimp only
  split_ifs
  · exact .bootMergedIntoBase _ _
  · simp only [Logged.result_bind, Logged.result_emit, Logged.result_pure]
    refine (ends_ensureAggregate platform hi (.refl p.table) _).bind fun r hjdk => ?_
    refine (ends_ensureAggregate platform hi hjdk _).bind fun r' hjre => ?_
    refine (ends_pairExporters platform p.registry hi hjre).bind fun state hstate => ?_
    refine .ok_bind ?_
    exact (hstate.trans (ModuleTable.extends_addRequirement _ _ _)).trans
      (sameBut_foldl_aggregate platform _ _ _ _ _).extends

theorem ends_requireRole (table : ModuleTable) (name role : String) :
    Ends (requireRole table name role) (fun _ => True) PreparationError := by
  unfold requireRole
  cases table.find name with
  | some id => exact trivial
  | none => exact .platformModuleMissing _ _

end PlatformPlan

end ModuleGraph
