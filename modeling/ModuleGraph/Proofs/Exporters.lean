import ModuleGraph.Proofs.Stages

/-!
# Exporters hand on what they export

The preparation of a platform pairs modules with exporters. Whenever it does, it notes at the
exporter that the module is required publicly, and no later step withdraws the note. So in the table
that is resolved, every exporter hands on the modules that the policy sends to it
(`PlatformPlan.ends_prepare_handsOn`).
-/

namespace ModuleGraph

namespace ModuleTable

variable {t t' t'' : ModuleTable} {x D E : ModuleId} {name : String}

/-- The second table extends the first one, and has the engine's requirements of the first one. -/
structure Keeps (t t' : ModuleTable) : Prop extends t.Extends t' where
  extraRequires : ∀ {x m}, t.get? x = some m →
    ∃ m', t'.get? x = some m' ∧ m.extraRequires ⊆ m'.extraRequires

theorem Keeps.refl (t : ModuleTable) : t.Keeps t where
  toExtends := .refl t
  extraRequires hm := ⟨_, hm, List.Subset.refl _⟩

theorem Keeps.trans (h₁ : t.Keeps t') (h₂ : t'.Keeps t'') : t.Keeps t'' where
  toExtends := h₁.toExtends.trans h₂.toExtends
  extraRequires hm := by
    obtain ⟨m', hm', hsub⟩ := h₁.extraRequires hm
    obtain ⟨m'', hm'', hsub'⟩ := h₂.extraRequires hm'
    exact ⟨m'', hm'', List.Subset.trans hsub hsub'⟩

/-- A change of one module that drops no requirement of the engine. -/
theorem exists_get?_modify {change : Module → Module}
    (hchange : ∀ m, m.extraRequires ⊆ (change m).extraRequires) (id : ModuleId) {m : Module}
    (hm : t.get? x = some m) :
    ∃ m', (t.modify id change).get? x = some m' ∧ m.extraRequires ⊆ m'.extraRequires := by
  rw [get?_modify]
  split_ifs
  · exact ⟨change m, by rw [hm]; rfl, hchange m⟩
  · exact ⟨m, hm, List.Subset.refl _⟩

theorem keeps_addRequirement (t : ModuleTable) (id : ModuleId) (requirement : Requirement) :
    t.Keeps (t.addRequirement id requirement) where
  toExtends := extends_addRequirement t id requirement
  extraRequires := exists_get?_modify (fun m => by split_ifs <;> simp) id

theorem keeps_addPermit (t : ModuleTable) (id : ModuleId) (permit : String) :
    t.Keeps (t.addPermit id permit) where
  toExtends := extends_addPermit t id permit
  extraRequires := exists_get?_modify (fun m => by split_ifs <;> simp) id

theorem eq_size_of_add {spec : ModuleSpec} (h : t.add spec = .ok (t', x)) : x = t.size := by
  unfold add at h
  split_ifs at h
  cases h
  rfl

/-- A module is added as its own group. -/
theorem ends_add_keeps (ht : t.Indexed) (spec : ModuleSpec) :
    Ends (t.add spec) (fun r => t.Keeps r.1 ∧ r.2 < r.1.size ∧ r.1.group r.2 = r.2)
      fun _ => True := by
  cases hadd : t.add spec with
  | error e => trivial
  | ok r =>
    obtain ⟨table, id⟩ := r
    have hext := (ends_add_extends ht spec).of_ok hadd
    have hget := ((ends_add ht spec).of_ok hadd).2
    obtain rfl : id = t.size := eq_size_of_add hadd
    have hnew : table.get? t.size = some { spec, group := t.size } := by rw [hget, if_pos rfl]
    refine ⟨⟨hext, fun {x m} hm => ⟨m, ?_, List.Subset.refl _⟩⟩, lt_size_of_get? hnew,
      group_of_get? hnew⟩
    rw [hget, if_neg (Nat.ne_of_lt (lt_size_of_get? hm)), hm]

/-- The module is the group of the module of a name. -/
def IsGroupOf (t : ModuleTable) (X : ModuleId) (name : String) : Prop :=
  ∃ id, t.find name = some id ∧ t.group id = X

/-- A module is added under its name. -/
theorem ends_add_named (ht : t.Indexed) (spec : ModuleSpec) :
    Ends (t.add spec) (fun r => r.1.IsGroupOf r.2 spec.name) fun _ => True := by
  cases hadd : t.add spec with
  | error e => trivial
  | ok r =>
    obtain ⟨table, id⟩ := r
    obtain ⟨hi, hget⟩ := (ends_add ht spec).of_ok hadd
    obtain rfl : id = t.size := eq_size_of_add hadd
    have hnew : table.get? t.size = some { spec, group := t.size } := by rw [hget, if_pos rfl]
    exact ⟨t.size, (hi _ _).2 ⟨_, hnew, rfl⟩, group_of_get? hnew⟩

namespace Extends

theorem name_eq (h : t.Extends t') (hx : x < t.size) : t'.name x = t.name x := by
  obtain ⟨m, hm⟩ := ModuleTable.exists_get? hx
  obtain ⟨m', hm', hplain⟩ := h.exists_get? hm
  rw [name_of_get? hm, name_of_get? hm']
  exact congrArg (·.spec.name) hplain

theorem find_eq (h : t.Extends t') (ht : t.Indexed) (hx : t.find name = some x) :
    t'.find name = some x := by
  obtain ⟨m, hm, hname⟩ := ht.get?_of_find hx
  obtain ⟨m', hm', hplain⟩ := h.exists_get? hm
  have hname' : m'.name = m.name := congrArg (·.spec.name) hplain
  exact (h.indexed ht name x).2 ⟨m', hm', hname'.trans hname⟩

end Extends

theorem IsGroupOf.of_keeps (h : t.IsGroupOf x name) (ht : t.Indexed) (hk : t.Keeps t') :
    t'.IsGroupOf x name := by
  obtain ⟨id, hid, rfl⟩ := h
  exact ⟨id, hk.find_eq ht hid, hk.group_eq id⟩

/-! ## Modules that are handed on -/

/-- A module of its own group requires another one publicly, by a note of the engine. -/
structure HandsOn (t : ModuleTable) (E D : ModuleId) : Prop where
  ne : E ≠ D
  lt_size : D < t.size
  group_eq : t.group E = E
  requires : ∃ m, t.get? E = some m ∧ PlatformPlan.reexport (t.name D) ∈ m.extraRequires

theorem HandsOn.of_keeps (h : t.HandsOn E D) (hk : t.Keeps t') : t'.HandsOn E D where
  ne := h.ne
  lt_size := Nat.lt_of_lt_of_le h.lt_size hk.size_le
  group_eq := (hk.group_eq E).trans h.group_eq
  requires := by
    obtain ⟨m, hm, hmem⟩ := h.requires
    obtain ⟨m', hm', hsub⟩ := hk.extraRequires hm
    rw [hk.name_eq h.lt_size]
    exact ⟨m', hm', hsub hmem⟩

theorem handsOn_addRequirement (hne : E ≠ D) (hE : E < t.size) (hD : D < t.size)
    (hgroup : t.group E = E) :
    (t.addRequirement E (PlatformPlan.reexport (t.name D))).HandsOn E D := by
  have hkeeps := t.keeps_addRequirement E (PlatformPlan.reexport (t.name D))
  obtain ⟨m, hm⟩ := exists_get? hE
  refine ⟨hne, Nat.lt_of_lt_of_le hD hkeeps.size_le, (hkeeps.group_eq E).trans hgroup, ?_⟩
  rw [hkeeps.name_eq hD, addRequirement, get?_modify_self, hm]
  refine ⟨_, rfl, ?_⟩
  dsimp only
  split_ifs with hold
  · exact List.contains_iff_mem.1 hold
  · exact List.mem_append_right _ (List.mem_singleton.2 rfl)

/-- A module of its own group takes part in the module graph if a module of the group requires
anything. -/
theorem isTopLevel_of_hasRequires {m : Module} (hsize : x < t.size) (hgroup : t.group x = x)
    (hm : m ∈ t.groupModules x) (hrequires : m.hasRequires) : t.isTopLevel x := by
  obtain ⟨m₀, hm₀⟩ := exists_get? hsize
  have hself : m₀.group = x := by rw [← group_of_get? hm₀, hgroup]
  have hany : (t.groupModules x).any (·.hasRequires) := List.any_eq_true.2 ⟨m, hm, hrequires⟩
  simp only [ModuleTable.isTopLevel]
  rw [hm₀]
  simp [hself, hany]

/-- A module that hands on another one takes part in the module graph. -/
theorem HandsOn.isTopLevel (h : t.HandsOn E D) : t.isTopLevel E := by
  obtain ⟨m, hm, hmem⟩ := h.requires
  have hne := List.ne_nil_of_mem hmem
  exact isTopLevel_of_hasRequires (lt_size_of_get? hm) h.group_eq
    (mem_groupModules.2 ⟨E, hm, .inl rfl⟩) (by simp [Module.hasRequires, Module.requires, hne])

end ModuleTable

namespace PlatformPlan

variable {platform : PlatformPlan} {p : Partition} {table : ModuleTable}

theorem group_of_find (ht : table.Settled) {name : String} {id : ModuleId}
    (hid : table.find name = some id) :
    table.group id < table.size ∧ table.group (table.group id) = table.group id := by
  obtain ⟨m, hm, -⟩ := ht.indexed.get?_of_find hid
  have hlt := ModuleTable.lt_size_of_get? hm
  exact ⟨ht.group_lt hlt, ht.group_group hlt⟩

theorem ends_ensureAggregate_keeps (platform : PlatformPlan) (ht : table.Settled)
    (name : String) :
    Ends (platform.ensureAggregate table name).result
      (fun r => table.Keeps r.1 ∧ r.2 < r.1.size ∧ r.1.group r.2 = r.2) fun _ => True := by
  unfold ensureAggregate
  cases hid : table.find name with
  | some id => exact ⟨.refl table, group_of_find ht hid⟩
  | none =>
    simp only [Logged.result_bind, Logged.result_emit, Logged.result_liftM]
    exact .ok_bind (ModuleTable.ends_add_keeps ht.indexed _)

/-- An aggregate is the group of the module of its name. -/
theorem ends_ensureAggregate_named (platform : PlatformPlan) (ht : table.Indexed)
    (name : String) :
    Ends (platform.ensureAggregate table name).result (fun r => r.1.IsGroupOf r.2 name)
      fun _ => True := by
  unfold ensureAggregate
  cases hid : table.find name with
  | some id => exact ⟨id, hid, rfl⟩
  | none =>
    simp only [Logged.result_bind, Logged.result_emit, Logged.result_liftM]
    refine .ok_bind ?_
    exact ModuleTable.ends_add_named ht _

theorem ends_exporterOf_keeps (platform : PlatformPlan) (registry : Registry)
    (ht : table.Settled) (id : ModuleId) (publicName : String) :
    Ends (platform.exporterOf registry table id publicName).result
      (fun r => table.Keeps r.1 ∧ ∀ E ∈ r.2, E < r.1.size ∧ r.1.group E = E) fun _ => True := by
  unfold exporterOf
  cases hfind : table.find publicName with
  | some existing =>
    refine ⟨.refl table, fun E hE => ?_⟩
    cases hE
    exact group_of_find ht hfind
  | none =>
    dsimp only
    split_ifs
    · simp only [Logged.result_bind]
      refine (ends_ensureAggregate_keeps platform ht publicName).bind fun r hr => ?_
      refine ⟨hr.1, fun E hE => ?_⟩
      cases hE
      exact hr.2
    · exact ⟨.refl table, nofun⟩

/-- All exporters so far hand on what they export. -/
def Exporters.HandOn (state : Exporters) : Prop :=
  ∀ D E, state.exporters[D]? = some E → state.table.HandsOn E D

/-- One more pair: the exporter hands on the module, and all others still do. -/
theorem Exporters.HandOn.insert {state : Exporters} (h : state.HandOn)
    (hk : state.table.Keeps table) {D E : ModuleId} (hnew : table.HandsOn E D) :
    Exporters.HandOn ⟨table, state.exporters.insert D E⟩ := by
  intro D' E' hE
  replace hE : (state.exporters.insert D E)[D']? = some E' := hE
  rw [treeMap_getElem?_insert] at hE
  split_ifs at hE with heq
  · cases hE
    exact heq ▸ hnew
  · exact (h D' E' hE).of_keeps hk

theorem ends_pairExporter_handOn (platform : PlatformPlan) (registry : Registry)
    {state : Exporters} (ht : state.table.Settled) (h : state.HandOn) {id : ModuleId}
    (hid : id < state.table.size) :
    Ends (platform.pairExporter registry state id).result
      (fun s => state.table.Keeps s.table ∧ s.HandOn) fun _ => True := by
  unfold pairExporter
  dsimp only
  split
  · exact ⟨.refl _, h⟩
  · simp only [Logged.result_bind]
    refine (ends_exporterOf_keeps platform registry ht id _).bind fun r ⟨hkeeps, hgroup⟩ => ?_
    obtain ⟨table, exporter⟩ := r
    have hrest : Exporters.HandOn { state with table } := fun D E hE => (h D E hE).of_keeps hkeeps
    cases exporter with
    | none => exact ⟨hkeeps, hrest⟩
    | some E =>
      dsimp only
      split_ifs with hself
      · exact ⟨hkeeps, hrest⟩
      · obtain ⟨hlt, hE⟩ := hgroup E rfl
        have hpermit := table.keeps_addPermit id (table.name E)
        have hid' := Nat.lt_of_lt_of_le hid hkeeps.size_le
        -- The note bears the name that the module has had all along.
        have hname : (table.addPermit id (table.name E)).name id = state.table.name id := by
          rw [hpermit.name_eq hid', hkeeps.name_eq hid]
        have hnew := ModuleTable.handsOn_addRequirement (t := table.addPermit id (table.name E))
          hself (Nat.lt_of_lt_of_le hlt hpermit.size_le)
          (Nat.lt_of_lt_of_le hid' hpermit.size_le) ((hpermit.group_eq E).trans hE)
        rw [hname] at hnew
        have hall := (hkeeps.trans hpermit).trans (ModuleTable.keeps_addRequirement _ E
          (reexport (state.table.name id)))
        exact ⟨hall, h.insert hall hnew⟩

theorem ends_pairExporters_handOn (platform : PlatformPlan) (registry : Registry)
    (ht : table.Settled) :
    Ends (platform.pairExporters registry table).result
      (fun s => table.Keeps s.table ∧ s.HandOn) fun _ => True := by
  unfold pairExporters
  rw [Logged.result_foldlM]
  refine Ends.foldlM (fun s : Exporters => table.Keeps s.table ∧ s.HandOn)
    ⟨.refl _, fun D E hE => by simp at hE⟩ fun state ⟨hkeeps, h⟩ id hid => ?_
  have hlt : id < table.size := ModuleTable.mem_ids.1 (List.mem_of_mem_filter hid)
  refine (ends_pairExporter_handOn platform registry (ht.of_extends hkeeps.toExtends) h
    (Nat.lt_of_lt_of_le hlt hkeeps.size_le)).weaken fun s hs => ⟨hkeeps.trans hs.1, hs.2⟩

theorem keeps_aggregate (platform : PlatformPlan) (exporters : Std.TreeMap ModuleId ModuleId)
    (privileged : Std.TreeSet ModuleId) (aggregates : Aggregates) (table : ModuleTable)
    (id : ModuleId) :
    table.Keeps (platform.aggregate exporters privileged aggregates table id) := by
  unfold aggregate
  dsimp only
  split_ifs
  · exact .refl table
  · exact (ModuleTable.keeps_addRequirement _ _ _).trans (ModuleTable.keeps_addRequirement _ _ _)
  · exact ModuleTable.keeps_addRequirement _ _ _

theorem keeps_foldl_aggregate (platform : PlatformPlan)
    (exporters : Std.TreeMap ModuleId ModuleId) (privileged : Std.TreeSet ModuleId)
    (aggregates : Aggregates) (table : ModuleTable) (ids : List ModuleId) :
    table.Keeps (ids.foldl (platform.aggregate exporters privileged aggregates) table) :=
  List.foldlRecOn (motive := table.Keeps) _ _ (.refl table) fun _ hkeeps id _ =>
    hkeeps.trans (keeps_aggregate platform exporters privileged aggregates _ id)

/-- What the preparation of a table comes down to: a table that has the aggregates, in which
exporters hand on what they export; the policy that is read off it; and the notes at the
aggregates. -/
structure Prepares (platform : PlatformPlan) (policy : ExporterPolicy) (boot base : ModuleId)
    (aggregates : Aggregates) (ready final : ModuleTable) : Prop where
  jdk : ready.IsGroupOf aggregates.jdk platform.settings.jdkModule
  jre : ready.IsGroupOf aggregates.jre platform.settings.jreModule
  handsOn : ∀ D E, policy.exporters[D]? = some E → ready.HandsOn E D
  exporter_boot : policy.exporters[boot]? = some base
  privileged_eq : policy.privileged = .ofList (privileged ready boot base)
  boot_eq : policy.boot = some boot
  final_eq : final = ready.topLevel.foldl
    (platform.aggregate policy.exporters policy.privileged aggregates) ready

variable {boot base : ModuleId}

theorem Prepares.keeps {policy : ExporterPolicy} {aggregates : Aggregates}
    {ready final : ModuleTable} (h : platform.Prepares policy boot base aggregates ready final) :
    ready.Keeps final := by
  rw [h.final_eq]
  exact keeps_foldl_aggregate ..

theorem Prepares.sameBut {policy : ExporterPolicy} {aggregates : Aggregates}
    {ready final : ModuleTable} (h : platform.Prepares policy boot base aggregates ready final) :
    ready.SameBut Module.plain final := by
  rw [h.final_eq]
  exact sameBut_foldl_aggregate ..

theorem ends_prepare_prepares (platform : PlatformPlan) (hp : p.table.Settled)
    (hboot : boot < p.table.size) (hbase : base < p.table.size) :
    Ends (platform.prepare p boot base).result
      (fun prepared => ∃ aggregates ready, p.table.Keeps ready ∧
        platform.Prepares prepared.policy (p.table.group boot) (p.table.group base) aggregates ready
          prepared.table) fun _ => True := by
  unfold prepare
  dsimp only
  split_ifs with hne
  · trivial
  · simp only [Logged.result_bind, Logged.result_emit, Logged.result_pure]
    refine ((ends_ensureAggregate_keeps platform hp _).and
      (ends_ensureAggregate_named platform hp.indexed _)).bind
      fun r ⟨⟨hjdk, _⟩, hjdkName⟩ => ?_
    have hr := hp.of_extends hjdk.toExtends
    refine ((ends_ensureAggregate_keeps platform hr _).and
      (ends_ensureAggregate_named platform hr.indexed _)).bind
      fun r' ⟨⟨hjre, _⟩, hjreName⟩ => ?_
    have hr' := hr.of_extends hjre.toExtends
    refine (ends_pairExporters_handOn platform p.registry hr').bind fun state ⟨hstate, h⟩ => ?_
    refine .ok_bind ?_
    have hk := (hjdk.trans hjre).trans hstate
    have hnote := ModuleTable.keeps_addRequirement state.table (p.table.group base)
      (reexport (state.table.name (p.table.group boot)))
    have hnew := ModuleTable.handsOn_addRequirement (t := state.table) (Ne.symm hne)
      (Nat.lt_of_lt_of_le (hp.group_lt hbase) hk.size_le)
      (Nat.lt_of_lt_of_le (hp.group_lt hboot) hk.size_le)
      ((hk.group_eq _).trans (hp.group_group hbase))
    refine ⟨⟨r.2, r'.2⟩, _, hk.trans hnote, ?_, ?_, h.insert hnote hnew, ?_, rfl, rfl, rfl⟩
    · exact hjdkName.of_keeps hr.indexed (hjre.trans (hstate.trans hnote))
    · exact hjreName.of_keeps hr'.indexed (hstate.trans hnote)
    · exact (treeMap_getElem?_insert _ _ _ _).trans (if_pos rfl)

/-- In a prepared table, exporters hand on the modules that the policy sends to them; and the policy
knows the boot module. -/
structure Hands (p : Partition) (boot : ModuleId) (prepared : Prepared) : Prop where
  keeps : p.table.Keeps prepared.table
  handsOn : ∀ D E, prepared.policy.exporters[D]? = some E → prepared.table.HandsOn E D
  boot_eq : prepared.policy.boot = some (p.table.group boot)

theorem ends_prepare_handsOn (platform : PlatformPlan) (hp : p.table.Settled)
    (hboot : boot < p.table.size) (hbase : base < p.table.size) :
    Ends (platform.prepare p boot base).result (Hands p boot) fun _ => True := by
  refine (ends_prepare_prepares platform hp hboot hbase).weaken
    fun prepared ⟨_, _, hready, h⟩ => ?_
  exact ⟨hready.trans h.keeps, fun D E hE => (h.handsOn D E hE).of_keeps h.keeps, h.boot_eq⟩

end PlatformPlan

end ModuleGraph
