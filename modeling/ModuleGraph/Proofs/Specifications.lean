import ModuleGraph.Proofs.Stages

/-!
# The specifications behind the modules of an outcome

Each specification of a plan gives one module, in order (`ModuleTable.Lists`), and neither claims
nor links, groups or notes of the engine change it. The modules that a platform adds bear names made
from its settings, declare no views and hold nothing. So the table that a build of either variant
resolves accounts for each of its modules (`Builder.ends_stages_accounts`), and what validation says
of the views of a module holds in it (`Builder.ends_stages_proper`).
-/

namespace ModuleGraph

/-! ## Validated specifications -/

/-- No view is declared under the name of its module. -/
def ModuleSpec.Proper (spec : ModuleSpec) : Prop :=
  ∀ view ∈ spec.views, view.name ≠ spec.name

namespace ModuleDeclaration

variable {m : ModuleDeclaration} {version : String} {spec : ModuleSpec}

theorem eq_false_of_refuseIf {condition : Bool} {fault : ConfigFault} {done : Unit}
    (h : refuseIf condition fault = .ok done) : condition = false := by
  cases condition with
  | true => cases h
  | false => rfl

/-- Views have proper names, none of which is in use. -/
theorem names_of_validateViews {views : List ViewDeclaration} {used : List String}
    (h : m.validateViews used views = .ok ()) :
    ∀ view ∈ views, isModuleName view.name ∧ view.name ∉ used := by
  induction views generalizing used with
  | nil => simp
  | cons view rest ih =>
    unfold validateViews at h
    obtain ⟨_, hname, h⟩ := exists_of_bind_ok h
    obtain ⟨_, hused, h⟩ := exists_of_bind_ok h
    obtain ⟨_, -, h⟩ := exists_of_bind_ok h
    intro other hother
    rcases List.mem_cons.1 hother with rfl | hother
    · exact ⟨by simpa using eq_false_of_refuseIf hname, by simpa using eq_false_of_refuseIf hused⟩
    · obtain ⟨hvalid, hmem⟩ := ih h other hother
      exact ⟨hvalid, fun hold => hmem (List.mem_cons_of_mem _ hold)⟩

theorem names_of_validate (h : m.validate = .ok ()) :
    isModuleName m.name ∧ ∀ view ∈ m.views, isModuleName view.name ∧ view.name ≠ m.name := by
  unfold validate at h
  obtain ⟨_, hname, h⟩ := exists_of_bind_ok h
  obtain ⟨_, -, h⟩ := exists_of_bind_ok h
  obtain ⟨_, -, h⟩ := exists_of_bind_ok h
  obtain ⟨_, -, h⟩ := exists_of_bind_ok h
  obtain ⟨⟨⟩, hviews, -⟩ := exists_of_bind_ok h
  refine ⟨by simpa using eq_false_of_refuseIf hname, fun view hview => ?_⟩
  obtain ⟨hvalid, hmem⟩ := names_of_validateViews hviews view hview
  exact ⟨hvalid, fun heq => hmem (List.mem_singleton.2 heq)⟩

/-- What a specification takes over from its declaration. -/
structure Specifies (m : ModuleDeclaration) (spec : ModuleSpec) : Prop where
  valid : m.validate = .ok ()
  name_eq : spec.name = m.name
  requires_eq : spec.requires = m.requires
  permits_eq : spec.permits = m.permits
  members_eq : spec.members = m.members
  views_eq : spec.views = m.views.map ViewDeclaration.spec

theorem specifies_of_spec (h : m.spec version = .ok spec) : m.Specifies spec := by
  unfold ModuleDeclaration.spec at h
  obtain ⟨⟨⟩, hvalid, h⟩ := exists_of_bind_ok h
  obtain ⟨roots, -, h⟩ := exists_of_bind_ok h
  obtain ⟨includes, -, h⟩ := exists_of_bind_ok h
  obtain ⟨excludes, -, h⟩ := exists_of_bind_ok h
  cases h
  exact ⟨hvalid, rfl, rfl, rfl, rfl, rfl⟩

/-- The names of a specification have been checked. -/
theorem Specifies.names (h : m.Specifies spec) :
    isModuleName spec.name ∧
      ∀ view ∈ spec.views, isModuleName view.name ∧ view.name ≠ spec.name := by
  obtain ⟨hname, hviews⟩ := names_of_validate h.valid
  rw [h.name_eq, h.views_eq]
  refine ⟨hname, fun view hview => ?_⟩
  obtain ⟨declared, hdeclared, rfl⟩ := List.mem_map.1 hview
  exact hviews declared hdeclared

theorem Specifies.proper (h : m.Specifies spec) : spec.Proper :=
  fun view hview => (h.names.2 view hview).2

end ModuleDeclaration

/-- The specifications of a configuration are those of its modules, in order. -/
theorem Configuration.specifies_of_specs {c : Configuration} {specs : List ModuleSpec}
    (h : c.specs = .ok specs) : List.Forall₂ ModuleDeclaration.Specifies c.modules specs := by
  have hends : Ends c.specs (List.Forall₂ ModuleDeclaration.Specifies c.modules)
      fun _ => True := by
    refine Ends.mapM fun m _ => ?_
    exact (Ends.self _).weaken fun spec hspec => ModuleDeclaration.specifies_of_spec hspec
  exact hends.of_ok h

/-! ## The table of a plan -/

namespace ModuleTable

variable {t t' : ModuleTable} {specs : List ModuleSpec} {spec : ModuleSpec}

/-- The modules of the table are made after the given specifications. -/
structure Follows (t : ModuleTable) (specs : List ModuleSpec) : Prop where
  known : ∀ id m, t.get? id = some m → m.spec ∈ specs
  covers : ∀ spec ∈ specs, ∃ id m, t.get? id = some m ∧ m.spec = spec

theorem Follows.of_sameBut (h : t.Follows specs) (hsame : t.SameBut (·.spec) t') :
    t'.Follows specs where
  known id m hm := by
    obtain ⟨m', hm', hspec⟩ := hsame.exists_get?_before hm
    rw [← hspec]
    exact h.known id m' hm'
  covers spec hspec := by
    obtain ⟨id, m, hm, heq⟩ := h.covers spec hspec
    obtain ⟨m', hm', hsame'⟩ := hsame.exists_get? hm
    exact ⟨id, m', hm', hsame'.trans heq⟩

/-- The modules of the table are made after the given specifications, in the same order. -/
def Lists (t : ModuleTable) (specs : List ModuleSpec) : Prop :=
  ∀ id, (t.get? id).map (·.spec) = specs[id]?

theorem Lists.follows (h : t.Lists specs) : t.Follows specs where
  known id m hm := by
    have hid := h id
    rw [hm, Option.map_some] at hid
    exact List.mem_of_getElem? hid.symm
  covers spec hspec := by
    obtain ⟨id, hid⟩ := List.mem_iff_getElem?.1 hspec
    rw [← h id, Option.map_eq_some_iff] at hid
    obtain ⟨m, hm, heq⟩ := hid
    exact ⟨id, m, hm, heq⟩

theorem Lists.of_sameBut (h : t.Lists specs) (hsame : t.SameBut (·.spec) t') : t'.Lists specs :=
  fun id => (hsame.get? id).trans (h id)

theorem Lists.size (h : t.Lists specs) : t.size = specs.length := by
  have hiff (id : ModuleId) : id < t.size ↔ id < specs.length := by
    rw [← isSome_get?_iff, ← Option.isSome_map, h id]
    simp
  exact Nat.le_antisymm (Nat.le_of_not_lt fun hlt => Nat.lt_irrefl _ ((hiff _).1 hlt))
    (Nat.le_of_not_lt fun hlt => Nat.lt_irrefl _ ((hiff _).2 hlt))

theorem lists_empty : Lists {} [] :=
  fun _ => rfl

theorem Lists.ends_add (h : t.Lists specs) (hi : t.Indexed) (spec : ModuleSpec) :
    Ends (t.add spec) (fun r => r.1.Indexed ∧ r.1.Lists (specs ++ [spec])) fun _ => True := by
  refine (ModuleTable.ends_add hi spec).mono (fun r ⟨hri, hget⟩ => ⟨hri, fun id => ?_⟩)
    fun _ _ => trivial
  rw [hget]
  split_ifs with hid
  · rw [hid, h.size]
    simp
  · rw [h id]
    by_cases hlt : id < specs.length
    · rw [List.getElem?_append_left hlt]
    · rw [List.getElem?_eq_none (Nat.le_of_not_lt hlt), List.getElem?_eq_none]
      have hne : specs.length ≠ id := fun heq => hid (heq ▸ h.size.symm)
      simpa using Nat.lt_of_le_of_ne (Nat.le_of_not_lt hlt) hne

theorem sameBut_setBase (t : ModuleTable) (id : ModuleId) : t.SameBut (·.spec) (t.setBase id) :=
  .modify t id fun _ => rfl

/-- No module of the table declares a view under its own name. -/
structure Proper (t : ModuleTable) : Prop where
  indexed : t.Indexed
  spec : ∀ {id m}, t.get? id = some m → m.spec.Proper

end ModuleTable

namespace BuildPlan

open ModuleTable

/-- Each specification of a plan gives one module, in order. -/
theorem ends_createModules_lists (plan : BuildPlan) :
    Ends plan.createModules (fun t => t.Indexed ∧ t.Lists plan.specs) fun _ => True := by
  unfold createModules
  have hadd : Ends (plan.specs.foldlM (fun table spec => (table.add spec).map (·.1)) {})
      (fun t : ModuleTable => t.Indexed ∧ t.Lists plan.specs) fun _ : BuildError => True := by
    refine Ends.foldlM_prefix (fun done t => ModuleTable.Indexed t ∧ t.Lists done) [] plan.specs _
      ⟨indexed_empty, lists_empty⟩ fun before spec after _ t ht => ?_
    exact (ht.2.ends_add ht.1 spec).map
  refine hadd.bind fun t ht => ?_
  have hbase (t' : ModuleTable) (ht' : t.SameBut (·.spec) t') :
      t'.Indexed ∧ t'.Lists plan.specs := ⟨ht'.indexed ht.1, ht.2.of_sameBut ht'⟩
  cases plan.options.baseModule.bind t.find with
  | none =>
    dsimp only
    split
    · exact (Ends.self _).bind fun _ _ => ht
    · exact ht
  | some base =>
    dsimp only
    split
    · exact (Ends.self _).bind fun _ _ => hbase _ (t.sameBut_setBase base)
    · exact hbase _ (t.sameBut_setBase base)

theorem ends_createModules_follows (plan : BuildPlan) :
    Ends plan.createModules (fun t => t.Indexed ∧ t.Follows plan.specs) fun _ => True :=
  plan.ends_createModules_lists.weaken fun _ ht => ⟨ht.1, ht.2.follows⟩

end BuildPlan

/-! ## Tables that are prepared for a platform -/

/-- The names that modules are added under for a platform: those of the aggregates, and the public
names of internal modules. -/
inductive PlatformSettings.Makes (settings : PlatformSettings) (names : List String) :
    String → Prop where
  | jdk : settings.Makes names settings.jdkModule
  | jre : settings.Makes names settings.jreModule
  | exporter {name : String} {rest : List Char} (hmem : name ∈ names)
      (hname : name.toList = settings.internalStart.toList ++ rest) :
      settings.Makes names (settings.publicStart ++ .ofList rest)

namespace PlatformPlan

variable {platform : PlatformPlan} {t t' : ModuleTable} {m : Module} {name : String}

/-- The specification that a platform adds a module with. -/
def added (platform : PlatformPlan) (name : String) : ModuleSpec :=
  { name, version := platform.plan.options.version, allowEmpty := true }

/-- A name that a module may be added under. -/
def Makes (platform : PlatformPlan) (name : String) : Prop :=
  platform.settings.Makes (platform.plan.specs.map (·.name)) name

/-- Each module follows a specification, or has been added for the platform and holds no class. -/
structure Accounts (platform : PlatformPlan) (t : ModuleTable) : Prop where
  indexed : t.Indexed
  spec : ∀ {id m}, t.get? id = some m → m.spec ∈ platform.plan.specs ∨
    m.classes = {} ∧ ∃ name, platform.Makes name ∧ m.spec = platform.added name

theorem Accounts.of_sameBut (h : platform.Accounts t) (hsame : t.SameBut Module.plain t') :
    platform.Accounts t' where
  indexed := (hsame.less (·.spec)).indexed h.indexed
  spec hm := by
    obtain ⟨m', hm', hplain⟩ := hsame.exists_get?_before hm
    have hspec := congrArg (·.spec) hplain
    have hclasses := congrArg (·.classes) hplain
    dsimp only [Module.plain] at hspec hclasses
    rw [← hspec, ← hclasses]
    exact h.spec hm'

theorem Accounts.ends_ensureAggregate (h : platform.Accounts t) (hname : platform.Makes name) :
    Ends (platform.ensureAggregate t name).result (fun r => platform.Accounts r.1)
      fun _ => True := by
  unfold ensureAggregate
  cases t.find name with
  | some id => exact h
  | none =>
    simp only [Logged.result_bind, Logged.result_emit, Logged.result_liftM]
    refine .ok_bind ((ModuleTable.ends_add h.indexed _).mono (fun r ⟨hi, hget⟩ => ⟨hi, ?_⟩)
      fun _ _ => trivial)
    intro id m hm
    rw [hget] at hm
    split_ifs at hm
    · cases hm
      exact .inr ⟨rfl, name, hname, rfl⟩
    · exact h.spec hm

/-- Only a module that holds a class makes an exporter necessary, and such a module has been
declared. -/
theorem Accounts.makes (h : platform.Accounts t) {registry : Registry} {id : ModuleId}
    {rest : List Char} (hholds : platform.holdsExported registry t id)
    (hname : (t.name id).toList = platform.settings.internalStart.toList ++ rest) :
    platform.Makes (platform.settings.publicStart ++ .ofList rest) := by
  unfold holdsExported at hholds
  obtain ⟨c, hc, -⟩ := List.any_eq_true.1 hholds
  cases hm : t.get? id with
  | none => simp [ModuleTable.classes, hm] at hc
  | some m =>
    rw [ModuleTable.classes_of_get? hm] at hc
    rw [ModuleTable.name_of_get? hm] at hname
    rcases h.spec hm with hspec | ⟨hempty, -⟩
    · exact .exporter (List.mem_map_of_mem hspec) hname
    · rw [hempty] at hc
      cases hc

theorem Accounts.ends_pairExporter (registry : Registry) {state : Exporters}
    (h : platform.Accounts state.table) (id : ModuleId) :
    Ends (platform.pairExporter registry state id).result (fun s => platform.Accounts s.table)
      fun _ => True := by
  unfold pairExporter
  dsimp only
  split
  · exact h
  rename_i rest hrest
  rw [Text.stripStart?_eq_some_iff] at hrest
  have hexporter : Ends (platform.exporterOf registry state.table id
        (platform.settings.publicStart ++ .ofList rest)).result
      (fun r => platform.Accounts r.1) fun _ => True := by
    unfold exporterOf
    cases state.table.find (platform.settings.publicStart ++ .ofList rest) with
    | some existing => exact h
    | none =>
      dsimp only
      split_ifs with hholds
      · simp only [Logged.result_bind]
        exact (h.ends_ensureAggregate (h.makes hholds hrest)).bind fun r hr => hr
      · exact h
  simp only [Logged.result_bind]
  refine hexporter.bind fun r hr => ?_
  obtain ⟨table, exporter⟩ := r
  cases exporter with
  | none => exact hr
  | some exporter =>
    dsimp only
    split_ifs
    · exact hr
    · exact hr.of_sameBut ((ModuleTable.sameBut_addPermit _ _ _).trans
        (ModuleTable.sameBut_addRequirement _ _ _))

/-- A table that is ready for the platform accounts for its modules if the one before did. -/
theorem Accounts.ends_prepare {p : Partition} (h : platform.Accounts p.table)
    (boot base : ModuleId) :
    Ends (platform.prepare p boot base).result (fun prepared => platform.Accounts prepared.table)
      fun _ => True := by
  unfold prepare
  dsimp only
  split_ifs
  · trivial
  · simp only [Logged.result_bind, Logged.result_emit, Logged.result_pure]
    refine (h.ends_ensureAggregate .jdk).bind fun r hjdk => ?_
    refine (hjdk.ends_ensureAggregate .jre).bind fun r' hjre => ?_
    have hpairs : Ends (platform.pairExporters p.registry r'.1).result
        (fun s => platform.Accounts s.table) fun _ => True := by
      unfold pairExporters
      rw [Logged.result_foldlM]
      exact Ends.foldlM (fun s : Exporters => platform.Accounts s.table) hjre
        fun state hstate id _ => hstate.ends_pairExporter p.registry id
    refine hpairs.bind fun state hstate => .ok_bind ?_
    exact hstate.of_sameBut ((ModuleTable.sameBut_addRequirement _ _ _).trans
      (sameBut_foldl_aggregate platform _ _ _ _ _))

end PlatformPlan

/-! ## Builds -/

/-- Each module follows a specification of the plan, or has been added for the platform. -/
structure Builder.Accounts (builder : Builder) (t : ModuleTable) : Prop where
  indexed : t.Indexed
  spec : ∀ {id m}, t.get? id = some m → m.spec ∈ builder.plan.specs ∨
    ∃ platform name, builder = .platform platform ∧ platform.Makes name ∧
      m.spec = platform.added name

/-- The table that a build resolves accounts for its modules. -/
theorem Builder.ends_stages_accounts (builder : Builder) (registry : Registry) :
    Ends (builder.stages registry) (fun r => builder.Accounts r.1.table) StageError := by
  let created (t : ModuleTable) : Prop :=
    t.Indexed ∧ ∀ id m, t.get? id = some m → m.spec ∈ builder.plan.specs
  have hcreated : Ends builder.plan.createModules created fun _ => True :=
    builder.plan.ends_createModules_follows.weaken fun t h => ⟨h.1, h.2.known⟩
  refine builder.ends_stages_of registry created hcreated
    (fun {t t'} h hjoined => ⟨hjoined.settled.indexed, ?_⟩)
    (fun h => ⟨h.1, fun hm => .inl (h.2 _ _ hm)⟩) fun platform p boot base hbuilder h => ?_
  · intro id m hm
    obtain ⟨m', hm', hspec⟩ := hjoined.same.exists_get?_before hm
    rw [← hspec]
    exact h.2 id m' hm'
  · subst hbuilder
    have haccounts : platform.Accounts p.table := ⟨h.1, fun hm => .inl (h.2 _ _ hm)⟩
    refine (haccounts.ends_prepare boot base).weaken fun prepared hprepared =>
      ⟨hprepared.indexed, fun hm => (hprepared.spec hm).imp_right ?_⟩
    rintro ⟨-, name, hname, hspec⟩
    exact ⟨platform, name, rfl, hname, hspec⟩

/-- If no specification declares a view under the name of its module, no module of the table that a
build resolves does. -/
theorem Builder.ends_stages_proper (builder : Builder) (registry : Registry)
    (hspecs : ∀ spec ∈ builder.plan.specs, spec.Proper) :
    Ends (builder.stages registry) (fun r => r.1.table.Proper) StageError := by
  refine (builder.ends_stages_accounts registry).weaken fun r h => ⟨h.indexed, fun hm => ?_⟩
  rcases h.spec hm with hspec | ⟨platform, name, -, -, hspec⟩
  · exact hspecs _ hspec
  · rw [hspec]
    exact fun view hview => absurd hview List.not_mem_nil

end ModuleGraph
