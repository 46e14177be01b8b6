import ModuleGraph.Proofs.Dependences.Settled
import ModuleGraph.Proofs.Failures
import ModuleGraph.Proofs.Views.Names

/-!
# Names that lead to modules

A configuration refers to modules by name: as members, as sources and targets of edges, in
requirements and in permits. No declaration is checked for this by itself; the passes of a build
look the names up once all modules are known, each pass the names that it needs (`BuildPlan.Looks`).
A pass that looks up the permits or the edges of a module does so for top-level modules and their
groups. So a name that leads nowhere is found out, unless it is a permit or an edge of a module
outside the module graph, or an optional edge of a foundational module, which no pass needs.

* `BuildPlan.ends_resolve_passed`: a resolution that succeeds has completed all passes, and the kind
  of its error tells how many of them it has completed otherwise.
* `Configuration.leads_of_buildWith`: the same for the names of a configuration.
-/

namespace ModuleGraph

/-- The passes that look names up, in order. -/
inductive Lookup where
  | members
  | sources
  | views
  | dependences
  | permits
deriving DecidableEq, Repr

/-- The number of passes before. -/
def Lookup.rank : Lookup → Nat
  | members => 0
  | sources => 1
  | views => 2
  | dependences => 3
  | permits => 4

theorem Lookup.rank_inj {l l' : Lookup} (h : l.rank = l'.rank) : l = l' := by
  cases l <;> cases l' <;> first | rfl | cases h

namespace BuildError

/-- A name leads nowhere. -/
def IsUnknown (e : BuildError) : Prop :=
  ∃ name context, e = .unknownModule name context

/-- The number of passes that are complete when an error comes up, other than over a name that leads
nowhere. -/
def passed : BuildError → Nat
  | duplicateView .. => 2
  | conflictingDependence .. => 3
  | viewNotFound .. => 4
  | dependencyCycle .. => 5
  | _ => 0

end BuildError

/-! ## The names that are looked up -/

namespace BuildPlan

variable {plan : BuildPlan} {p : Partition} {n n' : Nat}

/-- The names that a pass looks up in a table. -/
inductive Looks (plan : BuildPlan) (t : ModuleTable) : Lookup → String → Prop where
  | member {spec : ModuleSpec} {name : String} (hspec : spec ∈ plan.specs)
      (hname : name ∈ spec.members) : plan.Looks t .members name
  | source {name : String} (hname : name ∈ plan.declared.sources) : plan.Looks t .sources name
  | viewPermit {top : ModuleId} {m : Module} {view : ViewSpec} {name : String}
      (htop : top ∈ t.topLevel) (hm : m ∈ t.groupModules top) (hview : view ∈ m.spec.views)
      (hname : name ∈ view.permits) : plan.Looks t .views name
  | requirement {top : ModuleId} {m : Module} {requirement : Requirement}
      (htop : top ∈ t.topLevel) (hm : m ∈ t.groupModules top)
      (hrequirement : requirement ∈ m.requires) : plan.Looks t .dependences requirement.name
  | target {top : ModuleId} {m : Module} {edge : Requirement}
      (htop : top ∈ t.topLevel) (hm : m ∈ t.groupModules top)
      (hedge : edge ∈ plan.declared.leaving m.name)
      (hbase : ¬(t.isBase top ∧ edge.modifiers.isOptional)) : plan.Looks t .dependences edge.name
  | permit {top : ModuleId} {m : Module} {name : String}
      (htop : top ∈ t.topLevel) (hm : m ∈ t.groupModules top) (hname : name ∈ m.permits) :
      plan.Looks t .permits name

/-- A pass finds a module of a name, or a view if a dependence is asked for. -/
def Finds (plan : BuildPlan) (p : Partition) : Lookup → String → Prop
  | .dependences, name => ∃ s, plan.surfacesOf p = .ok s ∧ (s.resolve? p.table name).isSome
  | _, name => (p.table.find name).isSome

/-- The names that the first passes look up lead to modules. -/
def Passed (plan : BuildPlan) (p : Partition) (n : Nat) : Prop :=
  ∀ lookup name, lookup.rank < n → plan.Looks p.table lookup name → plan.Finds p lookup name

/-- A build ends over a name that leads nowhere, or the passes before are complete. -/
def Stops (plan : BuildPlan) (p : Partition) (e : BuildError) : Prop :=
  e.IsUnknown ∨ plan.Passed p e.passed

theorem Passed.mono (h : plan.Passed p n') (hle : n ≤ n') : plan.Passed p n :=
  fun lookup name hlt => h lookup name (Nat.lt_of_lt_of_le hlt hle)

/-- One more pass. -/
theorem Passed.next (lookup : Lookup) (h : plan.Passed p lookup.rank)
    (hnext : ∀ name, plan.Looks p.table lookup name → plan.Finds p lookup name) :
    plan.Passed p (lookup.rank + 1) := by
  intro lookup' name hlt hlooks
  rcases Nat.lt_succ_iff_lt_or_eq.1 hlt with hbefore | heq
  · exact h lookup' name hbefore hlooks
  · cases Lookup.rank_inj heq
    exact hnext name hlooks

end BuildPlan

/-! ## Single look-ups -/

theorem ModuleTable.ends_require_isSome (t : ModuleTable) (name context : String) :
    Ends (t.require name context) (fun _ => (t.find name).isSome) BuildError.IsUnknown :=
  (t.ends_require name context).mono (fun id hid => by simp [hid]) fun _ he => ⟨_, _, he⟩

theorem ModuleTable.ends_requireGroup_isSome (t : ModuleTable) (name context : String) :
    Ends (t.requireGroup name context) (fun _ => (t.find name).isSome) BuildError.IsUnknown := by
  unfold requireGroup
  exact (t.ends_require_isSome name context).bind fun _ hname => hname

/-- A module whose views are built has permits for known modules in them. -/
theorem Surfaces.ends_addViews_isSome (s : Surfaces) (t : ModuleTable) (top : ModuleId) :
    Ends (s.addViews t top)
      (fun _ => ∀ m ∈ t.groupModules top, ∀ view ∈ m.spec.views, ∀ name ∈ view.permits,
        (t.find name).isSome)
      (fun e => e.IsUnknown ∨ ∃ name view, e = .duplicateView name view) := by
  unfold addViews ModuleTable.viewsOf
  have hviews : Ends (((t.groupModules top).flatMap (·.spec.views)).mapM t.resolveView)
      (fun _ => ∀ view ∈ (t.groupModules top).flatMap (·.spec.views), ∀ name ∈ view.permits,
        (t.find name).isSome)
      (fun e => e.IsUnknown ∨ ∃ name view, e = .duplicateView name view) := by
    refine Ends.mapM_forall fun view _ => ?_
    unfold ModuleTable.resolveView
    refine ((Ends.mapM_forall fun name _ => t.ends_requireGroup_isSome name _).mono (fun _ h => h)
      fun _ => .inl).bind fun _ h => Ends.pure_iff.2 h
  rw [bind_assoc]
  refine hviews.bind fun declared h => ?_
  refine ((ends_claimNames t top _ s.owners).mono (fun _ h => h) ?_).bind fun _ _ => ?_
  · rintro e ⟨v, -, rfl⟩
    exact .inr ⟨_, _, rfl⟩
  · exact fun m hm view hview => h view (List.mem_flatMap_of_mem hm hview)

namespace EvidenceBase

variable {base : EvidenceBase} {plan : BuildPlan} {top : ModuleId}

theorem ends_named_isSome (base : EvidenceBase) (requirement : Requirement) (context : String) :
    Ends (base.named requirement context)
      (fun _ => (base.surfaces.resolve? base.table requirement.name).isSome) fun _ => True := by
  unfold named
  cases base.surfaces.resolve? base.table requirement.name with
  | none => trivial
  | some target => rfl

theorem ends_addRequired_isSome (base : EvidenceBase) (top : ModuleId) (context : String)
    (deps : Dependences) (r : Requirement) :
    Ends (base.addRequired top context deps r).result
      (fun _ => (base.surfaces.resolve? base.table r.name).isSome) fun _ => True := by
  simp only [addRequired, Logged.result_bind, Logged.result_liftM]
  exact (base.ends_named_isSome r context).bind fun dep h => (Ends.self _).weaken fun _ _ => h

theorem ends_addDeclared_isSome (base : EvidenceBase) (top : ModuleId) (context : String)
    (deps : Dependences) (edge : Requirement) :
    Ends (base.addDeclared top context deps edge).result
      (fun _ => ¬(base.table.isBase top ∧ edge.modifiers.isOptional) →
        (base.surfaces.resolve? base.table edge.name).isSome) fun _ => True := by
  unfold addDeclared
  dsimp only
  split_ifs with hdropped
  · exact (Ends.self _).weaken fun _ _ hbase => absurd (by simpa using hdropped) hbase
  · simp only [Logged.result_bind, Logged.result_liftM]
    exact (base.ends_named_isSome edge context).bind fun dep h =>
      (Ends.self _).weaken fun _ _ _ => h

/-- The names that the dependences of a top-level module are collected by lead to modules or views.
-/
structure Answers (base : EvidenceBase) (plan : BuildPlan) (top : ModuleId) : Prop where
  required : ∀ m ∈ base.table.groupModules top, ∀ r ∈ m.requires,
    (base.surfaces.resolve? base.table r.name).isSome
  declared : ∀ m ∈ base.table.groupModules top, ∀ edge ∈ plan.declared.leaving m.name,
    ¬(base.table.isBase top ∧ edge.modifiers.isOptional) →
      (base.surfaces.resolve? base.table edge.name).isSome

theorem ends_dependencesOf_answers (plan : BuildPlan) (base : EvidenceBase) (top : ModuleId) :
    Ends (plan.dependencesOf base top).result (fun _ => base.Answers plan top) EvidenceError := by
  have hanswers : Ends (plan.dependencesOf base top).result (fun _ => base.Answers plan top)
      fun _ => True := by
    simp only [BuildPlan.dependencesOf, Logged.result_bind, Logged.result_foldlM,
      Logged.result_ofExcept, Logged.result_emit, Logged.result_pure]
    refine Ends.bind (Ends.foldlM_forall fun deps m _ => Ends.foldlM_forall fun deps r _ =>
      base.ends_addRequired_isSome top _ deps r) fun deps hrequired => ?_
    refine (Ends.self _).bind fun deps _ => (Ends.self _).bind fun deps _ => ?_
    exact Ends.bind (Ends.foldlM_forall fun deps m _ => Ends.foldlM_forall fun deps edge _ =>
      base.ends_addDeclared_isSome top _ deps edge) fun deps hdeclared =>
        Ends.ok_iff.2 ⟨hrequired, hdeclared⟩
  exact ((plan.ends_dependencesOf base top).and hanswers).weaken fun _ h => h.2

/-- A finished module has permits for known modules. -/
theorem ends_finish_isSome (base : EvidenceBase) (policy : ExporterPolicy) (top : ModuleId)
    (deps : Dependences) :
    Ends (base.finish policy top deps).result
      (fun _ => ∀ m ∈ base.table.groupModules top, ∀ name ∈ m.permits,
        (base.table.find name).isSome)
      fun _ => True := by
  simp only [finish, Logged.result_bind, Logged.result_ofExcept]
  refine (Ends.self _).bind fun kept _ => (Ends.self _).bind fun bound _ => ?_
  refine Ends.foldlM_forall fun info m _ => ?_
  unfold addPermits
  refine Ends.foldlM_forall fun info permit _ => ?_
  refine ((base.table.ends_requireGroup_isSome permit _).mono (fun _ h => h)
    fun _ _ => trivial).bind fun group h => ?_
  exact (Ends.self _).bind fun _ _ => h

end EvidenceBase

/-! ## Passes -/

namespace BuildPlan

variable {plan : BuildPlan} {p : Partition}

theorem ends_sources_passed (plan : BuildPlan) (hmembers : plan.Passed p 1) :
    Ends (plan.declared.sources.forM fun source => do
        let _ ← p.table.require source "[[dependency]] from"
        return ())
      (fun _ => plan.Passed p 2) (plan.Stops p) := by
  refine (Ends.forM_forall fun source _ => (p.table.ends_require_isSome source _).bind
    fun _ h => Ends.pure_iff.2 h).mono (fun _ h => hmembers.next .sources fun name hlooks => ?_)
    fun _ => .inl
  cases hlooks with
  | source hname => exact h name hname

theorem ends_surfacesOf_passed (plan : BuildPlan) (hsources : plan.Passed p 2) :
    Ends (plan.surfacesOf p) (fun s => plan.surfacesOf p = .ok s ∧ plan.Passed p 3)
      (plan.Stops p) := by
  have hviews : Ends (plan.surfacesOf p) (fun _ => ∀ top ∈ p.table.topLevel,
        ∀ m ∈ p.table.groupModules top, ∀ view ∈ m.spec.views, ∀ name ∈ view.permits,
          (p.table.find name).isSome)
      (fun e => e.IsUnknown ∨ ∃ name view, e = .duplicateView name view) :=
    Ends.foldlM_forall fun s top _ => s.ends_addViews_isSome p.table top
  refine (hviews.and (Ends.self _)).mono
    (fun s ⟨h, hs⟩ => ⟨hs, hsources.next .views fun name hlooks => ?_⟩) fun e he => ?_
  · cases hlooks with
    | viewPermit htop hm hview hname => exact h _ htop _ hm _ hview name hname
  · rcases he with hunknown | ⟨name, view, rfl⟩
    · exact .inl hunknown
    · exact .inr hsources

theorem ends_collectEdges_passed (plan : BuildPlan) (hviews : plan.Passed p 3) {s : Surfaces}
    (hs : plan.surfacesOf p = .ok s) :
    Ends (p.table.topLevel.foldlM
        (fun (edges : EdgeMap) id => do
          let deps ← (plan.dependencesOf ⟨p.table, p.registry, s⟩ id).result
          return edges.insert id deps)
        {})
      (fun _ => plan.Passed p 4) (plan.Stops p) := by
  refine (Ends.foldlM_forall fun edges top _ =>
    (EvidenceBase.ends_dependencesOf_answers plan ⟨p.table, p.registry, s⟩ top).bind
      fun deps h => Ends.pure_iff.2 h).mono
    (fun _ h => hviews.next .dependences fun name hlooks => ?_) fun e he => ?_
  · cases hlooks with
    | requirement htop hm hmem => exact ⟨s, hs, (h _ htop).required _ hm _ hmem⟩
    | target htop hm hedge hbase => exact ⟨s, hs, (h _ htop).declared _ hm _ hedge hbase⟩
  · cases he with
    | unknownModule name context => exact .inl ⟨_, _, rfl⟩
    | conflict h =>
      cases h
      exact .inr hviews

/-- The collection completes the passes up to that over the dependences. -/
theorem ends_collect_passed (plan : BuildPlan) (hmembers : plan.Passed p 1) :
    Ends (plan.collect p).result
      (fun collected => plan.surfacesOf p = .ok collected.base.surfaces ∧ plan.Passed p 4)
      (plan.Stops p) := by
  simp only [collect, Logged.result_bind, Logged.result_emit, Logged.result_forM,
    Logged.result_foldlM, Logged.result_ofExcept, Logged.result_pure, Logged.result_liftM,
    result_reportSplit]
  refine .ok_bind (.ok_bind ((plan.ends_sources_passed hmembers).bind fun _ hsources => ?_))
  refine (plan.ends_surfacesOf_passed hsources).bind ?_
  rintro s ⟨hs, hviews⟩
  exact (plan.ends_collectEdges_passed hviews hs).bind fun edges h => ⟨hs, h⟩

/-- A finished module for every entry has permits for known modules. -/
theorem ends_finishAll_isSome (policy : ExporterPolicy) (collected : Collected) :
    Ends (finishAll policy collected).result
      (fun _ => ∀ entry ∈ collected.edges.toList,
        ∀ m ∈ collected.base.table.groupModules entry.1, ∀ name ∈ m.permits,
          (collected.base.table.find name).isSome)
      fun _ => True := by
  simp only [finishAll, Logged.result_bind, Logged.result_foldlM]
  refine (Ends.foldlM_forall fun infos entry _ => ?_).bind fun infos h =>
    (Ends.self _).weaken fun _ _ => h
  simp only [EvidenceBase.finishInto, Logged.result_bind]
  exact (collected.base.ends_finish_isSome policy entry.1 entry.2).bind fun info h =>
    (Ends.self _).weaken fun _ _ => h

theorem Collects.ends_finish_passed (hi : p.table.Indexed) (policy : ExporterPolicy)
    {collected : Collected} (h : plan.Collects p collected) (hpassed : plan.Passed p 4) :
    Ends (finishAll policy collected).result
      (fun infos => plan.Passed p 5 ∧ plan.Finishes policy collected.base collected.split infos)
      (plan.Stops p) := by
  have hends := ends_finishAll policy collected (h.table_eq ▸ hi) h.edges
  refine ((hends.and (ends_finishAll_isSome policy collected)).and (h.ends_finish hi policy)).mono
    ?_ fun e he => ?_
  · rintro infos ⟨⟨-, hpermits⟩, hinfos⟩
    refine ⟨hpassed.next .permits fun name hlooks => ?_, hinfos⟩
    rw [h.table_eq] at hpermits
    cases hlooks with
    | permit htop hm hname =>
      obtain ⟨deps, hdeps⟩ := h.edges.covers _ (h.table_eq ▸ mem_topLevel.1 htop)
      have hmem := Std.TreeMap.mem_toList_iff_getElem?_eq_some.2 hdeps
      exact hpermits (_, deps) hmem _ hm name hname
  · cases he with
    | unknownModule name context => exact .inl ⟨_, _, rfl⟩
    | viewNotFound name dependence => exact .inr hpassed
    | conflict h =>
      cases h
      exact .inr (hpassed.mono (Nat.le_succ 3))

/-- A resolution that succeeds has completed all passes. One that fails does so over a name that
leads nowhere, or has completed the passes before. -/
theorem ends_resolve_passed (plan : BuildPlan) (hi : p.table.Indexed) (hmembers : plan.Passed p 1)
    (policy : ExporterPolicy) (seeds : List ModuleId) :
    Ends (plan.resolve p policy seeds).result
      (fun outcome => outcome.partition = p ∧ plan.surfacesOf p = .ok outcome.surfaces ∧
        plan.Passed p 5)
      (plan.Stops p) := by
  simp only [resolve, Logged.result_bind, Logged.result_liftM, Logged.result_emit,
    Logged.result_pure]
  refine ((plan.ends_collect_passed hmembers).and (plan.ends_collect p)).bind ?_
  rintro collected ⟨⟨hs, hpassed⟩, hcollected⟩
  refine (hcollected.ends_finish_passed hi policy hpassed).bind ?_
  rintro infos ⟨hall, hinfos⟩
  refine ((Graph.ends_loadOrder hinfos.closed_ofInfos seeds).mono (fun _ h => h)
    fun e he => ?_).bind fun order _ => .ok_bind ⟨rfl, hs, hall⟩
  cases he
  exact .inr hall

end BuildPlan

/-! ## Builds -/

/-- What the passes after the merging of members rely on: there are groups, each specification has a
module, and all declared members are known. -/
structure BuildPlan.Staged (plan : BuildPlan) (t : ModuleTable) : Prop where
  settled : t.Settled
  covers : ∀ spec ∈ plan.specs, ∃ id m, t.get? id = some m ∧ m.spec = spec
  members : ∀ spec ∈ plan.specs, ∀ name ∈ spec.members, (t.find name).isSome

namespace BuildPlan.Staged

variable {plan : BuildPlan} {p : Partition} {t t' : ModuleTable}

theorem of_joined (h : t.Follows plan.specs) (hjoined : t.Joined t') : plan.Staged t' where
  settled := hjoined.settled
  covers := (h.of_sameBut hjoined.same).covers
  members spec hspec name hname := by
    obtain ⟨id, m, hm, rfl⟩ := (h.of_sameBut hjoined.same).covers spec hspec
    exact hjoined.members hm name hname

theorem of_extends (h : plan.Staged t) (hext : t.Extends t') : plan.Staged t' where
  settled := h.settled.of_extends hext
  covers spec hspec := by
    obtain ⟨id, m, hm, rfl⟩ := h.covers spec hspec
    obtain ⟨m', hm', hplain⟩ := hext.exists_get? hm
    exact ⟨id, m', hm', congrArg (·.spec) hplain⟩
  members spec hspec name hname := by
    obtain ⟨id, hid⟩ := Option.isSome_iff_exists.1 (h.members spec hspec name hname)
    obtain ⟨m, hm, rfl⟩ := h.settled.indexed.get?_of_find hid
    obtain ⟨m', hm', hplain⟩ := hext.exists_get? hm
    have hfind : t'.find m.name = some id :=
      (hext.indexed h.settled.indexed m.name id).2 ⟨m', hm', congrArg (·.spec.name) hplain⟩
    rw [hfind]
    rfl

theorem passed (h : plan.Staged p.table) : plan.Passed p 1 := by
  intro lookup name hlt hlooks
  cases hlooks with
  | member hspec hname => exact h.members _ hspec name hname
  | source | viewPermit | requirement | target | permit => exact absurd hlt (by decide)

end BuildPlan.Staged

/-- The table that a build resolves. -/
theorem Builder.ends_stages_staged (builder : Builder) (registry : Registry) :
    Ends (builder.stages registry) (fun r => builder.plan.Staged r.1.table) StageError := by
  have hcreated : Ends builder.plan.createModules
      (fun t => t.Follows builder.plan.specs) fun _ => True :=
    builder.plan.ends_createModules_follows.weaken fun t h => h.2
  refine builder.ends_stages_of registry builder.plan.Staged hcreated .of_joined id
    fun platform p boot base _ h => ?_
  exact (platform.ends_prepare h.settled.indexed boot base).mono
    (fun prepared hext => h.of_extends hext) fun _ _ => trivial

theorem StageError.isUnknown_or {e : BuildError} (h : StageError e) :
    e.IsUnknown ∨ e.passed = 0 := by
  cases h with
  | creation h =>
    cases h with
    | duplicateModule => exact .inr rfl
    | unknownModule => exact .inl ⟨_, _, rfl⟩
  | member h =>
    cases h with
    | unknownModule => exact .inl ⟨_, _, rfl⟩
    | memberCycle => exact .inr rfl
    | multipleParents => exact .inr rfl
  | preparation h => cases h <;> exact .inr rfl

/-- A build that succeeds has completed all passes. One that fails does so over a name that leads
nowhere, or before the first pass is complete, or it has completed the passes before. -/
theorem Builder.ends_build_passed (builder : Builder) (registry : Registry) :
    Ends (builder.build registry).result
      (fun outcome => builder.plan.Staged outcome.table ∧
        builder.plan.surfacesOf outcome.partition = .ok outcome.surfaces ∧
        builder.plan.Passed outcome.partition 5)
      (fun e => e.IsUnknown ∨ e.passed = 0 ∨ ∃ r, builder.stages registry = .ok r ∧
        builder.plan.Staged r.1.table ∧ builder.plan.Passed r.1 e.passed) := by
  rw [result_build]
  refine (((builder.ends_stages_staged registry).and (Ends.self _)).mono (fun _ h => h)
    fun e he => ?_).bind fun r ⟨h, hr⟩ => ?_
  · exact he.isUnknown_or.imp_right .inl
  · refine (builder.plan.ends_resolve_passed h.settled.indexed h.passed r.2.policy r.2.seeds).mono
      (fun outcome ⟨hpartition, hs, hpassed⟩ => ?_) fun e he => ?_
    · rw [Outcome.table, hpartition]
      exact ⟨h, hs, hpassed⟩
    · exact he.imp_right fun hpassed => .inr ⟨r, hr, h, hpassed⟩

/-! ## Configurations -/

/-- The module of a name belongs to a top-level module. -/
def ModuleTable.Under (t : ModuleTable) (name : String) (top : ModuleId) : Prop :=
  ∃ id, t.find name = some id ∧ t.group id = top ∧ top ∈ t.topLevel

theorem ModuleTable.Under.exists_module {t : ModuleTable} {name : String} {top : ModuleId}
    (h : t.Under name top) (hi : t.Indexed) :
    top ∈ t.topLevel ∧ ∃ id m, t.get? id = some m ∧ m.name = name ∧ m ∈ t.groupModules top := by
  obtain ⟨id, hid, hgroup, htop⟩ := h
  obtain ⟨m, hm, hname⟩ := hi.get?_of_find hid
  exact ⟨htop, id, m, hm, hname, mem_groupModules.2 ⟨id, hm, .inr hgroup⟩⟩

/-- A module that requires something belongs to a top-level module. -/
theorem ModuleTable.Settled.group_mem_topLevel {t : ModuleTable} (h : t.Settled) {id : ModuleId}
    {m : Module} (hm : t.get? id = some m) (hrequires : m.hasRequires) :
    t.group id ∈ t.topLevel := by
  have hlt := lt_size_of_get? hm
  obtain ⟨top, htop⟩ := exists_get? (h.group_lt hlt)
  have hgroup : top.group = t.group id := by
    rw [← group_of_get? htop, h.group_group hlt]
  have hmem : m ∈ t.groupModules (t.group id) := mem_groupModules.2 ⟨id, hm, .inr rfl⟩
  have hany : (t.groupModules (t.group id)).any (·.hasRequires) :=
    List.any_eq_true.2 ⟨m, hmem, hrequires⟩
  rw [BuildPlan.mem_topLevel, isTopLevel, htop]
  simp [hgroup, hany]

namespace Configuration

variable {c : Configuration} {registry : Registry} {optional : OptionalRules} {merge : Bool}

/-- The names that a configuration refers to modules by, each with the pass that needs it. Permits
and edges count for modules in the graph, and optional edges not for a foundational one. -/
inductive Refers (c : Configuration) (t : ModuleTable) : Lookup → String → Prop where
  | member {m : ModuleDeclaration} {name : String} (hm : m ∈ c.modules)
      (hname : name ∈ m.members) : c.Refers t .members name
  | source {edge : EdgeDeclaration} (hedge : edge ∈ c.dependencies) :
      c.Refers t .sources edge.source
  | viewPermit {m : ModuleDeclaration} {view : ViewDeclaration} {name : String} {top : ModuleId}
      (hm : m ∈ c.modules) (hview : view ∈ m.views) (hname : name ∈ view.permits)
      (htop : t.Under m.name top) : c.Refers t .views name
  | requirement {m : ModuleDeclaration} {requirement : Requirement} (hm : m ∈ c.modules)
      (hrequirement : requirement ∈ m.requires) : c.Refers t .dependences requirement.name
  | target {edge : EdgeDeclaration} {top : ModuleId} (hedge : edge ∈ c.dependencies)
      (htop : t.Under edge.source top) (hbase : ¬(t.isBase top ∧ edge.modifiers.isOptional)) :
      c.Refers t .dependences edge.target
  | permit {m : ModuleDeclaration} {name : String} {top : ModuleId} (hm : m ∈ c.modules)
      (hname : name ∈ m.permits) (htop : t.Under m.name top) : c.Refers t .permits name

/-- A pass looks up what the configuration refers to. -/
theorem looks_of_refers {builder : Builder} {t : ModuleTable} {lookup : Lookup} {name : String}
    (hbuilder : c.builderWith optional merge = .ok builder) (ht : builder.plan.Staged t)
    (h : c.Refers t lookup name) : builder.plan.Looks t lookup name := by
  have hspecs := specifies_of_specs (buildWith_of_builderWith hbuilder {}).1
  have hdeclared := (traits_of_builderWith hbuilder).1
  -- the module of a declaration, which bears its name
  have hmodule {m : ModuleDeclaration} (hm : m ∈ c.modules) :
      ∃ id m', t.get? id = some m' ∧ m'.spec ∈ builder.plan.specs ∧ m.Specifies m'.spec := by
    obtain ⟨spec, hspec, hspecifies⟩ := exists_of_forall₂ hspecs.flip hm
    obtain ⟨id, m', hm', rfl⟩ := ht.covers spec hspec
    exact ⟨id, m', hm', hspec, hspecifies⟩
  have hunder {m : ModuleDeclaration} {top : ModuleId} (hm : m ∈ c.modules)
      (htop : t.Under m.name top) : top ∈ t.topLevel ∧
        ∃ m' ∈ t.groupModules top, m.Specifies m'.spec := by
    obtain ⟨htop, id, m', hm', hname, hgroup⟩ := htop.exists_module ht.settled.indexed
    obtain ⟨id', m'', hm'', -, hspecifies⟩ := hmodule hm
    have hid := ht.settled.indexed.id_eq_of_name_eq hm' hm'' (hname.trans hspecifies.name_eq.symm)
    subst hid
    rw [hm'] at hm''
    cases hm''
    exact ⟨htop, m', hgroup, hspecifies⟩
  cases h with
  | member hm hname =>
    obtain ⟨id, m', -, hspec, hspecifies⟩ := hmodule hm
    exact .member hspec (hspecifies.members_eq ▸ hname)
  | source hedge =>
    refine .source ?_
    rw [DeclaredEdges.sources, hdeclared, Std.TreeSet.mem_toList, Std.TreeSet.mem_ofList,
      List.contains_iff_mem]
    exact List.mem_map_of_mem hedge
  | viewPermit hm hview hname htop =>
    obtain ⟨htop, m', hm', hspecifies⟩ := hunder hm htop
    refine .viewPermit htop hm' ?_ (show name ∈ (ViewDeclaration.spec _).permits from hname)
    rw [hspecifies.views_eq]
    exact List.mem_map_of_mem hview
  | requirement hm hrequirement =>
    obtain ⟨id, m', hm', -, hspecifies⟩ := hmodule hm
    have hmem : _ ∈ m'.requires :=
      List.mem_append_left _ (hspecifies.requires_eq.symm ▸ hrequirement)
    have hrequires : m'.hasRequires := by
      have hne := List.ne_nil_of_mem hmem
      simpa [Module.hasRequires] using hne
    exact .requirement (ht.settled.group_mem_topLevel hm' hrequires)
      (ModuleTable.mem_groupModules.2 ⟨id, hm', .inr rfl⟩) hmem
  | target hedge htop hbase =>
    rename_i edge _
    obtain ⟨htop, id, m', -, hname, hgroup⟩ := htop.exists_module ht.settled.indexed
    have hleaving : ⟨edge.target, edge.modifiers⟩ ∈ builder.plan.declared.leaving m'.name := by
      refine List.mem_map.2 ⟨edge, List.mem_filter.2 ⟨hdeclared ▸ hedge, ?_⟩, rfl⟩
      rw [hname, beq_self_eq_true]
    exact .target htop hgroup hleaving hbase
  | permit hm hname htop =>
    obtain ⟨htop, m', hm', hspecifies⟩ := hunder hm htop
    exact .permit htop hm' (List.mem_append_left _ (hspecifies.permits_eq ▸ hname))

/-- A build succeeds only if every name of the configuration that some pass needs leads to a module,
or to a view if a dependence is asked for. A build that fails otherwise than over a name that leads
nowhere has found all names that the passes before look up. -/
theorem leads_of_buildWith (c : Configuration) (registry : Registry) (optional : OptionalRules)
    (merge : Bool) :
    (∀ outcome, (c.buildWith registry optional merge).result = .ok outcome →
      ∀ lookup name, c.Refers outcome.table lookup name →
        if lookup = .dependences then (outcome.surfaces.resolve? outcome.table name).isSome
        else (outcome.table.find name).isSome) ∧
    ∀ e, (c.buildWith registry optional merge).result = .error e →
      e.IsUnknown ∨ e.passed = 0 ∨ ∃ builder r, c.builderWith optional merge = .ok builder ∧
        builder.stages registry = .ok r ∧
        ∀ lookup name, lookup.rank < e.passed → c.Refers r.1.table lookup name →
          builder.plan.Finds r.1 lookup name := by
  constructor
  · intro outcome hbuild lookup name hrefers
    obtain ⟨builder, hbuilder⟩ := exists_builderWith hbuild
    rw [(buildWith_of_builderWith hbuilder registry).2] at hbuild
    obtain ⟨hstaged, hs, hpassed⟩ := (builder.ends_build_passed registry).of_ok hbuild
    have hleads := hpassed lookup name (by cases lookup <;> decide)
      (looks_of_refers hbuilder hstaged hrefers)
    cases lookup with
    | dependences =>
      obtain ⟨s, hsurfaces, hsome⟩ := hleads
      rw [hs] at hsurfaces
      cases hsurfaces
      exact hsome
    | members | sources | views | permits => exact hleads
  · intro e hbuild
    cases hbuilder : c.builderWith optional merge with
    | error fault =>
      have hfault : (c.buildWith registry optional merge).result = .error (.config fault) :=
        buildWith_of_fault hbuilder registry
      rw [hfault] at hbuild
      cases hbuild
      exact .inr (.inl rfl)
    | ok builder =>
      rw [(buildWith_of_builderWith hbuilder registry).2] at hbuild
      refine ((builder.ends_build_passed registry).of_error hbuild).imp_right (Or.imp_right ?_)
      rintro ⟨r, hr, hstaged, hpassed⟩
      exact ⟨builder, r, rfl, hr, fun lookup name hlt hrefers =>
        hpassed lookup name hlt (looks_of_refers hbuilder hstaged hrefers)⟩

/-- A program with a tool as its member, and a library. -/
def referring : Configuration where
  modules := [
    { name := "app", roots := ["app.*"], members := ["app.cmd"],
      requires := [{ name := "lib.api" }],
      views := [{ name := "app.plug", permits := ["lib"] }] },
    { name := "app.cmd", roots := ["app.cmd.*"] },
    { name := "lib", roots := ["lib.*"], permits := ["app.cmd"], views := [{ name := "lib.api" }] }]
  dependencies := [{ source := "app.cmd", target := "lib" }]

/-- A class for each of the three modules. -/
def referringClasses : Registry :=
  .populate [.register { name := "app.Main" }, .register { name := "app.cmd.Run" },
    .register { name := "lib.Core" }]

/-- The required view is there. Modules that require each other fail over the load order, so they
have found each other before. -/
theorem leads_referring :
    (∃ outcome, (referring.buildWith referringClasses {} true).result = .ok outcome ∧
      referring.Refers outcome.table .dependences "lib.api" ∧
      (outcome.surfaces.resolve? outcome.table "lib.api").isSome) ∧
    ∃ e, (circle.buildWith {} {} true).result = .error e ∧ ¬e.IsUnknown ∧ e.passed = 5 ∧
      ∃ builder r, circle.builderWith {} true = .ok builder ∧ builder.stages {} = .ok r ∧
        ∀ lookup name, lookup.rank < e.passed → circle.Refers r.1.table lookup name →
          builder.plan.Finds r.1 lookup name := by
  constructor
  · have hrun : ∃ outcome, (referring.buildWith referringClasses {} true).result = .ok outcome ∧
        True := by
      decide +kernel
    obtain ⟨outcome, hbuild, -⟩ := hrun
    have hmem : ∃ m ∈ referring.modules, ∃ r ∈ m.requires, r.name = "lib.api" := by decide
    obtain ⟨m, hm, r, hr, hname⟩ := hmem
    have hrefers : referring.Refers outcome.table .dependences "lib.api" :=
      hname ▸ .requirement hm hr
    exact ⟨outcome, hbuild, hrefers,
      (leads_of_buildWith referring referringClasses {} true).1 outcome hbuild _ _ hrefers⟩
  · have hbuild : (circle.buildWith {} {} true).result =
        .error (.dependencyCycle ["a", "b", "a"]) := by
      decide +kernel
    have hknown : ¬BuildError.IsUnknown (.dependencyCycle ["a", "b", "a"]) := by
      rintro ⟨name, context, ⟨⟩⟩
    refine ⟨_, hbuild, hknown, rfl, ?_⟩
    rcases (leads_of_buildWith circle {} {} true).2 _ hbuild with hunknown | hnone | hpassed
    · exact absurd hunknown hknown
    · cases hnone
    · exact hpassed

/-- A program beside an empty module, which permits an unknown one and has an edge to it, and a base
module with an optional edge to it. -/
def forgiving : Configuration where
  modules := [
    { name := "app", roots := ["app.*"] },
    { name := "spare", permits := ["gone"],
      views := [{ name := "spare.api", permits := ["gone"] }] },
    { name := "base" }]
  dependencies := [
    { source := "base", target := "gone", modifiers := { isOptional := true } },
    { source := "spare", target := "gone" }]

/-- Two modules of one name, which require an unknown one. -/
def doubled : Configuration where
  modules := [{ name := "app", requires := [{ name := "gone" }] },
    { name := "app", requires := [{ name := "gone" }] }]

/-- The first build succeeds, though permits and edges name a module that does not exist; the second
one fails over another name before it comes to a name that leads nowhere. -/
theorem not_leads_forgiving :
    (forgiving.validate = .ok () ∧
      (∃ outcome,
        (forgiving.buildWith (.populate [.register { name := "app.Main" }]) {} true).result
          = .ok outcome ∧ outcome.table.find "gone" = none ∧
        outcome.surfaces.resolve? outcome.table "gone" = none) ∧
      (∃ m ∈ forgiving.modules, "gone" ∈ m.permits) ∧
      (∃ m ∈ forgiving.modules, ∃ view ∈ m.views, "gone" ∈ view.permits) ∧
      ∀ edge ∈ forgiving.dependencies, edge.target = "gone") ∧
    doubled.validate = .ok () ∧ (∃ m ∈ doubled.modules, ∃ r ∈ m.requires, r.name = "gone") ∧
      (doubled.buildWith {} {} true).result = .error (.duplicateModule "app") := by
  have hvalid : forgiving.validate = .ok () ∧ doubled.validate = .ok () := by decide +kernel
  have hrun : (∃ outcome,
        (forgiving.buildWith (.populate [.register { name := "app.Main" }]) {} true).result
          = .ok outcome ∧ outcome.table.find "gone" = none ∧
        outcome.surfaces.resolve? outcome.table "gone" = none) ∧
      (doubled.buildWith {} {} true).result = .error (.duplicateModule "app") := by
    decide +kernel
  exact ⟨⟨hvalid.1, hrun.1, by decide, by decide, by decide⟩, hvalid.2, by decide, hrun.2⟩

end Configuration

end ModuleGraph
