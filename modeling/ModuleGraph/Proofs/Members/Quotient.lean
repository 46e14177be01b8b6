import ModuleGraph.Proofs.Easing.Builds
import ModuleGraph.Proofs.Members.Rearranging
import ModuleGraph.Proofs.Requires
import ModuleGraph.Proofs.Specifications

/-!
# Merging members takes a quotient

Whether members are merged is asked after everything has found its owner. So a build that merges
them and one that does not agree on the owners, and differ in that the modules of the one are put
into groups in the other (`ModuleTable.Coarsens`). Evidence is then not lost: what a module has for
a dependence on another one, its group has for a dependence on the group of the other one, since
names lead to groups, and a group holds what its modules held. Only optional evidence may be lost,
because a group may become foundational.

* `EvidenceBase.Evidence.coarsen`: evidence in groups.
* `Outcome.Quotient`: what a merged build has of the unmerged one.
* `Configuration.quotient_of_buildWith`: the builds of a configuration in which every required name
  and both ends of every declared edge are names of modules.
-/

namespace ModuleGraph

/-! ## Modules in groups -/

namespace ModuleTable

variable {t t' u : ModuleTable} {x : ModuleId} {m : Module} {declared : DeclaredEdges}

/-- The modules of the first table are their own groups. In the second one they have been put into
groups, which hold what their modules held. -/
structure Coarsens (t t' : ModuleTable) : Prop where
  frame : t.SameBut Module.frame t'
  group_self : ∀ x, t.group x = x
  classes_subset : ∀ x, t.classes x ⊆ t'.classes (t'.group x)

/-- A table with links only, and the same table with its members merged. -/
theorem LinksOnly.coarsens (h : u.LinksOnly t) (h' : u.Combines t')
    (hself : ∀ x < u.size, u.group x = x) : t.Coarsens t' where
  frame := h.frame.symm.trans h'.frame
  group_self x := by
    rw [(h.unlinked.less (·.group)).group_eq]
    rcases Nat.lt_or_ge x u.size with hlt | hge
    · exact hself x hlt
    · exact group_of_size_le hge
  classes_subset x c hc := by
    rw [mem_classes] at hc ⊢
    have hheld : u.Holds x (.unit c) := (h.unlinked.less Module.contents).holds_iff.1 hc
    exact (h'.holds_iff _ _).2 ⟨x, (h'.group_root x hheld.lt_size).1, hheld⟩

/-- Where nothing is linked and every module is its own group, a table with its members merged
coarsens the table with its members linked. -/
theorem Unlinked.coarsens (h : u.Unlinked) (hi : u.Indexed) (hself : ∀ x < u.size, u.group x = x)
    (hlinked : (u.buildMembers false).2 = .ok ()) (hmerged : (u.buildMembers true).2 = .ok ()) :
    (u.buildMembers false).1.Coarsens (u.buildMembers true).1 :=
  (h.linksOnly hi hlinked).coarsens (h.combines hi hself hmerged) hself

/-- Every module of the first table has its counterpart in the group that it has been put into. -/
theorem Coarsens.exists_mem_groupModules (h : t.Coarsens t') (hm : m ∈ t.groupModules x) :
    ∃ m' ∈ t'.groupModules (t'.group x), m'.spec = m.spec ∧ m'.requires = m.requires := by
  obtain ⟨y, hy, hyx⟩ := mem_groupModules.1 hm
  have hsame : y = x := by rwa [h.group_self, or_self] at hyx
  subst hsame
  obtain ⟨m', hm', hframe⟩ := h.frame.exists_get? hy
  simp only [Module.frame, Prod.mk.injEq] at hframe
  obtain ⟨hspec, hextra, -⟩ := hframe
  exact ⟨m', mem_groupModules.2 ⟨y, hm', .inr rfl⟩, hspec, by
    rw [Module.requires, hspec, hextra, Module.requires]⟩

/-- Every name that a module requires and every name that a declared edge leads to is the name of a
module. -/
structure Names (t : ModuleTable) (declared : DeclaredEdges) : Prop where
  required : ∀ {x m}, t.get? x = some m → ∀ r ∈ m.requires, ∃ id, t.find r.name = some id
  declared : ∀ edge ∈ declared.edges, ∃ id, t.find edge.target = some id

theorem Names.of_sameBut (h : t.Names declared) (hsame : t.SameBut Module.frame t') :
    t'.Names declared where
  required {x m'} hm' r hr := by
    obtain ⟨m, hm, hframe⟩ := hsame.exists_get?_before hm'
    simp only [Module.frame, Prod.mk.injEq] at hframe
    obtain ⟨hspec, hextra, -⟩ := hframe
    rw [Module.requires, ← hspec, ← hextra] at hr
    rw [hsame.find]
    exact h.required hm r hr
  declared edge hedge := by
    rw [hsame.find]
    exact h.declared edge hedge

end ModuleTable

/-! ## Evidence in groups -/

/-- The plan with members merged or not. -/
def BuildPlan.withMerge (plan : BuildPlan) (merge : Bool) : BuildPlan :=
  { plan with options := { plan.options with merge } }

namespace EvidenceBase

variable {base base' : EvidenceBase} {plan : BuildPlan} {X : ModuleId} {e : Dependence}

/-- What a name of a module asks for is put into groups. -/
theorem Asks.coarsen (h : base.table.Coarsens base'.table) {requirement : Requirement}
    (hname : ∃ id, base.table.find requirement.name = some id) (hasks : base.Asks requirement e) :
    ∃ e', base'.Asks requirement e' ∧ e'.module = base'.table.group e.module ∧
      e'.modifiers = e.modifiers := by
  obtain ⟨id, hid⟩ := hname
  obtain ⟨target, htarget, rfl⟩ := hasks
  rw [Surfaces.resolve?, hid] at htarget
  cases htarget
  refine ⟨base'.towards (base'.table.group id, none) requirement.modifiers,
    ⟨(base'.table.group id, none), ?_, rfl⟩, ?_, rfl⟩
  · rw [Surfaces.resolve?, h.frame.find, hid]
  · show base'.table.group id = base'.table.group (base.table.group id)
    rw [h.group_self]

/-- Evidence that is not optional is evidence of the group, for the group. -/
theorem Evidence.coarsen (h : base.table.Coarsens base'.table)
    (hregistry : base'.registry = base.registry) (hnames : base.table.Names plan.declared)
    (merge : Bool) (he : base.Evidence plan X e) (hfirm : ¬e.modifiers.isOptional) :
    ∃ e', base'.Evidence (plan.withMerge merge) (base'.table.group X) e' ∧
      e'.module = base'.table.group e.module ∧ ¬e'.modifiers.isOptional := by
  cases he with
  | @required m requirement _ hm hr hasks =>
    obtain ⟨m', hm', -, hrequires⟩ := h.exists_mem_groupModules hm
    obtain ⟨y, hy, -⟩ := ModuleTable.mem_groupModules.1 hm
    obtain ⟨e', hasks', hmodule, hmodifiers⟩ := hasks.coarsen h (hnames.required hy _ hr)
    exact ⟨e', .required hm' (hrequires ▸ hr) hasks', hmodule, hmodifiers ▸ hfirm⟩
  | @referenced c d source target owner hc hs hd ht ho =>
    rw [← hregistry] at hs ht
    refine ⟨_, .referenced (h.classes_subset X hc) hs hd ht ho, ?_, hfirm⟩
    show base'.table.group owner = base'.table.group (base.table.group owner)
    rw [h.group_self]
  | @mainClass m name c owner hm hmain hc ho =>
    obtain ⟨m', hm', hspec, -⟩ := h.exists_mem_groupModules hm
    rw [← hregistry] at hc ho
    refine ⟨_, .mainClass hm' (hspec ▸ hmain) hc ho, ?_, hfirm⟩
    show base'.table.group owner = base'.table.group (base.table.group owner)
    rw [h.group_self]
  | @declared m edge _ hm hedge hbase hasks =>
    obtain ⟨m', hm', hspec, -⟩ := h.exists_mem_groupModules hm
    have hname : m'.name = m.name := congrArg (·.name) hspec
    have hfind : ∃ id, base.table.find edge.name = some id := by
      obtain ⟨declaration, hmem, rfl⟩ := List.mem_map.1 hedge
      exact hnames.declared declaration (List.mem_filter.1 hmem).1
    obtain ⟨e', hasks', hmodule, hmodifiers⟩ := hasks.coarsen h hfind
    -- what is not optional counts for a foundational group too
    have hfirm' : ¬edge.modifiers.isOptional := by
      obtain ⟨target, -, rfl⟩ := hasks
      exact hfirm
    exact ⟨e', .declared hm' (hname ▸ hedge) (fun hboth => hfirm' hboth.2) hasks', hmodule,
      hmodifiers ▸ hfirm⟩

end EvidenceBase

/-! ## Builds -/

/-- The second outcome is a quotient of the first one: the same modules own the same items, and a
dependence that is not optional is found again between the groups of its ends, if these are
different and take part in the graph. -/
structure Outcome.Quotient (a b : Outcome) : Prop where
  name_eq : ∀ x, b.table.name x = a.table.name x
  registry_eq : b.partition.registry = a.partition.registry
  requires : ∀ (X : ModuleId) info, a.infos[X]? = some info →
    ∀ dep ∈ info.requires, ¬dep.modifiers.isOptional →
      b.table.group X ≠ b.table.group dep.module →
      b.table.group X ∈ b.table.topLevel → b.table.group dep.module ∈ b.table.topLevel →
      ∃ info', b.infos[b.table.group X]? = some info' ∧
        ∃ dep' ∈ info'.requires, dep'.module = b.table.group dep.module ∧
          ¬dep'.modifiers.isOptional

namespace BuildPlan

variable {plan : BuildPlan} {registry : Registry} {p q : Partition} {a b : Outcome}

/-- Resolutions of a table and of the same table with its modules in groups. -/
theorem Resolution.quotient (ha : (plan.withMerge false).Resolution {} a)
    (hb : (plan.withMerge true).Resolution {} b) (h : a.table.Coarsens b.table)
    (hregistry : b.partition.registry = a.partition.registry)
    (hnames : a.table.Names plan.declared) : a.Quotient b where
  name_eq x := (h.frame.less fun frame => frame.1).name_eq x
  registry_eq := hregistry
  requires X info hinfo dep hdep hfirm hne hX hD := by
    obtain ⟨hweighs, -⟩ := ha.weighs_of_mem hinfo hdep
    obtain ⟨e, he, hmodule, hefirm⟩ : ∃ e, a.base.Evidence (plan.withMerge false) X e ∧
        e.module = dep.module ∧ ¬e.modifiers.isOptional := by
      by_contra hnone
      refine hfirm (hweighs.isOptional.2 fun e he hmodule => ?_)
      by_contra hefirm
      exact hnone ⟨e, he, hmodule, hefirm⟩
    have hcoarsens : a.base.table.Coarsens b.base.table := h
    have hdeclared : a.base.table.Names (plan.withMerge false).declared := hnames
    obtain ⟨e', he', hmodule', hefirm'⟩ := he.coarsen hcoarsens hregistry hdeclared true hefirm
    rw [hmodule] at hmodule'
    obtain ⟨info', hinfo'⟩ := (hb.exists_info_iff _).2 hX
    obtain ⟨dep', hdep', htarget⟩ := hb.mem_of_evidence hinfo' hD hne.symm ⟨e', he', hmodule'⟩
    refine ⟨info', hinfo', dep', hdep', htarget, fun hoptional => hefirm' ?_⟩
    exact (hb.weighs_of_mem hinfo' hdep').1.isOptional.1 hoptional e' he' (htarget ▸ hmodule')

/-- Members are merged or not, and nothing else is done. -/
theorem mergeMembers_ok_iff :
    plan.mergeMembers p = .ok q ↔ (p.table.buildMembers plan.options.merge).2 = .ok () ∧
      q = { p with table := (p.table.buildMembers plan.options.merge).1 } := by
  unfold mergeMembers
  generalize p.table.buildMembers plan.options.merge = r
  obtain ⟨table, result⟩ := r
  cases result with
  | error e => simp
  | ok done => simp [eq_comm]

/-- Everything is claimed before members are merged or not. -/
theorem exists_claimed {merge : Bool} (hq : (plan.withMerge merge).partitionOf registry = .ok q) :
    ∃ t p, plan.createModules = .ok t ∧ (plan.assignUnits ⟨registry, t⟩).result = .ok p ∧
      (p.table.buildMembers merge).2 = .ok () ∧
      q = { p with table := (p.table.buildMembers merge).1 } := by
  obtain ⟨t, ht, hq⟩ := exists_of_bind_ok hq
  obtain ⟨p, hp, hq⟩ := exists_of_bind_ok hq
  change (plan.withMerge merge).mergeMembers p = .ok q at hq
  obtain ⟨hok, rfl⟩ := mergeMembers_ok_iff.1 hq
  exact ⟨t, p, ht, hp, hok, rfl⟩

/-- Every required name and the target of every declared edge are names of specified modules. -/
structure NamesModules (plan : BuildPlan) : Prop where
  required : ∀ spec ∈ plan.specs, ∀ r ∈ spec.requires, ∃ other ∈ plan.specs, other.name = r.name
  declared : ∀ edge ∈ plan.declared.edges, ∃ spec ∈ plan.specs, spec.name = edge.target

theorem NamesModules.ends_createModules (h : plan.NamesModules) :
    Ends plan.createModules (fun t => t.Names plan.declared) fun _ => True := by
  have hcreated := plan.ends_createModules
  have hfollows := plan.ends_createModules_follows
  cases htable : plan.createModules with
  | error e => trivial
  | ok t =>
    obtain ⟨hi, hfresh, -⟩ := hcreated.of_ok htable
    have hfollows := (hfollows.of_ok htable).2
    have hfind {name : String} (hname : ∃ spec ∈ plan.specs, spec.name = name) :
        ∃ id, t.find name = some id := by
      obtain ⟨spec, hspec, rfl⟩ := hname
      obtain ⟨id, m, hm, rfl⟩ := hfollows.covers spec hspec
      exact ⟨id, (hi _ id).2 ⟨m, hm, rfl⟩⟩
    refine ⟨fun {x m} hm r hr => ?_, fun edge hedge => hfind (h.declared edge hedge)⟩
    -- the engine has added no requirement yet
    have hextra : m.extraRequires = [] := by rw [hfresh x m hm]
    rw [Module.requires, hextra, List.append_nil] at hr
    exact hfind (h.required m.spec (hfollows.known x m hm) r hr)

/-- A merged build is a quotient of the unmerged one. -/
theorem NamesModules.quotient (hnames : plan.NamesModules)
    (ha : ((plan.withMerge false).build registry).result = .ok a)
    (hb : ((plan.withMerge true).build registry).result = .ok b) : a.Quotient b := by
  rw [result_build] at ha hb
  obtain ⟨q, hq, ha⟩ := exists_of_bind_ok ha
  obtain ⟨q', hq', hb⟩ := exists_of_bind_ok hb
  obtain ⟨rfl, hresolution⟩ := (ends_resolve _
    ((ends_partitionOf _ registry).of_ok hq).indexed {} []).of_ok ha
  obtain ⟨rfl, hresolution'⟩ := (ends_resolve _
    ((ends_partitionOf _ registry).of_ok hq').indexed {} []).of_ok hb
  obtain ⟨t, p, ht, hp, hlinked, hapartition⟩ := exists_claimed hq
  obtain ⟨t', p', ht', hp', hmerged, hbpartition⟩ := exists_claimed hq'
  -- both builds come to the same claims
  cases ht.symm.trans ht'
  cases hp.symm.trans hp'
  obtain ⟨hmade, hfree⟩ := (plan.made_assignUnits registry).of_ok
    (show _ >>= _ = Except.ok p by rw [ht]; exact hp)
  have hcoherent := hmade.coherent
  have hunlinked := hcoherent.unlinked hfree
  have hself (x : ModuleId) (hx : x < p.table.size) : p.table.group x = x :=
    hcoherent.group_root x hx (hfree x)
  have htable : a.table = (p.table.buildMembers false).1 := congrArg (·.table) hapartition
  have htable' : b.table = (p.table.buildMembers true).1 := congrArg (·.table) hbpartition
  have hcoarsens : a.table.Coarsens b.table := by
    rw [htable, htable']
    exact hunlinked.coarsens hcoherent.indexed hself hlinked hmerged
  have hregistry : b.partition.registry = a.partition.registry := by
    rw [hapartition, hbpartition]
  have hanames : a.table.Names plan.declared := by
    obtain ⟨hi, -, -⟩ := plan.ends_createModules.of_ok ht
    have hsame := (plan.sameBut_assignUnits hi).of_ok hp
    have htnames : t.Names plan.declared := hnames.ends_createModules.of_ok ht
    rw [htable]
    exact htnames.of_sameBut ((hsame.less Module.frame).trans
      (hunlinked.linksOnly hcoherent.indexed hlinked).frame)
  exact hresolution.quotient hresolution' hcoarsens hregistry hanames

end BuildPlan

namespace Configuration

variable {c : Configuration}

/-- Every required name and both ends of every declared edge are names of declared modules. -/
structure NamesModules (c : Configuration) : Prop where
  required : ∀ m ∈ c.modules, ∀ r ∈ m.requires, ∃ other ∈ c.modules, other.name = r.name
  source : ∀ edge ∈ c.dependencies, ∃ m ∈ c.modules, m.name = edge.source
  target : ∀ edge ∈ c.dependencies, ∃ m ∈ c.modules, m.name = edge.target

theorem NamesModules.planOf (h : c.NamesModules) {specs : List ModuleSpec}
    (hspecs : c.specs = .ok specs) (merge : Bool) : (c.planOf specs merge).NamesModules := by
  have hspecifies := specifies_of_specs hspecs
  have hname {name : String} (hname : ∃ m ∈ c.modules, m.name = name) :
      ∃ spec ∈ specs, spec.name = name := by
    obtain ⟨m, hm, rfl⟩ := hname
    obtain ⟨spec, hspec, hms⟩ := exists_of_forall₂ hspecifies.flip hm
    exact ⟨spec, hspec, hms.name_eq⟩
  refine ⟨fun spec hspec r hr => hname ?_, fun edge hedge => hname (h.target edge hedge)⟩
  obtain ⟨m, hm, hms⟩ := exists_of_forall₂ hspecifies hspec
  rw [hms.requires_eq] at hr
  exact h.required m hm r hr

/-- Whatever the registry, if a configuration without platform settings, in which names are those of
modules, can be built with members merged and without, then both builds give every class and
resource the same owner, and a dependence of the second build that is not optional is one of the
first build too, between the groups of its ends. -/
theorem quotient_of_buildWith (c : Configuration) (registry : Registry) (optional : OptionalRules)
    (a b : Outcome) (hplatform : c.platform = none) (hnames : c.NamesModules)
    (ha : (c.buildWith registry optional false).result = .ok a)
    (hb : (c.buildWith registry optional true).result = .ok b) : a.Quotient b := by
  obtain ⟨specs, rules, hspecs, hrules⟩ := exists_of_buildWith ha
  rw [buildWith_eq hplatform hspecs hrules] at ha hb
  have hplan := hnames.planOf hspecs false
  have hplan' : ((c.planOf specs false).withClassifier
      (rules.extend optional).isOptional).NamesModules := ⟨hplan.required, hplan.declared⟩
  exact hplan'.quotient ha hb

/-- A program and a library, each with a member. -/
def grouped : Configuration where
  modules := [
    { name := "app", roots := ["app.*"], members := ["app.cmd"] },
    { name := "app.cmd", roots := ["app.cmd.*"], requires := [{ name := "lib.io" }] },
    { name := "lib", roots := ["lib.*"], members := ["lib.io"] },
    { name := "lib.io", roots := ["lib.io.*"] }]
  dependencies := [{ source := "app", target := "lib", modifiers := { isOptional := true } }]

end Configuration

/-- The member of the program refers to the member of the library. -/
def Registry.grouped : Registry :=
  .populate [
    .register { name := "app.Main" },
    .register { name := "app.cmd.Run", references := ["lib.io.Reader"] },
    .register { name := "lib.Util" },
    .register { name := "lib.io.Reader" }]

/-- Without merging, the member of the program requires the member of the library. After it, the
program requires the library. -/
theorem Configuration.quotient_grouped :
    ∃ a b, (grouped.buildWith .grouped {} false).result = .ok a ∧
      (grouped.buildWith .grouped {} true).result = .ok b ∧
      (a.infos[1]?).map (·.requires.map fun dep => (dep.module, dep.modifiers.isOptional)) =
        some [(3, false)] ∧
      b.table.topLevel = [0, 2] ∧ b.table.group 1 = 0 ∧ b.table.group 3 = 2 ∧ a.Quotient b := by
  have hrun : ∃ a, (grouped.buildWith .grouped {} false).result = .ok a ∧
      (a.infos[1]?).map (·.requires.map fun dep => (dep.module, dep.modifiers.isOptional)) =
        some [(3, false)] := by decide +kernel
  have hrun' : ∃ b, (grouped.buildWith .grouped {} true).result = .ok b ∧
      b.table.topLevel = [0, 2] ∧ b.table.group 1 = 0 ∧ b.table.group 3 = 2 := by decide +kernel
  obtain ⟨a, ha, hrequires⟩ := hrun
  obtain ⟨b, hb, htop, happ, hlib⟩ := hrun'
  have hnames : grouped.NamesModules := ⟨by decide, by decide, by decide⟩
  exact ⟨a, b, ha, hb, hrequires, htop, happ, hlib,
    quotient_of_buildWith grouped .grouped {} a b rfl hnames ha hb⟩

end ModuleGraph
