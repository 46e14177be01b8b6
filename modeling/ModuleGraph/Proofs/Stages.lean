import ModuleGraph.Proofs.Builder
import ModuleGraph.Proofs.Ownership.Following

/-!
# The stages before the resolution, over any registry

A build is the resolution of what the stages before it hand over (`Builder.result_build`). It may
meet a registry in which items have owners already. Even then these stages keep the modules under
their names: claims change holdings only, and links and groups change no specification. What follows
for a table with the specifications of the created modules, once members are joined
(`ModuleTable.Joined`), and outlasts the preparation for a platform, therefore holds of the table
that is resolved (`Builder.ends_stages_of`).
-/

namespace ModuleGraph

/-- The errors of the stages before the resolution. -/
inductive StageError : BuildError → Prop where
  | creation {e : BuildError} (h : BuildPlan.CreationError e) : StageError e
  | member {e : BuildError} (h : ModuleTable.MemberError e) : StageError e
  | preparation {e : BuildError} (h : PlatformPlan.PreparationError e) : StageError e

/-! ## Claims -/

namespace Partition

variable {p q : Partition} {module : ModuleId}

/-- The module has taken items that nobody had, and nothing but notes is different besides. -/
def TakesFree (p : Partition) (module : ModuleId) (q : Partition) : Prop :=
  ∃ C R U, p.Takes module C R U q ∧ (∀ c ∈ C, p.Free c) ∧ ∀ s ∈ R, p.FreeResource s

theorem TakesFree.sameBut (h : p.TakesFree module q) (hm : module < p.table.size) :
    p.table.SameBut Module.outline q.table := by
  obtain ⟨C, R, U, htakes, -, -⟩ := h
  exact htakes.sameBut hm

theorem takesFree_seedRoots (p : Partition) (module : ModuleId) :
    Ends (p.seedRoots module) (fun r => p.TakesFree module r.1) fun _ => False := by
  refine (p.takes_seedRoots module).weaken fun r h => ?_
  obtain ⟨hroots, htakes⟩ := h
  refine ⟨_, _, _, htakes, fun c hc => ?_, by simp⟩
  exact free_of_mem_unownedWhere (hroots ▸ hc)

theorem takesFree_closeOver (hm : module < p.table.size) (seeds : List ClassId) :
    Ends (p.closeOver module seeds).result (fun r => p.TakesFree module r.1) fun _ => False := by
  refine (p.ends_completes seeds hm).weaken fun r h => ?_
  refine ⟨_, _, _, h.2.takes, fun c hc => Gathers.free hc, fun s hs => ?_⟩
  obtain ⟨entry, he, hnone, -⟩ := hs
  exact ⟨entry, he, hnone⟩

theorem takesFree_assignUnclaimed (p : Partition) (module : ModuleId) :
    Ends (p.assignUnclaimed module) (fun r => p.TakesFree module r.1) fun _ => False := by
  refine (p.takes_assignUnclaimed module).weaken fun r h => ?_
  refine ⟨_, _, _, h, fun c hc => free_of_mem_unownedWhere hc, fun s hs => ?_⟩
  obtain ⟨entry, he, hnone⟩ := Registry.mem_resourcesWhere.1 hs
  exact ⟨entry, he, Option.isNone_iff_eq_none.1 hnone⟩

end Partition

/-- A table with the specifications of another one, once members are joined: there are groups, and
all declared members are known. -/
structure ModuleTable.Joined (created t : ModuleTable) : Prop where
  same : created.SameBut (·.spec) t
  settled : t.Settled
  members : ∀ {id m}, t.get? id = some m → ∀ name ∈ m.spec.members, (t.find name).isSome

namespace BuildPlan

/-- What modules keep that take what nobody has, the claims of all modules keep. They change nothing
but what modules hold. -/
theorem ends_assignUnits_of (plan : BuildPlan) {p : Partition} (good : Partition → Prop)
    (hi : p.table.Indexed) (hp : good p)
    (hstep : ∀ {q r module}, good q → module < q.table.size → q.TakesFree module r → good r) :
    Ends (plan.assignUnits p).result
      (fun q => p.table.SameBut Module.outline q.table ∧ good q) CreationError := by
  -- what one module takes changes neither the number of modules nor what is good
  have hnext {q r : Partition} {module : ModuleId}
      (hq : p.table.SameBut Module.outline q.table ∧ good q) (hm : module < p.table.size)
      (hr : q.TakesFree module r) : p.table.SameBut Module.outline r.table ∧ good r := by
    have hm' : module < q.table.size := hq.1.size ▸ hm
    exact ⟨hq.1.trans (hr.sameBut hm'), hstep hq.2 hm' hr⟩
  simp only [assignUnits, Logged.result_bind, Logged.result_liftM, Logged.result_foldlM]
  have hseeds : Ends (seedAll p)
      (fun r => (p.table.SameBut Module.outline r.1.table ∧ good r.1) ∧
        ∀ seeds ∈ r.2, seeds.1 < p.table.size)
      CreationError := by
    rw [seedAll]
    refine Ends.foldlM (fun r : Partition × List (ModuleId × List ClassId) =>
        (p.table.SameBut Module.outline r.1.table ∧ good r.1) ∧
          ∀ seeds ∈ r.2, seeds.1 < p.table.size)
      ⟨⟨.refl _ _, hp⟩, by simp⟩ fun r hr id hid => ?_
    obtain ⟨hgood, hseeds⟩ := hr
    have hlt : id < p.table.size := ModuleTable.mem_ids.1 hid
    refine ((r.1.takesFree_seedRoots id).mono (fun _ h => h) fun _ => False.elim).bind
      fun q hq => ⟨hnext hgood hlt hq, fun seeds hmem => ?_⟩
    rcases List.mem_append.1 hmem with hold | hnew
    · exact hseeds seeds hold
    · rw [List.mem_singleton.1 hnew]
      exact hlt
  refine hseeds.bind fun r hr => ?_
  obtain ⟨hgood, hlt⟩ := hr
  have hclose : Ends (r.2.foldlM (fun p seeds => (closeOne p seeds).result) r.1)
      (fun q => p.table.SameBut Module.outline q.table ∧ good q) CreationError := by
    refine Ends.foldlM (fun q : Partition => p.table.SameBut Module.outline q.table ∧ good q) hgood
      fun q hq seeds hmem => ?_
    simp only [closeOne, Logged.result_bind, Logged.result_emitIf, Logged.result_pure]
    have hm := hlt seeds hmem
    exact ((Partition.takesFree_closeOver (hq.1.size ▸ hm) seeds.2).mono (fun _ h => h)
      fun _ => False.elim).bind fun s hs => hnext hq hm hs
  refine hclose.bind fun q hq => ?_
  unfold assignRest
  cases plan.options.unknownModule with
  | none =>
    simp only [Logged.result_bind, Logged.result_emitIf, Logged.result_pure]
    exact hq
  | some unknown =>
    simp only [Logged.result_bind, Logged.result_emitIf, Logged.result_pure, Logged.result_liftM]
    refine ((q.table.ends_require _ _).mono (fun _ h => h)
      fun _ he => he ▸ .unknownModule _ _).bind fun id hid => ?_
    obtain ⟨m, hm, -⟩ := ((hq.1.less (·.spec)).indexed hi).get?_of_find hid
    have hlt : id < p.table.size := hq.1.size ▸ ModuleTable.lt_size_of_get? hm
    exact ((q.takesFree_assignUnclaimed id).mono (fun _ h => h) fun _ => False.elim).bind
      fun s hs => hnext hq hlt hs

/-- The claims of all modules change nothing but what modules hold. -/
theorem sameBut_assignUnits (plan : BuildPlan) {p : Partition} (hi : p.table.Indexed) :
    Ends (plan.assignUnits p).result (fun q => p.table.SameBut Module.outline q.table)
      CreationError :=
  (plan.ends_assignUnits_of (fun _ => True) hi trivial fun _ _ _ => trivial).weaken fun _ h => h.1

/-- Claims and the merging of members keep the modules under their names, and put them into groups.
All declared members are known. -/
theorem joined_mergeMembers (plan : BuildPlan) {table : ModuleTable} (hfresh : table.Fresh)
    (hi : table.Indexed) (registry : Registry) :
    Ends ((plan.assignUnits ⟨registry, table⟩).result >>= plan.mergeMembers)
      (fun q => table.Joined q.table) StageError := by
  refine ((sameBut_assignUnits plan hi).mono (fun _ h => h) fun _ => .creation).bind
    fun p hp => ?_
  have hmembers : Ends (plan.mergeMembers p) (fun q => ∀ {id m}, p.table.get? id = some m →
      ∀ name ∈ m.spec.members, (p.table.find name).isSome) fun _ => True := by
    cases hresult : plan.mergeMembers p with
    | error e => trivial
    | ok q => exact fun hm => p.table.isSome_find_of_buildMembers (by
        unfold mergeMembers at hresult
        split at hresult
        · rename_i hok
          rw [hok]
        · cases hresult) hm
  refine ((ends_mergeMembers_merged plan hfresh hi hp).and hmembers).mono
    (fun q ⟨⟨_, h⟩, hmembers⟩ => ?_) fun _ => .member
  have hsame : table.SameBut (·.spec) q.table := (hp.less (·.spec)).trans h.same
  refine ⟨hsame, h.settled ((hp.less (·.spec)).indexed hi), fun hm name hname => ?_⟩
  obtain ⟨m', hm', hspec⟩ := h.same.exists_get?_before hm
  rw [h.same.find]
  exact hmembers hm' name (hspec ▸ hname)

/-- The partition that a plain build resolves. -/
def partitionOf (plan : BuildPlan) (registry : Registry) : Except BuildError Partition := do
  let table ← plan.createModules
  let p ← (plan.assignUnits { registry, table }).result
  plan.mergeMembers p

theorem result_build (plan : BuildPlan) (registry : Registry) :
    (plan.build registry).result =
      plan.partitionOf registry >>= fun p => (plan.resolve p {} []).result := by
  simp only [build, partitionOf, Logged.result_bind, Logged.result_liftM, bind_assoc]

/-- A plain build resolves a settled table, with the specifications of the created modules. -/
theorem ends_partitionOf_of {plan : BuildPlan} {good : Partition → Prop} (registry : Registry)
    (hgood : ∀ (table : ModuleTable) (p : Partition), plan.createModules = .ok table →
      table.Joined p.table → good p) :
    Ends (plan.partitionOf registry) good StageError := by
  refine ((plan.ends_createModules.and (Ends.self _)).mono (fun _ h => h)
    fun _ => .creation).bind fun table ⟨⟨hi, hfresh, _⟩, htable⟩ => ?_
  exact (joined_mergeMembers plan hfresh hi registry).weaken fun p => hgood table p htable

theorem ends_partitionOf (plan : BuildPlan) (registry : Registry) :
    Ends (plan.partitionOf registry) (fun p => p.table.Settled) StageError :=
  ends_partitionOf_of registry fun _ _ _ hp => hp.settled

end BuildPlan

/-! ## Platform builds -/

namespace PlatformPlan

variable {platform : PlatformPlan}

/-- The stages of a platform build before the resolution. -/
def prepared (platform : PlatformPlan) (registry : Registry) :
    Logged BuildError (Partition × Prepared) := do
  let table ← platform.plan.createModules
  let boot ← requireRole table platform.settings.bootModule "boot"
  let base ← requireRole table platform.settings.baseModule "base"
  let p ← platform.plan.assignUnits { registry, table }
  let p ← platform.plan.mergeMembers p
  let prepared ← platform.prepare p boot base
  return ({ p with table := prepared.table }, prepared)

theorem result_build (platform : PlatformPlan) (registry : Registry) :
    (platform.build registry).result = (platform.prepared registry).result >>= fun r =>
      (platform.plan.resolve r.1 r.2.policy r.2.seeds).result := by
  simp only [build, prepared, Logged.result_bind, Logged.result_liftM, Logged.result_pure,
    bind_assoc]
  rfl

theorem find_of_requireRole {table : ModuleTable} {name role : String} {id : ModuleId}
    (h : requireRole table name role = .ok id) : table.find name = some id := by
  unfold requireRole at h
  split at h
  · rename_i found hfound
    cases h
    exact hfound
  · cases h

/-- The preparation starts from a settled table, with the specifications of the created modules,
that has the boot module and the base module. -/
theorem ends_prepared_of {good : Partition × Prepared → Prop} (registry : Registry)
    (hprepare : ∀ (table : ModuleTable) (p : Partition) (boot base : ModuleId),
      platform.plan.createModules = .ok table → table.Joined p.table →
      p.table.find platform.settings.bootModule = some boot →
      p.table.find platform.settings.baseModule = some base →
      boot < p.table.size → base < p.table.size →
      Ends (platform.prepare p boot base).result
        (fun prepared => good ({ p with table := prepared.table }, prepared)) fun _ => True) :
    Ends (platform.prepared registry).result good StageError := by
  simp only [prepared, Logged.result_bind, Logged.result_liftM, Logged.result_pure]
  refine ((platform.plan.ends_createModules.and (Ends.self _)).mono (fun _ h => h)
    fun _ => .creation).bind fun table ⟨⟨hi, hfresh, _⟩, htable⟩ => ?_
  have hrole (name role : String) : Ends (requireRole table name role)
      (fun id => requireRole table name role = .ok id) StageError :=
    ((ends_requireRole table name role).and (Ends.self _)).mono (fun _ h => h.2)
      fun _ => .preparation
  refine (hrole _ _).bind fun boot hboot => (hrole _ _).bind fun base hbase => ?_
  rw [← bind_assoc]
  refine (BuildPlan.joined_mergeMembers platform.plan hfresh hi registry).bind fun p hp => ?_
  have hfind {name role : String} {id : ModuleId} (h : requireRole table name role = .ok id) :
      p.table.find name = some id := (hp.same.find name).trans (find_of_requireRole h)
  have hlt {name : String} {id : ModuleId} (h : p.table.find name = some id) :
      id < p.table.size := by
    obtain ⟨m, hm, -⟩ := hp.settled.indexed.get?_of_find h
    exact ModuleTable.lt_size_of_get? hm
  have hgood := hprepare table p boot base htable hp (hfind hboot) (hfind hbase)
    (hlt (hfind hboot)) (hlt (hfind hbase))
  exact (((ends_prepare platform hp.settled.indexed boot base).and hgood).mono (fun _ h => h.2)
    fun _ => .preparation).bind fun prepared h => h

end PlatformPlan

/-! ## Either variant -/

namespace Builder

/-- What a build hands over to the resolution: a partition, a policy and the modules that the load
order starts with. -/
def stages (builder : Builder) (registry : Registry) :
    Except BuildError (Partition × PlatformPlan.Prepared) :=
  match builder with
  | plain plan => do
    let p ← plan.partitionOf registry
    return (p, { table := p.table, policy := {}, seeds := [] })
  | platform p => (p.prepared registry).result

theorem result_build (builder : Builder) (registry : Registry) :
    (builder.build registry).result = builder.stages registry >>= fun r =>
      (builder.plan.resolve r.1 r.2.policy r.2.seeds).result := by
  cases builder with
  | plain plan =>
    show (plan.build registry).result = _
    simp only [BuildPlan.result_build, stages, bind_assoc, pure_bind]
    rfl
  | platform p => exact p.result_build registry

/-- What follows for a table with the specifications of the created modules, once members are
joined. A plain build resolves such a table, and a platform build one that the preparation makes
from it. -/
theorem ends_stages_of {created good : ModuleTable → Prop} (builder : Builder)
    (registry : Registry) (joined : ModuleTable → Prop)
    (hcreated : Ends builder.plan.createModules created fun _ => True)
    (hjoined : ∀ {t t' : ModuleTable}, created t → t.Joined t' → joined t')
    (hplain : ∀ {t : ModuleTable}, joined t → good t)
    (hprepare : ∀ (platform : PlatformPlan) (p : Partition) (boot base : ModuleId),
      builder = .platform platform → joined p.table →
      Ends (platform.prepare p boot base).result (fun prepared => good prepared.table)
        fun _ => True) :
    Ends (builder.stages registry) (fun r => good r.1.table) StageError := by
  cases builder with
  | plain plan =>
    have hpartition : Ends (plan.partitionOf registry) (fun p => good p.table) StageError :=
      BuildPlan.ends_partitionOf_of registry fun table p htable hp =>
        hplain (hjoined (hcreated.of_ok htable) hp)
    exact hpartition.bind fun p hp => Ends.pure_iff.2 hp
  | platform platform =>
    refine PlatformPlan.ends_prepared_of registry fun table p boot base htable hp _ _ _ _ => ?_
    exact hprepare platform p boot base rfl (hjoined (hcreated.of_ok htable) hp)

/-- What the claims and the merging of members establish, and new empty modules keep, holds of the
partition that a build resolves. -/
theorem ends_stages_divided {good : Partition → Prop} (builder : Builder) (registry : Registry)
    (hdivide : ∀ table, builder.plan.Created table →
      Ends ((builder.plan.assignUnits ⟨registry, table⟩).result >>= builder.plan.mergeMembers) good
        StageError)
    (hindexed : ∀ {p}, good p → p.table.Indexed)
    (hextends : ∀ {p table}, good p → p.table.Extends table → good ⟨p.registry, table⟩) :
    Ends (builder.stages registry) (fun r => good r.1) StageError := by
  cases builder with
  | plain plan =>
    rw [stages, BuildPlan.partitionOf, bind_assoc]
    refine (plan.ends_createModules.mono (fun _ h => h) fun _ => .creation).bind
      fun table htable => ?_
    exact (hdivide table htable).bind fun p hp => Ends.pure_iff.2 hp
  | platform platform =>
    rw [stages, PlatformPlan.prepared]
    simp only [Logged.result_bind, Logged.result_liftM, Logged.result_pure]
    refine (platform.plan.ends_createModules.mono (fun _ h => h) fun _ => .creation).bind
      fun table htable => ?_
    refine ((PlatformPlan.ends_requireRole table _ _).mono (fun _ h => h) fun _ =>
      .preparation).bind fun boot _ => ?_
    refine ((PlatformPlan.ends_requireRole table _ _).mono (fun _ h => h) fun _ =>
      .preparation).bind fun base _ => ?_
    rw [← bind_assoc]
    refine (hdivide table htable).bind fun p hp => ?_
    refine ((PlatformPlan.ends_prepare platform (hindexed hp) boot base).mono (fun _ h => h)
      fun _ => .preparation).bind fun prepared hext => ?_
    exact Ends.pure_iff.2 (hextends hp hext)

/-- A build that succeeds ends with the resolution of a table in which names tell modules apart. -/
theorem ends_stages (builder : Builder) (registry : Registry) :
    Ends (builder.build registry).result
      (fun outcome => ∃ p policy seeds, p.table.Indexed ∧
        (builder.plan.resolve p policy seeds).result = .ok outcome)
      fun _ => True := by
  have hstages : Ends (builder.stages registry) (fun r => r.1.table.Indexed) StageError := by
    refine builder.ends_stages_of registry ModuleTable.Indexed (Ends.self _)
      (fun _ h => h.settled.indexed) id fun platform p boot base _ hi => ?_
    exact (platform.ends_prepare hi boot base).mono (fun prepared h => h.indexed hi)
      fun _ _ => trivial
  rw [result_build]
  exact (hstages.mono (fun _ h => h) fun _ _ => trivial).bind fun r hr =>
    (Ends.self _).weaken fun outcome h => ⟨r.1, r.2.policy, r.2.seeds, hr, h⟩

end Builder

end ModuleGraph
