import ModuleGraph.Proofs.Ownership.Claims
import ModuleGraph.Resolution.Build

/-!
# What a build leaves owned

Roots, closures and the module for unknown items only claim what is free. So no claim is ever
refused, and the partition of a completed module is consistent and has grown out of the one it began
with (`Partition.ends_seedRoots`, `Partition.ends_closeOver`). A module for unknown items leaves
nothing over (`Partition.ends_assignUnclaimed`).

`BuildPlan.ends_createModules` and `BuildPlan.ends_assignUnits` say this of the first two stages of
a build.
-/

namespace ModuleGraph

namespace Partition

variable {p q : Partition} {module : ModuleId}

/-! ## Roots -/

theorem nodup_unownedWhere (p : Partition) (test : String → Bool) :
    (p.unownedWhere test).Nodup :=
  Registry.nodup_classesWhere _

theorem free_of_mem_unownedWhere {test : String → Bool} {c : ClassId}
    (h : c ∈ p.unownedWhere test) : p.Free c := by
  obtain ⟨entry, he, ht⟩ := Registry.mem_classesWhere.1 h
  simp only [Bool.and_eq_true, Option.isNone_iff_eq_none] at ht
  exact ⟨entry, he, ht.1.1, ht.1.2⟩

/-- The class claims of a pass over unowned classes. -/
theorem ends_claimUnowned (hp : p.Consistent) (hm : module < p.table.size)
    (test : String → Bool) :
    Ends (p.claimClasses module (p.unownedWhere test))
      (fun q => p.Grows q ∧ q.Consistent ∧
        (∀ d, q.registry.classOwner d =
          if d ∈ p.unownedWhere test then some module else p.registry.classOwner d) ∧
        q.registry.resources = p.registry.resources)
      (fun _ => False) :=
  ends_claimClasses hp hm (nodup_unownedWhere p test) fun _ hc => free_of_mem_unownedWhere hc

theorem ends_seedRoots (hp : p.Consistent) (hm : module < p.table.size) :
    Ends (p.seedRoots module) (fun r => p.Grows r.1 ∧ r.1.Consistent) (fun _ => False) := by
  rw [seedRoots]
  exact (ends_claimUnowned hp hm _).bind fun q hq => ⟨hq.1, hq.2.1⟩

/-! ## Closures -/

/-- A followed reference claims its target only if it is free. -/
theorem ends_follow {state : Closing} (hp : state.partition.Consistent)
    (hm : module < state.partition.table.size) (spec : ModuleSpec) (source target : ClassId) :
    Ends (follow module spec source state target).result
      (fun s => state.partition.Grows s.partition ∧ s.partition.Consistent)
      (fun _ => False) := by
  unfold follow
  dsimp only
  split
  · exact ⟨.refl _, hp⟩
  · rename_i entry he
    split_ifs with howner hstop
    · exact ⟨.refl _, hp⟩
    · simp only [Logged.result_bind, Logged.result_emit, Logged.result_pure]
      exact ⟨grows_leaveUnresolved _ _ _, hp.leaveUnresolved _ _⟩
    · have hfree : state.partition.Free target := by
        refine ⟨entry, he, by simpa using howner, ?_⟩
        simp only [Bool.or_eq_true, not_or, Bool.not_eq_true, Bool.not_eq_false'] at hstop
        exact hstop.1
      simp only [Logged.result_bind, Logged.result_liftM, Logged.result_pure]
      exact (ends_claimClass hp hm hfree).bind fun q hq => ⟨hq.1, hq.2.1⟩

/-- The partition of a closure has grown out of `p`. -/
def Closing.GrownFrom (p : Partition) (state : Closing) : Prop :=
  p.Grows state.partition ∧ state.partition.Consistent

theorem ends_expand {state : Closing} (hs : state.GrownFrom p) (hm : module < p.table.size)
    (spec : ModuleSpec) (source : ClassId) :
    Ends (expand module spec state source).result (Closing.GrownFrom p) (fun _ => False) := by
  rw [expand, Logged.result_foldlM]
  refine Ends.foldlM (Closing.GrownFrom p) hs fun s hs target _ => ?_
  refine (ends_follow hs.2 (hs.1.size_table ▸ hm) spec source target).weaken fun s' hs' => ?_
  exact ⟨hs.1.trans hs'.1, hs'.2⟩

theorem ends_followRounds (hm : module < p.table.size) (spec : ModuleSpec) :
    ∀ (rounds : Nat) (sources : List ClassId) {state : Closing}, state.GrownFrom p →
      Ends (followRounds module spec rounds sources state).result (Closing.GrownFrom p)
        (fun _ => False)
  | 0, _, _, hs => hs
  | _ + 1, [], _, hs => hs
  | rounds + 1, source :: sources, state, hs => by
    rw [followRounds, Logged.result_bind, Logged.result_foldlM]
    · have hs' : Closing.GrownFrom p { state with fresh := [] } := hs
      refine (Ends.foldlM (Closing.GrownFrom p) hs' fun s hs source _ =>
        ends_expand hs hm spec source).bind fun s hs => ?_
      exact ends_followRounds hm spec rounds _ hs
    · simp

/-! ## Includes and resources -/

/-- A note changes no owner, so references of included classes can be noted in any order. -/
theorem grownFrom_leaveUnowned (source : ClassId) (h : p.Grows q ∧ q.Consistent) :
    p.Grows (q.leaveUnowned module source) ∧ (q.leaveUnowned module source).Consistent := by
  rw [leaveUnowned]
  refine List.foldlRecOn (motive := fun r => p.Grows r ∧ r.Consistent) _ _ h
    fun r hr target _ => ?_
  split_ifs
  · exact ⟨hr.1.trans (grows_leaveUnresolved _ _ _), hr.2.leaveUnresolved _ _⟩
  · exact hr

theorem ends_claimIncluded (hp : p.Consistent) (hm : module < p.table.size) (spec : ModuleSpec) :
    Ends (p.claimIncluded module spec) (fun r => p.Grows r.1 ∧ r.1.Consistent)
      (fun _ => False) := by
  rw [claimIncluded]
  refine (ends_claimUnowned hp hm _).bind fun q hq => ?_
  refine List.foldlRecOn (motive := fun r => p.Grows r ∧ r.Consistent) _ _ ⟨hq.1, hq.2.1⟩
    fun r hr source _ => ?_
  exact grownFrom_leaveUnowned source hr

theorem freeResource_of_mem_matchingResources {spec : ModuleSpec} {r : ResourceId}
    (h : r ∈ p.matchingResources module spec) : p.FreeResource r := by
  obtain ⟨entry, he, ht⟩ := Registry.mem_resourcesWhere.1 h
  simp only [Bool.and_eq_true, Option.isNone_iff_eq_none] at ht
  exact ⟨entry, he, ht.1⟩

theorem ends_closeOver (hp : p.Consistent) (hm : module < p.table.size) (seeds : List ClassId) :
    Ends (p.closeOver module seeds).result (fun r => p.Grows r.1 ∧ r.1.Consistent)
      (fun _ => False) := by
  simp only [closeOver, Logged.result_bind, Logged.result_liftM, Logged.result_emit,
    Logged.result_pure]
  refine (ends_followRounds hm _ _ seeds ⟨.refl p, hp⟩).bind fun closing hc => ?_
  refine (ends_claimIncluded hc.2 (hc.1.size_table ▸ hm) _).bind fun r hr => ?_
  have hpr : p.Grows r.1 := hc.1.trans hr.1
  refine (ends_claimResources hr.2 (hpr.size_table ▸ hm) (Registry.nodup_resourcesWhere _)
    fun _ h => freeResource_of_mem_matchingResources h).bind fun q hq => ?_
  exact ⟨hpr.trans hq.1, hq.2.1⟩

/-! ## The rest -/

/-- Every defined class and every resource has an owner. -/
def Total (p : Partition) : Prop :=
  (∀ (c : ClassId) entry, p.registry.classes[c]? = some entry → entry.isDefined →
    entry.owner.isSome) ∧
  ∀ (r : ResourceId) entry, p.registry.resources[r]? = some entry → entry.owner.isSome

/-- One module takes whatever nobody owns. -/
theorem ends_assignUnclaimed (hp : p.Consistent) (hm : module < p.table.size) :
    Ends (p.assignUnclaimed module) (fun r => p.Grows r.1 ∧ r.1.Consistent ∧ r.1.Total)
      (fun _ => False) := by
  rw [assignUnclaimed]
  refine (ends_claimUnowned hp hm _).bind fun q ⟨hpq, hq, hcls, hres⟩ => ?_
  have hfree : ∀ r ∈ p.registry.resourcesWhere (·.owner.isNone), q.FreeResource r := fun r hr => by
    obtain ⟨entry, he, hnone⟩ := Registry.mem_resourcesWhere.1 hr
    exact ⟨entry, by rw [hres, he], by simpa using hnone⟩
  refine (ends_claimResources hq (hpq.size_table ▸ hm) (Registry.nodup_resourcesWhere _)
    hfree).bind fun r ⟨hqr, hr, hres', hcls'⟩ => ?_
  refine ⟨hpq.trans hqr, hr, fun c entry he hdef => ?_, fun s entry he => ?_⟩
  · rw [hcls'] at he
    rw [← Registry.classOwner_of_getElem? he, hcls]
    split_ifs with hc
    · rfl
    · -- a class that is not claimed here had an owner before
      by_contra hnone
      obtain ⟨before, hb, hsame⟩ := hpq.exists_class_before he
      refine hc (Registry.mem_classesWhere.2 ⟨before, hb, ?_⟩)
      rw [Registry.classOwner_of_getElem? hb] at hnone
      have hdef' : before.isDefined := (congrArg ClassEntry.isDefined hsame).trans hdef
      simpa [hdef'] using hnone
  · rw [← Registry.resourceOwner_of_getElem? he, hres']
    split_ifs with hs
    · rfl
    · by_contra hnone
      obtain ⟨before, hb, -⟩ := hqr.exists_resource_before he
      rw [Registry.resourceOwner_of_getElem? hb] at hnone
      rw [hres] at hb
      exact hs (Registry.mem_resourcesWhere.2 ⟨before, hb, by simpa using hnone⟩)

end Partition

/-! ## The first two stages of a build -/

/-- In a fresh table over an unowned registry, nothing is held and nothing is owned. -/
theorem Partition.consistent_of_fresh {registry : Registry} {table : ModuleTable}
    (hr : registry.Unowned) (ht : table.Fresh) : Partition.Consistent ⟨registry, table⟩ where
  classes := .of_empty (fun id m hm => by rw [ht id m hm]) hr.classOwner
  resources := .of_empty (fun id m hm => by rw [ht id m hm]) hr.resourceOwner
  defined c entry he hsome := by
    rw [← Registry.classOwner_of_getElem? he, hr.classOwner c] at hsome; cases hsome

theorem ModuleTable.ends_require (table : ModuleTable) (name context : String) :
    Ends (table.require name context) (fun id => table.find name = some id)
      (fun e => e = .unknownModule name context) := by
  unfold require
  split
  · assumption
  · rfl

namespace BuildPlan

/-- The errors of the first two stages. -/
inductive CreationError : BuildError → Prop where
  | duplicateModule (name : String) : CreationError (.duplicateModule name)
  | unknownModule (name context : String) : CreationError (.unknownModule name context)

/-- What the stages after it know of the table of all modules. -/
def Created (plan : BuildPlan) (table : ModuleTable) : Prop :=
  table.Indexed ∧ table.Fresh ∧
    ∀ unknown, plan.options.unknownModule = some unknown → (table.find unknown).isSome

theorem ends_addAll (specs : List ModuleSpec) :
    Ends (specs.foldlM (fun table spec => (table.add spec).map (·.1)) {})
      (fun t : ModuleTable => t.Indexed ∧ t.Fresh) CreationError := by
  refine Ends.foldlM (fun t : ModuleTable => t.Indexed ∧ t.Fresh)
    ⟨ModuleTable.indexed_empty, ModuleTable.fresh_empty⟩ fun t ht spec _ => ?_
  refine Ends.map ((ModuleTable.ends_add ht.1 spec).mono
    (fun r ⟨hr, hget⟩ => ⟨hr, fun id m hm => ?_⟩)
    fun e he => he ▸ .duplicateModule _)
  rw [hget] at hm
  split_ifs at hm
  · cases hm
    rfl
  · exact ht.2 id m hm

theorem ends_requireUnknown {plan : BuildPlan} {unknown : String}
    (hunknown : plan.options.unknownModule = some unknown) {t : ModuleTable} (hi : t.Indexed)
    (hfresh : t.Fresh) (context : String) :
    Ends (t.require unknown context >>= fun _ => return t) plan.Created CreationError := by
  refine ((t.ends_require _ _).mono (fun _ h => h)
    fun _ he => he ▸ .unknownModule _ _).bind fun id hid => ?_
  refine ⟨hi, hfresh, fun name hname => ?_⟩
  rw [hunknown] at hname
  cases hname
  simp [hid]

theorem ends_createModules (plan : BuildPlan) :
    Ends plan.createModules plan.Created CreationError := by
  rw [createModules]
  refine (ends_addAll plan.specs).bind fun t ht => ?_
  dsimp only
  cases hunknown : plan.options.unknownModule with
  | none =>
    have hcreated (t : ModuleTable) (hi : t.Indexed) (hfresh : t.Fresh) : plan.Created t :=
      ⟨hi, hfresh, fun name hname => by rw [hunknown] at hname; cases hname⟩
    cases plan.options.baseModule.bind t.find with
    | none => exact hcreated t ht.1 ht.2
    | some base => exact hcreated _ (ht.1.setBase base) (ht.2.setBase base)
  | some unknown =>
    cases plan.options.baseModule.bind t.find with
    | none => exact ends_requireUnknown hunknown ht.1 ht.2 _
    | some base => exact ends_requireUnknown hunknown (ht.1.setBase base) (ht.2.setBase base) _

/-- All modules claim their roots, each module once. -/
theorem ends_seedAll {p : Partition} (hp : p.Consistent) :
    Ends (seedAll p)
      (fun r => p.Grows r.1 ∧ r.1.Consistent ∧ ∀ seeds ∈ r.2, seeds.1 < p.table.size)
      (fun _ => False) := by
  rw [seedAll]
  refine Ends.foldlM (fun r : Partition × List (ModuleId × List ClassId) =>
      p.Grows r.1 ∧ r.1.Consistent ∧ ∀ seeds ∈ r.2, seeds.1 < p.table.size)
    ⟨.refl p, hp, by simp⟩ fun r ⟨hpr, hr, hseeds⟩ id hid => ?_
  have hlt : id < p.table.size := ModuleTable.mem_ids.1 hid
  refine (Partition.ends_seedRoots hr (hpr.size_table ▸ hlt)).bind fun q ⟨hrq, hq⟩ => ?_
  refine ⟨hpr.trans hrq, hq, fun seeds hmem => ?_⟩
  rcases List.mem_append.1 hmem with hold | hnew
  · exact hseeds seeds hold
  · rw [List.mem_singleton.1 hnew]; exact hlt

theorem ends_closeOne {p : Partition} (hp : p.Consistent) {seeds : ModuleId × List ClassId}
    (hm : seeds.1 < p.table.size) :
    Ends (closeOne p seeds).result (fun q => p.Grows q ∧ q.Consistent) (fun _ => False) := by
  simp only [closeOne, Logged.result_bind, Logged.result_emitIf, Logged.result_pure]
  exact (Partition.ends_closeOver hp hm seeds.2).bind fun r hr => hr

theorem ends_assignRest (plan : BuildPlan) {p : Partition} (hp : p.Consistent)
    (ht : p.table.Indexed) :
    Ends (plan.assignRest p).result
      (fun q => p.Grows q ∧ q.Consistent ∧ (plan.options.unknownModule.isSome → q.Total))
      CreationError := by
  unfold assignRest
  cases plan.options.unknownModule with
  | none =>
    simp only [Logged.result_bind, Logged.result_emitIf, Logged.result_pure]
    exact ⟨.refl p, hp, by simp⟩
  | some unknown =>
    simp only [Logged.result_bind, Logged.result_emitIf, Logged.result_pure, Logged.result_liftM]
    refine ((p.table.ends_require _ _).mono (fun _ h => h)
      fun _ he => he ▸ .unknownModule _ _).bind fun id hid => ?_
    obtain ⟨m, hm, -⟩ := ht.get?_of_find hid
    refine ((Partition.ends_assignUnclaimed hp (ModuleTable.lt_size_of_get? hm)).mono
      (fun _ h => h) fun _ => False.elim).bind fun r hr => ?_
    exact ⟨hr.1, hr.2.1, fun _ => hr.2.2⟩

/-- The first stages after the table is there: what is claimed is claimed once, and the partition
keeps account of it on both sides. -/
theorem ends_assignUnits (plan : BuildPlan) {p : Partition} (hp : p.Consistent)
    (ht : p.table.Indexed) :
    Ends (plan.assignUnits p).result
      (fun q => p.Grows q ∧ q.Consistent ∧ (plan.options.unknownModule.isSome → q.Total))
      CreationError := by
  simp only [assignUnits, Logged.result_bind, Logged.result_liftM, Logged.result_foldlM]
  refine ((ends_seedAll hp).mono (fun _ h => h) fun _ => False.elim).bind
    fun r ⟨hpr, hr, hseeds⟩ => ?_
  have hclose : Ends (r.2.foldlM (fun p seeds => (closeOne p seeds).result) r.1)
      (fun q => p.Grows q ∧ q.Consistent) CreationError := by
    refine Ends.foldlM (fun q => p.Grows q ∧ q.Consistent) ⟨hpr, hr⟩ fun q ⟨hpq, hq⟩ seeds hs => ?_
    refine (ends_closeOne hq (hpq.size_table ▸ hseeds seeds hs)).mono
      (fun s hqs => ⟨hpq.trans hqs.1, hqs.2⟩) fun _ => False.elim
  refine hclose.bind fun q ⟨hpq, hq⟩ => ?_
  refine (ends_assignRest plan hq (hpq.indexed ht)).weaken fun s ⟨hqs, hs, htotal⟩ => ?_
  exact ⟨hpq.trans hqs, hs, htotal⟩

end BuildPlan

end ModuleGraph
