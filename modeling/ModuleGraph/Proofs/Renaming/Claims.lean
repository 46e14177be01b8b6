import ModuleGraph.Proofs.Ownership.Completion
import ModuleGraph.Proofs.Renaming.Partitions
import ModuleGraph.Resolution.Build

/-!
# Claims up to the numbers of classes

What a module claims has a closed form that mentions classes only by what their entries say, so it
is the same set up to a renaming (`Partition.Renamed.draws_iff` and the lemmas before it). As claims
do exactly what the closed form says, two partitions that are the same up to a renaming are so after
all modules have claimed what they can (`Partition.Renamed.alike_assignUnits`).
-/

namespace ModuleGraph

variable {σ : Equiv.Perm ClassId}

namespace Partition.Renamed

variable {p q : Partition} {module : ModuleId} {spec : ModuleSpec} {S S' : Set ClassId}
  {c d : ClassId}

/-! ## Sets of classes -/

theorem mem_unownedWhere (h : p.Renamed σ q) (test : String → Bool) :
    c ∈ p.unownedWhere test ↔ σ c ∈ q.unownedWhere test :=
  h.registry.mem_classesWhere fun e f hef => by
    rw [hef.owner_eq, hef.isDefined_eq, hef.name_eq]

theorem open_iff (h : p.Renamed σ q) : p.Open spec c ↔ q.Open spec (σ c) :=
  h.registry.exists_class_iff fun e f hef => by
    rw [hef.owner_eq, hef.isDefined_eq, hef.name_eq]

theorem barred_iff (h : p.Renamed σ q) : p.Barred spec c ↔ q.Barred spec (σ c) :=
  h.registry.exists_class_iff fun e f hef => by
    rw [hef.owner_eq, hef.isDefined_eq, hef.name_eq]

/-- Sets that are the same up to a renaming are so up to the inverse one. -/
theorem symm_mem (hS : ∀ c, c ∈ S ↔ σ c ∈ S') (c : ClassId) : c ∈ S' ↔ σ.symm c ∈ S := by
  rw [hS, Equiv.apply_symm_apply]

theorem reaches (h : p.Renamed σ q) (hS : ∀ c, c ∈ S ↔ σ c ∈ S') (hc : p.Reaches spec S c) :
    q.Reaches spec S' (σ c) := by
  induction hc with
  | seed hk hr hopen =>
    exact .seed ((hS _).1 hk) (h.registry.mem_referencesOf.1 hr) (h.open_iff.1 hopen)
  | step _ hr hopen ih => exact .step ih (h.registry.mem_referencesOf.1 hr) (h.open_iff.1 hopen)

theorem reaches_iff (h : p.Renamed σ q) (hS : ∀ c, c ∈ S ↔ σ c ∈ S') :
    p.Reaches spec S c ↔ q.Reaches spec S' (σ c) := by
  refine ⟨h.reaches hS, fun hc => ?_⟩
  have hback := h.symm.reaches (symm_mem hS) hc
  rwa [Equiv.symm_apply_apply] at hback

theorem includes_iff (h : p.Renamed σ q) (hS : ∀ c, c ∈ S ↔ σ c ∈ S') :
    p.Includes spec S c ↔ q.Includes spec S' (σ c) :=
  and_congr (not_congr (h.reaches_iff hS)) <| h.registry.exists_class_iff fun e f hef => by
    rw [hef.owner_eq, hef.isDefined_eq, hef.name_eq]

theorem gathers_iff (h : p.Renamed σ q) (hS : ∀ c, c ∈ S ↔ σ c ∈ S') :
    p.Gathers spec S c ↔ q.Gathers spec S' (σ c) :=
  or_congr (h.reaches_iff hS) (h.includes_iff hS)

theorem leaves (h : p.Renamed σ q) (hS : ∀ c, c ∈ S ↔ σ c ∈ S') (hu : p.Leaves spec S (c, d)) :
    q.Leaves spec S' (σ c, σ d) := by
  cases hu with
  | followed hk hr hbarred =>
    exact .followed (hk.imp (hS c).1 (h.reaches hS)) (h.registry.mem_referencesOf.1 hr)
      (h.barred_iff.1 hbarred)
  | included hk hr howner hgathers =>
    exact .included ((h.includes_iff hS).1 hk) (h.registry.mem_referencesOf.1 hr)
      ((h.registry.classOwner_eq d).trans howner) (mt (h.gathers_iff hS).2 hgathers)

theorem leaves_iff (h : p.Renamed σ q) (hS : ∀ c, c ∈ S ↔ σ c ∈ S') :
    p.Leaves spec S (c, d) ↔ q.Leaves spec S' (σ c, σ d) := by
  refine ⟨h.leaves hS, fun hu => ?_⟩
  have hback := h.symm.leaves (symm_mem hS) hu
  rwa [Equiv.symm_apply_apply, Equiv.symm_apply_apply] at hback

/-! ## Resources -/

theorem provides_iff (h : p.Renamed σ q) (hS : ∀ c, c ∈ S ↔ σ c ∈ S') (entry : ResourceEntry) :
    p.Provides module S entry ↔ q.Provides module S' entry := by
  unfold Provides
  simp only [h.registry.findClass, Option.map_eq_some_iff, h.spec_eq, h.mem_held,
    h.gathers_iff hS]
  constructor
  · rintro ⟨descriptor, provider, c, hservice, hprovider, hc, htaken⟩
    exact ⟨descriptor, provider, _, hservice, hprovider, ⟨c, hc, rfl⟩, htaken⟩
  · rintro ⟨descriptor, provider, _, hservice, hprovider, ⟨c, hc, rfl⟩, htaken⟩
    exact ⟨descriptor, provider, c, hservice, hprovider, hc, htaken⟩

theorem draws_iff (h : p.Renamed σ q) (hS : ∀ c, c ∈ S ↔ σ c ∈ S') (i : ResourceId) :
    p.Draws module S i ↔ q.Draws module S' i := by
  unfold Draws
  simp only [h.registry.resources, h.spec_eq, h.provides_iff hS]

/-! ## Stages -/

/-- The partition is a later stage of the first one, and the same as the second one. -/
def Stage (σ : Equiv.Perm ClassId) (t : ModuleTable) (p q : Partition) : Prop :=
  t.SameBut Module.outline p.table ∧ p.Renamed σ q

variable {t : ModuleTable}

theorem Stage.lt_size (h : Stage σ t p q) (hm : module < t.size) :
    module < p.table.size ∧ module < q.table.size := by
  rw [h.2.table.size_eq, h.1.size]
  exact ⟨hm, hm⟩

/-- Steps that take the same, up to numbers, lead to the next stage. -/
theorem Stage.of_takes (h : Stage σ t p q) {p' q' : Partition} {C C' : Set ClassId}
    {R R' : Set ResourceId} {U U' : Set Reference} (hp : p.Takes module C R U p')
    (hq : q.Takes module C' R' U' q') (hC : ∀ c, c ∈ C ↔ σ c ∈ C') (hR : ∀ i, i ∈ R ↔ i ∈ R')
    (hU : ∀ c d, (c, d) ∈ U ↔ (σ c, σ d) ∈ U') (hm : module < t.size) : Stage σ t p' q' :=
  ⟨h.1.trans (hp.sameBut (h.lt_size hm).1), h.2.of_takes hp hq hC hR hU (h.lt_size hm).1⟩

theorem Stage.alike_seedRoots (h : Stage σ t p q) (hm : module < t.size) :
    Alike (fun r s => Stage σ t r.1 s.1 ∧ ∀ c, c ∈ r.2 ↔ σ c ∈ s.2)
      (p.seedRoots module) (q.seedRoots module) := by
  refine .of_ends (p.takes_seedRoots module) (q.takes_seedRoots module) ?_
  rintro ⟨p', roots⟩ ⟨q', roots'⟩ ⟨rfl, hp⟩ ⟨rfl, hq⟩
  have hroots (c : ClassId) : c ∈ p.unownedWhere (p.spec module).hasRoot ↔
      σ c ∈ q.unownedWhere (q.spec module).hasRoot := by
    rw [h.2.spec_eq]
    exact h.2.mem_unownedWhere _
  exact ⟨h.of_takes hp hq hroots (by simp) (by simp) hm, hroots⟩

theorem Stage.alike_closeOver (h : Stage σ t p q) (hm : module < t.size)
    {seeds seeds' : List ClassId} (hseeds : ∀ c, c ∈ seeds ↔ σ c ∈ seeds') :
    Alike (fun r s => Stage σ t r.1 s.1) (p.closeOver module seeds).result
      (q.closeOver module seeds').result := by
  refine .of_ends (p.ends_completes seeds (h.lt_size hm).1)
    (q.ends_completes seeds' (h.lt_size hm).2) ?_
  rintro ⟨p', stats⟩ ⟨q', stats'⟩ ⟨-, hp⟩ ⟨-, hq⟩
  have hspec := h.2.spec_eq module
  refine h.of_takes hp.takes hq.takes (fun c => ?_) (fun i => h.2.draws_iff hseeds i)
    (fun c d => ?_) hm
  · rw [hspec]
    exact h.2.gathers_iff hseeds
  · rw [hspec]
    exact h.2.leaves_iff hseeds

theorem Stage.alike_assignUnclaimed (h : Stage σ t p q) (hm : module < t.size) :
    Alike (fun r s => Stage σ t r.1 s.1) (p.assignUnclaimed module) (q.assignUnclaimed module) :=
  .of_ends (p.takes_assignUnclaimed module) (q.takes_assignUnclaimed module) fun r s hp hq =>
    h.of_takes hp hq (fun c => h.2.mem_unownedWhere _)
      (fun i => h.2.registry.mem_resourcesWhere _ i) (by simp) hm

/-- Roots of modules, and the same roots up to numbers. -/
def SameSeeds (σ : Equiv.Perm ClassId) (t : ModuleTable) (a b : ModuleId × List ClassId) : Prop :=
  b.1 = a.1 ∧ a.1 < t.size ∧ ∀ c, c ∈ a.2 ↔ σ c ∈ b.2

theorem alike_seedAll (h : p.Renamed σ q) :
    Alike (fun r s => Stage σ p.table r.1 s.1 ∧ List.Forall₂ (SameSeeds σ p.table) r.2 s.2)
      (BuildPlan.seedAll p) (BuildPlan.seedAll q) := by
  unfold BuildPlan.seedAll
  rw [h.table.ids_eq]
  refine Alike.foldlM_same _ ⟨⟨.refl _ _, h⟩, .nil⟩ fun r s id ⟨hstage, hseeds⟩ hid => ?_
  have hlt : id < p.table.size := ModuleTable.mem_ids.1 hid
  refine (hstage.alike_seedRoots hlt).bind fun r' s' ⟨hstage', hroots⟩ => ⟨hstage', ?_⟩
  exact List.rel_append hseeds (.cons ⟨rfl, hlt, hroots⟩ .nil)

/-- The claims of all modules. -/
theorem alike_assignUnits (h : p.Renamed σ q) (hi : p.table.Indexed) (plan : BuildPlan) :
    Alike (fun r s => r.Renamed σ s) (plan.assignUnits p).result (plan.assignUnits q).result := by
  simp only [BuildPlan.assignUnits, Logged.result_bind, Logged.result_liftM, Logged.result_foldlM]
  refine h.alike_seedAll.bind fun r s hrs => ?_
  obtain ⟨hstage, hseeds⟩ := hrs
  have hclose : Alike (Stage σ p.table)
      (r.2.foldlM (fun p seeds => (BuildPlan.closeOne p seeds).result) r.1)
      (s.2.foldlM (fun p seeds => (BuildPlan.closeOne p seeds).result) s.1) := by
    refine Alike.foldlM hseeds hstage fun p' q' a b hstage' hab => ?_
    obtain ⟨hid, hlt, hroots⟩ := hab
    simp only [BuildPlan.closeOne, Logged.result_bind, Logged.result_emitIf, Logged.result_pure]
    rw [hid]
    exact (hstage'.alike_closeOver hlt hroots).bind fun _ _ h' => h'
  refine hclose.bind fun p' q' hstage' => ?_
  unfold BuildPlan.assignRest
  cases plan.options.unknownModule with
  | none =>
    simp only [Logged.result_bind, Logged.result_emitIf, Logged.result_pure]
    exact hstage'.2
  | some unknown =>
    simp only [Logged.result_bind, Logged.result_emitIf, Logged.result_pure, Logged.result_liftM]
    have hrequire : Alike (fun id id' => id' = id ∧ id < p.table.size)
        (p'.table.require unknown "settings.unknown-module")
        (q'.table.require unknown "settings.unknown-module") := by
      rw [hstage'.2.table.require_eq]
      unfold ModuleTable.require
      cases hid : p'.table.find unknown with
      | none => exact .error
      | some id =>
        obtain ⟨m, hm, -⟩ := ((hstage'.1.less (·.spec)).indexed hi).get?_of_find hid
        exact ⟨rfl, hstage'.1.size ▸ ModuleTable.lt_size_of_get? hm⟩
    refine hrequire.bind fun id id' hid => ?_
    obtain ⟨rfl, hlt⟩ := hid
    exact (hstage'.alike_assignUnclaimed hlt).bind fun _ _ h' => h'.2

end Partition.Renamed

end ModuleGraph
