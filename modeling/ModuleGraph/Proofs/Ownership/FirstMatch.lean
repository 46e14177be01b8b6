import Mathlib.Order.Bounds.Basic
import ModuleGraph.Proofs.Ownership.InOrder
import ModuleGraph.Proofs.Specifications

/-!
# The first module that matches

**Theorem (`owners_of_assignUnits`).** Without a module for what is left over, a class that exists
and is a root of some modules belongs to the first of them, and a resource belongs to the first of
the modules that attract it, or to none if no module does. A module attracts a resource by its
patterns or as the owner of a class that the descriptor of the resource lists
(`ModuleSpec.Attracts`).

Resources are given away while modules are still being completed. But what a module owns is final
once it is complete, and it is offered no resource before that. So whether it attracts a resource is
settled by the time the resource is given away (`Completing.attracts_iff`), and each completion
extends the rule by one module (`Completing.shared`).
-/

namespace ModuleGraph

/-! ## First elements -/

theorem exists_isLeast_of_nonempty {S : Set Nat} (h : S.Nonempty) : ∃ id, IsLeast S id := by
  classical
  exact ⟨Nat.find h, Nat.find_spec h, fun _ hj => Nat.find_min' h hj⟩

/-- A number beyond a set is the least element only if nothing else is in it. -/
theorem isLeast_or_eq_iff {S : Set Nat} {n id : Nat} {A : Prop} (hS : ∀ j ∈ S, j < n) :
    IsLeast {j | j ∈ S ∨ (j = n ∧ A)} id ↔ IsLeast S id ∨ (S = ∅ ∧ A ∧ id = n) := by
  constructor
  · rintro ⟨hid | ⟨rfl, hA⟩, hle⟩
    · exact .inl ⟨hid, fun j hj => hle (.inl hj)⟩
    · refine .inr ⟨Set.eq_empty_of_forall_notMem fun j hj => ?_, hA, rfl⟩
      exact Nat.not_lt_of_le (hle (.inl hj)) (hS j hj)
  · rintro (⟨hid, hle⟩ | ⟨rfl, hA, rfl⟩)
    · refine ⟨.inl hid, ?_⟩
      rintro j (hj | ⟨rfl, -⟩)
      · exact hle hj
      · exact Nat.le_of_lt (hS id hid)
    · refine ⟨.inr ⟨rfl, hA⟩, ?_⟩
      rintro j (hj | ⟨rfl, -⟩)
      · cases hj
      · exact Nat.le_refl j

/-! ## Claims to resources -/

/-- A module with this specification and number has a claim to the resource: by its patterns, or
because the registry has it as the owner of a class that the descriptor lists. -/
def ModuleSpec.Attracts (spec : ModuleSpec) (registry : Registry) (id : ModuleId)
    (entry : ResourceEntry) : Prop :=
  (entry.selectedBy spec.includes = true ∧ entry.selectedBy spec.excludes = false) ∨
    ∃ descriptor provider c, entry.service = some descriptor ∧ provider ∈ descriptor.providers ∧
      registry.findClass provider = some c ∧ registry.classOwner c = some id

/-- Owners of resources do not matter, and of those of classes only what this module owns. -/
theorem ModuleSpec.attracts_congr {spec : ModuleSpec} {r r' : Registry} {id : ModuleId}
    {entry entry' : ResourceEntry} (hindex : r'.classIndex = r.classIndex)
    (howner : ∀ c, r'.classOwner c = some id ↔ r.classOwner c = some id)
    (hentry : entry'.unowned = entry.unowned) :
    spec.Attracts r' id entry' ↔ spec.Attracts r id entry := by
  have hservice := congrArg ResourceEntry.service hentry
  have hselected (patterns : PatternSet) :=
    congrArg (ResourceEntry.selectedBy · patterns) hentry
  change entry'.service = entry.service at hservice
  change ∀ patterns, entry'.selectedBy patterns = entry.selectedBy patterns at hselected
  simp only [Attracts, Registry.findClass, hservice, hselected, hindex, howner]

namespace Partition

variable {p q : Partition} {id : ModuleId} {n : Nat} {entry : ResourceEntry}

/-- The specifications of a list with a property are those of the modules that have it. -/
theorem exists_spec_iff {specs : List ModuleSpec} (h : p.table.Lists specs)
    {P : ModuleSpec → Prop} :
    (∃ spec, specs[id]? = some spec ∧ P spec) ↔ id < p.table.size ∧ P (p.spec id) := by
  rw [← h id, ← ModuleTable.isSome_get?_iff, spec]
  cases p.table.get? id <;> simp

/-- The modules with numbers below `n` that attract the resource. -/
def attracting (p : Partition) (n : Nat) (entry : ResourceEntry) : Set ModuleId :=
  {id | id < n ∧ (p.spec id).Attracts p.registry id entry}

/-- Each resource belongs to the first of the modules with numbers below `n` that attract it. -/
def Shared (n : Nat) (p : Partition) : Prop :=
  ∀ (s : ResourceId) (entry : ResourceEntry), p.registry.resources[s]? = some entry →
    ∀ id, entry.owner = some id ↔ IsLeast (p.attracting n entry) id

namespace Completing

/-- A module that is completed attracts a resource by its patterns or by what it holds and takes. -/
theorem attracts_iff (h : Completing n p q) (entry : ResourceEntry) :
    (q.spec n).Attracts q.registry n entry ↔
      (entry.selectedBy (p.spec n).includes = true ∧
        entry.selectedBy (p.spec n).excludes = false) ∨ p.Provides n (p.owned n) entry := by
  obtain ⟨m, hm⟩ := ModuleTable.exists_get? h.lt_size
  have hheld (c : ClassId) : c ∈ p.held n ↔ p.registry.classOwner c = some n := by
    have hmem := h.consistent.classes.mem hm c
    simpa [held, hm] using hmem
  rw [h.grows.spec_eq]
  unfold ModuleSpec.Attracts Provides
  simp only [h.takes.findClass_eq, h.classOwner_eq_some_iff, hheld, and_true,
    or_comm (a := p.Gathers _ _ _)]

/-- A resource keeps its owner, or the module that attracts it takes it. -/
theorem owner_eq_some_iff (h : Completing n p q) {s : ResourceId} {before after : ResourceEntry}
    (hb : p.registry.resources[s]? = some before) (ha : q.registry.resources[s]? = some after) :
    after.owner = some id ↔ before.owner = some id ∨
      (before.owner = none ∧ (q.spec n).Attracts q.registry n before ∧ id = n) := by
  have hdraws : p.Draws n (p.owned n) s ↔
      before.owner = none ∧ (q.spec n).Attracts q.registry n before := by
    rw [h.attracts_iff]
    simp [Draws, hb]
  rw [← and_assoc, ← hdraws]
  by_cases hs : p.Draws n (p.owned n) s
  · have hnone : before.owner = none := (hdraws.1 hs).1
    rw [h.takes.resource_of_mem s hs, hb] at ha
    cases ha
    simp [hs, hnone, eq_comm]
  · rw [h.takes.resource_of_not_mem s hs, hb] at ha
    cases ha
    simp [hs]

/-- The completion of a module gives it the resources that it is the first to attract. -/
theorem shared (h : Completing n p q) (hshared : Shared n p) : Shared (n + 1) q := by
  intro s after ha id
  obtain ⟨before, hb, hsame⟩ := h.grows.exists_resource_before ha
  have hattracting : q.attracting (n + 1) after =
      {j | j ∈ p.attracting n before ∨ (j = n ∧ (q.spec n).Attracts q.registry n before)} := by
    ext j
    simp only [attracting, Set.mem_ofPred_eq, Nat.lt_succ_iff_lt_or_eq, or_and_right]
    refine or_congr (and_congr_right fun hlt => ?_) (and_congr_right fun heq => ?_)
    · -- a module that was complete attracts what it attracted then
      rw [h.grows.spec_eq]
      exact ModuleSpec.attracts_congr h.grows.classIndex
        (Set.ext_iff.1 (h.owned_of_ne (Nat.ne_of_lt hlt))) hsame.symm
    · subst heq
      exact ModuleSpec.attracts_congr rfl (fun _ => Iff.rfl) hsame.symm
  have hempty : before.owner = none ↔ p.attracting n before = ∅ := by
    rw [Option.eq_none_iff_forall_ne_some, Set.eq_empty_iff_forall_notMem]
    constructor
    · intro hnone j hj
      obtain ⟨least, hleast⟩ := exists_isLeast_of_nonempty ⟨j, hj⟩
      exact hnone least ((hshared s before hb least).2 hleast)
    · exact fun hnone j hj => hnone j ((hshared s before hb j).1 hj).1
  rw [hattracting, isLeast_or_eq_iff fun j hj => hj.1, h.owner_eq_some_iff hb ha,
    hshared s before hb, hempty]

end Completing

end Partition

namespace BuildPlan

open ModuleGraph.Partition

variable {p : Partition}

/-- Roots stay with the first module that has them, and resources go to the first module that
attracts them. -/
theorem ends_assignUnits_firstMatch (plan : BuildPlan) (hp : p.Consistent)
    (hr : p.registry.Unowned) (hunknown : plan.options.unknownModule = none) :
    Ends (plan.assignUnits p).result
      (fun q => p.Grows q ∧ Shared p.table.size q ∧
        ∀ c id, p.registry.Defines c →
          IsLeast {id | id < p.table.size ∧ (p.spec id).hasRoot (p.registry.className c) = true}
            id →
          q.registry.classOwner c = some id)
      (fun _ => False) := by
  simp only [assignUnits, Logged.result_bind, Logged.result_liftM, Logged.result_foldlM]
  refine (ends_seedAll_seeded hp hr).bind ?_
  rintro ⟨q, seeds⟩ ⟨hpq, hq, hseeded⟩
  have hids : q.table.ids = p.table.ids := congrArg List.range hpq.size_table
  have hstart : Shared 0 q := by
    intro s entry he id
    have hnone := hseeded.resourceOwner s
    rw [Registry.resourceOwner_of_getElem? he] at hnone
    simp [hnone, IsLeast, attracting]
  rw [← hids] at hseeded
  refine (ends_closeAll hq hseeded Shared hstart fun _ hstep => hstep.shared).bind ?_
  rintro r ⟨hqr, -, hshared⟩
  simp only [assignRest, hunknown, Logged.result_bind, Logged.result_emitIf, Logged.result_pure]
  refine ⟨hpq.trans hqr, hpq.size_table ▸ hshared, fun c id hdefines hleast => ?_⟩
  obtain ⟨⟨hid, hroot⟩, hfirst⟩ := hleast
  rw [← hpq.spec_eq, ← hpq.className_eq] at hroot
  have hmem : id ∈ q.table.ids := hids ▸ ModuleTable.mem_ids.2 hid
  obtain ⟨owner, howner⟩ := hseeded.rooted id hmem c (hpq.defines_iff.2 hdefines) hroot
  -- the owner has the class as a root as well, and comes no later
  have hle : id ≤ owner := by
    refine hfirst ⟨hpq.size_table ▸ hq.classes.owner_lt howner, ?_⟩
    rw [← hpq.spec_eq, ← hpq.className_eq]
    exact hseeded.hasRoot_of_owner howner
  rw [Nat.le_antisymm hle (hseeded.first howner id hmem hroot)]
  exact hqr.classOwner c owner howner

/-- A class that exists and is a root belongs to the first module that has it as a root; a resource
belongs to the first module that attracts it, and to none if there is none. -/
theorem owners_of_assignUnits (plan : BuildPlan) {registry : Registry} {table : ModuleTable}
    (hregistry : registry.Unowned) (hunknown : plan.options.unknownModule = none)
    (htable : plan.createModules = .ok table) :
    ∃ p, (plan.assignUnits ⟨registry, table⟩).result = .ok p ∧
      (∀ c id, registry.Defines c →
        IsLeast {i | ∃ spec, plan.specs[i]? = some spec ∧
          spec.hasRoot (registry.className c) = true} id →
        p.registry.classOwner c = some id) ∧
      ∀ (s : ResourceId) (entry : ResourceEntry), registry.resources[s]? = some entry →
        ∀ id, p.registry.resourceOwner s = some id ↔
          IsLeast {i | ∃ spec, plan.specs[i]? = some spec ∧ spec.Attracts p.registry i entry}
            id := by
  obtain ⟨-, hfresh, -⟩ := plan.ends_createModules.of_ok htable
  have hlists : table.Lists plan.specs := (plan.ends_createModules_lists.of_ok htable).2
  have hends := ends_assignUnits_firstMatch plan (p := ⟨registry, table⟩)
    (consistent_of_fresh hregistry hfresh) hregistry hunknown
  cases hresult : (plan.assignUnits ⟨registry, table⟩).result with
  | error e => exact (hends.of_error hresult).elim
  | ok p =>
    obtain ⟨hgrows, hshared, hroots⟩ := hends.of_ok hresult
    refine ⟨p, rfl, fun c id hdefines hleast => hroots c id hdefines ?_, fun s entry he id => ?_⟩
    · simpa only [exists_spec_iff (p := ⟨registry, table⟩) hlists] using hleast
    · obtain ⟨after, ha, hsame⟩ := hgrows.exists_resource he
      have hattracts (i : ModuleId) (spec : ModuleSpec) :
          spec.Attracts p.registry i after ↔ spec.Attracts p.registry i entry :=
        ModuleSpec.attracts_congr rfl (fun _ => Iff.rfl) hsame
      rw [Registry.resourceOwner_of_getElem? ha, hshared s after ha]
      simp only [attracting, hattracts, exists_spec_iff (p := ⟨registry, table⟩) hlists,
        hgrows.spec_eq]

/-- A program refers to a tool, which provides a service. -/
def rivalClasses : Registry := .populate [
  .register { name := "a.Main", references := ["b.Tool"] },
  .register { name := "b.Tool" },
  .addProvider "META-INF/services/b.Spi" "b.Tool"]

/-- The program is a root of both modules, the tool of the second one. -/
def rivals : BuildPlan where
  specs := [{ name := "first", version := "1.0", roots := ⟨[.package "a"]⟩ },
    { name := "second", version := "1.0", roots := ⟨[.package "a", .package "b"]⟩ }]

/-- The first module has the program, but does not reach the tool, which is a root of the second
one. The second module is the first that attracts the descriptor, as the owner of the tool. -/
theorem owners_of_assignUnits_rivals :
    rivalClasses.Unowned ∧ rivals.options.unknownModule = none ∧
      ∃ table, rivals.createModules = .ok table ∧
        ∃ p, (rivals.assignUnits ⟨rivalClasses, table⟩).result = .ok p ∧
          p.registry.classOwner 0 = some 0 ∧ p.registry.classOwner 1 = some 1 ∧
          ∃ entry, rivalClasses.resources[0]? = some entry ∧
            IsLeast {i | ∃ spec, rivals.specs[i]? = some spec ∧
              spec.Attracts p.registry i entry} 1 := by
  have hrun : ∃ table, rivals.createModules = .ok table ∧
      ∃ p, (rivals.assignUnits ⟨rivalClasses, table⟩).result = .ok p ∧
        p.registry.resourceOwner 0 = some 1 := by
    decide +kernel
  have hdescriptor : (rivalClasses.resources[0]?).isSome := by decide +kernel
  obtain ⟨table, htable, p, hresult, howner⟩ := hrun
  obtain ⟨entry, he⟩ := Option.isSome_iff_exists.1 hdescriptor
  have hfresh : rivalClasses.Unowned := (Registry.pristine_populate _).unowned
  obtain ⟨p', hresult', hclasses, hresources⟩ := owners_of_assignUnits rivals hfresh rfl htable
  cases hresult.symm.trans hresult'
  refine ⟨hfresh, rfl, table, htable, p, hresult, hclasses 0 0 (by decide +kernel) ?program,
    hclasses 1 1 (by decide +kernel) ?tool, entry, he, (hresources 0 entry he 1).1 howner⟩
  case program => exact ⟨⟨_, rfl, by decide +kernel⟩, fun _ _ => Nat.zero_le _⟩
  case tool =>
    refine ⟨⟨_, rfl, by decide +kernel⟩, fun i hi => Nat.one_le_iff_ne_zero.2 fun hzero => ?_⟩
    subst hzero
    obtain ⟨spec, hspec, hroot⟩ := hi
    cases hspec
    exact absurd hroot (by decide +kernel)

end BuildPlan

end ModuleGraph
