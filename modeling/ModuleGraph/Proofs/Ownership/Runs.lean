import ModuleGraph.Proofs.Ownership.Completion

/-!
# Ownership in any run

A build fills its registry first, adds all modules then, and claims last and in a fixed order. The
account that a partition keeps of its owners does not rest on that. `Partition.Operation` lists what
may be done to a partition, and `Partition.Runs` is any sequence of such operations.

* `Partition.Orderly` is the invariant, and `Partition.Orderly.ends_run` says that an operation
  succeeds, keeps it, and replaces no owner.
* `Partition.ledger_of_runs`: so it is at every point of a run that begins with nothing.
-/

namespace ModuleGraph

/-- A module without holdings is added, and owners are as before. -/
theorem ModuleTable.Agrees.push {t t' : ModuleTable} {held : Module → Std.TreeSet Nat}
    {owner : Nat → Option ModuleId} (h : t.Agrees held owner) {new : ModuleId → Module}
    (hget : ∀ id, t'.get? id = if id = t.size then some (new id) else t.get? id)
    (hempty : ∀ id, held (new id) = {}) : t'.Agrees held owner where
  mem {id m} hm i := by
    rw [hget] at hm
    split_ifs at hm with hid
    · cases hm
      have hnone : owner i ≠ some id := fun howner =>
        Nat.lt_irrefl _ (hid ▸ h.owner_lt howner)
      simp [hempty, hnone]
    · exact h.mem hm i
  owner_lt {i x} hx := by
    have hlt := h.owner_lt hx
    obtain ⟨m, hm⟩ := exists_get? hlt
    refine lt_size_of_get? (m := m) ?_
    rw [hget, if_neg (Nat.ne_of_lt hlt), hm]

/-- An owned class was there before, and had the same owner. -/
theorem Registry.Keeps.exists_before {registry registry' : Registry}
    (h : registry.Keeps registry') {c : ClassId} {entry' : ClassEntry} {owner : ModuleId}
    (he' : registry'.classes[c]? = some entry') (howner : entry'.owner = some owner) :
    ∃ entry, registry.classes[c]? = some entry ∧ entry.owner = some owner ∧
      entry'.name = entry.name ∧ (entry.isDefined = true → entry'.isDefined = true) := by
  have hbefore : registry.classOwner c = some owner := by
    rw [← h.classOwner, Registry.classOwner_of_getElem? he', howner]
  obtain ⟨entry, he, hsome⟩ := Registry.classOwner_eq_some_iff.1 hbefore
  obtain ⟨entry'', he'', hname, hdefined⟩ := h.exists_class he
  rw [he'] at he''
  cases he''
  exact ⟨entry, he, hsome, hname, hdefined⟩

namespace Partition

variable {p q r : Partition} {module : ModuleId}

/-! ## Operations and runs -/

/-- What may be done to a partition. -/
inductive Operation where
  | fill (operation : Registry.Operation)
  | addModule (spec : ModuleSpec)
  | seedRoots (module : ModuleId)
  | closeOver (module : ModuleId) (seeds : List ClassId)
  | assignUnclaimed (module : ModuleId)

namespace Operation

/-- The partition after an operation. A module is not added under a name that is taken. -/
def run (p : Partition) : Operation → Except BuildError Partition
  | fill operation => .ok { p with registry := operation.run p.registry }
  | addModule spec =>
    match p.table.add spec with
    | .ok (table, _) => .ok { p with table }
    | .error _ => .ok p
  | seedRoots module => (p.seedRoots module).map (·.1)
  | closeOver module seeds => (p.closeOver module seeds).result.map (·.1)
  | assignUnclaimed module => (p.assignUnclaimed module).map (·.1)

/-- An operation that claims does so for a module of the table, and classes that are given by their
numbers are there. -/
def Fits (p : Partition) : Operation → Prop
  | fill operation => operation.Fits p.registry
  | addModule _ => True
  | seedRoots module => module < p.table.size
  | closeOver module seeds => module < p.table.size ∧ ∀ c ∈ seeds, c < p.registry.classes.size
  | assignUnclaimed module => module < p.table.size

end Operation

/-- Operations lead from one partition to another, one after the other. -/
inductive Runs : Partition → List Operation → Partition → Prop where
  | nil (p : Partition) : Runs p [] p
  | cons {p q r : Partition} {operation : Operation} {operations : List Operation} :
      operation.Fits p → operation.run p = .ok q → Runs q operations r →
        Runs p (operation :: operations) r

/-- The operations can be done one after the other. -/
def Feasible : Partition → List Operation → Prop
  | _, [] => True
  | p, operation :: operations =>
    operation.Fits p ∧ ∃ q, operation.run p = .ok q ∧ Feasible q operations

instance decidableFits (p : Partition) : (operation : Operation) → Decidable (operation.Fits p)
  | .fill operation => inferInstanceAs (Decidable (operation.Fits p.registry))
  | .addModule _ => isTrue trivial
  | .seedRoots module => Nat.decLt module p.table.size
  | .closeOver module seeds =>
    inferInstanceAs (Decidable (module < p.table.size ∧ ∀ c ∈ seeds, c < p.registry.classes.size))
  | .assignUnclaimed module => Nat.decLt module p.table.size

instance decidableFeasible : (operations : List Operation) → (p : Partition) →
    Decidable (p.Feasible operations)
  | [], _ => isTrue trivial
  | operation :: operations, p =>
    have : DecidablePred (Feasible · operations) := decidableFeasible operations
    inferInstanceAs (Decidable (operation.Fits p ∧
      ∃ q, operation.run p = .ok q ∧ Feasible q operations))

theorem Feasible.exists_runs : ∀ {operations : List Operation} {p : Partition},
    p.Feasible operations → ∃ q, p.Runs operations q
  | [], p, _ => ⟨p, .nil p⟩
  | _ :: _, _, ⟨hfits, _, hrun, h⟩ => by
    obtain ⟨q, hruns⟩ := h.exists_runs
    exact ⟨q, .cons hfits hrun hruns⟩

/-! ## The invariant -/

/-- Owners stay owners. -/
structure Keeps (p q : Partition) : Prop where
  classOwner : ∀ c owner, p.registry.classOwner c = some owner →
    q.registry.classOwner c = some owner
  resourceOwner : ∀ r owner, p.registry.resourceOwner r = some owner →
    q.registry.resourceOwner r = some owner

theorem Keeps.refl (p : Partition) : p.Keeps p :=
  ⟨fun _ _ h => h, fun _ _ h => h⟩

theorem Keeps.trans (h₁ : p.Keeps q) (h₂ : q.Keeps r) : p.Keeps r where
  classOwner c owner h := h₂.classOwner c owner (h₁.classOwner c owner h)
  resourceOwner s owner h := h₂.resourceOwner s owner (h₁.resourceOwner s owner h)

/-- The account of a partition is in order after some operations. A module owns a class that it
excludes only if it has been given what was left over. -/
structure Orderly (p : Partition) (done : List Operation) : Prop where
  indexed : p.table.Indexed
  consistent : p.Consistent
  unexcluded : ∀ {c : ClassId} {entry owner m}, p.registry.classes[c]? = some entry →
    entry.owner = some owner → p.table.get? owner = some m → .assignUnclaimed owner ∉ done →
      m.spec.excludesClass entry.name = false

theorem orderly_empty : ({} : Partition).Orderly [] where
  indexed := ModuleTable.indexed_empty
  consistent := consistent_of_fresh Registry.pristine_empty.unowned ModuleTable.fresh_empty
  unexcluded he := by simp at he

variable {done : List Operation} {operation : Operation}

/-- How an operation on a partition that is in order ends: it succeeds, and all stays in order. -/
def Carries (p : Partition) (done : List Operation) (operation : Operation) : Prop :=
  Ends (operation.run p) (fun q => p.Keeps q ∧ q.Orderly (done ++ [operation])) fun _ => False

theorem Orderly.ends_fill (h : p.Orderly done) (operation : Registry.Operation) :
    p.Carries done (.fill operation) := by
  have hkeeps := Registry.keeps_run p.registry operation
  refine ⟨⟨fun c owner => (hkeeps.classOwner c).trans, fun r owner =>
    (hkeeps.resourceOwner r).trans⟩, h.indexed, ⟨?classes, ?resources, ?defined⟩, ?unexcluded⟩
  case classes =>
    have heq : (operation.run p.registry).classOwner = p.registry.classOwner :=
      funext hkeeps.classOwner
    rw [heq]
    exact h.consistent.classes
  case resources =>
    have heq : (operation.run p.registry).resourceOwner = p.registry.resourceOwner :=
      funext hkeeps.resourceOwner
    rw [heq]
    exact h.consistent.resources
  case defined =>
    intro c entry' he' hsome
    obtain ⟨owner, howner⟩ := Option.isSome_iff_exists.1 hsome
    obtain ⟨entry, he, hsome, -, hdefined⟩ := hkeeps.exists_before he' howner
    exact hdefined (h.consistent.defined c entry he (by simp [hsome]))
  case unexcluded =>
    intro c entry' owner m he' howner hm hdone
    obtain ⟨entry, he, hsome, hname, -⟩ := hkeeps.exists_before he' howner
    rw [hname]
    exact h.unexcluded he hsome hm fun hmem => hdone (List.mem_append_left _ hmem)

theorem Orderly.ends_addModule (h : p.Orderly done) (spec : ModuleSpec) :
    p.Carries done (.addModule spec) := by
  have hadd := ModuleTable.ends_add h.indexed spec
  simp only [Carries, Operation.run]
  cases heq : p.table.add spec with
  | error e =>
    refine ⟨.refl p, h.indexed, h.consistent, fun he howner hm hdone => ?_⟩
    exact h.unexcluded he howner hm fun hmem => hdone (List.mem_append_left _ hmem)
  | ok r =>
    obtain ⟨hindexed, hget⟩ := hadd.of_ok heq
    refine ⟨⟨fun _ _ => id, fun _ _ => id⟩, hindexed, ⟨h.consistent.classes.push hget fun _ => rfl,
      h.consistent.resources.push hget fun _ => rfl, h.consistent.defined⟩, ?_⟩
    intro c entry owner m he howner hm hdone
    -- the new module owns nothing yet
    have hlt : owner < p.table.size :=
      h.consistent.classes.owner_lt (Registry.classOwner_eq_some_iff.2 ⟨entry, he, howner⟩)
    rw [hget, if_neg (Nat.ne_of_lt hlt)] at hm
    exact h.unexcluded he howner hm fun hmem => hdone (List.mem_append_left _ hmem)

/-- What a claiming operation takes for its module must not be excluded there, unless the module is
given what is left over. -/
theorem Orderly.claims (h : p.Orderly done) {C : Set ClassId} {R : Set ResourceId}
    {U : Set Reference} (hgrows : p.Grows q ∧ q.Consistent) (htakes : p.Takes module C R U q)
    (hopen : operation = .assignUnclaimed module ∨ ∀ c ∈ C, ∀ entry,
      p.registry.classes[c]? = some entry → (p.spec module).excludesClass entry.name = false) :
    p.Keeps q ∧ q.Orderly (done ++ [operation]) := by
  obtain ⟨hgrows, hconsistent⟩ := hgrows
  refine ⟨⟨hgrows.classOwner, hgrows.resourceOwner⟩, hgrows.indexed h.indexed, hconsistent, ?_⟩
  intro c entry owner m he howner hget hdone
  obtain ⟨m₀, hm₀, houtline⟩ := hgrows.table.exists_get?_before hget
  have hspec : m₀.spec = m.spec := congrArg (·.spec) houtline
  by_cases hc : c ∈ C
  · -- the class has just been taken, so its owner is the module
    rw [htakes.class_of_mem c hc] at he
    obtain ⟨before, hbefore, rfl⟩ := Option.map_eq_some_iff.1 he
    cases howner
    rcases hopen with rfl | hopen
    · exact absurd (List.mem_append_right _ (List.mem_singleton_self _)) hdone
    · have hnot := hopen c hc before hbefore
      unfold spec at hnot
      rw [hm₀] at hnot
      rw [← hspec]
      exact hnot
  · rw [htakes.class_of_not_mem c hc] at he
    rw [← hspec]
    exact h.unexcluded he howner hm₀ fun hmem => hdone (List.mem_append_left _ hmem)

/-- Roots are not excluded. -/
theorem Orderly.ends_seedRoots (h : p.Orderly done) (hm : module < p.table.size) :
    p.Carries done (.seedRoots module) := by
  refine Ends.map (((Partition.ends_seedRoots h.consistent hm).and
    (takes_seedRoots p module)).weaken fun r hr => ?_)
  obtain ⟨hgrows, hroots, htakes⟩ := hr
  refine h.claims hgrows htakes (.inr fun c hc entry he => ?_)
  rw [hroots] at hc
  obtain ⟨entry', he', htest⟩ := Registry.mem_classesWhere.1 hc
  rw [he] at he'
  cases he'
  simp only [ModuleSpec.hasRoot, Bool.and_eq_true, Bool.not_eq_true'] at htest
  exact htest.2.2

/-- A completion neither reaches nor includes what is excluded. -/
theorem Orderly.ends_closeOver (h : p.Orderly done) (hm : module < p.table.size)
    (seeds : List ClassId) : p.Carries done (.closeOver module seeds) := by
  refine Ends.map (((Partition.ends_closeOver h.consistent hm seeds).and
    (ends_completes p seeds hm)).weaken fun r hr => ?_)
  obtain ⟨hgrows, -, hcompletes⟩ := hr
  refine h.claims hgrows hcompletes.takes (.inr fun c hc entry he => ?_)
  rcases hc with hreaches | ⟨-, entry', he', -, -, hincludes⟩
  · obtain ⟨entry', he', -, -, hexcludes⟩ := hreaches.open
    rw [he] at he'
    cases he'
    exact hexcludes
  · rw [he] at he'
    cases he'
    simp only [ModuleSpec.includesClass, Bool.and_eq_true, Bool.not_eq_true'] at hincludes
    exact hincludes.2

theorem Orderly.ends_assignUnclaimed (h : p.Orderly done) (hm : module < p.table.size) :
    p.Carries done (.assignUnclaimed module) := by
  refine Ends.map (((Partition.ends_assignUnclaimed h.consistent hm).and
    (takes_assignUnclaimed p module)).weaken fun r hr => ?_)
  obtain ⟨⟨hgrows, hconsistent, -⟩, htakes⟩ := hr
  exact h.claims ⟨hgrows, hconsistent⟩ htakes (.inl rfl)

/-- The step of a run. -/
theorem Orderly.ends_run (h : p.Orderly done) (hfits : operation.Fits p) :
    p.Carries done operation := by
  cases operation with
  | fill operation => exact h.ends_fill operation
  | addModule spec => exact h.ends_addModule spec
  | seedRoots module => exact h.ends_seedRoots hfits
  | closeOver module seeds => exact h.ends_closeOver hfits.1 seeds
  | assignUnclaimed module => exact h.ends_assignUnclaimed hfits

/-- A run replaces no owner and leaves all in order. -/
theorem Runs.orderly {operations : List Operation} (hrun : p.Runs operations q) :
    ∀ {done : List Operation}, p.Orderly done → p.Keeps q ∧ q.Orderly (done ++ operations) := by
  induction hrun with
  | nil p =>
    intro done h
    exact ⟨.refl p, by simpa using h⟩
  | cons hfits hstep _ ih =>
    intro done h
    obtain ⟨hkeeps, hq⟩ := (h.ends_run hfits).of_ok hstep
    obtain ⟨hkeeps', hr⟩ := ih hq
    exact ⟨hkeeps.trans hkeeps', by simpa using hr⟩

/-! ## The account at every point -/

/-- The account of owners that a partition keeps after some operations. -/
structure Ledger (p : Partition) (operations : List Operation) : Prop where
  /-- No operation fails. -/
  succeeds : ∀ operation : Operation, operation.Fits p → ∃ q, operation.run p = .ok q
  /-- An owner is never replaced. -/
  class_owner_stays : ∀ {further q}, p.Runs further q → ∀ c owner,
    p.registry.classOwner c = some owner → q.registry.classOwner c = some owner
  resource_owner_stays : ∀ {further q}, p.Runs further q → ∀ r owner,
    p.registry.resourceOwner r = some owner → q.registry.resourceOwner r = some owner
  /-- Modules hold what they own, and owners are modules. -/
  mem_classes : ∀ {id m}, p.table.get? id = some m → ∀ c,
    c ∈ m.classes ↔ p.registry.classOwner c = some id
  mem_resources : ∀ {id m}, p.table.get? id = some m → ∀ r,
    r ∈ m.resources ↔ p.registry.resourceOwner r = some id
  class_owner_lt : ∀ {c owner}, p.registry.classOwner c = some owner → owner < p.table.size
  resource_owner_lt : ∀ {r owner}, p.registry.resourceOwner r = some owner → owner < p.table.size
  /-- No two modules hold the same. -/
  classes_apart : ∀ {id m id' m'}, p.table.get? id = some m → p.table.get? id' = some m' →
    id ≠ id' → ∀ c ∈ m.classes, c ∉ m'.classes
  resources_apart : ∀ {id m id' m'}, p.table.get? id = some m → p.table.get? id' = some m' →
    id ≠ id' → ∀ r ∈ m.resources, r ∉ m'.resources
  /-- What is owned is there. -/
  owned_defined : ∀ {c owner}, p.registry.classOwner c = some owner →
    ∃ entry, p.registry.classes[c]? = some entry ∧ entry.isDefined = true
  /-- A module that is not given what is left over owns nothing that it excludes. -/
  unexcluded : ∀ {id m}, p.table.get? id = some m → .assignUnclaimed id ∉ operations →
    ∀ c ∈ m.classes, m.spec.excludesClass (p.registry.className c) = false

theorem Orderly.ledger (h : p.Orderly done) : p.Ledger done where
  succeeds operation hfits := by
    have hends := h.ends_run hfits
    cases hrun : operation.run p with
    | ok q => exact ⟨q, rfl⟩
    | error e => exact (hends.of_error hrun).elim
  class_owner_stays hrun := (hrun.orderly h).1.classOwner
  resource_owner_stays hrun := (hrun.orderly h).1.resourceOwner
  mem_classes hm := h.consistent.classes.mem hm
  mem_resources hm := h.consistent.resources.mem hm
  class_owner_lt := h.consistent.classes.owner_lt
  resource_owner_lt := h.consistent.resources.owner_lt
  classes_apart hm hm' hne c hc hc' := by
    rw [h.consistent.classes.mem hm] at hc
    rw [h.consistent.classes.mem hm', hc] at hc'
    exact hne (Option.some.inj hc')
  resources_apart hm hm' hne r hr hr' := by
    rw [h.consistent.resources.mem hm] at hr
    rw [h.consistent.resources.mem hm', hr] at hr'
    exact hne (Option.some.inj hr')
  owned_defined {c owner} howner := by
    obtain ⟨entry, he, hsome⟩ := Registry.classOwner_eq_some_iff.1 howner
    exact ⟨entry, he, h.consistent.defined c entry he (by simp [hsome])⟩
  unexcluded {id m} hm hdone c hc := by
    rw [h.consistent.classes.mem hm] at hc
    obtain ⟨entry, he, hsome⟩ := Registry.classOwner_eq_some_iff.1 hc
    have hnot := h.unexcluded he hsome hm hdone
    simpa [Registry.className, he] using hnot

/-- Whatever is done to a partition that begins with nothing, in any order and for any modules, its
account of owners is in order at every point. -/
theorem ledger_of_runs {operations : List Operation} (h : Runs {} operations p) :
    p.Ledger operations :=
  (h.orderly orderly_empty).2.ledger

/-- Classes and modules that come in turn with claims. The first module has a secret that it
excludes; the second one is given what is left over. -/
def Operation.sample : List Operation := [
  .fill (.register { name := "app.Main", references := ["app.Tool", "app.Secret", "lib.Gone"] }),
  .addModule {
    name := "app", version := "1.0", roots := ⟨[.exact "app.Main"]⟩,
    excludes := ⟨[.exact "app.Secret"]⟩ },
  .seedRoots 0,
  .fill (.register { name := "app.Tool" }),
  .fill (.register { name := "app.Secret" }),
  .closeOver 0 [0, 3],
  .addModule { name := "rest", version := "1.0" },
  .fill (.addResource "app/help.txt" 4 none),
  .assignUnclaimed 1,
  .closeOver 1 [0]]

theorem ledger_sample : ∃ p, Runs {} Operation.sample p ∧ p.Ledger Operation.sample := by
  have hfeasible : Feasible {} Operation.sample := by decide +kernel
  obtain ⟨p, hruns⟩ := hfeasible.exists_runs
  exact ⟨p, hruns, ledger_of_runs hruns⟩

end Partition

end ModuleGraph
