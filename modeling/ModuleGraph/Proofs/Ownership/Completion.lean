import ModuleGraph.Proofs.Ownership.Search
import ModuleGraph.Proofs.Registry.Population

/-!
# Completed modules

What the completion of a module takes, in closed form: the classes that its seeds reach, the other
classes without an owner that it includes (`Partition.Includes`), and the resources that come with
patterns or with classes (`Partition.Draws`). `Partition.Leaves` lists the references that it leaves
unresolved. All of this speaks of the partition as it is at the start.

`Partition.closeOver_completes` says that a completion always succeeds and does exactly this. As the
closed form mentions the seeds only as a set, neither their order nor that of the search shows.
-/

namespace ModuleGraph

namespace Partition

variable {p q : Partition} {module : ModuleId} {spec : ModuleSpec} {seeds : Set ClassId}
  {c k r : ClassId}

/-! ## The closed form -/

/-- The classes that are included without being reached. -/
def Includes (p : Partition) (spec : ModuleSpec) (seeds : Set ClassId) (c : ClassId) : Prop :=
  ¬p.Reaches spec seeds c ∧ ∃ entry, p.registry.classes[c]? = some entry ∧ entry.owner = none ∧
    entry.isDefined = true ∧ spec.includesClass entry.name = true

/-- The classes that a completion takes. -/
def Gathers (p : Partition) (spec : ModuleSpec) (seeds : Set ClassId) (c : ClassId) : Prop :=
  p.Reaches spec seeds c ∨ p.Includes spec seeds c

/-- The references that a completion leaves unresolved. -/
inductive Leaves (p : Partition) (spec : ModuleSpec) (seeds : Set ClassId) : Reference → Prop where
  /-- A reference that is followed leads to a class that is missing or excluded. -/
  | followed {k r : ClassId} : k ∈ seeds ∨ p.Reaches spec seeds k →
      r ∈ p.registry.referencesOf k → p.Barred spec r → Leaves p spec seeds (k, r)
  /-- An included class refers to a class that has no owner and is not taken either. -/
  | included {k r : ClassId} : p.Includes spec seeds k → r ∈ p.registry.referencesOf k →
      p.registry.classOwner r = none → ¬p.Gathers spec seeds r → Leaves p spec seeds (k, r)

/-- A class that the descriptor of the resource lists is held already or is taken. -/
def Provides (p : Partition) (module : ModuleId) (seeds : Set ClassId) (entry : ResourceEntry) :
    Prop :=
  ∃ descriptor provider c, entry.service = some descriptor ∧ provider ∈ descriptor.providers ∧
    p.registry.findClass provider = some c ∧
      (c ∈ p.held module ∨ p.Gathers (p.spec module) seeds c)

/-- The resources that a completion takes. -/
def Draws (p : Partition) (module : ModuleId) (seeds : Set ClassId) (s : ResourceId) : Prop :=
  ∃ entry, p.registry.resources[s]? = some entry ∧ entry.owner = none ∧
    ((entry.selectedBy (p.spec module).includes = true ∧
        entry.selectedBy (p.spec module).excludes = false) ∨
      p.Provides module seeds entry)

/-- The module has been completed: it has taken what the seeds lead to and nothing else is
different, and the statistics count what it has taken and what it leaves unresolved. -/
structure Completes (p : Partition) (module : ModuleId) (seeds : Set ClassId) (q : Partition)
    (stats : ClosureStats) : Prop where
  takes : p.Takes module {c | p.Gathers (p.spec module) seeds c} {s | p.Draws module seeds s}
    {u | p.Leaves (p.spec module) seeds u} q
  reached : (stats.reached : ℕ∞) = {c | p.Reaches (p.spec module) seeds c}.encard
  included : (stats.included : ℕ∞) = {c | p.Includes (p.spec module) seeds c}.encard
  resources : (stats.resources : ℕ∞) = {s | p.Draws module seeds s}.encard
  unresolved : ∃ m, q.table.get? module = some m ∧ stats.unresolved = m.unresolved.size

/-! ## Includes -/

theorem Closing.Closed.mem_included {state : Closing} (h : state.Closed p module spec seeds) :
    c ∈ state.partition.unownedWhere spec.includesClass ↔ p.Includes spec seeds c := by
  unfold unownedWhere Includes
  rw [Registry.mem_classesWhere]
  by_cases hc : p.Reaches spec seeds c
  · -- what has been reached has an owner by now
    rw [h.takes.class_of_mem c hc]
    obtain ⟨entry, he, -⟩ := hc.open
    simp [he, hc]
  · rw [h.takes.class_of_not_mem c hc]
    simp [hc, and_assoc]

/-- The references of a class to classes that nobody owns. -/
def unownedFrom (p : Partition) (sources : Set ClassId) : Set Reference :=
  {u | u.1 ∈ sources ∧ u.2 ∈ p.registry.referencesOf u.1 ∧ p.registry.classOwner u.2 = none}

theorem takes_leaveUnowned (p : Partition) (module : ModuleId) (source : ClassId) :
    p.Takes module ∅ ∅ (p.unownedFrom {source}) (p.leaveUnowned module source) ∧
      (p.leaveUnowned module source).registry = p.registry := by
  rw [leaveUnowned]
  have hfold := foldl_prefix
    (f := fun (q : Partition) target =>
      if (p.registry.classOwner target).isNone then q.leaveUnresolved module (source, target)
      else q)
    (fun done q => p.Takes module ∅ ∅
        {u | u.1 = source ∧ u.2 ∈ done ∧ p.registry.classOwner u.2 = none} q ∧
      q.registry = p.registry)
    [] (p.registry.referencesOf source) p
    ⟨(Takes.refl p module).congr (by simp) (by simp) (by simp), rfl⟩ ?_
  · refine ⟨hfold.1.congr (fun _ => Iff.rfl) (fun _ => Iff.rfl) fun u => ?_, hfold.2⟩
    simp only [unownedFrom, List.nil_append, Set.mem_ofPred_eq, Set.mem_singleton_iff]
    refine and_congr_right fun hu => ?_
    rw [hu]
  · rintro done target after - q ⟨hq, hregistry⟩
    split_ifs with hnone
    · rw [Option.isNone_iff_eq_none] at hnone
      refine ⟨(hq.trans (takes_leaveUnresolved q module (source, target))).congr (by simp) (by simp)
        fun u => ?_, hregistry⟩
      obtain ⟨k, r⟩ := u
      simp only [Set.mem_union, Set.mem_ofPred_eq, Set.mem_singleton_iff, Prod.mk.injEq,
        List.mem_append, List.mem_singleton]
      constructor
      · rintro (⟨hk, hr, howner⟩ | ⟨rfl, rfl⟩)
        · exact ⟨hk, .inl hr, howner⟩
        · exact ⟨rfl, .inr rfl, hnone⟩
      · rintro ⟨hk, hr | hr, howner⟩
        · exact .inl ⟨hk, hr, howner⟩
        · exact .inr ⟨hk, hr⟩
    · rw [Option.isNone_iff_eq_none] at hnone
      refine ⟨hq.congr (fun _ => Iff.rfl) (fun _ => Iff.rfl) fun u => ?_, hregistry⟩
      simp only [Set.mem_ofPred_eq, List.mem_append, List.mem_singleton]
      constructor
      · rintro ⟨hk, hr, howner⟩
        exact ⟨hk, .inl hr, howner⟩
      · rintro ⟨hk, hr | hr, howner⟩
        · exact ⟨hk, hr, howner⟩
        · exact absurd (hr ▸ howner) hnone

theorem takes_leaveAllUnowned (p : Partition) (module : ModuleId) (sources : List ClassId) :
    p.Takes module ∅ ∅ (p.unownedFrom {k | k ∈ sources})
      (sources.foldl (·.leaveUnowned module ·) p) := by
  have hfold := foldl_prefix (f := fun (q : Partition) k => q.leaveUnowned module k)
    (fun done q => p.Takes module ∅ ∅ (p.unownedFrom {k | k ∈ done}) q ∧
      q.registry = p.registry)
    [] sources p ⟨(Takes.refl p module).congr (by simp) (by simp) (by simp [unownedFrom]), rfl⟩ ?_
  · exact hfold.1
  · rintro done source after - q ⟨hq, hregistry⟩
    obtain ⟨htakes, hsame⟩ := takes_leaveUnowned q module source
    refine ⟨(hq.trans htakes).congr (by simp) (by simp) fun u => ?_, hsame.trans hregistry⟩
    simp only [unownedFrom, hregistry, Set.mem_union, Set.mem_ofPred_eq, Set.mem_singleton_iff,
      List.mem_append, List.mem_singleton, or_and_right]

/-- After the search, the included classes are taken, and what they leave unresolved is noted. -/
theorem Closing.Closed.ends_claimIncluded {state : Closing}
    (h : state.Closed p module spec seeds) :
    Ends (state.partition.claimIncluded module spec)
      (fun r => p.Takes module {c | p.Gathers spec seeds c} ∅ {u | p.Leaves spec seeds u} r.1 ∧
        (r.2 : ℕ∞) = {c | p.Includes spec seeds c}.encard)
      (fun _ => False) := by
  rw [claimIncluded]
  have hunowned : ∀ c ∈ state.partition.unownedWhere spec.includesClass,
      state.partition.registry.classOwner c = none := by
    intro c hc
    obtain ⟨entry, he, hnone, -⟩ := free_of_mem_unownedWhere hc
    rw [Registry.classOwner_of_getElem? he, hnone]
  refine (takes_claimClasses (nodup_unownedWhere _ _) hunowned).bind fun q hq => ?_
  have hpq : p.Takes module {c | p.Gathers spec seeds c} ∅
      (p.barredFrom spec {k | k ∈ seeds ∨ p.Reaches spec seeds k}) q :=
    (h.takes.trans hq).congr (fun c => or_congr_right h.mem_included) (by simp) (by simp)
  refine ⟨(hpq.trans (takes_leaveAllUnowned q module _)).congr (by simp) (by simp) fun u => ?_,
    encard_of_nodup (nodup_unownedWhere _ _) fun c => h.mem_included⟩
  obtain ⟨k, r⟩ := u
  have hnone : q.registry.classOwner r = none ↔
      p.registry.classOwner r = none ∧ ¬p.Gathers spec seeds r := by
    by_cases hr : p.Gathers spec seeds r
    · -- a class that is taken has an entry
      obtain ⟨entry, he⟩ : ∃ entry, p.registry.classes[r]? = some entry := by
        rcases hr with hr | ⟨-, entry, he, -⟩
        · exact hr.open.imp fun _ h => h.1
        · exact ⟨entry, he⟩
      rw [hpq.classOwner_of_mem hr he]
      simp [hr]
    · rw [hpq.classOwner_of_not_mem hr]
      simp [hr]
  simp only [barredFrom, unownedFrom, Set.mem_union, Set.mem_ofPred_eq, h.mem_included,
    hpq.referencesOf_eq, hnone]
  constructor
  · rintro (⟨hk, hr, hbarred⟩ | ⟨hk, hr, howner, hgathers⟩)
    · exact .followed hk hr hbarred
    · exact .included hk hr howner hgathers
  · intro hleaves
    cases hleaves with
    | followed hk hr hbarred => exact .inl ⟨hk, hr, hbarred⟩
    | included hk hr howner hgathers => exact .inr ⟨hk, hr, howner, hgathers⟩

/-! ## Resources -/

theorem providedBy_iff {entry : ResourceEntry} {registry : Registry}
    {classes : Std.TreeSet ClassId} :
    entry.providedBy registry classes = true ↔ ∃ descriptor provider c,
      entry.service = some descriptor ∧ provider ∈ descriptor.providers ∧
        registry.findClass provider = some c ∧ c ∈ classes := by
  unfold ResourceEntry.providedBy
  cases entry.service with
  | none => simp
  | some descriptor =>
    simp only [List.any_eq_true, Option.any_eq_true, Std.TreeSet.contains_iff_mem,
      Option.some.injEq, exists_and_left, exists_eq_left']

theorem Takes.mem_held {C : Set ClassId} {R : Set ResourceId} {U : Set Reference}
    (h : p.Takes module C R U q) (hm : module < p.table.size) :
    c ∈ q.held module ↔ c ∈ p.held module ∨ c ∈ C := by
  obtain ⟨m, hm⟩ := ModuleTable.exists_get? hm
  obtain ⟨m', hm', hgains⟩ := h.gains m hm
  unfold held
  rw [hm, hm']
  exact hgains.mem_classes c

theorem Takes.mem_matchingResources {U : Set Reference}
    (h : p.Takes module {c | p.Gathers (p.spec module) seeds c} ∅ U q)
    (hm : module < p.table.size) {s : ResourceId} :
    s ∈ q.matchingResources module (p.spec module) ↔ p.Draws module seeds s := by
  unfold matchingResources Draws
  rw [Registry.mem_resourcesWhere, h.resource_of_not_mem s (Set.notMem_empty s)]
  simp only [Bool.and_eq_true, Bool.or_eq_true, Option.isNone_iff_eq_none, Bool.not_eq_true',
    providedBy_iff, Provides, h.findClass_eq, h.mem_held hm, Set.mem_ofPred_eq]

/-! ## The whole completion -/

theorem ends_completes (p : Partition) (seeds : List ClassId) (hm : module < p.table.size) :
    Ends (p.closeOver module seeds).result
      (fun r => r.2.roots = seeds.length ∧ p.Completes module {c | c ∈ seeds} r.1 r.2)
      (fun _ => False) := by
  simp only [closeOver, Logged.result_bind, Logged.result_liftM, Logged.result_emit,
    Logged.result_pure]
  refine (ends_search p module (p.spec module) seeds).bind fun closing hclosed => ?_
  refine hclosed.ends_claimIncluded.bind fun r hr => ?_
  obtain ⟨htakes, hincluded⟩ := hr
  have hunowned : ∀ s ∈ r.1.matchingResources module (p.spec module),
      r.1.registry.resourceOwner s = none := by
    intro s hs
    obtain ⟨entry, he, hnone⟩ := freeResource_of_mem_matchingResources hs
    rw [Registry.resourceOwner_of_getElem? he, hnone]
  have hnodup : (r.1.matchingResources module (p.spec module)).Nodup :=
    Registry.nodup_resourcesWhere _
  refine (takes_claimResources hnodup hunowned).bind fun q hq => ?_
  have hpq := htakes.trans hq
  refine ⟨rfl, ?_, hclosed.reached, hincluded, ?_, ?_⟩
  · refine hpq.congr (by simp) (fun s => ?_) (by simp)
    simp only [Set.empty_union, Set.mem_ofPred_eq, htakes.mem_matchingResources hm]
  · exact encard_of_nodup hnodup fun s => htakes.mem_matchingResources hm
  · obtain ⟨m, hm⟩ := ModuleTable.exists_get? hm
    obtain ⟨m', hm', -⟩ := hpq.gains m hm
    exact ⟨m', hm', by rw [hm']; rfl⟩

/-- A completion always succeeds, and does exactly what its closed form says. The seeds are classes
of the registry, which alone gives out their numbers; any other number leads nowhere. -/
theorem closeOver_completes (p : Partition) (module : ModuleId) (seeds : List ClassId)
    (hm : module < p.table.size) :
    ∃ q stats, (p.closeOver module seeds).result = .ok (q, stats) ∧
      stats.roots = seeds.length ∧ p.Completes module {c | c ∈ seeds} q stats := by
  have hends := ends_completes p seeds hm
  cases hresult : (p.closeOver module seeds).result with
  | ok r => exact ⟨r.1, r.2, rfl, hends.of_ok hresult⟩
  | error e => exact (hends.of_error hresult).elim

/-- A program that has a secret and a plugin, and one module for it. -/
def sample : Partition where
  registry := .populate [
    .register { name := "app.Main", references := ["app.Tool", "app.Secret", "lib.Gone"] },
    .register { name := "app.Tool", references := ["app.Main", "app.Help"] },
    .register { name := "app.Help" },
    .register { name := "app.Secret" },
    .register { name := "plug.Extra", references := ["lib.Gone", "app.Help"] },
    .addProvider "META-INF/services/app.Spi" "plug.Extra",
    .addResource "app/help.txt" 4 none]
  table := {
    modules := #[{
      spec := {
        name := "app", version := "1.0", includes := ⟨[.package "plug"]⟩,
        excludes := ⟨[.exact "app.Secret"]⟩ },
      group := 0 }]
    index := .ofList [("app", 0)] }

/-- From its main class twice, the program reaches that class and two others. Its plugin is included
and brings a descriptor. The secret and the missing library stay unresolved. -/
theorem sample_completes :
    0 < sample.table.size ∧
      ∃ q stats, (sample.closeOver 0 [0, 0]).result = .ok (q, stats) ∧
        stats = { roots := 2, reached := 3, included := 1, resources := 1, unresolved := 3 } ∧
        sample.Completes 0 {c | c ∈ [0, 0]} q stats := by
  have hm : 0 < sample.table.size := by decide +kernel
  have hrun : ∃ r, (sample.closeOver 0 [0, 0]).result = .ok r ∧
      r.2 = { roots := 2, reached := 3, included := 1, resources := 1, unresolved := 3 } := by
    decide +kernel
  obtain ⟨⟨q, stats⟩, hresult, hstats⟩ := hrun
  obtain ⟨q', stats', hresult', -, hcompletes⟩ := closeOver_completes sample 0 [0, 0] hm
  rw [hresult] at hresult'
  cases hresult'
  exact ⟨hm, q, stats, hresult, hstats, hcompletes⟩

/-! ## Roots, and what is left over -/

theorem takes_claimUnowned (p : Partition) (module : ModuleId) (test : String → Bool) :
    Ends (p.claimClasses module (p.unownedWhere test))
      (fun q => p.Takes module {c | c ∈ p.unownedWhere test} ∅ ∅ q) (fun _ => False) :=
  takes_claimClasses (nodup_unownedWhere p test) fun c hc => by
    obtain ⟨entry, he, hnone, -⟩ := free_of_mem_unownedWhere hc
    rw [Registry.classOwner_of_getElem? he, hnone]

theorem takes_seedRoots (p : Partition) (module : ModuleId) :
    Ends (p.seedRoots module)
      (fun r => r.2 = p.unownedWhere (p.spec module).hasRoot ∧
        p.Takes module {c | c ∈ r.2} ∅ ∅ r.1)
      (fun _ => False) := by
  rw [seedRoots]
  exact (takes_claimUnowned p module _).bind fun q hq => ⟨rfl, hq⟩

/-- One module takes whatever nobody owns. -/
theorem takes_assignUnclaimed (p : Partition) (module : ModuleId) :
    Ends (p.assignUnclaimed module)
      (fun r => p.Takes module {c | c ∈ p.unownedWhere fun _ => true}
        {s | s ∈ p.registry.resourcesWhere (·.owner.isNone)} ∅ r.1)
      (fun _ => False) := by
  rw [assignUnclaimed]
  refine (takes_claimUnowned p module _).bind fun q hq => ?_
  have hnone : ∀ s ∈ p.registry.resourcesWhere (·.owner.isNone),
      q.registry.resourceOwner s = none := by
    intro s hs
    obtain ⟨entry, he, hnone⟩ := Registry.mem_resourcesWhere.1 hs
    have he' := (hq.resource_of_not_mem s (Set.notMem_empty s)).trans he
    rw [Registry.resourceOwner_of_getElem? he', ← Option.isNone_iff_eq_none]
    exact hnone
  refine (takes_claimResources (Registry.nodup_resourcesWhere _) hnone).bind fun r hr => ?_
  exact (hq.trans hr).congr (by simp) (by simp) (by simp)

end Partition

end ModuleGraph
