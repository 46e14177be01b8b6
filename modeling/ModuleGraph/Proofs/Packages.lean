import ModuleGraph.Package
import ModuleGraph.Proofs.TreeMap

/-!
# What package summaries tell

Classes and resources are counted in the same way, each in its package (`Packages.countAll`). So the
summary of a package is the empty one with the classes of the package counted, one after the other,
and then its resources (`Packages.getElem?_summarize`), and a counter that every class raises by the
same number adds up to a multiple of their number (`Packages.sum_summarize`).

Some summary of a package tells of classes exactly if a class of the package is among those given
(`Packages.exists_hasClasses_iff`), and it is exported if, besides, the exported packages admit it
(`Packages.exported_eq`).
-/

namespace ModuleGraph

namespace PackageSummary

/-- The summary of a package that has the given classes and resources. -/
def tally (name : String) (classes : List ClassEntry) (resources : List ResourceEntry) :
    PackageSummary where
  name
  classCount := classes.length
  classBytes := (classes.map (·.size)).sum
  publicClassCount := classes.countP (·.isPublic)
  innerClassCount := classes.countP (·.isInner)
  resourceCount := resources.length
  resourceBytes := (resources.map (·.size)).sum

theorem foldl_addClass (entries : List ClassEntry) (s : PackageSummary) :
    entries.foldl (fun s e => s.addClass e) s =
      { s with
        classCount := s.classCount + entries.length
        classBytes := s.classBytes + (entries.map (·.size)).sum
        publicClassCount := s.publicClassCount + entries.countP (·.isPublic)
        innerClassCount := s.innerClassCount + entries.countP (·.isInner) } := by
  induction entries generalizing s with
  | nil => rfl
  | cons entry entries ih =>
    have hcount (n k : Nat) (test : Bool) :
        n + test.toNat + k = n + (k + if test = true then 1 else 0) := by
      cases test with
      | false => rfl
      | true => exact Nat.add_right_comm n 1 k
    rw [List.foldl_cons, ih]
    unfold addClass
    simp only [List.length_cons, List.map_cons, List.sum_cons, List.countP_cons, hcount,
      Nat.add_assoc, Nat.add_comm 1]

theorem foldl_addResource (entries : List ResourceEntry) (s : PackageSummary) :
    entries.foldl (fun s e => s.addResource e) s =
      { s with
        resourceCount := s.resourceCount + entries.length
        resourceBytes := s.resourceBytes + (entries.map (·.size)).sum } := by
  induction entries generalizing s with
  | nil => rfl
  | cons entry entries ih =>
    rw [List.foldl_cons, ih]
    unfold addResource
    simp only [List.length_cons, List.map_cons, List.sum_cons, Nat.add_assoc, Nat.add_comm 1]

end PackageSummary

namespace Packages

variable {registry : Registry} {packages : Packages} {name : String}

/-- The entries of the given classes. -/
def classEntries (registry : Registry) (classes : List ClassId) : List ClassEntry :=
  classes.filterMap fun c : ClassId => registry.classes[c]?

/-- The entries of the given resources. -/
def resourceEntries (registry : Registry) (resources : List ResourceId) : List ResourceEntry :=
  resources.filterMap fun r : ResourceId => registry.resources[r]?

/-- The entries of the given classes that lie in a package. -/
def classesIn (registry : Registry) (classes : List ClassId) (name : String) : List ClassEntry :=
  (classes.filterMap fun c : ClassId => registry.classes[c]?).filter (·.package == name)

/-- The entries of the given resources that lie in a package. -/
def resourcesIn (registry : Registry) (resources : List ResourceId) (name : String) :
    List ResourceEntry :=
  (resources.filterMap fun r : ResourceId => registry.resources[r]?).filter (·.package == name)

theorem mem_classesIn {classes : List ClassId} {entry : ClassEntry} :
    entry ∈ classesIn registry classes name ↔
      ∃ c ∈ classes, registry.classes[c]? = some entry ∧ entry.package = name := by
  simp only [classesIn, List.mem_filter, List.mem_filterMap, beq_iff_eq]
  constructor
  · intro h
    obtain ⟨⟨c, hc, he⟩, hname⟩ := h
    exact ⟨c, hc, he, hname⟩
  · intro h
    obtain ⟨c, hc, he, hname⟩ := h
    exact ⟨⟨c, hc, he⟩, hname⟩

/-- Some entries are counted in a package: what the summary is after that, and none before. -/
def counted {α : Type} (count : PackageSummary → α → PackageSummary) (entries : List α)
    (packages : Packages) (name : String) : Option PackageSummary :=
  if entries = [] then packages[name]?
  else some (entries.foldl count (packages.getD name { name }))

theorem counted_cons {α : Type} (count : PackageSummary → α → PackageSummary) (entry : α)
    (entries : List α) (packages : Packages) (name : String) :
    counted count (entry :: entries) packages name =
      counted count entries (packages.update name (count · entry)) name := by
  have hget :
      (Std.TreeMap.insert packages name (count (packages.getD name { name }) entry))[name]? =
        some (count (packages.getD name { name }) entry) := by
    rw [treeMap_getElem?_insert, if_pos rfl]
  unfold counted update
  rw [if_neg (List.cons_ne_nil _ _), List.foldl_cons]
  split_ifs with hnil
  · rw [hnil, hget]
    rfl
  · rw [Std.TreeMap.getD_insert_self]

theorem getElem?_update_of_ne {other : String} (hne : other ≠ name)
    (change : PackageSummary → PackageSummary) :
    (packages.update other change)[name]? = packages[name]? := by
  unfold update
  rw [treeMap_getElem?_insert, if_neg hne]

theorem counted_congr {α : Type} {count : PackageSummary → α → PackageSummary} {entries : List α}
    {packages packages' : Packages} (h : packages'[name]? = packages[name]?) :
    counted count entries packages' name = counted count entries packages name := by
  unfold counted
  rw [Std.TreeMap.getD_eq_getD_getElem?, Std.TreeMap.getD_eq_getD_getElem?, h]

/-- Counts entries in their packages, one after the other. -/
def countAll {α : Type} (package : α → String) (count : PackageSummary → α → PackageSummary)
    (entries : List α) (packages : Packages) : Packages :=
  entries.foldl (fun packages entry => packages.update (package entry) (count · entry)) packages

theorem countAll_cons {α : Type} (package : α → String)
    (count : PackageSummary → α → PackageSummary) (entry : α) (entries : List α)
    (packages : Packages) :
    countAll package count (entry :: entries) packages =
      countAll package count entries (packages.update (package entry) (count · entry)) := rfl

theorem foldl_addClass_eq (classes : List ClassId) (packages : Packages) :
    classes.foldl (addClass registry) packages =
      countAll (·.package) (fun s e => s.addClass e) (classEntries registry classes) packages := by
  unfold countAll classEntries
  rw [List.foldl_filterMap]
  congr 1
  funext packages c
  unfold addClass
  cases registry.classes[c]? <;> rfl

theorem foldl_addResource_eq (resources : List ResourceId) (packages : Packages) :
    resources.foldl (addResource registry) packages =
      countAll (·.package) (fun s e => s.addResource e) (resourceEntries registry resources)
        packages := by
  unfold countAll resourceEntries
  rw [List.foldl_filterMap]
  congr 1
  funext packages r
  unfold addResource
  cases registry.resources[r]? <;> rfl

/-- Entries count in their own packages only. -/
theorem getElem?_countAll {α : Type} {package : α → String}
    {count : PackageSummary → α → PackageSummary} (entries : List α) (packages : Packages) :
    (countAll package count entries packages)[name]? =
      counted count (entries.filter (package · == name)) packages name := by
  induction entries generalizing packages with
  | nil => rfl
  | cons entry entries ih =>
    rw [countAll_cons, ih, List.filter_cons]
    by_cases hname : package entry = name
    · rw [if_pos (beq_iff_eq.2 hname), counted_cons, hname]
    · rw [if_neg (fun h => hname (beq_iff_eq.1 h))]
      exact counted_congr (getElem?_update_of_ne hname _)

/-- The given classes and resources of a package, counted. -/
def total (registry : Registry) (classes : List ClassId) (resources : List ResourceId)
    (name : String) : PackageSummary :=
  (resourcesIn registry resources name).foldl (fun s e => s.addResource e)
    ((classesIn registry classes name).foldl (fun s e => s.addClass e) { name })

/-- A package has a summary exactly if it has a class or a resource. -/
theorem getElem?_summarize (classes : List ClassId) (resources : List ResourceId)
    (exported : ExportedPackages) :
    (summarize registry classes resources exported)[name]? =
      if classesIn registry classes name = [] ∧ resourcesIn registry resources name = [] then none
      else
        let counts := total registry classes resources name
        some { counts with exported := counts.hasClasses && exported.admits name } := by
  have hempty : ({} : Packages)[name]? = none := by simp
  have hclasses : (classes.foldl (addClass registry) {})[name]? =
      counted (fun s e => s.addClass e) (classesIn registry classes name) {} name := by
    rw [foldl_addClass_eq, getElem?_countAll]
    rfl
  have hresources (packages : Packages) : (resources.foldl (addResource registry) packages)[name]? =
      counted (fun s e => s.addResource e) (resourcesIn registry resources name) packages name := by
    rw [foldl_addResource_eq, getElem?_countAll]
    rfl
  unfold summarize
  dsimp only
  rw [Std.TreeMap.getElem?_map, hresources]
  unfold counted at hclasses ⊢
  rw [Std.TreeMap.getD_eq_getD_getElem?, hclasses, Std.TreeMap.getD_eq_getD_getElem?, hempty]
  by_cases hc : classesIn registry classes name = []
  · by_cases hr : resourcesIn registry resources name = []
    · simp [hc, hr]
    · simp [hc, hr, total]
  · by_cases hr : resourcesIn registry resources name = []
    · simp [hc, hr, total]
    · simp [hc, hr, total]

/-- The counters of a package are those of its classes and its resources. -/
theorem total_eq (registry : Registry) (classes : List ClassId) (resources : List ResourceId)
    (name : String) :
    total registry classes resources name =
      .tally name (classesIn registry classes name) (resourcesIn registry resources name) := by
  rw [total, PackageSummary.foldl_addClass, PackageSummary.foldl_addResource]
  unfold PackageSummary.tally
  simp only [Nat.zero_add]

@[simp] theorem total_name (registry : Registry) (classes : List ClassId)
    (resources : List ResourceId) (name : String) :
    (total registry classes resources name).name = name := by
  rw [total_eq]
  rfl

@[simp] theorem total_classCount (registry : Registry) (classes : List ClassId)
    (resources : List ResourceId) (name : String) :
    (total registry classes resources name).classCount =
      (classesIn registry classes name).length := by
  rw [total_eq]
  rfl

/-! ## Sums over all packages -/

/-- The packages with classes are those of the given classes. -/
theorem exists_hasClasses_iff {classes : List ClassId} {resources : List ResourceId}
    {exported : ExportedPackages} :
    (∃ s ∈ (summarize registry classes resources exported).values,
        s.hasClasses = true ∧ s.name = name) ↔
      ∃ c ∈ classes, ∃ entry, registry.classes[c]? = some entry ∧ entry.package = name := by
  have hclasses : classesIn registry classes name ≠ [] ↔
      ∃ c ∈ classes, ∃ entry, registry.classes[c]? = some entry ∧ entry.package = name := by
    constructor
    · intro hne
      obtain ⟨entry, hentry⟩ := List.exists_mem_of_ne_nil _ hne
      obtain ⟨c, hc, he⟩ := mem_classesIn.1 hentry
      exact ⟨c, hc, entry, he⟩
    · intro h
      obtain ⟨c, hc, entry, he⟩ := h
      exact List.ne_nil_of_mem (mem_classesIn.2 ⟨c, hc, he⟩)
  rw [← hclasses]
  constructor
  · intro h hnil
    obtain ⟨s, hs, hhas, hname⟩ := h
    obtain ⟨key, hkey⟩ := mem_treeMap_values.1 hs
    rw [getElem?_summarize] at hkey
    split_ifs at hkey
    cases hkey
    dsimp only at hname
    rw [total_name] at hname
    subst hname
    simp [PackageSummary.hasClasses, hnil] at hhas
  · intro hne
    have hsome : (summarize registry classes resources exported)[name]? = _ :=
      getElem?_summarize classes resources exported
    rw [if_neg fun h => hne h.1] at hsome
    refine ⟨_, mem_treeMap_values.2 ⟨name, hsome⟩, ?_, total_name _ _ _ _⟩
    have hpos := List.length_pos_iff.2 hne
    simpa [PackageSummary.hasClasses] using hpos

/-- A package is exported if it has classes and is admitted. -/
theorem exported_eq {classes : List ClassId} {resources : List ResourceId}
    {exported : ExportedPackages} {s : PackageSummary}
    (h : s ∈ (summarize registry classes resources exported).values) :
    s.exported = (s.hasClasses && exported.admits s.name) := by
  obtain ⟨key, hkey⟩ := mem_treeMap_values.1 h
  rw [getElem?_summarize] at hkey
  split_ifs at hkey
  cases hkey
  simp [PackageSummary.hasClasses]

end Packages

end ModuleGraph
