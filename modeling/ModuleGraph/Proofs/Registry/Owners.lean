import Mathlib.Data.List.Nodup
import ModuleGraph.Registry.Basic

/-!
# Owners on record

Who owns a class or a resource stands in its entry. `Registry.Unowned` says that no entry has an
owner, as in every registry before a build.
-/

namespace ModuleGraph

namespace Registry

variable {registry : Registry}

theorem classOwner_eq_some_iff {c : ClassId} {owner : ModuleId} :
    registry.classOwner c = some owner ↔
      ∃ entry, registry.classes[c]? = some entry ∧ entry.owner = some owner := by
  simp [classOwner, Option.bind_eq_some_iff]

theorem resourceOwner_eq_some_iff {r : ResourceId} {owner : ModuleId} :
    registry.resourceOwner r = some owner ↔
      ∃ entry, registry.resources[r]? = some entry ∧ entry.owner = some owner := by
  simp [resourceOwner, Option.bind_eq_some_iff]

theorem classOwner_of_getElem? {c : ClassId} {entry : ClassEntry}
    (h : registry.classes[c]? = some entry) : registry.classOwner c = entry.owner := by
  simp [classOwner, h]

theorem resourceOwner_of_getElem? {r : ResourceId} {entry : ResourceEntry}
    (h : registry.resources[r]? = some entry) : registry.resourceOwner r = entry.owner := by
  simp [resourceOwner, h]

/-- Neither a class nor a resource has an owner. -/
structure Unowned (registry : Registry) : Prop where
  classOwner : ∀ c, registry.classOwner c = none
  resourceOwner : ∀ r, registry.resourceOwner r = none

/-! ## Entries that pass a test -/

theorem mem_classesWhere {test : ClassEntry → Bool} {c : ClassId} :
    c ∈ registry.classesWhere test ↔
      ∃ entry, registry.classes[c]? = some entry ∧ test entry = true := by
  simp only [classesWhere, List.mem_filter, List.mem_range, Option.any_eq_true]
  constructor
  · exact fun h => h.2
  · intro hex
    obtain ⟨entry, he, ht⟩ := hex
    exact ⟨(Array.getElem?_eq_some_iff.1 he).1, entry, he, ht⟩

theorem mem_resourcesWhere {test : ResourceEntry → Bool} {r : ResourceId} :
    r ∈ registry.resourcesWhere test ↔
      ∃ entry, registry.resources[r]? = some entry ∧ test entry = true := by
  simp only [resourcesWhere, List.mem_filter, List.mem_range, Option.any_eq_true]
  constructor
  · exact fun h => h.2
  · intro hex
    obtain ⟨entry, he, ht⟩ := hex
    exact ⟨(Array.getElem?_eq_some_iff.1 he).1, entry, he, ht⟩

theorem nodup_classesWhere (test : ClassEntry → Bool) : (registry.classesWhere test).Nodup :=
  List.nodup_range.filter _

theorem nodup_resourcesWhere (test : ResourceEntry → Bool) :
    (registry.resourcesWhere test).Nodup :=
  List.nodup_range.filter _

end Registry

end ModuleGraph
