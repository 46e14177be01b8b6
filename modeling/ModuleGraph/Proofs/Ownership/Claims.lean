import ModuleGraph.Partition.Claim
import ModuleGraph.Proofs.Registry.Owners
import ModuleGraph.Proofs.Table

/-!
# Claims

Two facts are carried through every pass that claims something.

* `Partition.Consistent`: a module holds a class or a resource exactly if it is the owner on record
  (`ModuleTable.Agrees`), and every owned class is defined.
* `Partition.Grows p q`: `q` differs from `p` in owners and holdings only, and every owner of `p` is
  still the owner in `q`.

A claim of an unowned item succeeds and keeps both (`ends_claimClass`, `ends_claimResource`), and so
does a whole list of claims (`ends_claimClasses`, `ends_claimResources`).
-/

namespace ModuleGraph

/-- The entry without its owner. -/
def ClassEntry.unowned (entry : ClassEntry) : ClassEntry := { entry with owner := none }

/-- The entry without its owner. -/
def ResourceEntry.unowned (entry : ResourceEntry) : ResourceEntry := { entry with owner := none }

namespace Registry

variable {registry : Registry}

/-! ## The registry -/

theorem classOwner_setClassOwner {c : ClassId} {entry : ClassEntry}
    (h : registry.classes[c]? = some entry) (module : ModuleId) (d : ClassId) :
    (registry.setClassOwner c module).classOwner d =
      if d = c then some module else registry.classOwner d := by
  simp only [classOwner, setClassOwner, Array.getElem?_modify]
  by_cases hd : d = c
  · subst hd; simp [h]
  · simp [hd, Ne.symm hd]

theorem resourceOwner_setResourceOwner {r : ResourceId} {entry : ResourceEntry}
    (h : registry.resources[r]? = some entry) (module : ModuleId) (s : ResourceId) :
    (registry.setResourceOwner r module).resourceOwner s =
      if s = r then some module else registry.resourceOwner s := by
  simp only [resourceOwner, setResourceOwner, Array.getElem?_modify]
  by_cases hs : s = r
  · subst hs; simp [h]
  · simp [hs, Ne.symm hs]

theorem map_unowned_setClassOwner (c d : ClassId) (module : ModuleId) :
    ((registry.setClassOwner c module).classes[d]?).map ClassEntry.unowned =
      (registry.classes[d]?).map ClassEntry.unowned := by
  simp only [setClassOwner, Array.getElem?_modify]
  split_ifs
  · rw [Option.map_map]; rfl
  · rfl

theorem map_unowned_setResourceOwner (r s : ResourceId) (module : ModuleId) :
    ((registry.setResourceOwner r module).resources[s]?).map ResourceEntry.unowned =
      (registry.resources[s]?).map ResourceEntry.unowned := by
  simp only [setResourceOwner, Array.getElem?_modify]
  split_ifs
  · rw [Option.map_map]; rfl
  · rfl

end Registry

namespace Partition

variable {p q r : Partition} {module : ModuleId}

/-! ## What claims never touch -/

/-- `q` differs from `p` in owners and holdings only, and no owner has changed. -/
structure Grows (p q : Partition) : Prop where
  table : p.table.SameBut Module.outline q.table
  classIndex : q.registry.classIndex = p.registry.classIndex
  classes : ∀ c : ClassId, (q.registry.classes[c]?).map ClassEntry.unowned =
    (p.registry.classes[c]?).map ClassEntry.unowned
  resources : ∀ r : ResourceId, (q.registry.resources[r]?).map ResourceEntry.unowned =
    (p.registry.resources[r]?).map ResourceEntry.unowned
  classOwner : ∀ c owner, p.registry.classOwner c = some owner →
    q.registry.classOwner c = some owner
  resourceOwner : ∀ r owner, p.registry.resourceOwner r = some owner →
    q.registry.resourceOwner r = some owner

theorem Grows.refl (p : Partition) : p.Grows p :=
  ⟨.refl _ _, rfl, fun _ => rfl, fun _ => rfl, fun _ _ h => h, fun _ _ h => h⟩

theorem Grows.trans (h₁ : p.Grows q) (h₂ : q.Grows r) : p.Grows r where
  table := h₁.table.trans h₂.table
  classIndex := h₂.classIndex.trans h₁.classIndex
  classes c := (h₂.classes c).trans (h₁.classes c)
  resources r := (h₂.resources r).trans (h₁.resources r)
  classOwner c owner h := h₂.classOwner c owner (h₁.classOwner c owner h)
  resourceOwner r owner h := h₂.resourceOwner r owner (h₁.resourceOwner r owner h)

theorem Grows.size_table (h : p.Grows q) : q.table.size = p.table.size :=
  h.table.size

theorem Grows.indexed (h : p.Grows q) (hp : p.table.Indexed) : q.table.Indexed :=
  (h.table.less (·.spec)).indexed hp

/-- The entry that a class had before has at most another owner. -/
theorem Grows.exists_class (h : p.Grows q) {c : ClassId} {entry : ClassEntry}
    (he : p.registry.classes[c]? = some entry) :
    ∃ entry', q.registry.classes[c]? = some entry' ∧ entry'.unowned = entry.unowned := by
  have hc := h.classes c
  rw [he, Option.map_some, Option.map_eq_some_iff] at hc
  exact hc

theorem Grows.exists_resource (h : p.Grows q) {r : ResourceId} {entry : ResourceEntry}
    (he : p.registry.resources[r]? = some entry) :
    ∃ entry', q.registry.resources[r]? = some entry' ∧ entry'.unowned = entry.unowned := by
  have hr := h.resources r
  rw [he, Option.map_some, Option.map_eq_some_iff] at hr
  exact hr

theorem Grows.exists_class_before (h : p.Grows q) {c : ClassId} {entry : ClassEntry}
    (he : q.registry.classes[c]? = some entry) :
    ∃ before, p.registry.classes[c]? = some before ∧ before.unowned = entry.unowned := by
  have hc := (h.classes c).symm
  rw [he, Option.map_some, Option.map_eq_some_iff] at hc
  exact hc

theorem Grows.exists_resource_before (h : p.Grows q) {r : ResourceId} {entry : ResourceEntry}
    (he : q.registry.resources[r]? = some entry) :
    ∃ before, p.registry.resources[r]? = some before ∧ before.unowned = entry.unowned := by
  have hr := (h.resources r).symm
  rw [he, Option.map_some, Option.map_eq_some_iff] at hr
  exact hr

end Partition

/-! ## Holdings and owners -/

namespace ModuleTable

variable {t : ModuleTable} {held : Module → Std.TreeSet Nat} {owner owner' : Nat → Option ModuleId}
  {module : ModuleId} {change : Module → Module} {i : Nat}

/-- A module holds exactly what it is the owner of on record. -/
structure Agrees (t : ModuleTable) (held : Module → Std.TreeSet Nat)
    (owner : Nat → Option ModuleId) : Prop where
  mem : ∀ {id m}, t.get? id = some m → ∀ i, i ∈ held m ↔ owner i = some id
  owner_lt : ∀ {i x}, owner i = some x → x < t.size

/-- Where nothing is held and nothing is owned, both sides agree. -/
theorem Agrees.of_empty (hheld : ∀ id m, t.get? id = some m → held m = {})
    (hnone : ∀ i, owner i = none) : t.Agrees held owner where
  mem {id m} hm i := by
    rw [hheld id m hm, hnone]
    simp
  owner_lt {i x} hx := by
    rw [hnone] at hx
    cases hx

/-- Only holdings matter. -/
theorem Agrees.modify (h : t.Agrees held owner) (hheld : ∀ m, held (change m) = held m) :
    (t.modify module change).Agrees held owner where
  mem {id m} hid i := by
    rw [get?_modify] at hid
    split_ifs at hid
    · obtain ⟨m₀, hm₀, rfl⟩ := Option.map_eq_some_iff.1 hid
      rw [hheld]
      exact h.mem hm₀ i
    · exact h.mem hid i
  owner_lt {i x} hx := by
    rw [size_modify]
    exact h.owner_lt hx

/-- An item without an owner goes to a module, on both sides. -/
theorem Agrees.claim (h : t.Agrees held owner) (hm : module < t.size) (hnone : owner i = none)
    (hheld : ∀ m, held (change m) = (held m).insert i)
    (howner : ∀ j, owner' j = if j = i then some module else owner j) :
    (t.modify module change).Agrees held owner' where
  mem {id m} hid j := by
    rw [get?_modify] at hid
    rw [howner]
    split_ifs at hid with hmodule
    · obtain ⟨m₀, hm₀, rfl⟩ := Option.map_eq_some_iff.1 hid
      subst hmodule
      rw [hheld]
      simp only [Std.TreeSet.mem_insert, Std.LawfulEqCmp.compare_eq_iff_eq, h.mem hm₀ j]
      by_cases hj : j = i
      · simp [hj]
      · simp [hj, Ne.symm hj]
    · rw [h.mem hid j]
      by_cases hj : j = i
      · subst hj
        simp [hnone, hmodule]
      · simp [hj]
  owner_lt {j x} hx := by
    rw [howner] at hx
    rw [size_modify]
    split_ifs at hx
    · cases hx
      exact hm
    · exact h.owner_lt hx

end ModuleTable

namespace Partition

variable {p q : Partition} {module : ModuleId}

/-- Modules hold exactly what they own, and what is owned is defined. -/
structure Consistent (p : Partition) : Prop where
  classes : p.table.Agrees Module.classes p.registry.classOwner
  resources : p.table.Agrees Module.resources p.registry.resourceOwner
  defined : ∀ (c : ClassId) entry, p.registry.classes[c]? = some entry → entry.owner.isSome →
    entry.isDefined

/-! ## Claims -/

/-- The class is defined and has no owner. -/
def Free (p : Partition) (c : ClassId) : Prop :=
  ∃ entry, p.registry.classes[c]? = some entry ∧ entry.owner = none ∧ entry.isDefined = true

/-- The resource has no owner. -/
def FreeResource (p : Partition) (r : ResourceId) : Prop :=
  ∃ entry, p.registry.resources[r]? = some entry ∧ entry.owner = none

/-- An owner on record stays if the item claimed had none. -/
theorem owner_of_claim {owner owner' : Nat → Option ModuleId} {i j : Nat} {x : ModuleId}
    (hnone : owner i = none) (howner : ∀ j, owner' j = if j = i then some module else owner j)
    (hx : owner j = some x) : owner' j = some x := by
  have hne : j ≠ i := by
    intro heq
    rw [heq, hnone] at hx
    cases hx
  rw [howner, if_neg hne, hx]

theorem ends_claimClass (hp : p.Consistent) (hm : module < p.table.size) {c : ClassId}
    (hc : p.Free c) :
    Ends (p.claimClass module c)
      (fun q => p.Grows q ∧ q.Consistent ∧
        (∀ d, q.registry.classOwner d =
          if d = c then some module else p.registry.classOwner d) ∧
        q.registry.resources = p.registry.resources)
      (fun _ => False) := by
  obtain ⟨entry, he, hnone, hdef⟩ := hc
  have howner : p.registry.classOwner c = none :=
    (Registry.classOwner_of_getElem? he).trans hnone
  have hset (d : ClassId) := Registry.classOwner_setClassOwner he module d
  simp only [claimClass, howner, Ends.ok_iff]
  refine ⟨?grows, ?consistent, hset, rfl⟩
  case grows =>
    exact { Grows.refl p with
      table := .modify _ _ fun _ => by rfl
      classes := fun d => Registry.map_unowned_setClassOwner c d module
      classOwner := fun d x hx => owner_of_claim howner hset hx }
  case consistent =>
    refine ⟨hp.classes.claim hm howner (fun _ => rfl) hset, hp.resources.modify fun _ => rfl, ?_⟩
    intro d e hd hsome
    simp only [Registry.setClassOwner, Array.getElem?_modify] at hd
    split_ifs at hd with h
    · subst h
      rw [he] at hd
      cases hd
      exact hdef
    · exact hp.defined d e hd hsome

theorem ends_claimResource (hp : p.Consistent) (hm : module < p.table.size) {r : ResourceId}
    (hr : p.FreeResource r) :
    Ends (p.claimResource module r)
      (fun q => p.Grows q ∧ q.Consistent ∧
        (∀ s, q.registry.resourceOwner s =
          if s = r then some module else p.registry.resourceOwner s) ∧
        q.registry.classes = p.registry.classes)
      (fun _ => False) := by
  obtain ⟨entry, he, hnone⟩ := hr
  have howner : p.registry.resourceOwner r = none :=
    (Registry.resourceOwner_of_getElem? he).trans hnone
  have hset (s : ResourceId) := Registry.resourceOwner_setResourceOwner he module s
  simp only [claimResource, howner, Ends.ok_iff]
  refine ⟨?grows, ?consistent, hset, rfl⟩
  case grows =>
    exact { Grows.refl p with
      table := .modify _ _ fun _ => by rfl
      resources := fun s => Registry.map_unowned_setResourceOwner r s module
      resourceOwner := fun s x hx => owner_of_claim howner hset hx }
  case consistent =>
    exact ⟨hp.classes.modify fun _ => rfl, hp.resources.claim hm howner (fun _ => rfl) hset,
      hp.defined⟩

/-- Claims of unowned classes succeed; these classes have the module as owner then, and all other
owners are as before. -/
theorem ends_claimClasses : ∀ {ids : List ClassId} {p : Partition}, p.Consistent →
    module < p.table.size → ids.Nodup → (∀ c ∈ ids, p.Free c) →
    Ends (p.claimClasses module ids)
      (fun q => p.Grows q ∧ q.Consistent ∧
        (∀ d, q.registry.classOwner d =
          if d ∈ ids then some module else p.registry.classOwner d) ∧
        q.registry.resources = p.registry.resources)
      (fun _ => False)
  | [], p, hp, _, _, _ => ⟨.refl p, hp, by simp, rfl⟩
  | c :: ids, p, hp, hm, hnodup, hfree => by
    obtain ⟨hc, hnodup⟩ := List.nodup_cons.1 hnodup
    rw [claimClasses, List.foldlM_cons]
    refine (ends_claimClass hp hm (hfree c (by simp))).bind fun q ⟨hpq, hq, howner, hres⟩ => ?_
    have hfree' : ∀ d ∈ ids, q.Free d := fun d hd => by
      have hne : d ≠ c := by
        intro heq
        exact hc (heq ▸ hd)
      obtain ⟨entry, he, hnone, hdef⟩ := hfree d (by simp [hd])
      obtain ⟨entry', he', hsame⟩ := hpq.exists_class he
      refine ⟨entry', he', ?_, ?_⟩
      · rw [← Registry.classOwner_of_getElem? he', howner,
          if_neg hne, Registry.classOwner_of_getElem? he, hnone]
      · exact (congrArg ClassEntry.isDefined hsame).trans hdef
    refine (ends_claimClasses hq (hpq.size_table ▸ hm) hnodup hfree').weaken
      fun r ⟨hqr, hr, howner', hres'⟩ => ⟨hpq.trans hqr, hr, fun d => ?_, hres'.trans hres⟩
    rw [howner', howner]
    by_cases hd : d = c
    · simp [hd, hc]
    · simp [hd]

theorem ends_claimResources : ∀ {ids : List ResourceId} {p : Partition}, p.Consistent →
    module < p.table.size → ids.Nodup → (∀ r ∈ ids, p.FreeResource r) →
    Ends (p.claimResources module ids)
      (fun q => p.Grows q ∧ q.Consistent ∧
        (∀ s, q.registry.resourceOwner s =
          if s ∈ ids then some module else p.registry.resourceOwner s) ∧
        q.registry.classes = p.registry.classes)
      (fun _ => False)
  | [], p, hp, _, _, _ => ⟨.refl p, hp, by simp, rfl⟩
  | r :: ids, p, hp, hm, hnodup, hfree => by
    obtain ⟨hr, hnodup⟩ := List.nodup_cons.1 hnodup
    rw [claimResources, List.foldlM_cons]
    refine (ends_claimResource hp hm (hfree r (by simp))).bind fun q ⟨hpq, hq, howner, hcls⟩ => ?_
    have hfree' : ∀ s ∈ ids, q.FreeResource s := fun s hs => by
      have hne : s ≠ r := by
        intro heq
        exact hr (heq ▸ hs)
      obtain ⟨entry, he, hnone⟩ := hfree s (by simp [hs])
      obtain ⟨entry', he', -⟩ := hpq.exists_resource he
      refine ⟨entry', he', ?_⟩
      rw [← Registry.resourceOwner_of_getElem? he', howner,
        if_neg hne, Registry.resourceOwner_of_getElem? he, hnone]
    refine (ends_claimResources hq (hpq.size_table ▸ hm) hnodup hfree').weaken
      fun q' ⟨hqr, hq', howner', hcls'⟩ => ⟨hpq.trans hqr, hq', fun s => ?_, hcls'.trans hcls⟩
    rw [howner', howner]
    by_cases hs : s = r
    · simp [hs, hr]
    · simp [hs]

/-- A note of an unresolved reference changes no owner. -/
theorem grows_leaveUnresolved (p : Partition) (module : ModuleId) (reference : Reference) :
    p.Grows (p.leaveUnresolved module reference) :=
  { Grows.refl p with
    table := .modify _ _ fun _ => by rfl }

theorem Consistent.leaveUnresolved (hp : p.Consistent) (module : ModuleId)
    (reference : Reference) : (p.leaveUnresolved module reference).Consistent :=
  ⟨hp.classes.modify fun _ => rfl, hp.resources.modify fun _ => rfl, hp.defined⟩

end Partition

end ModuleGraph
