import Mathlib.Data.Set.Insert
import ModuleGraph.Proofs.Ownership.Closure

/-!
# What a module takes

`Partition.Takes p module C R U q` describes a step from `p` to `q` completely: the module has
become the owner of the classes in `C` and the resources in `R` and has noted the references in `U`,
and nothing else is different. Such steps compose (`Takes.trans`), and each claim and each note is
one.

No assumption is made about owners on record and holdings of modules before.
-/

namespace ModuleGraph

theorem mem_treeSet_insert {κ : Type} {cmp : κ → κ → Ordering} [Std.TransCmp cmp]
    [Std.LawfulEqCmp cmp] (s : Std.TreeSet κ cmp) (a b : κ) :
    b ∈ s.insert a ↔ b ∈ s ∨ b ∈ ({a} : Set κ) := by
  rw [Std.TreeSet.mem_insert, Std.LawfulEqCmp.compare_eq_iff_eq, or_comm, eq_comm]
  rfl

/-- The second module is the first one with more to hold. -/
structure Module.Gains (m : Module) (C : Set ClassId) (R : Set ResourceId) (U : Set Reference)
    (m' : Module) : Prop where
  outline_eq : m'.outline = m.outline
  mem_classes : ∀ c, c ∈ m'.classes ↔ c ∈ m.classes ∨ c ∈ C
  mem_resources : ∀ r, r ∈ m'.resources ↔ r ∈ m.resources ∨ r ∈ R
  mem_unresolved : ∀ u, u ∈ m'.unresolved ↔ u ∈ m.unresolved ∨ u ∈ U

namespace Partition

variable {p q r : Partition} {module : ModuleId} {C C' : Set ClassId} {R R' : Set ResourceId}
  {U U' : Set Reference} {c : ClassId}

/-- The module has taken the classes in `C` and the resources in `R`, and has noted the references
in `U`. All else is as before. -/
structure Takes (p : Partition) (module : ModuleId) (C : Set ClassId) (R : Set ResourceId)
    (U : Set Reference) (q : Partition) : Prop where
  classIndex : q.registry.classIndex = p.registry.classIndex
  resourceIndex : q.registry.resourceIndex = p.registry.resourceIndex
  class_of_mem : ∀ c ∈ C, q.registry.classes[c]? =
    (p.registry.classes[c]?).map fun entry => { entry with owner := some module }
  class_of_not_mem : ∀ c ∉ C, q.registry.classes[c]? = p.registry.classes[c]?
  resource_of_mem : ∀ s ∈ R, q.registry.resources[s]? =
    (p.registry.resources[s]?).map fun entry => { entry with owner := some module }
  resource_of_not_mem : ∀ s ∉ R, q.registry.resources[s]? = p.registry.resources[s]?
  index : q.table.index = p.table.index
  others : ∀ id ≠ module, q.table.get? id = p.table.get? id
  gains : ∀ m, p.table.get? module = some m → ∃ m', q.table.get? module = some m' ∧ m.Gains C R U m'

namespace Takes

/-- Nothing is taken. -/
theorem refl (p : Partition) (module : ModuleId) : p.Takes module ∅ ∅ ∅ p := by
  refine ⟨rfl, rfl, by simp, fun _ _ => rfl, by simp, fun _ _ => rfl, rfl, fun _ _ => rfl, ?_⟩
  intro m hm
  exact ⟨m, hm, rfl, by simp, by simp, by simp⟩

theorem trans (h₁ : p.Takes module C R U q) (h₂ : q.Takes module C' R' U' r) :
    p.Takes module (C ∪ C') (R ∪ R') (U ∪ U') r where
  classIndex := h₂.classIndex.trans h₁.classIndex
  resourceIndex := h₂.resourceIndex.trans h₁.resourceIndex
  class_of_mem c hc := by
    -- whether it is taken once or twice, the module is the owner in the end
    by_cases hc' : c ∈ C'
    · rw [h₂.class_of_mem c hc']
      by_cases hC : c ∈ C
      · rw [h₁.class_of_mem c hC, Option.map_map]
        rfl
      · rw [h₁.class_of_not_mem c hC]
    · rw [h₂.class_of_not_mem c hc']
      exact h₁.class_of_mem c (hc.resolve_right hc')
  class_of_not_mem c hc := by
    rw [Set.mem_union, not_or] at hc
    rw [h₂.class_of_not_mem c hc.2, h₁.class_of_not_mem c hc.1]
  resource_of_mem s hs := by
    by_cases hs' : s ∈ R'
    · rw [h₂.resource_of_mem s hs']
      by_cases hR : s ∈ R
      · rw [h₁.resource_of_mem s hR, Option.map_map]
        rfl
      · rw [h₁.resource_of_not_mem s hR]
    · rw [h₂.resource_of_not_mem s hs']
      exact h₁.resource_of_mem s (hs.resolve_right hs')
  resource_of_not_mem s hs := by
    rw [Set.mem_union, not_or] at hs
    rw [h₂.resource_of_not_mem s hs.2, h₁.resource_of_not_mem s hs.1]
  index := h₂.index.trans h₁.index
  others id hid := (h₂.others id hid).trans (h₁.others id hid)
  gains m hm := by
    obtain ⟨m₁, hm₁, hgains₁⟩ := h₁.gains m hm
    obtain ⟨m₂, hm₂, hgains₂⟩ := h₂.gains m₁ hm₁
    refine ⟨m₂, hm₂, hgains₂.outline_eq.trans hgains₁.outline_eq, fun c => ?_, fun s => ?_,
      fun u => ?_⟩
    · rw [hgains₂.mem_classes, hgains₁.mem_classes, or_assoc]
      rfl
    · rw [hgains₂.mem_resources, hgains₁.mem_resources, or_assoc]
      rfl
    · rw [hgains₂.mem_unresolved, hgains₁.mem_unresolved, or_assoc]
      rfl

theorem congr (h : p.Takes module C R U q) (hC : ∀ c, c ∈ C ↔ c ∈ C') (hR : ∀ s, s ∈ R ↔ s ∈ R')
    (hU : ∀ u, u ∈ U ↔ u ∈ U') : p.Takes module C' R' U' q := by
  rw [← Set.ext hC, ← Set.ext hR, ← Set.ext hU]
  exact h

/-! ## What stays -/

theorem classOwner_of_not_mem (h : p.Takes module C R U q) (hc : c ∉ C) :
    q.registry.classOwner c = p.registry.classOwner c := by
  unfold Registry.classOwner
  rw [h.class_of_not_mem c hc]

theorem classOwner_of_mem (h : p.Takes module C R U q) (hc : c ∈ C) {entry : ClassEntry}
    (he : p.registry.classes[c]? = some entry) : q.registry.classOwner c = some module := by
  unfold Registry.classOwner
  rw [h.class_of_mem c hc, he]
  rfl

theorem resourceOwner_of_not_mem (h : p.Takes module C R U q) {s : ResourceId} (hs : s ∉ R) :
    q.registry.resourceOwner s = p.registry.resourceOwner s := by
  unfold Registry.resourceOwner
  rw [h.resource_of_not_mem s hs]

theorem referencesOf_eq (h : p.Takes module C R U q) (c : ClassId) :
    q.registry.referencesOf c = p.registry.referencesOf c := by
  unfold Registry.referencesOf
  by_cases hc : c ∈ C
  · rw [h.class_of_mem c hc]
    cases p.registry.classes[c]? <;> rfl
  · rw [h.class_of_not_mem c hc]

theorem findClass_eq (h : p.Takes module C R U q) (name : String) :
    q.registry.findClass name = p.registry.findClass name := by
  unfold Registry.findClass
  rw [h.classIndex]

theorem sameBut (h : p.Takes module C R U q) (hm : module < p.table.size) :
    p.table.SameBut Module.outline q.table where
  find name := by
    unfold ModuleTable.find
    rw [h.index]
  get? id := by
    by_cases hid : id = module
    · subst hid
      obtain ⟨m, hm⟩ := ModuleTable.exists_get? hm
      obtain ⟨m', hm', hgains⟩ := h.gains m hm
      rw [hm, hm', Option.map_some, Option.map_some, hgains.outline_eq]
    · rw [h.others id hid]

end Takes

/-! ## Claims and notes -/

theorem takes_claimClass (hnone : p.registry.classOwner c = none) :
    Ends (p.claimClass module c) (fun q => p.Takes module {c} ∅ ∅ q) (fun _ => False) := by
  unfold claimClass
  simp only [hnone, Ends.ok_iff]
  refine ⟨rfl, rfl, ?class_of_mem, ?class_of_not_mem, by simp, fun _ _ => rfl, rfl,
    fun id hid => ModuleTable.get?_modify_of_ne _ (Ne.symm hid), ?gains⟩
  case class_of_mem =>
    intro d hd
    rw [Set.mem_singleton_iff] at hd
    subst hd
    simp [Registry.setClassOwner, Array.getElem?_modify]
  case class_of_not_mem =>
    intro d hd
    have hne : c ≠ d := fun heq => hd heq.symm
    simp [Registry.setClassOwner, Array.getElem?_modify, hne]
  case gains =>
    intro m hm
    refine ⟨{ m with classes := m.classes.insert c }, by simp [hm], rfl,
      fun d => mem_treeSet_insert _ c d, by simp, by simp⟩

theorem takes_claimResource {s : ResourceId} (hnone : p.registry.resourceOwner s = none) :
    Ends (p.claimResource module s) (fun q => p.Takes module ∅ {s} ∅ q) (fun _ => False) := by
  unfold claimResource
  simp only [hnone, Ends.ok_iff]
  refine ⟨rfl, rfl, by simp, fun _ _ => rfl, ?resource_of_mem, ?resource_of_not_mem, rfl,
    fun id hid => ModuleTable.get?_modify_of_ne _ (Ne.symm hid), ?gains⟩
  case resource_of_mem =>
    intro d hd
    rw [Set.mem_singleton_iff] at hd
    subst hd
    simp [Registry.setResourceOwner, Array.getElem?_modify]
  case resource_of_not_mem =>
    intro d hd
    have hne : s ≠ d := fun heq => hd heq.symm
    simp [Registry.setResourceOwner, Array.getElem?_modify, hne]
  case gains =>
    intro m hm
    refine ⟨{ m with resources := m.resources.insert s }, by simp [hm], rfl, by simp,
      fun d => mem_treeSet_insert _ s d, by simp⟩

theorem takes_leaveUnresolved (p : Partition) (module : ModuleId) (u : Reference) :
    p.Takes module ∅ ∅ {u} (p.leaveUnresolved module u) := by
  refine ⟨rfl, rfl, by simp, fun _ _ => rfl, by simp, fun _ _ => rfl, rfl,
    fun id hid => ModuleTable.get?_modify_of_ne _ (Ne.symm hid), ?_⟩
  intro m hm
  refine ⟨{ m with unresolved := m.unresolved.insert u }, by simp [leaveUnresolved, hm], rfl,
    by simp, by simp, fun v => mem_treeSet_insert _ u v⟩

/-- Classes without owners are taken, all of them. -/
theorem takes_claimClasses : ∀ {ids : List ClassId} {p : Partition}, ids.Nodup →
    (∀ c ∈ ids, p.registry.classOwner c = none) →
    Ends (p.claimClasses module ids) (fun q => p.Takes module {c | c ∈ ids} ∅ ∅ q) (fun _ => False)
  | [], p, _, _ => (Takes.refl p module).congr (by simp) (by simp) (by simp)
  | c :: ids, p, hnodup, hnone => by
    obtain ⟨hc, hnodup⟩ := List.nodup_cons.1 hnodup
    rw [claimClasses, List.foldlM_cons]
    refine (takes_claimClass (hnone c (List.mem_cons_self ..))).bind fun q hq => ?_
    have hnone' : ∀ d ∈ ids, q.registry.classOwner d = none := by
      intro d hd
      rw [hq.classOwner_of_not_mem fun heq => hc (heq ▸ hd)]
      exact hnone d (List.mem_cons_of_mem _ hd)
    refine (takes_claimClasses hnodup hnone').weaken fun r hr => ?_
    exact (hq.trans hr).congr (by simp) (by simp) (by simp)

theorem takes_claimResources : ∀ {ids : List ResourceId} {p : Partition}, ids.Nodup →
    (∀ s ∈ ids, p.registry.resourceOwner s = none) →
    Ends (p.claimResources module ids) (fun q => p.Takes module ∅ {s | s ∈ ids} ∅ q)
      (fun _ => False)
  | [], p, _, _ => (Takes.refl p module).congr (by simp) (by simp) (by simp)
  | s :: ids, p, hnodup, hnone => by
    obtain ⟨hs, hnodup⟩ := List.nodup_cons.1 hnodup
    rw [claimResources, List.foldlM_cons]
    refine (takes_claimResource (hnone s (List.mem_cons_self ..))).bind fun q hq => ?_
    have hnone' : ∀ t ∈ ids, q.registry.resourceOwner t = none := by
      intro t ht
      have hne : t ∉ ({s} : Set ResourceId) := fun heq => hs (heq ▸ ht)
      rw [hq.resourceOwner_of_not_mem hne]
      exact hnone t (List.mem_cons_of_mem _ ht)
    refine (takes_claimResources hnodup hnone').weaken fun r hr => ?_
    exact (hq.trans hr).congr (by simp) (by simp) (by simp)

end Partition

end ModuleGraph
