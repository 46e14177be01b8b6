import Mathlib.Logic.Equiv.Prod
import ModuleGraph.Proofs.Ownership.Takes
import ModuleGraph.Proofs.Registry.Knowledge
import ModuleGraph.Proofs.Alike

/-!
# Partitions up to the numbers of classes

The number of a class says when it was first named, and nothing else. `Partition.Renamed σ p q` says
that `q` is `p` with every class `c` numbered `σ c`: entries are the same up to the numbers that
they refer to, and modules are the same up to the numbers that they hold. Resources keep their
numbers.

What the engine reads of modules apart from what they hold, it reads alike from both tables
(`ModuleTable.Renamed.groupModules_congr`, `ModuleTable.Renamed.topLevel_eq`).
-/

namespace ModuleGraph

variable {σ : Equiv.Perm ClassId}

/-- Sets with the same members up to a renaming are so as lists, in any order. -/
theorem perm_toList_treeSet {α : Type} {cmp : α → α → Ordering} [Std.TransCmp cmp]
    [Std.LawfulEqCmp cmp] (σ : Equiv.Perm α) {s t : Std.TreeSet α cmp}
    (h : ∀ a, a ∈ s ↔ σ a ∈ t) : (s.toList.map σ).Perm t.toList := by
  refine (List.perm_ext_iff_of_nodup ((treeSet_nodup_toList s).map σ.injective)
    (treeSet_nodup_toList t)).2 fun a => ?_
  rw [List.mem_map, Std.TreeSet.mem_toList]
  constructor
  · rintro ⟨b, hb, rfl⟩
    exact (h b).1 (Std.TreeSet.mem_toList.1 hb)
  · intro ha
    refine ⟨σ.symm a, Std.TreeSet.mem_toList.2 ((h _).2 ?_), σ.apply_symm_apply a⟩
    rwa [σ.apply_symm_apply]

/-! ## Entries and registries -/

/-- The same class, with other classes renumbered. -/
structure ClassEntry.Renamed (σ : Equiv.Perm ClassId) (e f : ClassEntry) : Prop where
  bare_eq : f.bare = e.bare
  mem_references : ∀ d, d ∈ e.references ↔ σ d ∈ f.references

namespace ClassEntry.Renamed

variable {e f : ClassEntry}

theorem name_eq (h : e.Renamed σ f) : f.name = e.name := congrArg (·.name) h.bare_eq

theorem package_eq (h : e.Renamed σ f) : f.package = e.package :=
  congrArg (·.package) h.bare_eq

theorem isDefined_eq (h : e.Renamed σ f) : f.isDefined = e.isDefined :=
  congrArg (·.isDefined) h.bare_eq

theorem owner_eq (h : e.Renamed σ f) : f.owner = e.owner := congrArg (·.owner) h.bare_eq

theorem symm (h : e.Renamed σ f) : f.Renamed σ.symm e where
  bare_eq := h.bare_eq.symm
  mem_references d := by rw [h.mem_references, Equiv.apply_symm_apply]

theorem withOwner (h : e.Renamed σ f) (owner : Option ModuleId) :
    ClassEntry.Renamed σ { e with owner } { f with owner } where
  bare_eq := congrArg (fun e : ClassEntry => { e with owner }) h.bare_eq
  mem_references := h.mem_references

end ClassEntry.Renamed

/-- The same registry, with the classes renumbered. -/
structure Registry.Renamed (σ : Equiv.Perm ClassId) (r s : Registry) : Prop where
  classes : ∀ c : ClassId, Option.Rel (ClassEntry.Renamed σ) r.classes[c]? s.classes[σ c]?
  findClass : ∀ name, s.findClass name = (r.findClass name).map σ
  resources : ∀ i : ResourceId, s.resources[i]? = r.resources[i]?

namespace Registry.Renamed

variable {r s : Registry} {c d : ClassId}

theorem symm (h : r.Renamed σ s) : s.Renamed σ.symm r where
  classes c := by
    have hc := rel_flip (h.classes (σ.symm c)) fun _ _ hef => hef.symm
    rwa [Equiv.apply_symm_apply] at hc
  findClass name := by
    rw [h.findClass, Option.map_map, σ.symm_comp_self, Option.map_id, id]
  resources i := (h.resources i).symm

theorem exists_class_iff (h : r.Renamed σ s) {P Q : ClassEntry → Prop}
    (hPQ : ∀ e f, e.Renamed σ f → (P e ↔ Q f)) :
    (∃ e, r.classes[c]? = some e ∧ P e) ↔ ∃ f, s.classes[σ c]? = some f ∧ Q f :=
  rel_exists_iff (h.classes c) hPQ

theorem classOwner_eq (h : r.Renamed σ s) (c : ClassId) :
    s.classOwner (σ c) = r.classOwner c := by
  have hc := h.classes c
  unfold classOwner
  generalize r.classes[c]? = x at *
  generalize s.classes[σ c]? = y at *
  cases hc with
  | some hef => exact hef.owner_eq
  | none => rfl

theorem className_eq (h : r.Renamed σ s) (c : ClassId) : s.className (σ c) = r.className c :=
  rel_elim_eq (h.classes c) (fun _ _ hef => hef.name_eq) ""

theorem mem_referencesOf (h : r.Renamed σ s) :
    d ∈ r.referencesOf c ↔ σ d ∈ s.referencesOf (σ c) := by
  have hc := h.classes c
  unfold referencesOf
  generalize r.classes[c]? = x at *
  generalize s.classes[σ c]? = y at *
  cases hc with
  | some hef =>
    show d ∈ Std.TreeSet.toList _ ↔ σ d ∈ Std.TreeSet.toList _
    rw [Std.TreeSet.mem_toList, Std.TreeSet.mem_toList, hef.mem_references]
  | none => simp

theorem mem_classesWhere (h : r.Renamed σ s) {test : ClassEntry → Bool}
    (htest : ∀ e f, e.Renamed σ f → test f = test e) :
    c ∈ r.classesWhere test ↔ σ c ∈ s.classesWhere test := by
  rw [Registry.mem_classesWhere, Registry.mem_classesWhere]
  exact h.exists_class_iff fun e f hef => by rw [htest e f hef]

theorem mem_resourcesWhere (h : r.Renamed σ s) (test : ResourceEntry → Bool) (i : ResourceId) :
    i ∈ r.resourcesWhere test ↔ i ∈ s.resourcesWhere test := by
  rw [Registry.mem_resourcesWhere, Registry.mem_resourcesWhere, h.resources]

end Registry.Renamed

/-! ## Modules and tables -/

/-- The same module, with the classes that it holds renumbered. -/
structure Module.Renamed (σ : Equiv.Perm ClassId) (m n : Module) : Prop where
  outline_eq : n.outline = m.outline
  mem_classes : ∀ c, c ∈ m.classes ↔ σ c ∈ n.classes
  mem_resources : ∀ i, i ∈ m.resources ↔ i ∈ n.resources
  mem_unresolved : ∀ c d, (c, d) ∈ m.unresolved ↔ (σ c, σ d) ∈ n.unresolved

namespace Module.Renamed

variable {m n : Module}

theorem spec_eq (h : m.Renamed σ n) : n.spec = m.spec := congrArg (·.spec) h.outline_eq

theorem symm (h : m.Renamed σ n) : n.Renamed σ.symm m where
  outline_eq := h.outline_eq.symm
  mem_classes c := by rw [h.mem_classes, Equiv.apply_symm_apply]
  mem_resources i := (h.mem_resources i).symm
  mem_unresolved c d := by
    rw [h.mem_unresolved, Equiv.apply_symm_apply, Equiv.apply_symm_apply]

/-- A change of what a module does not hold. -/
theorem change (h : m.Renamed σ n) {f : Module → Module}
    (houtline : ∀ m, (f m).outline = (f m.outline).outline)
    (hclasses : ∀ m, (f m).classes = m.classes) (hresources : ∀ m, (f m).resources = m.resources)
    (hunresolved : ∀ m, (f m).unresolved = m.unresolved) : (f m).Renamed σ (f n) where
  outline_eq := by rw [houtline, houtline m, h.outline_eq]
  mem_classes := by
    rw [hclasses, hclasses]
    exact h.mem_classes
  mem_resources := by
    rw [hresources, hresources]
    exact h.mem_resources
  mem_unresolved := by
    rw [hunresolved, hunresolved]
    exact h.mem_unresolved

theorem perm_classes (h : m.Renamed σ n) : (m.classes.toList.map σ).Perm n.classes.toList :=
  perm_toList_treeSet σ h.mem_classes

theorem resources_eq (h : m.Renamed σ n) : n.resources.toList = m.resources.toList :=
  (Std.TreeSet.Equiv.of_forall_mem_iff h.mem_resources).toList_eq.symm

theorem perm_unresolved (h : m.Renamed σ n) :
    (m.unresolved.toList.map (Equiv.prodCongr σ σ)).Perm n.unresolved.toList :=
  perm_toList_treeSet (Equiv.prodCongr σ σ) fun u => h.mem_unresolved u.1 u.2

theorem isEmpty_eq (h : m.Renamed σ n) : n.isEmpty = m.isEmpty := by
  have hclasses : n.classes.isEmpty = m.classes.isEmpty := by
    rw [Bool.eq_iff_iff, Std.TreeSet.isEmpty_iff_forall_not_mem,
      Std.TreeSet.isEmpty_iff_forall_not_mem]
    constructor
    · intro hn c hc
      exact hn (σ c) ((h.mem_classes c).1 hc)
    · intro hm c hc
      exact hm (σ.symm c) ((h.symm.mem_classes c).1 hc)
  have hresources : n.resources.isEmpty = m.resources.isEmpty := by
    rw [Bool.eq_iff_iff, Std.TreeSet.isEmpty_iff_forall_not_mem,
      Std.TreeSet.isEmpty_iff_forall_not_mem]
    exact forall_congr' fun i => not_congr (h.mem_resources i).symm
  unfold isEmpty
  rw [hclasses, hresources, h.spec_eq]

end Module.Renamed

/-- The same table, with the classes that its modules hold renumbered. -/
structure ModuleTable.Renamed (σ : Equiv.Perm ClassId) (t u : ModuleTable) : Prop where
  index_eq : u.index = t.index
  modules : ∀ id, Option.Rel (Module.Renamed σ) (t.get? id) (u.get? id)

namespace ModuleTable.Renamed

variable {t u : ModuleTable} {id : ModuleId}

theorem symm (h : t.Renamed σ u) : u.Renamed σ.symm t where
  index_eq := h.index_eq.symm
  modules id := rel_flip (h.modules id) fun _ _ hmn => hmn.symm

theorem sameBut (h : t.Renamed σ u) : t.SameBut Module.outline u where
  find name := by
    unfold find
    rw [h.index_eq]
  get? id := by
    have hid := h.modules id
    generalize t.get? id = x at *
    generalize u.get? id = y at *
    cases hid with
    | some hmn => exact congrArg some hmn.outline_eq
    | none => rfl

theorem find_eq (h : t.Renamed σ u) (name : String) : u.find name = t.find name :=
  h.sameBut.find name

theorem size_eq (h : t.Renamed σ u) : u.size = t.size := h.sameBut.size

theorem ids_eq (h : t.Renamed σ u) : u.ids = t.ids := congrArg List.range h.size_eq

theorem require_eq (h : t.Renamed σ u) (name context : String) :
    u.require name context = t.require name context := by
  unfold require
  rw [h.find_eq]

/-- Whatever is read of a module apart from what it holds is the same. -/
theorem elim_eq (h : t.Renamed σ u) {α : Type} (none : α) (read : Module → α)
    (hread : ∀ m, read m.outline = read m) (id : ModuleId) :
    (u.get? id).elim none read = (t.get? id).elim none read :=
  rel_elim_eq (h.modules id)
    (fun m n hmn => by rw [← hread, hmn.outline_eq, hread]) none

theorem name_eq (h : t.Renamed σ u) (id : ModuleId) : u.name id = t.name id :=
  h.elim_eq "" Module.name (fun _ => rfl) id

theorem group_eq (h : t.Renamed σ u) (id : ModuleId) : u.group id = t.group id :=
  h.elim_eq id Module.group (fun _ => rfl) id

theorem members_eq (h : t.Renamed σ u) (id : ModuleId) : u.members id = t.members id :=
  h.elim_eq [] Module.members (fun _ => rfl) id

theorem any_eq (h : t.Renamed σ u) (read : Module → Bool)
    (hread : ∀ m, read m.outline = read m) (id : ModuleId) :
    (u.get? id).any read = (t.get? id).any read := by
  have hany (x : Option Module) : x.any read = x.elim false read := by cases x <;> rfl
  rw [hany, hany]
  exact h.elim_eq false read hread id

theorem isBase_eq (h : t.Renamed σ u) (id : ModuleId) : u.isBase id = t.isBase id :=
  h.any_eq Module.isBase (fun _ => rfl) id

theorem groupMembers_eq (h : t.Renamed σ u) (top : ModuleId) :
    u.groupMembers top = t.groupMembers top := by
  unfold groupMembers
  simp only [h.ids_eq, h.group_eq]

/-- Whatever is read of the modules of a group apart from what they hold is the same. -/
theorem groupModules_congr (h : t.Renamed σ u) {α : Type} (read : List Module → α)
    (hread : ∀ l, read (l.map Module.outline) = read l) (top : ModuleId) :
    read (u.groupModules top) = read (t.groupModules top) := by
  have houtline : (u.groupModules top).map Module.outline =
      (t.groupModules top).map Module.outline := by
    unfold groupModules
    rw [h.groupMembers_eq, List.map_filterMap, List.map_filterMap]
    exact congrArg (List.filterMap · _) (funext fun id => h.sameBut.get? id)
  rw [← hread, houtline, hread]

theorem isTopLevel_eq (h : t.Renamed σ u) (id : ModuleId) : u.isTopLevel id = t.isTopLevel id := by
  have hrequires : (u.groupModules id).any (·.hasRequires) =
      (t.groupModules id).any (·.hasRequires) :=
    h.groupModules_congr (List.any · (·.hasRequires)) (fun l => by rw [List.any_map]; rfl) id
  have hid := h.modules id
  unfold isTopLevel
  rw [hrequires]
  generalize t.get? id = x at *
  generalize u.get? id = y at *
  cases hid with
  | some hmn =>
    rename_i m n
    have hgroup : n.group = m.group := congrArg (·.group) hmn.outline_eq
    have hbase : n.isBase = m.isBase := congrArg (·.isBase) hmn.outline_eq
    dsimp only
    rw [hgroup, hbase, hmn.isEmpty_eq, hmn.spec_eq]
  | none => rfl

theorem topLevel_eq (h : t.Renamed σ u) : u.topLevel = t.topLevel := by
  unfold topLevel
  rw [h.ids_eq]
  exact List.filter_congr fun id _ => h.isTopLevel_eq id

theorem mem_classes (h : t.Renamed σ u) {c : ClassId} :
    c ∈ t.classes id ↔ σ c ∈ u.classes id := by
  have hid := h.modules id
  unfold classes
  generalize t.get? id = x at *
  generalize u.get? id = y at *
  cases hid with
  | some hmn =>
    show c ∈ Std.TreeSet.toList _ ↔ σ c ∈ Std.TreeSet.toList _
    rw [Std.TreeSet.mem_toList, Std.TreeSet.mem_toList, hmn.mem_classes]
  | none => simp

/-! ### Changes of tables -/

theorem modify (h : t.Renamed σ u) (id : ModuleId) {f g : Module → Module}
    (hfg : ∀ m n, m.Renamed σ n → (f m).Renamed σ (g n)) :
    (t.modify id f).Renamed σ (u.modify id g) where
  index_eq := h.index_eq
  modules other := by
    rw [get?_modify, get?_modify]
    split_ifs
    · exact rel_map (h.modules other) hfg
    · exact h.modules other

/-- A change of what a module does not hold. -/
theorem change (h : t.Renamed σ u) (id : ModuleId) {f : Module → Module}
    (houtline : ∀ m, (f m).outline = (f m.outline).outline)
    (hclasses : ∀ m, (f m).classes = m.classes) (hresources : ∀ m, (f m).resources = m.resources)
    (hunresolved : ∀ m, (f m).unresolved = m.unresolved) :
    (t.modify id f).Renamed σ (u.modify id f) :=
  h.modify id fun _ _ hmn => hmn.change houtline hclasses hresources hunresolved

theorem alike_add (h : t.Renamed σ u) (spec : ModuleSpec) :
    Alike (fun r s => r.1.Renamed σ s.1 ∧ s.2 = r.2) (t.add spec) (u.add spec) := by
  unfold add
  rw [h.find_eq, h.size_eq]
  split_ifs
  · exact .error
  · refine ⟨⟨congrArg (Std.TreeMap.insert · _ _) h.index_eq, fun id => ?_⟩, rfl⟩
    rw [get?_push, get?_push, h.size_eq]
    split_ifs
    · exact .some ⟨rfl, by simp, by simp, by simp⟩
    · exact h.modules id

end ModuleTable.Renamed

/-! ## Partitions -/

/-- The same partition, with the classes renumbered. -/
structure Partition.Renamed (σ : Equiv.Perm ClassId) (p q : Partition) : Prop where
  registry : p.registry.Renamed σ q.registry
  table : p.table.Renamed σ q.table

namespace Partition.Renamed

variable {p q : Partition} {module : ModuleId}

theorem symm (h : p.Renamed σ q) : q.Renamed σ.symm p :=
  ⟨h.registry.symm, h.table.symm⟩

theorem spec_eq (h : p.Renamed σ q) (module : ModuleId) : q.spec module = p.spec module :=
  h.table.elim_eq default Module.spec (fun _ => rfl) module

theorem mem_held (h : p.Renamed σ q) {c : ClassId} : c ∈ p.held module ↔ σ c ∈ q.held module := by
  have hid := h.table.modules module
  unfold held
  generalize p.table.get? module = x at *
  generalize q.table.get? module = y at *
  cases hid with
  | some hmn => exact hmn.mem_classes c
  | none => simp

/-- Steps that take the same, up to numbers, lead to the same, up to numbers. -/
theorem of_takes (h : p.Renamed σ q) {p' q' : Partition} {C C' : Set ClassId}
    {R R' : Set ResourceId} {U U' : Set Reference}
    (hp : p.Takes module C R U p') (hq : q.Takes module C' R' U' q')
    (hC : ∀ c, c ∈ C ↔ σ c ∈ C') (hR : ∀ i, i ∈ R ↔ i ∈ R')
    (hU : ∀ c d, (c, d) ∈ U ↔ (σ c, σ d) ∈ U') (hm : module < p.table.size) :
    p'.Renamed σ q' := by
  refine ⟨⟨fun c => ?classes, fun name => ?findClass, fun i => ?resources⟩,
    ⟨?index, fun id => ?modules⟩⟩
  case classes =>
    by_cases hc : c ∈ C
    · rw [hp.class_of_mem c hc, hq.class_of_mem _ ((hC c).1 hc)]
      exact rel_map (h.registry.classes c) fun _ _ hef => hef.withOwner _
    · rw [hp.class_of_not_mem c hc, hq.class_of_not_mem _ (mt (hC c).2 hc)]
      exact h.registry.classes c
  case findClass => rw [hp.findClass_eq, hq.findClass_eq, h.registry.findClass]
  case resources =>
    by_cases hi : i ∈ R
    · rw [hp.resource_of_mem i hi, hq.resource_of_mem i ((hR i).1 hi), h.registry.resources]
    · rw [hp.resource_of_not_mem i hi, hq.resource_of_not_mem i (mt (hR i).2 hi),
        h.registry.resources]
  case index => rw [hp.index, hq.index, h.table.index_eq]
  case modules =>
    by_cases hid : id = module
    · subst hid
      obtain ⟨m, hm⟩ := ModuleTable.exists_get? hm
      obtain ⟨n, hn, hmn⟩ := rel_exists (h.table.modules id) hm
      obtain ⟨m', hm', hgains⟩ := hp.gains m hm
      obtain ⟨n', hn', hgains'⟩ := hq.gains n hn
      rw [hm', hn']
      refine .some ⟨?_, fun c => ?_, fun i => ?_, fun c d => ?_⟩
      · rw [hgains'.outline_eq, hmn.outline_eq, hgains.outline_eq]
      · rw [hgains.mem_classes, hgains'.mem_classes, hmn.mem_classes, hC]
      · rw [hgains.mem_resources, hgains'.mem_resources, hmn.mem_resources, hR]
      · rw [hgains.mem_unresolved, hgains'.mem_unresolved, hmn.mem_unresolved, hU]
    · rw [hp.others id hid, hq.others id hid]
      exact h.table.modules id

end Partition.Renamed

end ModuleGraph
