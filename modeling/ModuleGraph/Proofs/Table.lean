import ModuleGraph.ModuleTable
import ModuleGraph.Proofs.Ends
import ModuleGraph.Proofs.Index

/-!
# Module tables

Every table that a build makes is `Indexed`: its index finds a module exactly under the name that
the module bears. So names tell modules apart, and a module keeps its number for good.

* `ModuleTable.get?_modify` says what a change of one module does to the others.
* `ModuleTable.ends_add` says what the addition of a module does.
* `ModuleTable.SameBut` compares two tables up to a part of their modules.
* `ModuleTable.Fresh` describes a table before any class is claimed and any member is linked.
-/

namespace ModuleGraph

/-- The module without what it holds. -/
def Module.outline (m : Module) : Module :=
  { m with classes := {}, resources := {}, unresolved := {} }

namespace ModuleTable

variable {t t' t'' : ModuleTable} {id other : ModuleId} {m m' : Module} {name : String}

/-! ## Look-ups -/

theorem get?_modify (t : ModuleTable) (id other : ModuleId) (f : Module → Module) :
    (t.modify id f).get? other = if id = other then (t.get? other).map f else t.get? other := by
  simp only [get?, modify, Array.getElem?_modify]

@[simp] theorem get?_modify_self (t : ModuleTable) (id : ModuleId) (f : Module → Module) :
    (t.modify id f).get? id = (t.get? id).map f := by
  rw [get?_modify, if_pos rfl]

theorem get?_modify_of_ne (f : Module → Module) (h : id ≠ other) :
    (t.modify id f).get? other = t.get? other := by
  rw [get?_modify, if_neg h]

@[simp] theorem size_modify (t : ModuleTable) (id : ModuleId) (f : Module → Module) :
    (t.modify id f).size = t.size := by
  simp [size, modify]

theorem isSome_get?_iff : (t.get? id).isSome ↔ id < t.size := by
  simp [get?, size, isSome_getElem?]

theorem lt_size_of_get? (h : t.get? id = some m) : id < t.size :=
  isSome_get?_iff.1 (by simp [h])

theorem exists_get? (h : id < t.size) : ∃ m, t.get? id = some m :=
  Option.isSome_iff_exists.1 (isSome_get?_iff.2 h)

@[simp] theorem mem_ids : id ∈ t.ids ↔ id < t.size := List.mem_range

theorem name_of_get? (h : t.get? id = some m) : t.name id = m.name := by
  simp [ModuleTable.name, h]

theorem group_of_get? (h : t.get? id = some m) : t.group id = m.group := by
  simp [group, h]

/-- A number out of range counts as its own group. -/
theorem group_of_size_le (h : t.size ≤ id) : t.group id = id := by
  have hnone : t.get? id = none := by
    rw [← Option.not_isSome_iff_eq_none, isSome_get?_iff]
    exact Nat.not_lt_of_ge h
  simp [group, hnone]

theorem members_of_get? (h : t.get? id = some m) : t.members id = m.members := by
  simp [members, h]

theorem classes_of_get? (h : t.get? id = some m) : t.classes id = m.classes.toList := by
  simp [classes, h]

theorem lt_size_of_isTopLevel (h : t.isTopLevel id) : id < t.size := by
  unfold isTopLevel at h
  cases hm : t.get? id with
  | none => rw [hm] at h; cases h
  | some m => exact lt_size_of_get? hm

/-- A top-level module is its own group. -/
theorem group_of_isTopLevel (h : t.isTopLevel id) : t.group id = id := by
  unfold isTopLevel at h
  cases hm : t.get? id with
  | none => rw [hm] at h; cases h
  | some m =>
    rw [hm] at h
    rw [group_of_get? hm]
    simp only [Bool.and_eq_true, beq_iff_eq] at h
    exact h.1

/-- The modules of a group are the module that it is named after and those that stand in it. -/
theorem mem_groupModules :
    m ∈ t.groupModules id ↔ ∃ x, t.get? x = some m ∧ (x = id ∨ t.group x = id) := by
  simp only [groupModules, groupMembers, List.mem_filterMap, List.mem_cons, List.mem_filter,
    mem_ids, Bool.and_eq_true, beq_iff_eq, bne_iff_ne]
  constructor
  · rintro ⟨x, hx | ⟨-, hgroup, -⟩, hm⟩
    · exact ⟨x, hm, .inl hx⟩
    · exact ⟨x, hm, .inr hgroup⟩
  · rintro ⟨x, hm, hx⟩
    by_cases hid : x = id
    · exact ⟨x, .inl hid, hm⟩
    · exact ⟨x, .inr ⟨lt_size_of_get? hm, hx.resolve_left hid, hid⟩, hm⟩

/-- A change that keeps a part of every module keeps that part of the whole table. -/
theorem map_get?_modify {α : Type} (part : Module → α) {f : Module → Module}
    (hf : ∀ m, part (f m) = part m) (t : ModuleTable) (id other : ModuleId) :
    ((t.modify id f).get? other).map part = (t.get? other).map part := by
  rw [get?_modify]
  split_ifs
  · rw [Option.map_map]
    congr 1
    funext m
    exact hf m
  · rfl

/-! ## Names and numbers -/

/-- The index finds a module exactly under the name that the module bears. -/
def Indexed (t : ModuleTable) : Prop :=
  IndexedBy Module.name t.modules t.index

theorem Indexed.get?_of_find (h : t.Indexed) (hf : t.find name = some id) :
    ∃ m, t.get? id = some m ∧ m.name = name :=
  (h name id).1 hf

/-- Modules of one name are one module. -/
theorem Indexed.id_eq_of_name_eq (h : t.Indexed) (hm : t.get? id = some m)
    (hm' : t.get? other = some m') (hn : m.name = m'.name) : id = other :=
  h.eq_of_key_eq hm hm' hn

theorem indexed_empty : ({} : ModuleTable).Indexed :=
  indexedBy_empty _

theorem get?_push (t : ModuleTable) (m : Module) (index : Std.TreeMap String ModuleId)
    (id : ModuleId) : ModuleTable.get? ⟨t.modules.push m, index⟩ id =
      if id = t.size then some m else t.get? id :=
  Array.getElem?_push

/-- A module is added at the end, under a name that was free. -/
theorem ends_add (h : t.Indexed) (spec : ModuleSpec) :
    Ends (t.add spec)
      (fun r => r.1.Indexed ∧
        ∀ id, r.1.get? id = if id = t.size then some { spec, group := id } else t.get? id)
      (fun e => e = .duplicateModule spec.name) := by
  unfold add
  split_ifs with hfree
  · rfl
  · have hnone : t.find spec.name = none := by simpa using hfree
    refine ⟨h.push (a := { spec, group := t.size }) hnone, fun id => ?_⟩
    rw [get?_push]
    split_ifs with hid
    · rw [hid]
    · rfl

/-! ## Changes of a part -/

/-- The modules of the second table differ from those of the first only in what `part` leaves
out. -/
structure SameBut {α : Type} (t : ModuleTable) (part : Module → α) (t' : ModuleTable) : Prop where
  find : ∀ name, t'.find name = t.find name
  get? : ∀ id, (t'.get? id).map part = (t.get? id).map part

namespace SameBut

variable {α β : Type} {part : Module → α}

theorem refl (part : Module → α) (t : ModuleTable) : t.SameBut part t :=
  ⟨fun _ => rfl, fun _ => rfl⟩

theorem symm (h : t.SameBut part t') : t'.SameBut part t :=
  ⟨fun name => (h.find name).symm, fun id => (h.get? id).symm⟩

theorem trans (h₁ : t.SameBut part t') (h₂ : t'.SameBut part t'') : t.SameBut part t'' :=
  ⟨fun name => (h₂.find name).trans (h₁.find name), fun id => (h₂.get? id).trans (h₁.get? id)⟩

theorem modify (t : ModuleTable) (id : ModuleId) {f : Module → Module}
    (hf : ∀ m, part (f m) = part m) : t.SameBut part (t.modify id f) :=
  ⟨fun _ => rfl, fun other => map_get?_modify part hf t id other⟩

/-- Less of a module stays the same. -/
theorem less (g : α → β) (h : t.SameBut part t') : t.SameBut (fun m => g (part m)) t' := by
  refine ⟨h.find, fun id => ?_⟩
  have hid := congrArg (Option.map g) (h.get? id)
  rw [Option.map_map, Option.map_map] at hid
  exact hid

theorem exists_get? (h : t.SameBut part t') (hm : t.get? id = some m) :
    ∃ m', t'.get? id = some m' ∧ part m' = part m := by
  have hid := h.get? id
  rw [hm, Option.map_some, Option.map_eq_some_iff] at hid
  exact hid

theorem exists_get?_before (h : t.SameBut part t') (hm : t'.get? id = some m) :
    ∃ m', t.get? id = some m' ∧ part m' = part m := by
  have hid := (h.get? id).symm
  rw [hm, Option.map_some, Option.map_eq_some_iff] at hid
  exact hid

theorem size (h : t.SameBut part t') : t'.size = t.size := by
  have hiff (id : ModuleId) : id < t'.size ↔ id < t.size := by
    rw [← isSome_get?_iff, ← isSome_get?_iff]
    simpa using congrArg Option.isSome (h.get? id)
  rcases Nat.lt_trichotomy t'.size t.size with hlt | heq | hlt
  · exact absurd ((hiff t'.size).2 hlt) (Nat.lt_irrefl _)
  · exact heq
  · exact absurd ((hiff t.size).1 hlt) (Nat.lt_irrefl _)

theorem indexed (h : t.SameBut (·.spec) t') (ht : t.Indexed) : t'.Indexed := by
  have hnames : IndexedBy Module.name t'.modules t.index :=
    ht.congr fun i => (h.less (·.name)).get? i
  intro name id
  rw [← hnames name id]
  exact Eq.congr_left (h.find name)

end SameBut

/-! ## Tables without claims and links -/

/-- No module holds anything, has members or stands in a group other than its own. -/
def Fresh (t : ModuleTable) : Prop :=
  ∀ id m, t.get? id = some m → m = { spec := m.spec, group := id, isBase := m.isBase }

theorem fresh_empty : ({} : ModuleTable).Fresh := by
  intro id m hm
  simp [get?] at hm

theorem Fresh.setBase (h : t.Fresh) (id : ModuleId) : (t.setBase id).Fresh := by
  intro other m hm
  rw [ModuleTable.setBase, get?_modify] at hm
  split_ifs at hm with ho
  · obtain ⟨m₀, hm₀, rfl⟩ := Option.map_eq_some_iff.1 hm
    rw [h other m₀ hm₀]
  · exact h other m hm

theorem Indexed.setBase (h : t.Indexed) (id : ModuleId) : (t.setBase id).Indexed :=
  IndexedBy.modify h (f := fun m => { m with isBase := true }) (fun _ => rfl) id

end ModuleTable

end ModuleGraph
