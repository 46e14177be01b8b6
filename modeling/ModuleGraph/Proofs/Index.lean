import ModuleGraph.Proofs.TreeMap

/-!
# Arrays with an index

Classes, resources and modules are kept in arrays that grow at the end, with an index from names to
positions. `IndexedBy` says that the index finds an item exactly under the name that it bears; so
names tell items apart. New names may be added, and items may change in everything but their names.
-/

namespace ModuleGraph

variable {α : Type} {key : α → String} {items : Array α} {index : Std.TreeMap String Nat}

/-- The index finds an item exactly under its own name. -/
def IndexedBy (key : α → String) (items : Array α) (index : Std.TreeMap String Nat) : Prop :=
  ∀ (name : String) (i : Nat), index[name]? = some i ↔ ∃ a, items[i]? = some a ∧ key a = name

theorem indexedBy_empty (key : α → String) : IndexedBy key #[] {} := by
  intro name i
  simp

/-- Items of one name are one item. -/
theorem IndexedBy.eq_of_key_eq (h : IndexedBy key items index) {i j : Nat} {a b : α}
    (ha : items[i]? = some a) (hb : items[j]? = some b) (hkey : key a = key b) : i = j := by
  have hi := (h (key a) i).2 ⟨a, ha, rfl⟩
  have hj := (h (key b) j).2 ⟨b, hb, rfl⟩
  rw [hkey, hj] at hi
  exact (Option.some.inj hi).symm

/-- A name belongs to one position. -/
theorem IndexedBy.eq_of_map_eq (h : IndexedBy key items index) {i j : Nat} {name : String}
    (hi : items[i]?.map key = some name) (hj : items[j]?.map key = some name) : i = j := by
  obtain ⟨a, ha, hname⟩ := Option.map_eq_some_iff.1 hi
  obtain ⟨b, hb, hname'⟩ := Option.map_eq_some_iff.1 hj
  exact h.eq_of_key_eq ha hb (hname.trans hname'.symm)

/-- An item of a new name is added at the end. -/
theorem IndexedBy.push (h : IndexedBy key items index) {a : α} (hnew : index[key a]? = none) :
    IndexedBy key (items.push a) (index.insert (key a) items.size) := by
  intro name i
  rw [treeMap_getElem?_insert, Array.getElem?_push]
  by_cases hname : key a = name
  · subst hname
    rw [if_pos rfl]
    by_cases hi : i = items.size
    · simp [hi]
    · -- the name was free, so no other item bears it
      rw [if_neg hi, ← h (key a) i, hnew]
      simp [Ne.symm hi]
  · rw [if_neg hname]
    by_cases hi : i = items.size
    · subst hi
      have hnone : index[name]? ≠ some items.size := by
        intro hsome
        obtain ⟨b, hb, -⟩ := (h name items.size).1 hsome
        simp at hb
      simp [hname, hnone]
    · rw [if_neg hi, h name i]

/-- Items may change in everything but their names. -/
theorem IndexedBy.congr (h : IndexedBy key items index) {items' : Array α}
    (hkeys : ∀ i : Nat, items'[i]?.map key = items[i]?.map key) : IndexedBy key items' index := by
  intro name i
  rw [h name i]
  have hi := hkeys i
  constructor
  · intro hex
    obtain ⟨a, ha, hname⟩ := hex
    rw [ha, Option.map_some, Option.map_eq_some_iff] at hi
    obtain ⟨b, hb, hkey⟩ := hi
    exact ⟨b, hb, hkey.trans hname⟩
  · intro hex
    obtain ⟨b, hb, hname⟩ := hex
    rw [hb, Option.map_some, eq_comm, Option.map_eq_some_iff] at hi
    obtain ⟨a, ha, hkey⟩ := hi
    exact ⟨a, ha, hkey.trans hname⟩

theorem IndexedBy.modify (h : IndexedBy key items index) {f : α → α} (hf : ∀ a, key (f a) = key a)
    (i : Nat) : IndexedBy key (items.modify i f) index := by
  refine h.congr fun j => ?_
  rw [Array.getElem?_modify]
  split_ifs with hij
  · rw [Option.map_map]
    congr 1
    funext a
    exact hf a
  · rfl

end ModuleGraph
