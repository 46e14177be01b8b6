import ModuleGraph.Proofs.Alike
import ModuleGraph.Proofs.TreeMap

/-!
# Maps related key by key

`MapRel R a b` says that two maps have the same keys, with values that `R` relates. Insertion keeps
the relation, and loops over both maps go through the same keys in the same order
(`MapRel.forall₂_toList`, `MapRel.forall₂_values`).
-/

namespace ModuleGraph

variable {κ β γ : Type} {cmp : κ → κ → Ordering} {R : β → γ → Prop}

/-- The maps have the same keys, with related values. -/
def MapRel (R : β → γ → Prop) (a : Std.TreeMap κ β cmp) (b : Std.TreeMap κ γ cmp) : Prop :=
  ∀ k : κ, Option.Rel R a[k]? b[k]?

/-- Lists of pairs with the same first entries, whose second entries are related. -/
theorem forall₂_of_map_fst {l : List (κ × β)} {l' : List (κ × γ)}
    (hfst : l.map Prod.fst = l'.map Prod.fst)
    (hsnd : ∀ k v w, (k, v) ∈ l → (k, w) ∈ l' → R v w) :
    List.Forall₂ (fun x y => x.1 = y.1 ∧ R x.2 y.2) l l' := by
  induction l generalizing l' with
  | nil =>
    rw [List.map_nil, eq_comm, List.map_eq_nil_iff] at hfst
    exact hfst ▸ .nil
  | cons x l ih =>
    obtain ⟨k, v⟩ := x
    cases l' with
    | nil => cases hfst
    | cons y l' =>
      obtain ⟨k', w⟩ := y
      obtain ⟨hk, hrest⟩ := List.cons_eq_cons.1 hfst
      obtain rfl : k = k' := hk
      refine .cons ⟨rfl, hsnd k v w List.mem_cons_self List.mem_cons_self⟩ (ih hrest ?_)
      intro k v w hv hw
      exact hsnd k v w (List.mem_cons_of_mem _ hv) (List.mem_cons_of_mem _ hw)

namespace MapRel

variable [Std.TransCmp cmp] {a : Std.TreeMap κ β cmp} {b : Std.TreeMap κ γ cmp}

theorem empty : MapRel R (∅ : Std.TreeMap κ β cmp) (∅ : Std.TreeMap κ γ cmp) := by
  intro k
  rw [Std.TreeMap.getElem?_emptyc, Std.TreeMap.getElem?_emptyc]
  exact .none

theorem mem_iff (h : MapRel R a b) {k : κ} : k ∈ a ↔ k ∈ b := by
  have hk := rel_exists_iff (h k) (P := fun _ => True) (Q := fun _ => True) fun _ _ _ => Iff.rfl
  simpa [treeMap_mem_iff] using hk

theorem contains_eq (h : MapRel R a b) (k : κ) : b.contains k = a.contains k := by
  rw [Bool.eq_iff_iff, Std.TreeMap.contains_iff_mem, Std.TreeMap.contains_iff_mem, h.mem_iff]

variable [Std.LawfulEqCmp cmp]

theorem insert [DecidableEq κ] (h : MapRel R a b) (k : κ) {v : β} {w : γ} (hvw : R v w) :
    MapRel R (a.insert k v) (b.insert k w) := by
  intro j
  rw [treeMap_getElem?_insert, treeMap_getElem?_insert]
  split_ifs
  · exact .some hvw
  · exact h j

theorem map {β' γ' : Type} {S : β' → γ' → Prop} (h : MapRel R a b) {f : κ → β → β'}
    {g : κ → γ → γ'} (hfg : ∀ k v w, R v w → S (f k v) (g k w)) :
    MapRel S (a.map f) (b.map g) := by
  intro k
  rw [Std.TreeMap.getElem?_map, Std.TreeMap.getElem?_map]
  exact rel_map (h k) fun v w hvw => hfg k v w hvw

theorem keys_eq (h : MapRel R a b) : b.keys = a.keys := by
  have hunit : Std.TreeMap.Equiv (b.map fun _ _ => ()) (a.map fun _ _ => ()) := by
    refine .of_forall_constGet?_eq fun k => ?_
    rw [Std.TreeMap.getElem?_map, Std.TreeMap.getElem?_map]
    have hk := h k
    generalize a[k]? = x at *
    generalize b[k]? = y at *
    cases hk <;> rfl
  have hkeys := hunit.keys_eq
  rwa [Std.TreeMap.keys_map, Std.TreeMap.keys_map] at hkeys

/-- The entries of both maps, in order. -/
theorem forall₂_toList (h : MapRel R a b) :
    List.Forall₂ (fun x y => x.1 = y.1 ∧ R x.2 y.2) a.toList b.toList := by
  refine forall₂_of_map_fst ?_ fun k v w hv hw => ?_
  · rw [Std.TreeMap.map_fst_toList_eq_keys, Std.TreeMap.map_fst_toList_eq_keys, h.keys_eq]
  · obtain ⟨w', hw', hvw⟩ := rel_exists (h k) (Std.TreeMap.mem_toList_iff_getElem?_eq_some.1 hv)
    rw [Std.TreeMap.mem_toList_iff_getElem?_eq_some.1 hw] at hw'
    cases hw'
    exact hvw

/-- The values of both maps, in the order of their keys. -/
theorem forall₂_values (h : MapRel R a b) : List.Forall₂ R a.values b.values := by
  rw [treeMap_values_eq, treeMap_values_eq, List.forall₂_map_left_iff, List.forall₂_map_right_iff]
  exact h.forall₂_toList.imp fun _ _ hxy => hxy.2

end MapRel

end ModuleGraph
