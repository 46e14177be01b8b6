import Mathlib.Algebra.BigOperators.Group.List.Basic
import Mathlib.Algebra.GroupWithZero.Nat
import Mathlib.Data.List.Nodup
import Mathlib.Order.Basic
import Std.Data.TreeMap.Lemmas
import Std.Data.TreeSet.Lemmas
import Std.Data.TreeMap.AdditionalOperations

/-!
# Values and keys of ordered maps

* `mem_treeMap_values`: the values of a map are what it has under its keys.
* `treeMap_foldl_insert`: what a loop over one map leaves in another one that it fills.
* `treeMap_sum_insert`: how a sum over the values changes with one entry.
-/

namespace ModuleGraph

variable {κ β γ : Type} {cmp : κ → κ → Ordering}

theorem treeMap_values_eq (t : Std.TreeMap κ β cmp) : t.values = t.toList.map Prod.snd := by
  show t.inner.inner.values = (Std.DTreeMap.Internal.Impl.Const.toList t.inner.inner).map Prod.snd
  rw [Std.DTreeMap.Internal.Impl.values_eq_map_snd,
    Std.DTreeMap.Internal.Impl.Const.toList_eq_toListModel_map]
  simp

variable [Std.TransCmp cmp]

theorem treeMap_mem_iff {t : Std.TreeMap κ β cmp} {k : κ} : k ∈ t ↔ ∃ v, t[k]? = some v := by
  rw [Std.TreeMap.mem_iff_isSome_getElem?, Option.isSome_iff_exists]

theorem treeMap_keys_nodup (t : Std.TreeMap κ β cmp) : t.keys.Nodup :=
  Std.TreeMap.distinct_keys.imp fun hab heq => hab (by
    subst heq; exact Std.ReflCmp.compare_self)

variable [Std.LawfulEqCmp cmp]

theorem treeMap_getElem?_insert [DecidableEq κ] (t : Std.TreeMap κ β cmp) (k a : κ) (v : β) :
    (t.insert k v)[a]? = if k = a then some v else t[a]? := by
  rw [Std.TreeMap.getElem?_insert]
  simp only [Std.LawfulEqCmp.compare_eq_iff_eq]

theorem mem_treeMap_values {t : Std.TreeMap κ β cmp} {v : β} :
    v ∈ t.values ↔ ∃ k : κ, t[k]? = some v := by
  rw [treeMap_values_eq, List.mem_map]
  constructor
  · intro hex
    obtain ⟨⟨k, w⟩, hkw, rfl⟩ := hex
    exact ⟨k, Std.TreeMap.mem_toList_iff_getElem?_eq_some.1 hkw⟩
  · intro hex
    obtain ⟨k, hk⟩ := hex
    exact ⟨(k, v), Std.TreeMap.mem_toList_iff_getElem?_eq_some.2 hk, rfl⟩

/-! ## Loops that fill a map -/

section Fill

variable [DecidableEq κ] {σ : Type} {part : σ → Std.TreeMap κ γ cmp} {f : κ → β → γ}
  {step : σ → κ × β → σ}

/-- A loop that sets one key after the other of a map in its state leaves other keys alone. -/
theorem foldl_insert_of_not_mem
    (hstep : ∀ s k v, part (step s (k, v)) = (part s).insert k (f k v))
    {l : List (κ × β)} {k : κ} (hk : ∀ v, (k, v) ∉ l) (s : σ) :
    (part (l.foldl step s))[k]? = (part s)[k]? := by
  induction l generalizing s with
  | nil => rfl
  | cons entry l ih =>
    obtain ⟨k', v'⟩ := entry
    have hne : k' ≠ k := by
      intro heq
      exact hk v' (by simp [heq])
    rw [List.foldl_cons, ih (fun v hv => hk v (List.mem_cons_of_mem _ hv)), hstep,
      treeMap_getElem?_insert, if_neg hne]

theorem foldl_insert_of_mem
    (hstep : ∀ s k v, part (step s (k, v)) = (part s).insert k (f k v))
    {l : List (κ × β)} (hl : ∀ k v w, (k, v) ∈ l → (k, w) ∈ l → v = w) {k : κ} {v : β}
    (hk : (k, v) ∈ l) (s : σ) : (part (l.foldl step s))[k]? = some (f k v) := by
  induction l generalizing s with
  | nil => simp at hk
  | cons entry l ih =>
    obtain ⟨k', v'⟩ := entry
    rw [List.foldl_cons]
    by_cases hrest : ∃ w, (k, w) ∈ l
    · obtain ⟨w, hw⟩ := hrest
      have hvw : v = w := hl k v w hk (List.mem_cons_of_mem _ hw)
      subst hvw
      refine ih (fun k v w hv hw => ?_) hw _
      exact hl k v w (List.mem_cons_of_mem _ hv) (List.mem_cons_of_mem _ hw)
    · have hhead : (k, v) = (k', v') := by
        rcases List.mem_cons.1 hk with heq | hmem
        · exact heq
        · exact absurd ⟨v, hmem⟩ hrest
      cases hhead
      rw [foldl_insert_of_not_mem hstep (fun w hw => hrest ⟨w, hw⟩), hstep,
        treeMap_getElem?_insert, if_pos rfl]

/-- A loop over the entries of one map fills another one key by key. -/
theorem treeMap_foldl_insert (part : σ → Std.TreeMap κ γ cmp)
    (hstep : ∀ s k v, part (step s (k, v)) = (part s).insert k (f k v))
    (t : Std.TreeMap κ β cmp) {s : σ} (hs : part s = {}) (k : κ) :
    (part (t.toList.foldl step s))[k]? = t[k]?.map (f k) := by
  cases hk : t[k]? with
  | none =>
    rw [foldl_insert_of_not_mem hstep, hs]
    · rfl
    · intro v hv
      rw [Std.TreeMap.mem_toList_iff_getElem?_eq_some, hk] at hv
      cases hv
  | some v =>
    refine foldl_insert_of_mem hstep (fun k v w hv hw => ?_)
      (Std.TreeMap.mem_toList_iff_getElem?_eq_some.2 hk) s
    rw [Std.TreeMap.mem_toList_iff_getElem?_eq_some] at hv hw
    rw [hv] at hw
    exact Option.some.inj hw

end Fill

/-! ## Sums over the values -/

/-- An entry that is there already may be entered again. -/
theorem treeMap_equiv_insert_self [DecidableEq κ] {t : Std.TreeMap κ β cmp} {k : κ} {v : β}
    (h : t[k]? = some v) : Std.TreeMap.Equiv (t.insert k v) t := by
  refine .of_forall_constGet?_eq fun j => ?_
  rw [treeMap_getElem?_insert]
  split_ifs with hj
  · rw [← hj, h]
  · rfl

/-- A sum over the values of a map changes with an entry by what that entry contributes. -/
theorem treeMap_sum_insert [DecidableEq κ] (f : β → Nat) (t : Std.TreeMap κ β cmp) (k : κ)
    (v : β) : ((t.insert k v).values.map f).sum + t[k]?.elim 0 f = (t.values.map f).sum + f v := by
  let rest := t.toList.filter fun x => decide ¬(k == x.1) = true
  have hinsert (w : β) :
      ((t.insert k w).values.map f).sum = f w + (rest.map fun x => f x.2).sum := by
    have hperm : ((t.insert k w).toList.map fun x => f x.2).Perm _ :=
      Std.TreeMap.toList_insert_perm.map _
    rw [treeMap_values_eq, List.map_map]
    exact hperm.sum_eq.trans List.sum_cons
  cases hk : t[k]? with
  | none =>
    have hrest : rest = t.toList := by
      refine List.filter_eq_self.2 fun x hx => ?_
      rw [decide_eq_true_eq, beq_iff_eq]
      rintro rfl
      rw [Std.TreeMap.mem_toList_iff_getElem?_eq_some, hk] at hx
      cases hx
    rw [hinsert, hrest, treeMap_values_eq, List.map_map, Nat.add_comm (f v)]
    rfl
  | some w =>
    -- the map is itself with its own entry inserted
    rw [hinsert, ← (treeMap_equiv_insert_self hk).values_eq, hinsert, Option.elim_some]
    omega

/-! ## Sets -/

theorem treeSet_nodup_toList (s : Std.TreeSet κ cmp) : s.toList.Nodup :=
  Std.TreeSet.distinct_toList.imp fun hab heq => hab (by
    subst heq; exact Std.ReflCmp.compare_self)

/-- A set with two different members has at least two. -/
theorem one_lt_treeSet_size {s : Std.TreeSet κ cmp} {a b : κ} (ha : a ∈ s) (hb : b ∈ s)
    (hne : a ≠ b) : 1 < s.size := by
  rw [← Std.TreeSet.length_toList]
  have ha' := Std.TreeSet.mem_toList.2 ha
  have hb' := Std.TreeSet.mem_toList.2 hb
  match hl : s.toList with
  | [] => rw [hl] at ha'; simp at ha'
  | [c] =>
    rw [hl, List.mem_singleton] at ha' hb'
    exact absurd (ha'.trans hb'.symm) hne
  | _ :: _ :: _ => simp

end ModuleGraph
