import ModuleGraph.Proofs.SplitPackages
import Mathlib.Data.List.Sort

/-!
# Promotion of the edges between partners

`SplitPackages.promotes_detected`: the split packages of a family of modules are the packages that
at least two of them have classes in, each with these modules; promotion makes exactly the edges
between partners local, counts those that were not, and has nothing left to do afterwards.

The edges of all modules are read as one list (`EdgeMap.toEdges`), on which promotion is a map
(`toEdges_promoteEdges`). The count comes from a sum that every step keeps: what has been counted,
and the local edges that were there before, are the local edges that are there now
(`promoteEdge_balanced`).
-/

namespace ModuleGraph

/-- All edges, each with its two ends. -/
def EdgeMap.toEdges (edges : EdgeMap) : List (ModuleId × ModuleId × Dependence) :=
  edges.toList.flatMap fun (X, deps) => deps.toList.map fun (Y, dep) => (X, Y, dep)

/-- Two maps with the same requesters and the same edges. -/
structure EdgeMap.Same (left right : EdgeMap) : Prop where
  keys : left.keys = right.keys
  toEdges : left.toEdges = right.toEdges

namespace SplitPackages

variable {modules : List (ModuleId × Packages)} {split : SplitPackages} {edges : EdgeMap}

/-! ## Detection -/

/-- The listed packages are those that several modules of a family have classes in. -/
structure Detected (modules : List (ModuleId × Packages)) (split : SplitPackages) : Prop where
  /-- Every package is listed once. -/
  nodup : (split.toList.map Prod.fst).Nodup
  mem_iff (package : String) (owners : List ModuleId) :
    (package, owners) ∈ split.toList ↔
      (∃ X Y, X ≠ Y ∧ Has modules X package ∧ Has modules Y package) ∧
        owners.Pairwise (· < ·) ∧ ∀ X, X ∈ owners ↔ Has modules X package
  partners_iff (X Y : ModuleId) :
    Y ∈ split.partners X ↔ X ≠ Y ∧ ∃ package, Has modules X package ∧ Has modules Y package

theorem pairwise_toList (owners : Std.TreeSet ModuleId) : owners.toList.Pairwise (· < ·) :=
  Std.TreeSet.ordered_toList.imp Std.compare_eq_lt.1

theorem exists_ne_of_one_lt_size {owners : Std.TreeSet ModuleId} (h : 1 < owners.size) :
    ∃ X ∈ owners, ∃ Y ∈ owners, X ≠ Y := by
  rw [← Std.TreeSet.length_toList] at h
  have hnodup := treeSet_nodup_toList owners
  match hl : owners.toList with
  | [] => simp [hl] at h
  | [_] => simp [hl] at h
  | X :: Y :: rest =>
    rw [hl, List.nodup_cons] at hnodup
    have hX : X ∈ owners.toList := by simp [hl]
    have hY : Y ∈ owners.toList := by simp [hl]
    refine ⟨X, Std.TreeSet.mem_toList.1 hX, Y, Std.TreeSet.mem_toList.1 hY, ?_⟩
    intro heq
    exact hnodup.1 (heq ▸ List.mem_cons_self)

/-- A package is listed if several modules have classes in it, and then with all of them. -/
theorem mem_toList_detect {package : String} {owners : List ModuleId} :
    (package, owners) ∈ (detect modules).toList ↔
      (∃ X Y, X ≠ Y ∧ Has modules X package ∧ Has modules Y package) ∧
        owners.Pairwise (· < ·) ∧ ∀ X, X ∈ owners ↔ Has modules X package := by
  have hholders (X : ModuleId) :
      X ∈ (holders modules).getD package {} ↔ Has modules X package := mem_holders
  unfold toList detect
  simp only [List.mem_map, Prod.exists, Prod.mk.injEq,
    Std.TreeMap.mem_toList_iff_getElem?_eq_some, Std.TreeMap.getElem?_filter',
    Option.filter_eq_some_iff, decide_eq_true_eq]
  constructor
  · intro h
    obtain ⟨_, held, ⟨hget, hsize⟩, rfl, rfl⟩ := h
    rw [Std.TreeMap.getD_eq_getD_getElem?, hget] at hholders
    obtain ⟨X, hX, Y, hY, hne⟩ := exists_ne_of_one_lt_size hsize
    refine ⟨⟨X, Y, hne, (hholders X).1 hX, (hholders Y).1 hY⟩, pairwise_toList held, ?_⟩
    intro Z
    exact Std.TreeSet.mem_toList.trans (hholders Z)
  · intro h
    obtain ⟨⟨X, Y, hne, hX, hY⟩, hsorted, hmem⟩ := h
    have hX' := (hholders X).2 hX
    have hY' := (hholders Y).2 hY
    cases hget : (holders modules)[package]? with
    | none => simp [Std.TreeMap.getD_eq_getD_getElem?, hget] at hX'
    | some held =>
      rw [Std.TreeMap.getD_eq_getD_getElem?, hget] at hholders hX' hY'
      refine ⟨package, held, ⟨hget, one_lt_treeSet_size hX' hY' hne⟩, rfl, ?_⟩
      -- two ascending lists with the same members
      refine (pairwise_toList held).eq_of_mem_iff hsorted fun Z => ?_
      exact Std.TreeSet.mem_toList.trans ((hholders Z).trans (hmem Z).symm)

theorem detected_detect (modules : List (ModuleId × Packages)) :
    Detected modules (detect modules) where
  nodup := by
    unfold toList
    rw [List.map_map]
    show ((detect modules).owners.toList.map Prod.fst).Nodup
    rw [Std.TreeMap.map_fst_toList_eq_keys]
    exact treeMap_keys_nodup _
  mem_iff _ _ := mem_toList_detect
  partners_iff X Y := by
    rw [mem_partners_detect, ne_comm]

/-! ## Promoted edges -/

/-- The edge, local if its ends are partners. -/
def localize (split : SplitPackages) (edge : ModuleId × ModuleId × Dependence) :
    ModuleId × ModuleId × Dependence :=
  let (X, Y, dep) := edge
  (X, Y, { dep with modifiers :=
    { dep.modifiers with
      isLocal := dep.modifiers.isLocal || decide (Y ∈ split.partners X) } })

/-- An edge between partners that is not local. -/
def localizes (split : SplitPackages) (edge : ModuleId × ModuleId × Dependence) : Bool :=
  let (X, Y, dep) := edge
  !dep.modifiers.isLocal && decide (Y ∈ split.partners X)

/-- What promotion makes of the edges, and how many it changes. -/
structure Promoted (split : SplitPackages) (edges : EdgeMap) (result : EdgeMap × Nat) : Prop where
  keys : result.1.keys = edges.keys
  toEdges : result.1.toEdges = edges.toEdges.map split.localize
  count : result.2 = edges.toEdges.countP split.localizes

theorem promoteIf_eq (condition : Prop) [Decidable condition] (dep : Dependence) :
    promoteIf condition dep = { dep with modifiers :=
      { dep.modifiers with isLocal := dep.modifiers.isLocal || decide condition } } := by
  unfold promoteIf Dependence.promote
  split_ifs with h
  · simp [h]
  · simp [h]

theorem toList_promoted (split : SplitPackages) (X : ModuleId) (deps : Dependences) :
    (split.promoted X deps).toList =
      deps.toList.map fun (Y, dep) => (Y, promoteIf (Y ∈ split.partners X) dep) := by
  have hequiv : Std.TreeMap.Equiv (split.promoted X deps)
      (deps.map fun Y dep => promoteIf (Y ∈ split.partners X) dep) := by
    refine .of_forall_constGet?_eq fun Y => ?_
    rw [getElem?_promoted, Std.TreeMap.getElem?_map]
  rw [hequiv.toList_eq, Std.TreeMap.toList_map]

theorem equiv_promoteEdges (split : SplitPackages) (edges : EdgeMap) :
    Std.TreeMap.Equiv (split.promoteEdges edges).1 (edges.map split.promoted) := by
  refine .of_forall_constGet?_eq fun X => ?_
  rw [getElem?_promoteEdges, Std.TreeMap.getElem?_map]

theorem keys_promoteEdges (split : SplitPackages) (edges : EdgeMap) :
    (split.promoteEdges edges).1.keys = edges.keys := by
  rw [(split.equiv_promoteEdges edges).keys_eq, Std.TreeMap.keys_map]

/-- Promotion goes edge by edge. -/
theorem toEdges_promoteEdges (split : SplitPackages) (edges : EdgeMap) :
    (split.promoteEdges edges).1.toEdges = edges.toEdges.map split.localize := by
  unfold EdgeMap.toEdges
  rw [(split.equiv_promoteEdges edges).toList_eq, Std.TreeMap.toList_map, List.flatMap_map,
    List.map_flatMap]
  congr 1
  funext ⟨X, deps⟩
  dsimp only
  rw [toList_promoted, List.map_map, List.map_map]
  congr 1
  funext ⟨Y, dep⟩
  unfold localize
  dsimp only [Function.comp_apply]
  rw [promoteIf_eq]

/-! ## The count -/

/-- The number of local edges. -/
def locals (deps : Dependences) : Nat :=
  (deps.values.map fun dep => dep.modifiers.isLocal.toNat).sum

/-- Every edge that a step makes local is counted. -/
theorem promoteEdge_balanced (state : Dependences × Nat) (partner : ModuleId) :
    (promoteEdge state partner).2 + locals state.1 =
      state.2 + locals (promoteEdge state partner).1 := by
  unfold promoteEdge
  cases hget : state.1[partner]? with
  | none => rfl
  | some dep =>
    have hsum := treeMap_sum_insert (fun dep => dep.modifiers.isLocal.toNat) state.1 partner
      dep.promote.1
    have hchanged : dep.promote.2.toNat + dep.modifiers.isLocal.toNat =
        dep.promote.1.modifiers.isLocal.toNat := by
      unfold Dependence.promote
      cases dep.modifiers.isLocal
      · rfl
      · rfl
    rw [hget, Option.elim_some] at hsum
    show state.2 + dep.promote.2.toNat + locals state.1 =
      state.2 + locals (state.1.insert partner dep.promote.1)
    unfold locals
    omega

theorem foldl_promoteEdge_balanced (partners : List ModuleId) (state : Dependences × Nat) :
    (partners.foldl promoteEdge state).2 + locals state.1 =
      state.2 + locals (partners.foldl promoteEdge state).1 := by
  induction partners generalizing state with
  | nil => rfl
  | cons partner partners ih =>
    have hstep := promoteEdge_balanced state partner
    have hrest := ih (promoteEdge state partner)
    rw [List.foldl_cons]
    omega

theorem locals_eq (deps : Dependences) :
    locals deps = (deps.toList.map fun (_, dep) => dep.modifiers.isLocal.toNat).sum := by
  unfold locals
  rw [treeMap_values_eq, List.map_map]
  rfl

/-- The local edges afterwards are those from before and the ones that promotion is about. -/
theorem locals_promoted (split : SplitPackages) (X : ModuleId) (deps : Dependences) :
    locals (split.promoted X deps) =
      locals deps + deps.toList.countP fun (Y, dep) => split.localizes (X, Y, dep) := by
  rw [locals_eq, locals_eq, toList_promoted, List.map_map]
  induction deps.toList with
  | nil => rfl
  | cons edge edges ih =>
    obtain ⟨Y, dep⟩ := edge
    have hedge : (promoteIf (Y ∈ split.partners X) dep).modifiers.isLocal.toNat =
        dep.modifiers.isLocal.toNat + if split.localizes (X, Y, dep) then 1 else 0 := by
      rw [promoteIf_eq]
      unfold localizes
      cases hlocal : dep.modifiers.isLocal with
      | false => simp [Bool.toNat, hlocal, Bool.cond_eq_ite]
      | true => simp [hlocal]
    rw [List.map_cons, List.sum_cons, List.map_cons, List.sum_cons, List.countP_cons, ih]
    dsimp only [Function.comp_apply]
    rw [hedge]
    omega

/-- The count for one requester. -/
theorem foldl_promoteEdge_snd (split : SplitPackages) (X : ModuleId) (deps : Dependences)
    (n : Nat) :
    ((split.partners X).toList.foldl promoteEdge (deps, n)).2 =
      n + deps.toList.countP fun (Y, dep) => split.localizes (X, Y, dep) := by
  have hbalanced := foldl_promoteEdge_balanced (split.partners X).toList (deps, n)
  have hlocals := locals_promoted split X deps
  rw [promoted, foldl_promoteEdge_fst _ _ 0 n] at hlocals
  dsimp only at hbalanced
  omega

theorem count_promoteEdges (split : SplitPackages) (edges : EdgeMap) :
    (split.promoteEdges edges).2 = edges.toEdges.countP split.localizes := by
  have hrun (entries : List (ModuleId × Dependences)) (state : EdgeMap × Nat) :
      (entries.foldl (fun state entry =>
          let run := (split.partners entry.1).toList.foldl promoteEdge (entry.2, state.2)
          (state.1.insert entry.1 run.1, run.2)) state).2 =
        state.2 + (entries.flatMap fun entry =>
          entry.2.toList.map fun edge => (entry.1, edge)).countP split.localizes := by
    induction entries generalizing state with
    | nil => rfl
    | cons entry entries ih =>
      rw [List.foldl_cons, ih, List.flatMap_cons, List.countP_append, List.countP_map]
      dsimp only
      rw [foldl_promoteEdge_snd, Nat.add_assoc]
      rfl
  exact (hrun edges.toList ({}, 0)).trans (Nat.zero_add _)

theorem promoted_promoteEdges (split : SplitPackages) (edges : EdgeMap) :
    Promoted split edges (split.promoteEdges edges) where
  keys := keys_promoteEdges split edges
  toEdges := toEdges_promoteEdges split edges
  count := count_promoteEdges split edges

/-! ## A second promotion -/

theorem localize_localize (split : SplitPackages) (edge : ModuleId × ModuleId × Dependence) :
    split.localize (split.localize edge) = split.localize edge := by
  obtain ⟨X, Y, dep⟩ := edge
  unfold localize
  simp

theorem localizes_localize (split : SplitPackages) (edge : ModuleId × ModuleId × Dependence) :
    split.localizes (split.localize edge) = false := by
  obtain ⟨X, Y, dep⟩ := edge
  unfold localizes localize
  cases hlocal : dep.modifiers.isLocal
  · simp
  · simp

/-- After a promotion another one finds nothing to do. -/
theorem Promoted.again {result again : EdgeMap × Nat} (h : Promoted split edges result)
    (hagain : Promoted split result.1 again) : again.2 = 0 ∧ again.1.Same result.1 := by
  refine ⟨?_, hagain.keys, ?_⟩
  · rw [hagain.count, h.toEdges, List.countP_map, List.countP_eq_zero]
    intro edge _
    simp [localizes_localize]
  · rw [hagain.toEdges, h.toEdges, List.map_map]
    refine List.map_congr_left fun edge _ => ?_
    exact localize_localize split edge

/-- Detection lists exactly the packages that several modules have classes in, and promotion makes
exactly the edges between partners local, counts the change, and is done after one run. -/
theorem promotes_detected (modules : List (ModuleId × Packages)) (edges : EdgeMap) :
    ∃ promoted count again,
      (detect modules).promoteEdges edges = (promoted, count) ∧
      (detect modules).promoteEdges promoted = (again, 0) ∧
      Detected modules (detect modules) ∧
      Promoted (detect modules) edges (promoted, count) ∧
      again.Same promoted := by
  have hfirst := promoted_promoteEdges (detect modules) edges
  have hsecond := promoted_promoteEdges (detect modules) ((detect modules).promoteEdges edges).1
  obtain ⟨hzero, hsame⟩ := hfirst.again hsecond
  exact ⟨_, _, _, rfl, Prod.ext rfl hzero, detected_detect modules, hfirst, hsame⟩

end SplitPackages

end ModuleGraph
