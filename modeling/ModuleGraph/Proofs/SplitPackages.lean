import ModuleGraph.Proofs.Packages
import ModuleGraph.SplitPackages

/-!
# Partners of split packages

Two modules are partners exactly if they are different and some package has classes in both
(`SplitPackages.mem_partners_detect`). Promotion makes the edges between partners local and leaves
everything else as it is (`SplitPackages.getElem?_promoteEdges`).
-/

namespace ModuleGraph

namespace SplitPackages

variable {modules : List (ModuleId × Packages)} {package : String} {X Y : ModuleId}

/-- A module of the list has classes in a package. -/
def Has (modules : List (ModuleId × Packages)) (X : ModuleId) (package : String) : Prop :=
  ∃ packages, (X, packages) ∈ modules ∧
    ∃ s ∈ packages.values, s.hasClasses = true ∧ s.name = package

/-! ## Holders -/

theorem mem_note {owners : Std.TreeMap String (Std.TreeSet ModuleId)} {name : String}
    {module : ModuleId} :
    X ∈ (note owners name module).getD package {} ↔
      X ∈ owners.getD package {} ∨ (name = package ∧ X = module) := by
  unfold note
  rw [Std.TreeMap.getD_insert]
  simp only [Std.LawfulEqCmp.compare_eq_iff_eq]
  split_ifs with hname
  · subst hname
    simp only [Std.TreeSet.mem_insert, Std.LawfulEqCmp.compare_eq_iff_eq, true_and]
    rw [or_comm, eq_comm]
  · simp [hname]

theorem mem_noteAll (summaries : List PackageSummary) (module : ModuleId)
    (owners : Std.TreeMap String (Std.TreeSet ModuleId)) :
    X ∈ (summaries.foldl (fun owners summary => note owners summary.name module)
        owners).getD package {} ↔
      X ∈ owners.getD package {} ∨ (X = module ∧ ∃ s ∈ summaries, s.name = package) := by
  induction summaries generalizing owners with
  | nil => simp
  | cons s summaries ih =>
    rw [List.foldl_cons, ih, mem_note, or_assoc]
    refine or_congr_right ?_
    rw [List.exists_mem_cons_iff, and_or_left, and_comm]

theorem mem_holdersFrom (owners : Std.TreeMap String (Std.TreeSet ModuleId)) :
    X ∈ (modules.foldl
        (fun owners (module, packages) =>
          (packages.values.filter (·.hasClasses)).foldl
            (fun owners summary => note owners summary.name module) owners)
        owners).getD package {} ↔
      X ∈ owners.getD package {} ∨ Has modules X package := by
  induction modules generalizing owners with
  | nil => simp [Has]
  | cons entry modules ih =>
    obtain ⟨module, packages⟩ := entry
    rw [List.foldl_cons, ih]
    dsimp only
    rw [mem_noteAll, or_assoc]
    refine or_congr_right ?_
    simp only [Has, List.mem_filter, List.mem_cons, Prod.mk.injEq, and_assoc]
    constructor
    · intro h
      rcases h with ⟨hX, hs⟩ | ⟨other, hmem, hs⟩
      · exact ⟨packages, .inl ⟨hX, rfl⟩, hs⟩
      · exact ⟨other, .inr hmem, hs⟩
    · intro h
      rcases h with ⟨other, ⟨hX, rfl⟩ | hmem, hs⟩
      · exact .inl ⟨hX, hs⟩
      · exact .inr ⟨other, hmem, hs⟩

/-- The holders of a package are the modules that have classes in it. -/
theorem mem_holders : X ∈ (holders modules).getD package {} ↔ Has modules X package := by
  unfold holders
  rw [mem_holdersFrom]
  simp

/-! ## Partners -/

theorem mem_insertOthers (others : List ModuleId) (partners : Std.TreeSet ModuleId) :
    Y ∈ others.foldl
        (fun partners other => if other = X then partners else partners.insert other) partners ↔
      Y ∈ partners ∨ (Y ∈ others ∧ Y ≠ X) := by
  induction others generalizing partners with
  | nil => simp
  | cons other others ih =>
    rw [List.foldl_cons, ih, List.mem_cons]
    by_cases hX : other = X
    · rw [if_pos hX]
      refine or_congr_right ?_
      constructor
      · intro h
        exact ⟨.inr h.1, h.2⟩
      · intro h
        rcases h with ⟨rfl | hY, hne⟩
        · exact absurd hX hne
        · exact ⟨hY, hne⟩
    · rw [if_neg hX]
      simp only [Std.TreeSet.mem_insert, Std.LawfulEqCmp.compare_eq_iff_eq]
      constructor
      · intro h
        rcases h with (heq | hY) | ⟨hY, hne⟩
        · exact .inr ⟨.inl heq.symm, fun h => hX (heq.trans h)⟩
        · exact .inl hY
        · exact .inr ⟨.inr hY, hne⟩
      · intro h
        rcases h with hY | ⟨heq | hY, hne⟩
        · exact .inl (.inr hY)
        · exact .inl (.inl heq.symm)
        · exact .inr ⟨hY, hne⟩

theorem mem_partnersFrom (groups : List (Std.TreeSet ModuleId)) (partners : Std.TreeSet ModuleId) :
    Y ∈ groups.foldl
        (fun partners owners =>
          if owners.contains X then
            owners.toList.foldl
              (fun partners other => if other = X then partners else partners.insert other)
              partners
          else partners)
        partners ↔
      Y ∈ partners ∨ ∃ owners ∈ groups, X ∈ owners ∧ Y ∈ owners ∧ Y ≠ X := by
  induction groups generalizing partners with
  | nil => simp
  | cons owners groups ih =>
    rw [List.foldl_cons, ih, List.exists_mem_cons_iff, ← or_assoc]
    refine or_congr_left ?_
    split_ifs with hX
    · rw [mem_insertOthers, Std.TreeSet.mem_toList]
      simp [Std.TreeSet.contains_iff_mem.1 hX]
    · have hX' : X ∉ owners := fun h => hX (Std.TreeSet.contains_iff_mem.2 h)
      simp [hX']

theorem mem_partners {split : SplitPackages} :
    Y ∈ split.partners X ↔
      Y ≠ X ∧ ∃ (package : String) (owners : Std.TreeSet ModuleId),
        split.owners[package]? = some owners ∧ X ∈ owners ∧ Y ∈ owners := by
  unfold partners
  rw [mem_partnersFrom]
  simp only [mem_treeMap_values]
  constructor
  · intro h
    rcases h with h | ⟨owners, ⟨package, hget⟩, hX, hY, hne⟩
    · simp at h
    · exact ⟨hne, package, owners, hget, hX, hY⟩
  · intro h
    obtain ⟨hne, package, owners, hget, hX, hY⟩ := h
    exact .inr ⟨owners, ⟨package, hget⟩, hX, hY, hne⟩

/-- Partners are different modules with classes in a common package. -/
theorem mem_partners_detect :
    Y ∈ (detect modules).partners X ↔
      Y ≠ X ∧ ∃ package, Has modules X package ∧ Has modules Y package := by
  rw [mem_partners]
  refine and_congr_right fun hne => exists_congr fun package => ?_
  unfold detect
  dsimp only
  rw [Std.TreeMap.getElem?_filter', ← mem_holders, ← mem_holders]
  simp only [Std.TreeMap.getD_eq_getD_getElem?]
  cases hget : (holders modules)[package]? with
  | none => simp
  | some owners =>
    simp only [Option.getD_some, Option.filter_eq_some_iff, Option.some.injEq]
    constructor
    · intro h
      obtain ⟨_, ⟨rfl, -⟩, hX, hY⟩ := h
      exact ⟨hX, hY⟩
    · intro h
      obtain ⟨hX, hY⟩ := h
      refine ⟨owners, ⟨rfl, ?_⟩, hX, hY⟩
      have hsize := one_lt_treeSet_size hX hY (Ne.symm hne)
      simpa using hsize

/-! ## Promotion -/

/-- The dependence, local if the condition holds. -/
def promoteIf (condition : Prop) [Decidable condition] (dep : Dependence) : Dependence :=
  if condition then dep.promote.1 else dep

theorem getElem?_promoteEdge (state : Dependences × Nat) (partner : ModuleId) (D : ModuleId) :
    (promoteEdge state partner).1[D]? = state.1[D]?.map (promoteIf (D = partner)) := by
  unfold promoteEdge promoteIf
  cases hp : state.1[partner]? with
  | none =>
    by_cases hD : D = partner
    · rw [hD, hp]
      rfl
    · simp [hD]
  | some dep =>
    dsimp only
    rw [treeMap_getElem?_insert]
    by_cases hD : D = partner
    · subst hD
      simp [hp]
    · rw [if_neg (Ne.symm hD)]
      simp [hD]

theorem getElem?_foldl_promoteEdge (partners : List ModuleId) (state : Dependences × Nat)
    (D : ModuleId) :
    (partners.foldl promoteEdge state).1[D]? = state.1[D]?.map (promoteIf (D ∈ partners)) := by
  induction partners generalizing state with
  | nil =>
    unfold promoteIf
    simp
  | cons partner partners ih =>
    rw [List.foldl_cons, ih, getElem?_promoteEdge, Option.map_map]
    congr 1
    funext dep
    -- a second promotion changes nothing
    unfold promoteIf
    by_cases hD : D = partner
    · simp [hD, Dependence.promote]
    · simp [hD]

/-- The dependences of a module with the edges to its partners made local. -/
def promoted (split : SplitPackages) (X : ModuleId) (deps : Dependences) : Dependences :=
  ((split.partners X).toList.foldl promoteEdge (deps, 0)).1

theorem getElem?_promoted (split : SplitPackages) (X : ModuleId) (deps : Dependences)
    (D : ModuleId) :
    (split.promoted X deps)[D]? = deps[D]?.map (promoteIf (D ∈ split.partners X)) := by
  unfold promoted
  rw [getElem?_foldl_promoteEdge]
  congr 1
  unfold promoteIf
  funext dep
  simp only [Std.TreeSet.mem_toList]

theorem foldl_promoteEdge_fst (partners : List ModuleId) (deps : Dependences) (n k : Nat) :
    (partners.foldl promoteEdge (deps, n)).1 = (partners.foldl promoteEdge (deps, k)).1 := by
  induction partners generalizing deps n k with
  | nil => rfl
  | cons partner partners ih =>
    rw [List.foldl_cons, List.foldl_cons]
    unfold promoteEdge
    dsimp only
    cases deps[partner]? with
    | none => exact ih _ _ _
    | some dep => exact ih _ _ _

/-- Promotion goes requester by requester. -/
theorem getElem?_promoteEdges (split : SplitPackages) (edges : EdgeMap) (X : ModuleId) :
    (split.promoteEdges edges).1[X]? = edges[X]?.map (split.promoted X) := by
  unfold promoteEdges
  refine treeMap_foldl_insert Prod.fst (fun s X deps => ?_) edges rfl X
  obtain ⟨result, count⟩ := s
  show Std.TreeMap.insert result X _ = Std.TreeMap.insert result X _
  rw [promoted, foldl_promoteEdge_fst _ _ 0 count]

end SplitPackages

end ModuleGraph
