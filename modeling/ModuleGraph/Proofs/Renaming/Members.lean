import ModuleGraph.Proofs.Renaming.Partitions
import ModuleGraph.Resolution.Build

/-!
# Members up to the numbers of classes

Links, trees and groups do not depend on what modules hold, so they are the same in two tables that
are the same up to a renaming. A member passes on what it holds, whatever the numbers. Hence merging
the members keeps the tables the same up to the renaming (`Partition.Renamed.alike_mergeMembers`).
-/

namespace ModuleGraph

variable {σ : Equiv.Perm ClassId}

theorem Module.Renamed.absorb {m n child child' : Module} (h : m.Renamed σ n)
    (hchild : child.Renamed σ child') : (m.absorb child).Renamed σ (n.absorb child') where
  outline_eq := h.outline_eq
  mem_classes c := by
    simp only [Module.absorb, Std.TreeSet.mem_insertMany_list, List.contains_iff_mem,
      Std.TreeSet.mem_toList, h.mem_classes, hchild.mem_classes]
  mem_resources i := by
    simp only [Module.absorb, Std.TreeSet.mem_insertMany_list, List.contains_iff_mem,
      Std.TreeSet.mem_toList, h.mem_resources, hchild.mem_resources]
  mem_unresolved c d := by
    simp only [Module.absorb, Std.TreeSet.mem_insertMany_list, List.contains_iff_mem,
      Std.TreeSet.mem_toList, h.mem_unresolved, hchild.mem_unresolved]

namespace ModuleTable.Renamed

variable {t u : ModuleTable} {id root : ModuleId}

/-! ## Links -/

theorem parent_eq (h : t.Renamed σ u) (id : ModuleId) :
    (u.get? id).bind (·.parent) = (t.get? id).bind (·.parent) := by
  have hbind (x : Option Module) : x.bind (·.parent) = x.elim none (·.parent) := by cases x <;> rfl
  rw [hbind, hbind]
  exact h.elim_eq none (·.parent) (fun _ => rfl) id

theorem alike_link (h : t.Renamed σ u) (parent : ModuleId) (name : String) :
    Alike (Renamed σ) (t.link parent name) (u.link parent name) := by
  unfold link
  rw [h.require_eq, h.name_eq]
  refine Alike.bind_same _ fun child => ?_
  dsimp only
  split_ifs
  · exact .error
  · rw [h.parent_eq]
    split
    · exact .error
    · have hchild := h.change child (f := fun m => { m with parent := some parent })
        (fun _ => rfl) (fun _ => rfl) (fun _ => rfl) (fun _ => rfl)
      exact hchild.change parent (f := fun m => { m with members := m.members ++ [child] })
        (fun _ => rfl) (fun _ => rfl) (fun _ => rfl) (fun _ => rfl)

theorem linkAll (h : t.Renamed σ u) (links : List (ModuleId × String)) :
    (t.linkAll links).1.Renamed σ (u.linkAll links).1 ∧
      Alike (fun _ _ => True) (t.linkAll links).2 (u.linkAll links).2 := by
  induction links generalizing t u with
  | nil => exact ⟨h, trivial⟩
  | cons link links ih =>
    obtain ⟨parent, name⟩ := link
    have halike := h.alike_link parent name
    rw [ModuleTable.linkAll, ModuleTable.linkAll]
    generalize t.link parent name = x at *
    generalize u.link parent name = y at *
    cases x with
    | ok t' =>
      cases y with
      | ok u' => exact ih halike
      | error e => exact halike.elim
    | error e =>
      cases y with
      | ok u' => exact halike.elim
      | error e' => exact ⟨h, trivial⟩

theorem linkMembers (h : t.Renamed σ u) :
    t.linkMembers.1.Renamed σ u.linkMembers.1 ∧
      Alike (fun _ _ => True) t.linkMembers.2 u.linkMembers.2 := by
  have hdeclared : u.declaredMembers = t.declaredMembers := by
    unfold declaredMembers
    rw [h.ids_eq]
    refine congrArg (List.flatMap · _) (funext fun id => ?_)
    rw [h.elim_eq [] (·.spec.members) (fun _ => rfl)]
  unfold ModuleTable.linkMembers
  rw [hdeclared]
  exact h.linkAll _

/-! ## Trees -/

theorem roots_eq (h : t.Renamed σ u) : u.roots = t.roots := by
  unfold roots
  rw [h.ids_eq]
  exact List.filter_congr fun id _ => h.any_eq (·.parent.isNone) (fun _ => rfl) id

theorem treeBelow_eq (h : t.Renamed σ u) (depth : Nat) (id : ModuleId) :
    u.treeBelow depth id = t.treeBelow depth id := by
  induction depth generalizing id with
  | zero => rfl
  | succ depth ih =>
    have hbelow : u.treeBelow depth = t.treeBelow depth := funext ih
    rw [treeBelow, treeBelow, h.members_eq, hbelow]

theorem tree_eq (h : t.Renamed σ u) (root : ModuleId) : u.tree root = t.tree root := by
  unfold tree
  rw [h.size_eq, h.treeBelow_eq]

theorem walk_eq (h : t.Renamed σ u) : u.walk = t.walk := by
  unfold walk
  rw [h.roots_eq]
  exact congrArg (List.flatMap · _) (funext h.tree_eq)

theorem stray?_eq (h : t.Renamed σ u) : u.stray? = t.stray? := by
  unfold stray?
  rw [h.walk_eq, h.ids_eq]

/-! ## Groups and contents -/

theorem joinGroup (h : t.Renamed σ u) (root id : ModuleId) :
    (t.joinGroup root id).Renamed σ (u.joinGroup root id) := by
  have hbase : u.isBase = t.isBase := funext h.isBase_eq
  unfold ModuleTable.joinGroup
  rw [h.parent_eq, hbase]
  split_ifs
  · exact h
  · exact h.change id (fun _ => rfl) (fun _ => rfl) (fun _ => rfl) (fun _ => rfl)

theorem assignGroups (h : t.Renamed σ u) : t.assignGroups.Renamed σ u.assignGroups := by
  have htree : u.tree = t.tree := funext h.tree_eq
  unfold ModuleTable.assignGroups
  rw [h.roots_eq, htree]
  refine List.foldl_rel h fun root _ t' u' h' => ?_
  exact List.foldl_rel h' fun id _ t'' u'' h'' => h''.joinGroup root id

theorem passToParent (h : t.Renamed σ u) (id : ModuleId) :
    (t.passToParent id).Renamed σ (u.passToParent id) := by
  have hid := h.modules id
  unfold ModuleTable.passToParent
  generalize t.get? id = x at *
  generalize u.get? id = y at *
  cases hid with
  | some hmn =>
    rename_i m n
    have hparent : n.parent = m.parent := congrArg (·.parent) hmn.outline_eq
    dsimp only
    rw [hparent]
    split
    · exact h
    · exact h.modify _ fun m' n' hmn' => hmn'.absorb hmn
  | none => exact h

theorem mergeContents (h : t.Renamed σ u) : t.mergeContents.Renamed σ u.mergeContents := by
  unfold ModuleTable.mergeContents
  rw [h.walk_eq]
  exact List.foldl_rel h fun id _ t' u' h' => h'.passToParent id

theorem buildMembers (h : t.Renamed σ u) (merge : Bool) :
    (t.buildMembers merge).1.Renamed σ (u.buildMembers merge).1 ∧
      Alike (fun _ _ => True) (t.buildMembers merge).2 (u.buildMembers merge).2 := by
  obtain ⟨hlinked, halike⟩ := h.linkMembers
  unfold ModuleTable.buildMembers
  generalize t.linkMembers = x at *
  generalize u.linkMembers = y at *
  obtain ⟨t', result⟩ := x
  obtain ⟨u', result'⟩ := y
  dsimp only at *
  cases result with
  | error e =>
    cases result' with
    | ok _ => exact halike.elim
    | error e' => exact ⟨hlinked, trivial⟩
  | ok _ =>
    cases result' with
    | error e' => exact halike.elim
    | ok _ =>
      dsimp only
      have hgroups : (if merge then t'.assignGroups else t').Renamed σ
          (if merge then u'.assignGroups else u') := by
        split_ifs
        · exact hlinked.assignGroups
        · exact hlinked
      rw [hgroups.stray?_eq]
      split
      · exact ⟨hgroups, trivial⟩
      · refine ⟨?_, trivial⟩
        split_ifs at hgroups ⊢
        · exact hgroups.mergeContents
        · exact hgroups

end ModuleTable.Renamed

theorem Partition.Renamed.alike_mergeMembers {p q : Partition} (h : p.Renamed σ q)
    (plan : BuildPlan) :
    Alike (fun r s => r.Renamed σ s) (plan.mergeMembers p) (plan.mergeMembers q) := by
  obtain ⟨htable, halike⟩ := h.table.buildMembers plan.options.merge
  unfold BuildPlan.mergeMembers
  generalize p.table.buildMembers plan.options.merge = x at *
  generalize q.table.buildMembers plan.options.merge = y at *
  obtain ⟨t, result⟩ := x
  obtain ⟨u, result'⟩ := y
  cases result with
  | error e =>
    cases result' with
    | ok _ => exact halike.elim
    | error e' => exact .error
  | ok _ =>
    cases result' with
    | error e' => exact halike.elim
    | ok _ => exact ⟨h.registry, htable⟩

end ModuleGraph
