import ModuleGraph.Proofs.Members.Links

/-!
# Trees of members

In a linked table every module has at most one chain of parents. So the trees of the roots are
disjoint, and a module has one level in its tree. The walk through all trees is therefore sound
without a bound on their depth: `ModuleTable.Linked.pairwise_walk` says that no module comes before
a member of its, however deep the trees are cut off.

* `ModuleTable.Climbs`: a number of links leads from a module up to another one.
* `ModuleTable.Linked.mem_tree_iff`: what the tree of a root lists.
* `ModuleTable.stray?_eq_none_iff`: no module is outside all trees.
-/

namespace ModuleGraph

namespace ModuleTable

variable {t t' : ModuleTable} {n k : Nat} {a b c d r s x : ModuleId}

/-! ## Chains of parents -/

/-- `n` links lead from the first module up to the second one. -/
inductive Climbs (t : ModuleTable) : Nat → ModuleId → ModuleId → Prop where
  | refl (x : ModuleId) : Climbs t 0 x x
  | step {n : Nat} {x p a : ModuleId} :
      t.parentOf x = some p → Climbs t n p a → Climbs t (n + 1) x a

theorem Climbs.trans (h₁ : t.Climbs n a b) (h₂ : t.Climbs k b c) : t.Climbs (n + k) a c := by
  induction h₁ with
  | refl => rwa [Nat.zero_add]
  | step hp _ ih =>
    rw [Nat.add_right_comm]
    exact .step hp (ih h₂)

theorem climbs_one (h : t.parentOf c = some a) : t.Climbs 1 c a :=
  .step h (.refl a)

/-- The last link of a chain, which leads from a member of the upper end. -/
theorem climbs_succ_iff :
    t.Climbs (n + 1) x a ↔ ∃ c, t.parentOf c = some a ∧ t.Climbs n x c := by
  constructor
  · intro h
    induction n generalizing x with
    | zero =>
      cases h with
      | step hp h =>
        cases h
        exact ⟨x, hp, .refl x⟩
    | succ n ih =>
      cases h with
      | step hp h =>
        obtain ⟨c, hc, hxc⟩ := ih h
        exact ⟨c, hc, .step hp hxc⟩
  · intro hex
    obtain ⟨c, hc, hxc⟩ := hex
    exact hxc.trans (climbs_one hc)

/-- Chains that end at modules without a parent are one chain. -/
theorem Climbs.unique (h₁ : t.Climbs n x r) (h₂ : t.Climbs k x s) (hr : t.parentOf r = none)
    (hs : t.parentOf s = none) : n = k ∧ r = s := by
  induction h₁ generalizing k with
  | refl x =>
    cases h₂ with
    | refl => exact ⟨rfl, rfl⟩
    | step hp _ =>
      rw [hr] at hp
      cases hp
  | step hp _ ih =>
    cases h₂ with
    | refl =>
      rw [hs] at hp
      cases hp
    | step hp' h₂ =>
      rw [hp] at hp'
      cases hp'
      obtain ⟨hn, ha⟩ := ih h₂ hr
      exact ⟨congrArg (· + 1) hn, ha⟩

/-- Of two modules at the same height over a third one, one is the other. -/
theorem Climbs.eq_of_same_height (h₁ : t.Climbs n x a) (h₂ : t.Climbs n x b) : a = b := by
  induction h₁ with
  | refl x => cases h₂; rfl
  | step hp _ ih =>
    cases h₂ with
    | step hp' h₂ =>
      rw [hp] at hp'
      cases hp'
      exact ih h₂

theorem Climbs.congr (h : t.Climbs n x a) (hparent : ∀ y, t'.parentOf y = t.parentOf y) :
    t'.Climbs n x a := by
  induction h with
  | refl x => exact .refl x
  | step hp _ ih => exact .step ((hparent _).trans hp) ih

/-- No link leads up from a module without a parent. -/
theorem Climbs.eq_of_root (h : t.Climbs n x a) (hx : t.parentOf x = none) : x = a := by
  cases h with
  | refl => rfl
  | step hp _ =>
    rw [hx] at hp
    cases hp

theorem Climbs.lt_size (h : t.Climbs n x a) (ht : t.Linked) (hx : x < t.size) : a < t.size := by
  induction h with
  | refl => exact hx
  | step hp _ ih => exact ih (ht.parent_lt hp)

/-! ## Trees -/

theorem Linked.mem_treeBelow (ht : t.Linked) :
    x ∈ t.treeBelow n a ↔ ∃ k < n, t.Climbs k x a := by
  induction n generalizing a with
  | zero => simp [treeBelow]
  | succ n ih =>
    rw [treeBelow, List.mem_append, List.mem_flatMap, List.mem_singleton]
    constructor
    · intro hor
      rcases hor with ⟨c, hc, hx⟩ | rfl
      · obtain ⟨k, hk, hxc⟩ := ih.1 hx
        exact ⟨k + 1, Nat.succ_lt_succ hk, climbs_succ_iff.2 ⟨c, ht.mem_members.1 hc, hxc⟩⟩
      · exact ⟨0, Nat.succ_pos n, .refl x⟩
    · intro hex
      obtain ⟨k, hk, hxa⟩ := hex
      cases k with
      | zero => cases hxa; exact .inr rfl
      | succ k =>
        obtain ⟨c, hc, hxc⟩ := climbs_succ_iff.1 hxa
        exact .inl ⟨c, ht.mem_members.2 hc, ih.2 ⟨k, Nat.lt_of_succ_lt_succ hk, hxc⟩⟩

theorem mem_roots : r ∈ t.roots ↔ r < t.size ∧ t.parentOf r = none := by
  rw [roots, List.mem_filter, mem_ids]
  constructor
  · intro hex
    obtain ⟨hr, hnone⟩ := hex
    obtain ⟨m, hm⟩ := exists_get? hr
    rw [hm, Option.any_some, Option.isNone_iff_eq_none] at hnone
    exact ⟨hr, (parentOf_of_get? hm).trans hnone⟩
  · intro hex
    obtain ⟨hr, hnone⟩ := hex
    obtain ⟨m, hm⟩ := exists_get? hr
    rw [parentOf_of_get? hm] at hnone
    exact ⟨hr, by rw [hm, Option.any_some, hnone]; rfl⟩

theorem nodup_roots (t : ModuleTable) : t.roots.Nodup :=
  List.nodup_range.filter _

theorem Linked.mem_tree (ht : t.Linked) : x ∈ t.tree a ↔ ∃ k < t.size, t.Climbs k x a :=
  ht.mem_treeBelow

/-- Each module is in the tree of one root at most. -/
theorem Linked.root_unique (ht : t.Linked) (hr : r ∈ t.roots) (hs : s ∈ t.roots)
    (hxr : x ∈ t.tree r) (hxs : x ∈ t.tree s) : r = s := by
  obtain ⟨n, -, hn⟩ := ht.mem_tree.1 hxr
  obtain ⟨k, -, hk⟩ := ht.mem_tree.1 hxs
  exact (hn.unique hk (mem_roots.1 hr).2 (mem_roots.1 hs).2).2

/-! ## The walk -/

/-- The second module is not a member of the first one. -/
def NotMember (t : ModuleTable) (a b : ModuleId) : Prop :=
  t.parentOf b ≠ some a

/-- The second module is neither the first one nor below it. -/
def NotBelow (t : ModuleTable) (a b : ModuleId) : Prop :=
  ∀ n, ¬t.Climbs n b a

theorem NotBelow.notMember (h : t.NotBelow a b) : t.NotMember a b :=
  fun hp => h 1 (climbs_one hp)

theorem NotBelow.ne (h : t.NotBelow a b) : a ≠ b := by
  rintro rfl
  exact h 0 (.refl a)

/-- Below a module that some chain leads from to a root, no module comes before itself or before one
that is below it. -/
theorem Linked.notBelow_treeBelow (ht : t.Linked) (hr : t.parentOf r = none) :
    ∀ (n : Nat) {k : Nat} {a : ModuleId}, t.Climbs k a r →
      (t.treeBelow n a).Pairwise t.NotBelow
  | 0, _, _, _ => .nil
  | n + 1, k, a, hka => by
    have hbelow {c : ModuleId} (hc : c ∈ t.members a) : t.Climbs (1 + k) c r :=
      (climbs_one (ht.mem_members.1 hc)).trans hka
    rw [treeBelow, List.pairwise_append, List.pairwise_flatMap]
    refine ⟨⟨fun c hc => ?_, ?_⟩, List.pairwise_singleton _ _, ?_⟩
    · exact ht.notBelow_treeBelow hr n (hbelow hc)
    · -- a module below another one, in the trees of two siblings, would join these trees
      refine (List.nodup_iff_pairwise_ne.1 (ht.nodup_members a)).imp_of_mem
        fun {c d} hc hd hne x hx y hy l hxy => hne ?_
      obtain ⟨i, -, hi⟩ := ht.mem_treeBelow.1 hx
      obtain ⟨j, -, hj⟩ := ht.mem_treeBelow.1 hy
      have hyc : t.Climbs (l + i) y c := hxy.trans hi
      have hheight := ((hyc.trans (hbelow hc)).unique (hj.trans (hbelow hd)) hr hr).1
      have hij : l + i = j := by omega
      subst hij
      exact hyc.eq_of_same_height hj
    · -- a chain that comes back to `a` would give `a` two levels
      intro x hx y hy l hxy
      rw [List.mem_singleton] at hy
      subst hy
      obtain ⟨c, hc, hxc⟩ := List.mem_flatMap.1 hx
      obtain ⟨i, -, hi⟩ := ht.mem_treeBelow.1 hxc
      have hcycle := hxy.trans (hi.trans (hbelow hc))
      have hlevel := (hcycle.unique hka hr hr).1
      omega

/-- Below such a module, no module comes before its members. -/
theorem Linked.pairwise_treeBelow (ht : t.Linked) (hr : t.parentOf r = none) (n : Nat)
    (ha : t.Climbs k a r) : (t.treeBelow n a).Pairwise t.NotMember :=
  (ht.notBelow_treeBelow hr n ha).imp NotBelow.notMember

/-- In the walk through all trees no module comes before itself or before one that is below it. -/
theorem Linked.notBelow_walk (ht : t.Linked) : t.walk.Pairwise t.NotBelow := by
  rw [walk, List.pairwise_flatMap]
  constructor
  · intro r hr
    exact ht.notBelow_treeBelow (mem_roots.1 hr).2 _ (.refl r)
  · refine (List.nodup_iff_pairwise_ne.1 t.nodup_roots).imp_of_mem
      fun {r s} hr hs hne x hx y hy n hxy => hne ?_
    obtain ⟨i, -, hi⟩ := ht.mem_tree.1 hx
    obtain ⟨j, -, hj⟩ := ht.mem_tree.1 hy
    have hyr := hxy.trans hi
    exact (hyr.unique hj (mem_roots.1 hr).2 (mem_roots.1 hs).2).2

/-- In the walk no module comes before its members. -/
theorem Linked.pairwise_walk (ht : t.Linked) : t.walk.Pairwise t.NotMember :=
  ht.notBelow_walk.imp NotBelow.notMember

/-- The walk comes to a module once at most. -/
theorem Linked.nodup_walk (ht : t.Linked) : t.walk.Nodup :=
  List.nodup_iff_pairwise_ne.2 (ht.notBelow_walk.imp NotBelow.ne)

theorem mem_walk : x ∈ t.walk ↔ ∃ r ∈ t.roots, x ∈ t.tree r :=
  List.mem_flatMap

theorem stray?_eq_none_iff : t.stray? = none ↔ ∀ x < t.size, x ∈ t.walk := by
  rw [stray?]
  simp only [List.find?_eq_none, mem_ids, Bool.not_eq_true, Bool.not_eq_false',
    Std.TreeSet.contains_ofList, List.contains_iff_mem]

/-- When a walk without strays comes to a module, it has been to its members. -/
theorem Linked.member_before (ht : t.Linked) (hstray : t.stray? = none)
    {before after : List ModuleId} (hwalk : t.walk = before ++ x :: after)
    (hc : t.parentOf c = some x) : c ∈ before := by
  have hmem : c ∈ t.walk := stray?_eq_none_iff.1 hstray c (lt_size_of_parentOf hc)
  have hpair := ht.pairwise_walk
  rw [hwalk] at hmem hpair
  rcases List.mem_append.1 hmem with hbefore | hafter
  · exact hbefore
  · have hx := (List.pairwise_cons.1 (List.pairwise_append.1 hpair).2.1).1
    rcases List.mem_cons.1 hafter with rfl | hafter
    · -- no module is its own parent, as it has one level only
      have hroot : ∃ r ∈ t.roots, c ∈ t.tree r := by
        apply mem_walk.1
        rw [hwalk]
        simp
      obtain ⟨r, hr, hcr⟩ := hroot
      obtain ⟨i, -, hi⟩ := ht.mem_tree.1 hcr
      have hlevel := (((climbs_one hc).trans hi).unique hi (mem_roots.1 hr).2 (mem_roots.1 hr).2).1
      omega
    · exact absurd hc (hx c hafter)

/-- Without strays, every module is in the tree of a root. -/
theorem exists_root (hstray : t.stray? = none) (hx : x < t.size) :
    ∃ r ∈ t.roots, x ∈ t.tree r :=
  mem_walk.1 (stray?_eq_none_iff.1 hstray x hx)

end ModuleTable

end ModuleGraph
