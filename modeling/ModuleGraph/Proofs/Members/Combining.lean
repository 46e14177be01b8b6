import ModuleGraph.Proofs.Members.Declarations

/-!
# What the merging of members amounts to

Links are made in the order of the declarations, modules become foundational parents first, and
contents are passed on members first. None of these orders shows in the result: it is told by the
declarations alone (`ModuleTable.Combines`). Parents and members mirror the declarations, the group
of a module is the end of its chain of parents, a module holds what it and its descendants held, and
is foundational if it or a module above it was.

* `ModuleTable.Linked.isBase_assignGroups`: foundations, through the walk from parents to members.
* `ModuleTable.Unlinked.combines`: the result of a merge.
* `ModuleTable.Unlinked.linksOnly`: the result without one.
-/

namespace ModuleGraph

/-- The part of a module that the merging of members never changes. -/
def Module.frame (m : Module) : ModuleSpec × List Requirement × List String :=
  (m.spec, m.extraRequires, m.extraPermits)

namespace ModuleTable

variable {t t' t'' : ModuleTable} {n : Nat} {a p r x y : ModuleId} {m : Module}

/-! ## Foundations -/

theorem SameBut.isBase_eq (h : t.SameBut (·.isBase) t') (x : ModuleId) :
    t'.isBase x = t.isBase x := by
  have hx := congrArg (Option.any id) (h.get? x)
  simp only [Option.any_map] at hx
  exact hx

theorem isBase_joinGroup (hy : y < t.size) :
    (joinGroup r t x).isBase y =
      if y = x ∧ x ≠ r then t.isBase x || (t.parentOf x).any t.isBase else t.isBase y := by
  unfold joinGroup
  by_cases hxr : x = r
  · simp [hxr]
  · by_cases hyx : y = x
    · subst hyx
      obtain ⟨m, hm⟩ := exists_get? hy
      simp [hxr, isBase, parentOf, hm]
    · rw [if_neg hxr, if_neg fun h => hyx h.1, isBase, get?_modify_of_ne _ (Ne.symm hyx), isBase]

/-- The module or one above it is foundational. -/
def OnBase (t : ModuleTable) (x : ModuleId) : Prop :=
  ∃ n a, t.Climbs n x a ∧ t.isBase a

theorem onBase_iff :
    t.OnBase x ↔ t.isBase x ∨ ∃ p, t.parentOf x = some p ∧ t.OnBase p := by
  constructor
  · intro h
    obtain ⟨n, a, hclimb, ha⟩ := h
    cases hclimb with
    | refl => exact .inl ha
    | step hp hclimb => exact .inr ⟨_, hp, _, a, hclimb, ha⟩
  · intro h
    rcases h with hx | ⟨p, hp, n, a, hclimb, ha⟩
    · exact ⟨0, x, .refl x, hx⟩
    · exact ⟨n + 1, a, .step hp hclimb, ha⟩

/-- The modules in `done` have become foundational if a module above them is. -/
structure Founded (t : ModuleTable) (done : List ModuleId) (t' : ModuleTable) : Prop where
  same : t.SameBut Module.ungrouped t'
  isBase_iff : ∀ y < t.size, (t'.isBase y ↔ if y ∈ done then t.OnBase y else t.isBase y)

/-- A module joins after its parent. -/
theorem Linked.founded_step (ht : t.Linked) {done : List ModuleId} (h : t.Founded done t')
    (hr : t.parentOf r = none) (hx : x < t.size)
    (hparent : ∀ p, t.parentOf x = some p → p ∈ done) :
    t.Founded (done ++ [x]) (joinGroup r t' x) := by
  refine ⟨h.same.trans (sameBut_joinGroup r t' x), fun y hy => ?_⟩
  rw [isBase_joinGroup (h.same.size ▸ hy), (h.same.less (·.parent)).parentOf_eq]
  by_cases hyx : y = x
  · subst hyx
    rw [if_pos (List.mem_append_right _ (List.mem_singleton.2 rfl))]
    have hself := h.isBase_iff y hy
    have hsound : t'.isBase y → t.OnBase y := by
      rw [hself]
      split_ifs
      · exact id
      · exact fun hbase => onBase_iff.2 (.inl hbase)
    have hkept : t.isBase y → t'.isBase y := by
      rw [hself]
      split_ifs
      · exact fun hbase => onBase_iff.2 (.inl hbase)
      · exact id
    cases hp : t.parentOf y with
    | none =>
      -- a module without a parent is foundational only by itself
      rw [Option.any_none, Bool.or_false, ite_self]
      refine ⟨hsound, fun hon => ?_⟩
      rcases onBase_iff.1 hon with hbase | ⟨p, hp', -⟩
      · exact hkept hbase
      · rw [hp] at hp'
        cases hp'
    | some p =>
      have hne : y ≠ r := by
        intro heq
        rw [heq, hr] at hp
        cases hp
      have hbase := h.isBase_iff p (ht.parent_lt hp)
      rw [if_pos (hparent p hp)] at hbase
      rw [if_pos ⟨rfl, hne⟩, Option.any_some, Bool.or_eq_true, hbase]
      constructor
      · intro hor
        rcases hor with hy' | hon
        · exact hsound hy'
        · exact onBase_iff.2 (.inr ⟨p, hp, hon⟩)
      · intro hon
        rcases onBase_iff.1 hon with hy' | ⟨q, hq, hon⟩
        · exact .inl (hkept hy')
        · cases hp.symm.trans hq
          exact .inr hon
  · rw [if_neg fun hboth => hyx hboth.1, h.isBase_iff y hy]
    simp [hyx]

/-- In the tree of a root, read backwards, every module comes after its parent. -/
theorem Linked.parent_before (ht : t.Linked) (hr : r ∈ t.roots) {before after : List ModuleId}
    (htree : (t.tree r).reverse = before ++ x :: after) (hp : t.parentOf x = some p) :
    p ∈ before := by
  have hroot := (mem_roots.1 hr).2
  have hmem {y : ModuleId} : y ∈ t.tree r ↔ y ∈ before ++ x :: after := by
    rw [← htree, List.mem_reverse]
  have hx : x ∈ t.tree r := hmem.2 (List.mem_append_right _ List.mem_cons_self)
  obtain ⟨k, hk, hclimb⟩ := ht.mem_tree.1 hx
  -- the chain from `x` to the root goes through the parent
  cases hclimb with
  | refl =>
    rw [hp] at hroot
    cases hroot
  | @step k _ q _ hq hrest =>
    cases hp.symm.trans hq
    have hpmem : p ∈ before ++ x :: after := hmem.1 (ht.mem_tree.2 ⟨k, by omega, hrest⟩)
    have hpair : (before ++ x :: after).Pairwise fun a b => t.NotMember b a := by
      rw [← htree, List.pairwise_reverse]
      exact ht.pairwise_treeBelow hroot _ (.refl r)
    rcases List.mem_append.1 hpmem with hbefore | hafter
    · exact hbefore
    · rcases List.mem_cons.1 hafter with rfl | hafter
      · have hlevel := ((Climbs.step hp hrest).unique hrest hroot hroot).1
        omega
      · exact absurd hp ((List.pairwise_cons.1 (List.pairwise_append.1 hpair).2.1).1 p hafter)

theorem Linked.founded_tree (ht : t.Linked) (hr : r ∈ t.roots) {done : List ModuleId}
    (h : t.Founded done t') :
    t.Founded (done ++ (t.tree r).reverse) ((t.tree r).reverse.foldl (joinGroup r) t') := by
  have hroot := mem_roots.1 hr
  refine foldl_prefix (fun l => t.Founded (done ++ l)) [] (t.tree r).reverse t' (by simpa using h)
    fun before x after htree t'' h'' => ?_
  rw [List.nil_append] at htree
  have hx : x ∈ t.tree r := by
    rw [← List.mem_reverse, htree]
    simp
  obtain ⟨k, -, hclimb⟩ := ht.mem_tree.1 hx
  have hlt : x < t.size := by
    cases hclimb with
    | refl => exact hroot.1
    | step hp _ => exact lt_size_of_parentOf hp
  rw [← List.append_assoc]
  exact ht.founded_step h'' hroot.2 hlt fun p hp =>
    List.mem_append_right _ (ht.parent_before hr htree hp)

/-- A module becomes foundational exactly if it or a module above it is. -/
theorem Linked.isBase_assignGroups (ht : t.Linked) (hstray : t.stray? = none) (hx : x < t.size) :
    t.assignGroups.isBase x ↔ t.OnBase x := by
  have hfold : t.Founded (t.roots.flatMap fun r => (t.tree r).reverse) t.assignGroups := by
    refine foldl_prefix (fun done => t.Founded (done.flatMap fun r => (t.tree r).reverse)) []
      t.roots t ⟨.refl _ t, fun y _ => by simp⟩ fun before r after hroots t' h => ?_
    have hr : r ∈ t.roots := by
      rw [List.nil_append] at hroots
      simp [hroots]
    rw [List.flatMap_append, List.flatMap_singleton]
    exact ht.founded_tree hr h
  obtain ⟨r, hr, hxr⟩ := exists_root hstray hx
  rw [hfold.isBase_iff x hx, if_pos (List.mem_flatMap.2 ⟨r, hr, List.mem_reverse.2 hxr⟩)]

/-! ## The result of a merge -/

/-- The links of the second table mirror the declarations of the first one. -/
structure Mirrors (t t' : ModuleTable) : Prop where
  frame : t.SameBut Module.frame t'
  parentOf_iff : ∀ c p, t'.parentOf c = some p ↔ t.Declares p c
  /-- Members stand in the order of their declaration. -/
  members_eq : ∀ id m, t.get? id = some m →
    (t'.members id).map some = m.spec.members.map t.find

/-- The second table is the first one with its declared members merged. -/
structure Combines (t t' : ModuleTable) : Prop extends t.Mirrors t' where
  /-- The group is where the chain of parents ends. -/
  group_root : ∀ id < t.size, t.Below id (t'.group id) ∧ t'.parentOf (t'.group id) = none
  /-- A module holds what it and its descendants held. -/
  holds_iff : ∀ id item, t'.Holds id item ↔ ∃ x, t.Below x id ∧ t.Holds x item
  /-- A module is foundational if it or a module above it was. -/
  isBase_iff : ∀ id < t.size, (t'.isBase id ↔ ∃ a, t.Below id a ∧ t.isBase a)

/-- The second table is the first one with its declared links, and nothing else. -/
structure LinksOnly (t t' : ModuleTable) : Prop extends t.Mirrors t' where
  unlinked : t.SameBut Module.unlinked t'

theorem members_of_size_le (hx : t.size ≤ x) : t.members x = [] := by
  have hnone : t.get? x = none := by
    rw [← Option.not_isSome_iff_eq_none, isSome_get?_iff]
    exact Nat.not_lt_of_ge hx
  rw [members, hnone, Option.elim_none]

/-- Declarations leave no choice for the links. -/
theorem Mirrors.links_eq (h : t.Mirrors t') (h' : t.Mirrors t'') (id : ModuleId) :
    t''.parentOf id = t'.parentOf id ∧ t''.members id = t'.members id := by
  constructor
  · refine Option.ext fun p => ?_
    rw [h'.parentOf_iff, h.parentOf_iff]
  · rcases Nat.lt_or_ge id t.size with hlt | hge
    · obtain ⟨m, hm⟩ := exists_get? hlt
      refine List.map_injective_iff.2 (Option.some_injective _) ?_
      rw [h'.members_eq id m hm, h.members_eq id m hm]
    · rw [members_of_size_le (h'.frame.size ▸ hge), members_of_size_le (h.frame.size ▸ hge)]

theorem Unlinked.linksOnly_linkMembers (h : t.Unlinked) (hi : t.Indexed)
    (hok : t.linkMembers.2 = .ok ()) : t.LinksOnly t.linkMembers.1 := by
  obtain ⟨hlinking, hparent⟩ := h.linking hi hok
  refine ⟨⟨hlinking.same.less Module.frame, hparent, fun id m hm => ?_⟩, hlinking.same⟩
  rw [hlinking.members_eq, h.members_eq, filter_declaredMembers hm, List.map_nil, List.nil_append,
    List.map_map]
  rfl

/-- Without a merge, links are all that is made. -/
theorem Unlinked.linksOnly (h : t.Unlinked) (hi : t.Indexed)
    (hok : (t.buildMembers false).2 = .ok ()) : t.LinksOnly (t.buildMembers false).1 := by
  obtain ⟨hlinks, hstray⟩ := buildMembers_ok_iff_of_links.1 hok
  have heq : (t.buildMembers false).1 = t.linkMembers.1 := by
    unfold buildMembers
    generalize t.linkMembers = links at *
    obtain ⟨t', result⟩ := links
    cases hlinks
    simp only [Bool.false_eq_true, if_false] at hstray ⊢
    rw [hstray]
  rw [heq]
  exact h.linksOnly_linkMembers hi hlinks

theorem fst_buildMembers_of_ok (hok : (t.buildMembers true).2 = .ok ()) :
    (t.buildMembers true).1 = t.linkMembers.1.assignGroups.mergeContents := by
  obtain ⟨hlinks, hstray⟩ := buildMembers_ok_iff_of_links.1 hok
  unfold buildMembers
  generalize t.linkMembers = links at *
  obtain ⟨t', result⟩ := links
  cases hlinks
  simp only [if_true] at hstray ⊢
  rw [hstray]

/-- A merge that succeeds is told by the declarations. -/
theorem Unlinked.combines (h : t.Unlinked) (hi : t.Indexed) (hself : ∀ y < t.size, t.group y = y)
    (hok : (t.buildMembers true).2 = .ok ()) : t.Combines (t.buildMembers true).1 := by
  obtain ⟨hlinks, hstray⟩ := buildMembers_ok_iff_of_links.1 hok
  rw [if_pos rfl] at hstray
  have hmirror := h.linksOnly_linkMembers hi hlinks
  have hl : t.linkMembers.1.Linked := (ends_linkMembers (linked_of_unlinked h) hi).1
  rw [fst_buildMembers_of_ok hok]
  generalize t.linkMembers.1 = l at *
  have hgroups := l.sameBut_assignGroups
  have hcontents := l.assignGroups.sameBut_mergeContents
  have hl' : l.assignGroups.Linked := hl.congr (hgroups.less fun m => (m.parent, m.members))
  have hlinked : l.SameBut (fun m => (m.parent, m.members)) l.assignGroups.mergeContents :=
    (hgroups.less fun m => (m.parent, m.members)).trans
      (hcontents.less fun m => (m.parent, m.members))
  have hparent (c : ModuleId) : l.assignGroups.mergeContents.parentOf c = l.parentOf c :=
    (hlinked.less Prod.fst).parentOf_eq c
  have hbelow {x a : ModuleId} : (∃ n, l.Climbs n x a) ↔ t.Below x a :=
    exists_climbs_iff hmirror.parentOf_iff
  have hlself : ∀ y < l.size, l.group y = y := fun y hy => by
    rw [(hmirror.unlinked.less (·.group)).group_eq]
    exact hself y (hmirror.unlinked.size ▸ hy)
  refine ⟨⟨?_, fun c p => ?_, fun id m hm => ?_⟩, fun id hid => ?_, fun id item => ?_,
    fun id hid => ?_⟩
  · exact ((hmirror.unlinked.less Module.frame).trans (hgroups.less Module.frame)).trans
      (hcontents.less Module.frame)
  · rw [hparent]
    exact hmirror.parentOf_iff c p
  · have hmembers := congrArg (Option.elim · [] Prod.snd) (hlinked.get? id)
    simp only [Option.elim_map] at hmembers
    rw [← hmirror.members_eq id m hm]
    exact congrArg (List.map some) hmembers
  · rw [(hcontents.less (·.group)).group_eq, hparent]
    obtain ⟨hclimbs, hroot⟩ := hl.climbs_group hlself hstray (hmirror.unlinked.size ▸ hid)
    exact ⟨hbelow.1 hclimbs, hroot⟩
  · rw [hl'.holds_mergeContents hstray]
    have hparent' := (hgroups.less (·.parent)).parentOf_eq
    have hheld (x : ModuleId) : l.assignGroups.Holds x item ↔ t.Holds x item :=
      (hgroups.less Module.contents).holds_iff.trans
        (hmirror.unlinked.less Module.contents).holds_iff
    constructor
    · intro hex
      obtain ⟨n, x, hclimb, hx⟩ := hex
      exact ⟨x, hbelow.1 ⟨n, hclimb.congr fun y => (hparent' y).symm⟩, (hheld x).1 hx⟩
    · intro hex
      obtain ⟨x, hx, hheldx⟩ := hex
      obtain ⟨n, hclimb⟩ := hbelow.2 hx
      exact ⟨n, x, hclimb.congr hparent', (hheld x).2 hheldx⟩
  · rw [(hcontents.less (·.isBase)).isBase_eq, hl.isBase_assignGroups
      (hl.stray?_assignGroups_eq_none_iff.1 hstray) (hmirror.unlinked.size ▸ hid)]
    have hbase := (hmirror.unlinked.less (·.isBase)).isBase_eq
    constructor
    · intro hon
      obtain ⟨n, a, hclimb, ha⟩ := hon
      exact ⟨a, hbelow.1 ⟨n, hclimb⟩, hbase a ▸ ha⟩
    · intro hex
      obtain ⟨a, hclimb, ha⟩ := hex
      obtain ⟨n, hn⟩ := hbelow.2 hclimb
      exact ⟨n, a, hn, (hbase a).symm ▸ ha⟩

/-- What one module only has claimed is held by that module and all above it. -/
theorem Combines.holds_iff_of_claimed (h : t.Combines t') {item : Item} {owner : ModuleId}
    (hclaimed : ∀ x, t.Holds x item ↔ x = owner) (id : ModuleId) :
    t'.Holds id item ↔ t.Below owner id := by
  rw [h.holds_iff]
  simp only [hclaimed]
  constructor
  · intro hex
    obtain ⟨x, hx, rfl⟩ := hex
    exact hx
  · intro howner
    exact ⟨owner, howner, rfl⟩

end ModuleTable

end ModuleGraph
