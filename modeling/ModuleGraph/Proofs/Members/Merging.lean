import ModuleGraph.Proofs.Members.Trees

/-!
# Groups and contents

After the merging of members, the root of each tree is the group of all modules of the tree, and
every module holds what the modules below it held before. As the trees are disjoint and leave no
module out, whatever a module held is held by its group, and by no other group.

* `ModuleTable.Linked.group_assignGroups`
* `ModuleTable.Linked.holds_mergeContents`
* `ModuleTable.ends_buildMembers` puts both together, and covers a build that does not merge.
-/

namespace ModuleGraph

/-- Something that a module can hold. -/
inductive Item where
  | unit (id : ClassId)
  | resource (id : ResourceId)
  | unresolved (reference : Reference)

namespace Module

/-- Whether the module holds an item. -/
def Holds (m : Module) : Item → Prop
  | .unit c => c ∈ m.classes
  | .resource r => r ∈ m.resources
  | .unresolved reference => reference ∈ m.unresolved

/-- What the module holds. -/
def contents (m : Module) : Std.TreeSet ClassId × Std.TreeSet ResourceId × References :=
  (m.classes, m.resources, m.unresolved)

/-- The module without group and foundation. -/
def ungrouped (m : Module) : Module :=
  { m with group := 0, isBase := false }

theorem holds_congr {m m' : Module} (h : m.contents = m'.contents) (item : Item) :
    m.Holds item ↔ m'.Holds item := by
  simp only [contents, Prod.mk.injEq] at h
  cases item with
  | unit c => rw [Holds, Holds, h.1]
  | resource r => rw [Holds, Holds, h.2.1]
  | unresolved reference => rw [Holds, Holds, h.2.2]

theorem not_holds_of_contents_eq {m : Module} (h : m.contents = ({}, {}, {})) (item : Item) :
    ¬ m.Holds item := by
  simp only [contents, Prod.mk.injEq] at h
  cases item with
  | unit c => simp [Holds, h.1]
  | resource r => simp [Holds, h.2.1]
  | unresolved reference => simp [Holds, h.2.2]

theorem isEmpty_of_mem_classes {m : Module} {c : ClassId} (h : c ∈ m.classes) :
    m.isEmpty = false := by
  have hclasses : m.classes.isEmpty = false :=
    Std.TreeSet.isEmpty_eq_false_iff_exists_mem.2 ⟨c, h⟩
  simp [isEmpty, hclasses]

theorem isEmpty_of_mem_resources {m : Module} {s : ResourceId} (h : s ∈ m.resources) :
    m.isEmpty = false := by
  have hresources : m.resources.isEmpty = false :=
    Std.TreeSet.isEmpty_eq_false_iff_exists_mem.2 ⟨s, h⟩
  simp [isEmpty, hresources]

@[simp] theorem holds_absorb (m child : Module) (item : Item) :
    (m.absorb child).Holds item ↔ m.Holds item ∨ child.Holds item := by
  cases item with
  | unit c => simp [Holds, absorb, Std.TreeSet.mem_insertMany_list]
  | resource r => simp [Holds, absorb, Std.TreeSet.mem_insertMany_list]
  | unresolved reference => simp [Holds, absorb, Std.TreeSet.mem_insertMany_list]

end Module

namespace ModuleTable

variable {t t' : ModuleTable} {n : Nat} {a r x y : ModuleId} {m : Module} {item : Item}

/-- Whether the module of a number holds an item. -/
def Holds (t : ModuleTable) (id : ModuleId) (item : Item) : Prop :=
  ∃ m, t.get? id = some m ∧ m.Holds item

theorem holds_of_get? (h : t.get? x = some m) : t.Holds x item ↔ m.Holds item := by
  simp [Holds, h]

theorem mem_classes {c : ClassId} : c ∈ t.classes x ↔ t.Holds x (.unit c) := by
  cases hm : t.get? x with
  | none => simp [classes, Holds, hm]
  | some m =>
    rw [classes_of_get? hm, holds_of_get? hm]
    exact Std.TreeSet.mem_toList

theorem Holds.lt_size (h : t.Holds x item) : x < t.size := by
  obtain ⟨m, hm, -⟩ := h
  exact lt_size_of_get? hm

theorem SameBut.holds_iff (h : t.SameBut Module.contents t') :
    t'.Holds x item ↔ t.Holds x item := by
  constructor
  · intro hex
    obtain ⟨m, hm, hi⟩ := hex
    obtain ⟨m', hm', hc⟩ := h.exists_get?_before hm
    exact ⟨m', hm', (Module.holds_congr hc item).2 hi⟩
  · intro hex
    obtain ⟨m, hm, hi⟩ := hex
    obtain ⟨m', hm', hc⟩ := h.exists_get? hm
    exact ⟨m', hm', (Module.holds_congr hc item).2 hi⟩

theorem SameBut.group_eq (h : t.SameBut (·.group) t') (x : ModuleId) : t'.group x = t.group x := by
  have hx := congrArg (Option.elim · x id) (h.get? x)
  simp only [Option.elim_map] at hx
  exact hx

theorem SameBut.parentOf_eq (h : t.SameBut (·.parent) t') (x : ModuleId) :
    t'.parentOf x = t.parentOf x := by
  have hx := congrArg (Option.bind · id) (h.get? x)
  simp only [Option.bind_map] at hx
  exact hx

/-! ## Groups -/

theorem sameBut_joinGroup (r : ModuleId) (t : ModuleTable) (x : ModuleId) :
    t.SameBut Module.ungrouped (joinGroup r t x) := by
  unfold joinGroup
  split_ifs
  · exact .refl _ t
  · exact .modify _ _ fun _ => rfl

theorem group_joinGroup (hr : t.group r = r) (hy : y < t.size) :
    (joinGroup r t x).group y = if y = x then r else t.group y := by
  unfold joinGroup
  split_ifs with hxr hyx hyx
  · rw [hyx, hxr, hr]
  · rfl
  · obtain ⟨m, hm⟩ := exists_get? hy
    subst hyx
    simp [group, hm]
  · rw [group, get?_modify_of_ne _ (Ne.symm hyx), group]

theorem sameBut_joinAll (r : ModuleId) (l : List ModuleId) (t : ModuleTable) :
    t.SameBut Module.ungrouped (l.foldl (joinGroup r) t) :=
  List.foldlRecOn (motive := t.SameBut Module.ungrouped) l _ (.refl _ t)
    fun t' ht' x _ => ht'.trans (sameBut_joinGroup r t' x)

theorem group_joinAll (hr : t.group r = r) (hrt : r < t.size) (hy : y < t.size)
    (l : List ModuleId) :
    (l.foldl (joinGroup r) t).group y = if y ∈ l then r else t.group y := by
  induction l generalizing t with
  | nil => simp
  | cons x l ih =>
    have hsize := (sameBut_joinGroup r t x).size
    have hr' : (joinGroup r t x).group r = r := by
      rw [group_joinGroup hr hrt, hr, ite_self]
    rw [List.foldl_cons, ih hr' (hsize ▸ hrt) (hsize ▸ hy), group_joinGroup hr hy]
    by_cases hx : y = x
    · simp [hx]
    · simp [hx]

theorem sameBut_assignGroups (t : ModuleTable) : t.SameBut Module.ungrouped t.assignGroups :=
  List.foldlRecOn (motive := t.SameBut Module.ungrouped) t.roots _ (.refl _ t)
    fun t' ht' r _ => ht'.trans (sameBut_joinAll r _ t')

/-- The trees of the roots in `done` have been put into their groups. -/
structure Grouped (t : ModuleTable) (done : List ModuleId) (t' : ModuleTable) : Prop where
  same : t.SameBut Module.ungrouped t'
  group : ∀ r ∈ t.roots, ∀ y < t.size, y ∈ t.tree r → t'.group y = if r ∈ done then r else y

theorem Linked.grouped_step (ht : t.Linked) {done : List ModuleId} (h : t.Grouped done t')
    (hr : r ∈ t.roots) :
    t.Grouped (done ++ [r]) ((t.tree r).reverse.foldl (joinGroup r) t') := by
  have hrt : r < t.size := (mem_roots.1 hr).1
  have hrr : t'.group r = r := by
    rw [h.group r hr r hrt (ht.mem_tree.2 ⟨0, Nat.zero_lt_of_lt hrt, .refl r⟩), ite_self]
  refine ⟨h.same.trans (sameBut_joinAll r _ t'), fun q hq y hy hyq => ?_⟩
  rw [group_joinAll hrr (h.same.size ▸ hrt) (h.same.size ▸ hy), h.group q hq y hy hyq]
  by_cases hqr : q = r
  · subst hqr
    simp [hyq]
  · have hnot : y ∉ t.tree r := fun hyr => hqr (ht.root_unique hq hr hyq hyr)
    simp [hnot, hqr]

/-- The root of a tree becomes the group of its modules. -/
theorem Linked.group_assignGroups (ht : t.Linked) (hself : ∀ y < t.size, t.group y = y)
    (hr : r ∈ t.roots) (hx : x ∈ t.tree r) (hxt : x < t.size) : t.assignGroups.group x = r := by
  have hstart : t.Grouped [] t := ⟨.refl _ t, fun s _ y hy _ => by simp [hself y hy]⟩
  have hfold : t.Grouped t.roots t.assignGroups := by
    refine foldl_prefix t.Grouped [] t.roots t hstart fun before s after hroots t' h => ?_
    have hs : s ∈ t.roots := by
      rw [List.nil_append] at hroots
      simp [hroots]
    exact ht.grouped_step h hs
  rw [hfold.group r hr x hxt hx, if_pos hr]

/-! ## Contents -/

theorem sameBut_passToParent (t : ModuleTable) (x : ModuleId) :
    t.SameBut Module.outline (t.passToParent x) := by
  unfold passToParent
  split
  · exact .refl _ t
  · split
    · exact .refl _ t
    · exact .modify _ _ fun _ => by rfl

theorem holds_passToParent (hparent : ∀ {a}, t.parentOf x = some a → a < t.size) :
    (t.passToParent x).Holds y item ↔
      t.Holds y item ∨ (t.parentOf x = some y ∧ t.Holds x item) := by
  unfold passToParent
  cases hx : t.get? x with
  | none => simp [parentOf, hx]
  | some child =>
    have hpx := parentOf_of_get? hx
    cases hp : child.parent with
    | none =>
      simp only [hpx, hp, reduceCtorEq, false_and, or_false]
    | some a =>
      rw [hp] at hpx
      obtain ⟨ma, hma⟩ := exists_get? (hparent hpx)
      rw [hpx, holds_of_get? hx]
      simp only [hp, Option.some.injEq]
      by_cases hy : a = y
      · subst hy
        simp [Holds, hma]
      · simp [Holds, get?_modify_of_ne _ hy, hy]

/-- The modules in `done` have passed on what they took in from below. -/
structure Passed (t : ModuleTable) (item : Item) (done : List ModuleId) (t' : ModuleTable) :
    Prop where
  same : t.SameBut Module.outline t'
  sound : ∀ a, t'.Holds a item → ∃ n x, t.Climbs n x a ∧ t.Holds x item
  kept : ∀ x, t.Holds x item → t'.Holds x item
  passed : ∀ x ∈ done, ∀ a, t.parentOf x = some a → ∀ n y, t.Climbs n y x → t.Holds y item →
    t'.Holds a item

theorem Linked.passed_step (ht : t.Linked) {done : List ModuleId} (h : t.Passed item done t')
    (hmembers : ∀ c, t.parentOf c = some x → c ∈ done) :
    t.Passed item (done ++ [x]) (t'.passToParent x) := by
  have hparents (y : ModuleId) : t'.parentOf y = t.parentOf y :=
    (h.same.less (·.parent)).parentOf_eq y
  have hpass (y : ModuleId) : (t'.passToParent x).Holds y item ↔
      t'.Holds y item ∨ (t.parentOf x = some y ∧ t'.Holds x item) := by
    rw [← hparents x]
    refine holds_passToParent fun {a} ha => ?_
    rw [hparents] at ha
    rw [h.same.size]
    exact ht.parent_lt ha
  refine ⟨h.same.trans (sameBut_passToParent t' x), fun a ha => ?_, fun y hy => ?_,
    fun z hz a hza n y hyz hy => ?_⟩
  · rcases (hpass a).1 ha with ha | ⟨hxa, hx⟩
    · exact h.sound a ha
    · obtain ⟨n, y, hyx, hy⟩ := h.sound x hx
      exact ⟨n + 1, y, hyx.trans (climbs_one hxa), hy⟩
  · exact (hpass y).2 (.inl (h.kept y hy))
  · rcases List.mem_append.1 hz with hz | hz
    · exact (hpass a).2 (.inl (h.passed z hz a hza n y hyz hy))
    · rw [List.mem_singleton] at hz
      subst hz
      -- what comes from further below has been passed on to `z` by one of its members
      have hz' : t'.Holds z item := by
        cases n with
        | zero => cases hyz; exact h.kept _ hy
        | succ n =>
          obtain ⟨c, hc, hyc⟩ := climbs_succ_iff.1 hyz
          exact h.passed c (hmembers c hc) z hc n y hyc hy
      exact (hpass a).2 (.inr ⟨hza, hz'⟩)

/-- Every module takes in whatever the modules below it held. -/
theorem Linked.holds_mergeContents (ht : t.Linked) (hstray : t.stray? = none) :
    t.mergeContents.Holds a item ↔ ∃ n x, t.Climbs n x a ∧ t.Holds x item := by
  have hfold : t.Passed item t.walk t.mergeContents := by
    refine foldl_prefix (t.Passed item) [] t.walk t
      ⟨.refl _ t, fun a ha => ⟨0, a, .refl a, ha⟩, fun _ h => h, by simp⟩
      fun before x after hwalk t' h => ht.passed_step h fun c hc => ?_
    exact ht.member_before hstray hwalk hc
  constructor
  · exact hfold.sound a
  · intro hex
    obtain ⟨n, x, hxa, hx⟩ := hex
    cases n with
    | zero => cases hxa; exact hfold.kept _ hx
    | succ n =>
      obtain ⟨c, hc, hxc⟩ := climbs_succ_iff.1 hxa
      have hmem := stray?_eq_none_iff.1 hstray c (lt_size_of_parentOf hc)
      exact hfold.passed c hmem a hc n x hxc hx

theorem sameBut_mergeContents (t : ModuleTable) : t.SameBut Module.outline t.mergeContents :=
  List.foldlRecOn (motive := t.SameBut Module.outline) t.walk _ (.refl _ t)
    fun t' ht' x _ => ht'.trans (sameBut_passToParent t' x)

/-! ## Both together -/

/-- The second table is the first one with its members merged: groups are modules of their own group
and hold what their modules held. -/
structure Merged (t t' : ModuleTable) : Prop where
  same : t.SameBut (·.spec) t'
  group_lt : ∀ {x}, x < t.size → t'.group x < t.size
  group_group : ∀ {x}, x < t.size → t'.group (t'.group x) = t'.group x
  holds : ∀ {top} (item : Item), t'.group top = top →
    (t'.Holds top item ↔ ∃ x, t'.group x = top ∧ t.Holds x item)

/-- Without strays, a chain of parents leads from every module to its group, and ends there. -/
theorem Linked.climbs_group (ht : t.Linked) (hself : ∀ y < t.size, t.group y = y)
    (hstray : t.assignGroups.stray? = none) (hx : x < t.size) :
    (∃ n, t.Climbs n x (t.assignGroups.group x)) ∧
      t.parentOf (t.assignGroups.group x) = none := by
  have hsame := t.sameBut_assignGroups
  have ht' : t.assignGroups.Linked := ht.congr (hsame.less fun m => (m.parent, m.members))
  have hparent := (hsame.less (·.parent)).parentOf_eq
  obtain ⟨r, hr, hxr⟩ := exists_root hstray (hsame.size ▸ hx)
  obtain ⟨n, hn, hclimb⟩ := ht'.mem_tree.1 hxr
  have hclimb' : t.Climbs n x r := hclimb.congr fun y => (hparent y).symm
  have hroot : r ∈ t.roots := by
    rw [mem_roots, hparent, hsame.size] at hr
    exact mem_roots.2 hr
  have hgroup : t.assignGroups.group x = r :=
    ht.group_assignGroups hself hroot (ht.mem_tree.2 ⟨n, hsame.size ▸ hn, hclimb'⟩) hx
  rw [hgroup]
  exact ⟨⟨n, hclimb'⟩, (mem_roots.1 hroot).2⟩

theorem Linked.merged_mergeContents (ht : t.Linked) (hself : ∀ y < t.size, t.group y = y)
    (hstray : t.assignGroups.stray? = none) : t.Merged t.assignGroups.mergeContents := by
  have hgroups := t.sameBut_assignGroups
  have hcontents := t.assignGroups.sameBut_mergeContents
  have ht' : t.assignGroups.Linked := ht.congr (hgroups.less fun m => (m.parent, m.members))
  have hgroup := (hcontents.less (·.group)).group_eq
  have hclimbs {x : ModuleId} (hx : x < t.size) := ht.climbs_group hself hstray hx
  have hlt {x : ModuleId} (hx : x < t.size) : t.assignGroups.group x < t.size := by
    obtain ⟨⟨n, hn⟩, -⟩ := hclimbs hx
    exact hn.lt_size ht hx
  refine ⟨(hgroups.less (·.spec)).trans (hcontents.less (·.spec)), fun hx => ?_, fun {x} hx => ?_,
    fun {top} item htop => ?_⟩
  · rw [hgroup]
    exact hlt hx
  · -- the chain from the group is empty, as the group has no parent
    rw [hgroup, hgroup]
    obtain ⟨⟨n, hn⟩, hnone⟩ := hclimbs (hlt hx)
    exact (hn.unique (.refl _) hnone (hclimbs hx).2).2
  · rw [hgroup] at htop
    rw [ht'.holds_mergeContents hstray]
    constructor
    · intro hex
      obtain ⟨n, x, hxtop, hx⟩ := hex
      have hxt : x < t.size := hgroups.size ▸ hx.lt_size
      have hxtop' : t.Climbs n x top :=
        hxtop.congr fun y => ((hgroups.less (·.parent)).parentOf_eq y).symm
      obtain ⟨⟨k, hk⟩, hnone⟩ := hclimbs hxt
      have htopnone := (hclimbs (hxtop'.lt_size ht hxt)).2
      rw [htop] at htopnone
      refine ⟨x, ?_, (hgroups.less Module.contents).holds_iff.1 hx⟩
      rw [hgroup]
      exact (hk.unique hxtop' hnone htopnone).2
    · intro hex
      obtain ⟨x, hxtop, hx⟩ := hex
      rw [hgroup] at hxtop
      obtain ⟨⟨n, hn⟩, -⟩ := hclimbs hx.lt_size
      rw [hxtop] at hn
      exact ⟨n, x, hn.congr (hgroups.less (·.parent)).parentOf_eq,
        (hgroups.less Module.contents).holds_iff.2 hx⟩

/-- Before members are merged each module is its own group. -/
theorem merged_of_unmerged (hself : ∀ y < t.size, t.group y = y)
    (hsame : t.SameBut Module.unlinked t') : t.Merged t' := by
  have hgroup := (hsame.less (·.group)).group_eq
  refine ⟨hsame.less (·.spec), fun hx => ?_, fun hx => ?_, fun item htop => ?_⟩
  · rw [hgroup, hself _ hx]
    exact hx
  · rw [hgroup, hgroup, hself _ hx, hself _ hx]
  · rw [(hsame.less Module.contents).holds_iff]
    constructor
    · exact fun h => ⟨_, htop, h⟩
    · intro hex
      obtain ⟨x, hxtop, hx⟩ := hex
      rw [hgroup, hself x hx.lt_size] at hxtop
      rwa [← hxtop]

theorem Merged.of_sameBut_unlinked (hsame : t.SameBut Module.unlinked t') {t'' : ModuleTable}
    (h : t'.Merged t'') : t.Merged t'' where
  same := (hsame.less (·.spec)).trans h.same
  group_lt hx := hsame.size ▸ h.group_lt (hsame.size ▸ hx)
  group_group hx := h.group_group (hsame.size ▸ hx)
  holds item htop := by
    simp only [h.holds item htop, (hsame.less Module.contents).holds_iff]

/-- The merging of members ends with merged members or blames a declaration. -/
theorem ends_buildMembers (ht : t.Linked) (hi : t.Indexed) (hself : ∀ y < t.size, t.group y = y)
    (merge : Bool) :
    Ends (t.buildMembers merge).2 (fun _ => t.Merged (t.buildMembers merge).1) MemberError := by
  obtain ⟨hlinked, hsame, hends⟩ := ends_linkMembers ht hi
  have hself' : ∀ y < t.linkMembers.1.size, t.linkMembers.1.group y = y := fun y hy => by
    rw [(hsame.less (·.group)).group_eq]
    exact hself y (hsame.size ▸ hy)
  unfold buildMembers
  generalize t.linkMembers = links at *
  obtain ⟨t', result⟩ := links
  cases result with
  | error e => exact hends
  | ok _ =>
    dsimp only
    split
    · exact .memberCycle _
    · rename_i hstray
      cases merge with
      | false => exact merged_of_unmerged hself hsame
      | true => exact (hlinked.merged_mergeContents hself' hstray).of_sameBut_unlinked hsame

end ModuleTable

end ModuleGraph
