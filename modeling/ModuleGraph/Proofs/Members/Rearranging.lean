import ModuleGraph.Proofs.Alike
import ModuleGraph.Proofs.Members.Combining
import ModuleGraph.Proofs.Stages

/-!
# Members do not depend on the order of modules

A table that the engine makes (`ModuleTable.Made`) is `Coherent`: names tell its modules apart, its
links agree at both ends, and a module without a parent is its own group. So in a table without
parents nothing has been merged, and the merging of members is told by the declarations alone. Two
tables with the same modules in different orders (`ModuleTable.Rearranged`) therefore end with the
same modules again, up to their numbers.

* `ModuleTable.Rearranged.combines`: the order of modules does not matter.
* `ModuleTable.combines_of_buildMembers`: everything that a merge amounts to.
-/

namespace ModuleGraph

namespace ModuleTable

variable {t t' u : ModuleTable} {a c p r x y : ModuleId} {m : Module}

/-! ## Tables that the engine makes -/

/-- The tables that the operations of the engine make, whatever the modules come to hold. -/
inductive Made : ModuleTable → Prop where
  | empty : Made {}
  | add {t t' : ModuleTable} {spec : ModuleSpec} {id : ModuleId} :
      Made t → t.add spec = .ok (t', id) → Made t'
  | setBase {t : ModuleTable} (id : ModuleId) : Made t → Made (t.setBase id)
  /-- Modules come to hold classes, resources and unresolved references. -/
  | hold {t t' : ModuleTable} : Made t → t.SameBut Module.outline t' → Made t'
  | addRequirement {t : ModuleTable} (id : ModuleId) (requirement : Requirement) :
      Made t → Made (t.addRequirement id requirement)
  | addPermit {t : ModuleTable} (id : ModuleId) (permit : String) :
      Made t → Made (t.addPermit id permit)
  | members {t : ModuleTable} (merge : Bool) : Made t → Made (t.buildMembers merge).1

/-- Names tell modules apart, links agree at both ends, and a module without a parent is its own
group. -/
structure Coherent (t : ModuleTable) : Prop where
  indexed : t.Indexed
  linked : t.Linked
  group_root : ∀ x < t.size, t.parentOf x = none → t.group x = x

/-- What a table is coherent by. -/
def bonds (m : Module) : ModuleSpec × Option ModuleId × List ModuleId × ModuleId :=
  (m.spec, m.parent, m.members, m.group)

theorem Coherent.of_sameBut (h : t.Coherent) (hsame : t.SameBut bonds t') : t'.Coherent where
  indexed := (hsame.less Prod.fst).indexed h.indexed
  linked := h.linked.congr (hsame.less fun b => (b.2.1, b.2.2.1))
  group_root x hx hroot := by
    rw [(hsame.less fun b => b.2.1).parentOf_eq] at hroot
    rw [(hsame.less fun b => b.2.2.2).group_eq]
    exact h.group_root x (hsame.size ▸ hx) hroot

theorem coherent_empty : Coherent {} where
  indexed := indexed_empty
  linked := linked_of_unlinked fun id m hm => by simp [get?] at hm
  group_root x hx := absurd hx (Nat.not_lt_zero x)

theorem Coherent.ends_add (h : t.Coherent) (spec : ModuleSpec) :
    Ends (t.add spec) (fun r => r.1.Coherent) fun _ => True := by
  refine (ModuleTable.ends_add h.indexed spec).mono (fun r hr => ?_) fun _ _ => trivial
  obtain ⟨hi, hget⟩ := hr
  have hnew : r.1.get? t.size = some { spec, group := t.size } := by rw [hget, if_pos rfl]
  have hold {id : ModuleId} (hid : id ≠ t.size) : r.1.get? id = t.get? id := by
    rw [hget, if_neg hid]
  have hnone : t.get? t.size = none := by
    rw [← Option.not_isSome_iff_eq_none, isSome_get?_iff]
    exact Nat.lt_irrefl _
  have hparent (id : ModuleId) : r.1.parentOf id = t.parentOf id := by
    by_cases hid : id = t.size
    · rw [hid, parentOf_of_get? hnew, parentOf, hnone]
      rfl
    · rw [parentOf, hold hid, parentOf]
  refine ⟨hi, h.linked.of_eq (Nat.le_of_lt (lt_size_of_get? hnew)) hparent fun id => ?_,
    fun x hx hroot => ?_⟩
  · by_cases hid : id = t.size
    · rw [hid, members_of_get? hnew, members, hnone]
      rfl
    · rw [members, hold hid, members]
  · by_cases hxt : x = t.size
    · rw [hxt, group_of_get? hnew]
    · obtain ⟨m, hm⟩ := exists_get? hx
      rw [hold hxt] at hm
      rw [hparent] at hroot
      rw [group, hold hxt, ← group]
      exact h.group_root x (lt_size_of_get? hm) hroot

/-! ## Links and groups keep a table coherent -/

theorem Coherent.withLink (h : t.Coherent) (hc : c < t.size) (hp : p < t.size) (hne : c ≠ p)
    (hfree : t.parentOf c = none) : (t.withLink c p).Coherent := by
  have hsame := sameBut_withLink t c p
  refine ⟨(hsame.less (·.spec)).indexed h.indexed, h.linked.insert hc hp hne hfree,
    fun x hx hroot => ?_⟩
  rw [parentOf_withLink hc] at hroot
  split_ifs at hroot
  rw [(hsame.less (·.group)).group_eq]
  exact h.group_root x (hsame.size ▸ hx) hroot

theorem Coherent.linkAll (h : t.Coherent) {links : List (ModuleId × String)}
    (hlt : ∀ l ∈ links, l.1 < t.size) : (t.linkAll links).1.Coherent := by
  induction links generalizing t with
  | nil => exact h
  | cons l links ih =>
    obtain ⟨p, name⟩ := l
    rw [ModuleTable.linkAll]
    cases hlink : t.link p name with
    | error e => exact h
    | ok t' =>
      obtain ⟨c, hc, hne, hfree, rfl⟩ := link_ok_iff.1 hlink
      obtain ⟨m, hm, -⟩ := h.indexed.get?_of_find hc
      refine ih (h.withLink (lt_size_of_get? hm) (hlt _ List.mem_cons_self) hne hfree)
        fun l hl => ?_
      rw [(sameBut_withLink t c p).size]
      exact hlt l (List.mem_cons_of_mem _ hl)

/-- A root is in no tree but its own, so it stays its own group. -/
theorem Coherent.assignGroups (h : t.Coherent) : t.assignGroups.Coherent := by
  have hroots : ∀ x < t.size, t.parentOf x = none → t.assignGroups.group x = x := by
    have hfold : t.SameBut Module.ungrouped t.assignGroups ∧
        ∀ x < t.size, t.parentOf x = none → t.assignGroups.group x = x := by
      refine List.foldlRecOn (motive := fun t' : ModuleTable => t.SameBut Module.ungrouped t' ∧
        ∀ x < t.size, t.parentOf x = none → t'.group x = x) t.roots _ ⟨.refl _ t, h.group_root⟩
        fun t' ⟨hsame, hself⟩ r hr => ⟨hsame.trans (sameBut_joinAll r _ t'), fun x hx hroot => ?_⟩
      obtain ⟨hrt, hrroot⟩ := mem_roots.1 hr
      rw [group_joinAll (hself r hrt hrroot) (hsame.size ▸ hrt) (hsame.size ▸ hx)]
      split_ifs with htree
      · obtain ⟨k, -, hclimb⟩ := h.linked.mem_tree.1 (List.mem_reverse.1 htree)
        exact (hclimb.eq_of_root hroot).symm
      · exact hself x hx hroot
    exact hfold.2
  have hsame := t.sameBut_assignGroups
  refine ⟨(hsame.less (·.spec)).indexed h.indexed,
    h.linked.congr (hsame.less fun m => (m.parent, m.members)), fun x hx hroot => ?_⟩
  rw [(hsame.less (·.parent)).parentOf_eq] at hroot
  exact hroots x (hsame.size ▸ hx) hroot

theorem Coherent.buildMembers (h : t.Coherent) (merge : Bool) :
    (t.buildMembers merge).1.Coherent := by
  have hlinks : t.linkMembers.1.Coherent :=
    h.linkAll fun _ hl => lt_size_of_mem_declaredMembers hl
  unfold ModuleTable.buildMembers
  generalize t.linkMembers = links at *
  obtain ⟨l, result⟩ := links
  cases result with
  | error e => exact hlinks
  | ok _ =>
    dsimp only at hlinks ⊢
    have hgroups : (if merge then l.assignGroups else l).Coherent := by
      split_ifs
      · exact hlinks.assignGroups
      · exact hlinks
    split
    · exact hgroups
    · cases merge with
      | false => exact hgroups
      | true => exact hgroups.of_sameBut ((sameBut_mergeContents _).less bonds)

/-- Every table that the engine makes is coherent. -/
theorem Made.coherent (h : t.Made) : t.Coherent := by
  induction h with
  | empty => exact coherent_empty
  | add _ hadd ih => exact (ih.ends_add _).of_ok hadd
  | setBase id _ ih => exact ih.of_sameBut (.modify _ id fun _ => rfl)
  | hold _ hsame ih => exact ih.of_sameBut (hsame.less bonds)
  | addRequirement id _ _ ih =>
    exact ih.of_sameBut (.modify _ id fun m => by split_ifs <;> rfl)
  | addPermit id _ _ ih =>
    exact ih.of_sameBut (.modify _ id fun m => by split_ifs <;> rfl)
  | members merge _ ih => exact ih.buildMembers merge

/-- Without parents, nothing has been linked. -/
theorem Coherent.unlinked (h : t.Coherent) (hfree : ∀ x, t.parentOf x = none) : t.Unlinked := by
  intro x m hm
  have hparent : m.parent = none := by rw [← parentOf_of_get? hm, hfree]
  have hmembers : m.members = [] := by
    rw [← members_of_get? hm]
    refine List.eq_nil_iff_forall_not_mem.2 fun c hc => ?_
    have hp := h.linked.mem_members.1 hc
    rw [hfree] at hp
    cases hp
  rw [Module.unlinked, ← hparent, ← hmembers]

/-! ## The same modules in another order -/

theorem Indexed.find_name (hi : t.Indexed) (hx : x < t.size) : t.find (t.name x) = some x := by
  obtain ⟨m, hm⟩ := exists_get? hx
  exact (hi _ x).2 ⟨m, hm, (name_of_get? hm).symm⟩

theorem Indexed.name_of_find (hi : t.Indexed) {name : String} (h : t.find name = some x) :
    t.name x = name := by
  obtain ⟨m, hm, hname⟩ := hi.get?_of_find h
  rw [name_of_get? hm, hname]

theorem Indexed.lt_size_of_find (hi : t.Indexed) {name : String} (h : t.find name = some x) :
    x < t.size := by
  obtain ⟨m, hm, -⟩ := hi.get?_of_find h
  exact lt_size_of_get? hm

/-- A module of one table and a module of another one are the same, up to the numbers of modules. -/
structure Resembles (t : ModuleTable) (x : ModuleId) (u : ModuleTable) (y : ModuleId) : Prop where
  frame_eq : (u.get? y).map Module.frame = (t.get? x).map Module.frame
  parent_eq : (u.parentOf y).map u.name = (t.parentOf x).map t.name
  members_eq : (u.members y).map u.name = (t.members x).map t.name
  group_eq : u.name (u.group y) = t.name (t.group x)
  isBase_eq : u.isBase y = t.isBase x
  holds_iff : ∀ item, u.Holds y item ↔ t.Holds x item

theorem Resembles.symm (h : t.Resembles x u y) : u.Resembles y t x where
  frame_eq := h.frame_eq.symm
  parent_eq := h.parent_eq.symm
  members_eq := h.members_eq.symm
  group_eq := h.group_eq.symm
  isBase_eq := h.isBase_eq.symm
  holds_iff item := (h.holds_iff item).symm

theorem Resembles.exists_spec (h : t.Resembles x u y) (hm : t.get? x = some m) :
    ∃ m', u.get? y = some m' ∧ m'.spec = m.spec := by
  have hframe := h.frame_eq
  rw [hm, Option.map_some, Option.map_eq_some_iff] at hframe
  obtain ⟨m', hm', heq⟩ := hframe
  exact ⟨m', hm', congrArg Prod.fst heq⟩

/-- The two tables have the same modules, in whatever order. -/
def Rearranged (t u : ModuleTable) : Prop :=
  ∀ name, Option.Rel (fun x y => t.Resembles x u y) (t.find name) (u.find name)

theorem Rearranged.symm (h : t.Rearranged u) : u.Rearranged t :=
  fun name => rel_flip (h name) fun _ _ hxy => hxy.symm

/-- The number that the module has in another table. -/
def counterpart (t u : ModuleTable) (x : ModuleId) : ModuleId :=
  (u.find (t.name x)).getD x

namespace Rearranged

/-- A module and its counterpart. -/
theorem counterpart (h : t.Rearranged u) (ht : t.Indexed) (hx : x < t.size) :
    u.find (t.name x) = some (t.counterpart u x) ∧ t.Resembles x u (t.counterpart u x) := by
  obtain ⟨y, hy, hxy⟩ := rel_exists (h (t.name x)) (ht.find_name hx)
  have heq : t.counterpart u x = y := by rw [ModuleTable.counterpart, hy, Option.getD_some]
  rw [heq]
  exact ⟨hy, hxy⟩

theorem name_counterpart (h : t.Rearranged u) (ht : t.Indexed) (hu : u.Indexed) (hx : x < t.size) :
    u.name (t.counterpart u x) = t.name x :=
  hu.name_of_find (h.counterpart ht hx).1

/-- Back and forth. -/
theorem counterpart_counterpart (h : t.Rearranged u) (ht : t.Indexed) (hu : u.Indexed)
    (hx : x < t.size) : u.counterpart t (t.counterpart u x) = x := by
  rw [ModuleTable.counterpart, h.name_counterpart ht hu hx, ht.find_name hx, Option.getD_some]

theorem declares (h : t.Rearranged u) (ht : t.Indexed) (hd : t.Declares p c) :
    u.Declares (t.counterpart u p) (t.counterpart u c) := by
  obtain ⟨m, hm, name, hname, hc⟩ := hd
  obtain ⟨m', hm', hspec⟩ := (h.counterpart ht (lt_size_of_get? hm)).2.exists_spec hm
  refine ⟨m', hm', name, hspec ▸ hname, ?_⟩
  rw [← ht.name_of_find hc]
  exact (h.counterpart ht (ht.lt_size_of_find hc)).1

theorem below (h : t.Rearranged u) (ht : t.Indexed) (hbelow : t.Below x a) :
    u.Below (t.counterpart u x) (t.counterpart u a) := by
  refine Relation.ReflTransGen.lift (t.counterpart u) (fun c p hd => ?_) _ _ hbelow
  exact h.declares ht hd

theorem sound (h : t.Rearranged u) (ht : t.Indexed) (hu : u.Indexed) (hsound : t.Sound) :
    u.Sound := by
  have hback {p c : ModuleId} (hd : u.Declares p c) :
      t.Declares (u.counterpart t p) (u.counterpart t c) := h.symm.declares hu hd
  have hspec {p : ModuleId} {m : Module} (hm : u.get? p = some m) :
      ∃ m', t.get? (u.counterpart t p) = some m' ∧ m'.spec = m.spec :=
    (h.symm.counterpart hu (lt_size_of_get? hm)).2.exists_spec hm
  refine ⟨fun {p m} hm name hname => ?_, fun {p m} hm => ?_, fun {p q c} hp hq => ?_,
    fun x hcycle => ?_⟩
  · obtain ⟨m', hm', heq⟩ := hspec hm
    obtain ⟨c, hc⟩ := hsound.known hm' name (heq ▸ hname)
    obtain ⟨c', hc', -⟩ := rel_exists (h name) hc
    exact ⟨c', hc'⟩
  · obtain ⟨m', hm', heq⟩ := hspec hm
    exact heq ▸ hsound.nodup hm'
  · have hlt {p : ModuleId} (hd : u.Declares p c) : p < u.size := by
      obtain ⟨m, hm, -⟩ := hd
      exact lt_size_of_get? hm
    have heq := hsound.unique (hback hp) (hback hq)
    rw [← h.symm.counterpart_counterpart hu ht (hlt hp), heq,
      h.symm.counterpart_counterpart hu ht (hlt hq)]
  · refine hsound.acyclic (u.counterpart t x)
      (Relation.TransGen.lift (u.counterpart t) (fun c p hd => ?_) _ _ hcycle)
    exact hback hd

end Rearranged

/-! ## The same result in another order -/

theorem SameBut.name_eq (h : t.SameBut (·.spec) t') (x : ModuleId) : t'.name x = t.name x := by
  have hx := congrArg (Option.elim · "" ModuleSpec.name) (h.get? x)
  simp only [Option.elim_map] at hx
  exact hx

theorem map_name_of_map_find (hi : t.Indexed) {ids : List ModuleId} {names : List String}
    (h : ids.map some = names.map t.find) : ids.map t.name = names := by
  induction names generalizing ids with
  | nil => simpa using h
  | cons name names ih =>
    obtain ⟨id, ids, rfl, hid, hids⟩ := List.map_eq_cons_iff.1 h
    rw [List.map_cons, hi.name_of_find hid.symm, ih hids]

theorem lt_size_of_isBase (h : t.isBase x) : x < t.size := by
  rw [isBase, Option.any_eq_true] at h
  obtain ⟨m, hm, -⟩ := h
  exact lt_size_of_get? hm

/-- The group is the only module above that has no parent. -/
theorem Combines.eq_group (h : t.Combines t') (hx : x < t.size) (hr : t.Below x r)
    (hroot : t'.parentOf r = none) : t'.group x = r := by
  obtain ⟨n, hn⟩ := (exists_climbs_iff h.parentOf_iff).2 hr
  obtain ⟨hbelow, hgroot⟩ := h.group_root x hx
  obtain ⟨k, hk⟩ := (exists_climbs_iff h.parentOf_iff).2 hbelow
  exact (hk.unique hn hgroot hroot).2

namespace Rearranged

variable {u' : ModuleTable}

theorem counterpart_lt (h : t.Rearranged u) (ht : t.Indexed) (hu : u.Indexed) (hx : x < t.size) :
    t.counterpart u x < u.size :=
  hu.lt_size_of_find (h.counterpart ht hx).1

/-- A module that becomes foundational does so in either order. -/
theorem isBase_counterpart (h : t.Rearranged u) (ht : t.Indexed) (hu : u.Indexed)
    (hc : t.Combines t') (hc' : u.Combines u') (hx : x < t.size) (hbase : t'.isBase x) :
    u'.isBase (t.counterpart u x) := by
  obtain ⟨a, ha, hon⟩ := (hc.isBase_iff x hx).1 hbase
  refine (hc'.isBase_iff _ (h.counterpart_lt ht hu hx)).2 ⟨_, h.below ht ha, ?_⟩
  rw [(h.counterpart ht (lt_size_of_isBase hon)).2.isBase_eq]
  exact hon

/-- What a module comes to hold, it holds in either order. -/
theorem holds_counterpart (h : t.Rearranged u) (ht : t.Indexed) (hc : t.Combines t')
    (hc' : u.Combines u') {item : Item} (hitem : t'.Holds x item) :
    u'.Holds (t.counterpart u x) item := by
  obtain ⟨a, ha, hitem⟩ := (hc.holds_iff x item).1 hitem
  refine (hc'.holds_iff _ item).2 ⟨_, h.below ht ha, ?_⟩
  exact ((h.counterpart ht hitem.lt_size).2.holds_iff item).2 hitem

/-- A parent stays the parent. -/
theorem parentOf_counterpart (h : t.Rearranged u) (ht : t.Indexed) (hc : t.Combines t')
    (hc' : u.Combines u') (hp : t'.parentOf x = some p) :
    u'.parentOf (t.counterpart u x) = some (t.counterpart u p) :=
  (hc'.parentOf_iff _ _).2 (h.declares ht ((hc.parentOf_iff x p).1 hp))

theorem parentOf_counterpart_none (h : t.Rearranged u) (ht : t.Indexed) (hu : u.Indexed)
    (hc : t.Combines t') (hc' : u.Combines u') (hx : x < t.size) (hroot : t'.parentOf x = none) :
    u'.parentOf (t.counterpart u x) = none := by
  rw [Option.eq_none_iff_forall_ne_some]
  intro q hq
  have hback := h.symm.parentOf_counterpart hu hc' hc hq
  rw [h.counterpart_counterpart ht hu hx, hroot] at hback
  cases hback

theorem resembles_counterpart (h : t.Rearranged u) (ht : t.Indexed) (hu : u.Indexed)
    (hc : t.Combines t') (hc' : u.Combines u') (hx : x < t.size) :
    t'.Resembles x u' (t.counterpart u x) := by
  obtain ⟨m, hm⟩ := exists_get? hx
  have hsame := (h.counterpart ht hx).2
  obtain ⟨m', hm', hspec⟩ := hsame.exists_spec hm
  have hy := h.counterpart_lt ht hu hx
  have hback := h.counterpart_counterpart ht hu hx
  have hname := (hc.frame.less Prod.fst).name_eq
  have hname' := (hc'.frame.less Prod.fst).name_eq
  constructor
  case frame_eq => rw [hc'.frame.get?, hc.frame.get?, hsame.frame_eq]
  case parent_eq =>
    cases hp : t'.parentOf x with
    | none =>
      rw [h.parentOf_counterpart_none ht hu hc hc' hx hp]
      rfl
    | some p =>
      obtain ⟨mp, hmp, -⟩ := (hc.parentOf_iff x p).1 hp
      rw [h.parentOf_counterpart ht hc hc' hp, Option.map_some, Option.map_some, hname', hname,
        h.name_counterpart ht hu (lt_size_of_get? hmp)]
  case members_eq =>
    rw [funext hname, funext hname', map_name_of_map_find ht (hc.members_eq x m hm),
      map_name_of_map_find hu (hc'.members_eq _ m' hm'), hspec]
  case group_eq =>
    obtain ⟨hbelow, hroot⟩ := hc.group_root x hx
    have hlt : t'.group x < t.size := by
      rcases hbelow.cases_tail with heq | ⟨_, -, m, hm, -⟩
      · rw [heq]
        exact hx
      · exact lt_size_of_get? hm
    rw [hname', hname, hc'.eq_group hy (h.below ht hbelow)
      (h.parentOf_counterpart_none ht hu hc hc' hlt hroot), h.name_counterpart ht hu hlt]
  case isBase_eq =>
    refine Bool.eq_iff_iff.2 ⟨fun hbase => ?_, h.isBase_counterpart ht hu hc hc' hx⟩
    rw [← hback]
    exact h.symm.isBase_counterpart hu ht hc' hc hy hbase
  case holds_iff =>
    refine fun item => ⟨fun hitem => ?_, h.holds_counterpart ht hc hc'⟩
    rw [← hback]
    exact h.symm.holds_counterpart hu hc' hc hitem

theorem combines (h : t.Rearranged u) (ht : t.Indexed) (hu : u.Indexed) (hc : t.Combines t')
    (hc' : u.Combines u') : t'.Rearranged u' := by
  intro name
  rw [hc.frame.find, hc'.frame.find]
  cases hx : t.find name with
  | none =>
    have hname := h name
    rw [hx] at hname
    generalize u.find name = found at *
    cases hname
    exact .none
  | some x =>
    have hlt := ht.lt_size_of_find hx
    rw [← ht.name_of_find hx, (h.counterpart ht hlt).1]
    exact .some (h.resembles_counterpart ht hu hc hc' hlt)

end Rearranged

/-- Whatever the declarations and whatever the modules hold, a merge of a table without parents ends
with what the declarations say: links mirror them, the group of a module is the end of its chain of
parents, a module holds what it and its descendants held, what one module only has claimed is held
by that module and those above it, and foundations are handed down. The order of the modules does
not matter. Without a merge, the same links are all that is made. -/
theorem combines_of_buildMembers (t : ModuleTable) (hmade : t.Made)
    (hfree : ∀ x, t.parentOf x = none) (hok : (t.buildMembers true).2 = .ok ()) :
    t.Combines (t.buildMembers true).1 ∧
    (∀ (item : Item) (owner : ModuleId), (∀ x, t.Holds x item ↔ x = owner) →
      ∀ id, (t.buildMembers true).1.Holds id item ↔ t.Below owner id) ∧
    (∀ u : ModuleTable, u.Made → (∀ x, u.parentOf x = none) → t.Rearranged u →
      (u.buildMembers true).2 = .ok () ∧
        (t.buildMembers true).1.Rearranged (u.buildMembers true).1) ∧
    (t.buildMembers false).2 = .ok () ∧ t.LinksOnly (t.buildMembers false).1 ∧
    ∀ id, (t.buildMembers false).1.parentOf id = (t.buildMembers true).1.parentOf id ∧
      (t.buildMembers false).1.members id = (t.buildMembers true).1.members id := by
  have hcombines {u : ModuleTable} (hmade : u.Made) (hfree : ∀ x, u.parentOf x = none)
      (hok : (u.buildMembers true).2 = .ok ()) : u.Combines (u.buildMembers true).1 := by
    have h := hmade.coherent
    exact (h.unlinked hfree).combines h.indexed (fun x hx => h.group_root x hx (hfree x)) hok
  have h := hmade.coherent
  have hunlinked := h.unlinked hfree
  have hsound := (hunlinked.buildMembers_ok_iff h.indexed true).1 hok
  have hok' := (hunlinked.buildMembers_ok_iff h.indexed false).2 hsound
  have hc := hcombines hmade hfree hok
  have hlinks := hunlinked.linksOnly h.indexed hok'
  refine ⟨hc, fun item owner => hc.holds_iff_of_claimed,
    fun u humade hufree hrearranged => ?_, hok',
    hlinks, hc.toMirrors.links_eq hlinks.toMirrors⟩
  have hu := humade.coherent
  have huok : (u.buildMembers true).2 = .ok () :=
    ((hu.unlinked hufree).buildMembers_ok_iff hu.indexed true).2
      (hrearranged.sound h.indexed hu.indexed hsound)
  exact ⟨huok, hrearranged.combines h.indexed hu.indexed hc (hcombines humade hufree huok)⟩

end ModuleTable

/-! ## Builds -/

theorem ModuleTable.Fresh.parentOf_eq {t : ModuleTable} (h : t.Fresh) (x : ModuleId) :
    t.parentOf x = none := by
  cases hm : t.get? x with
  | none => rw [parentOf, hm, Option.bind_none]
  | some m => rw [parentOf_of_get? hm, h x m hm]

namespace BuildPlan

/-- The tables of a build are made by the operations of the engine. -/
theorem made_createModules (plan : BuildPlan) :
    Ends plan.createModules ModuleTable.Made fun _ => True := by
  unfold createModules
  have hadd : Ends (plan.specs.foldlM (fun table spec => (table.add spec).map (·.1)) {})
      ModuleTable.Made fun _ : BuildError => True := by
    refine Ends.foldlM ModuleTable.Made .empty fun t ht spec _ => ?_
    cases hadd : t.add spec with
    | error e => trivial
    | ok r => exact .add ht hadd
  refine hadd.bind fun table htable => ?_
  cases plan.options.baseModule.bind table.find with
  | none =>
    dsimp only
    split
    · exact (Ends.self _).bind fun _ _ => htable
    · exact htable
  | some base =>
    dsimp only
    split
    · exact (Ends.self _).bind fun _ _ => htable.setBase base
    · exact htable.setBase base

/-- When members are merged, the table has been made by the engine, and no module has a parent. -/
theorem made_assignUnits (plan : BuildPlan) (registry : Registry) :
    Ends (plan.createModules >>= fun table => (plan.assignUnits ⟨registry, table⟩).result)
      (fun p => p.table.Made ∧ ∀ x, p.table.parentOf x = none) fun _ => True := by
  have hcreated := plan.ends_createModules
  have hmade := plan.made_createModules
  cases htable : plan.createModules with
  | error e => trivial
  | ok table =>
    obtain ⟨hi, hfresh, -⟩ := hcreated.of_ok htable
    refine (plan.sameBut_assignUnits hi).mono
      (fun p hp => ⟨(hmade.of_ok htable).hold hp, fun x => ?_⟩) fun _ _ => trivial
    rw [(hp.less (·.parent)).parentOf_eq]
    exact hfresh.parentOf_eq x

end BuildPlan

/-- A class in each of three packages. -/
def Registry.nested : Registry :=
  .populate [
    .register { name := "a.Main" },
    .register { name := "b.Tool" },
    .register { name := "c.Helper" }]

/-- A foundational program, its tool, and a member of the tool that comes before both. -/
def BuildPlan.nested : BuildPlan where
  specs := [
    { name := "c", version := "1.0", roots := ⟨[.package "c"]⟩ },
    { name := "a", version := "1.0", roots := ⟨[.package "a"]⟩, members := ["b"] },
    { name := "b", version := "1.0", roots := ⟨[.package "b"]⟩, members := ["c"] }]
  options := { baseModule := some "a" }

/-- All classes come to the program, which is the group of its members and lends them its
foundation. -/
theorem ModuleTable.combines_nested :
    ∃ p, (BuildPlan.nested.createModules >>= fun table =>
        (BuildPlan.nested.assignUnits ⟨.nested, table⟩).result) = .ok p ∧
      (p.table.buildMembers true).1.group 0 = 1 ∧
      (p.table.buildMembers true).1.classes 1 = [0, 1, 2] ∧
      (p.table.buildMembers true).1.isBase 0 = true ∧
      p.table.Combines (p.table.buildMembers true).1 := by
  have hrun : ∃ p, (BuildPlan.nested.createModules >>= fun table =>
        (BuildPlan.nested.assignUnits ⟨.nested, table⟩).result) = .ok p ∧
      (∃ done, (p.table.buildMembers true).2 = .ok done ∧ True) ∧
      (p.table.buildMembers true).1.group 0 = 1 ∧
      (p.table.buildMembers true).1.classes 1 = [0, 1, 2] ∧
      (p.table.buildMembers true).1.isBase 0 = true := by
    decide +kernel
  obtain ⟨p, hp, ⟨_, hok, -⟩, hgroup, hclasses, hbase⟩ := hrun
  obtain ⟨hmade, hfree⟩ := (BuildPlan.nested.made_assignUnits .nested).of_ok hp
  exact ⟨p, hp, hgroup, hclasses, hbase, (combines_of_buildMembers p.table hmade hfree hok).1⟩

end ModuleGraph
