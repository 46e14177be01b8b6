import Mathlib.Data.Finset.Card
import Mathlib.Data.List.Pairwise
import Mathlib.Logic.Relation
import ModuleGraph.Proofs.Members.Merging

/-!
# Links mirror declarations

Links are made one after the other from the declared members. Here they are described without that
order: which lists of links can be made at all (`ModuleTable.linkAll_ok_iff`), and what both ends of
the links are afterwards (`ModuleTable.Linking`). A table of declarations that is sound
(`ModuleTable.Sound`) is one in which every member has a name that is known, is declared once, and
is not below itself.

* `ModuleTable.stray?_eq_none_iff_acyclic`: the walk leaves no module out exactly if no chain of
  parents comes back to its start.
* `ModuleTable.buildMembers_ok_iff`: the merging of members succeeds exactly on sound declarations.
-/

namespace ModuleGraph

namespace ModuleTable

variable {t t' u : ModuleTable} {a b c d p q x y : ModuleId} {m : Module} {name : String}
  {links : List (ModuleId × String)} {n : Nat}

/-! ## Declarations -/

/-- A module declares another one its member. -/
def Declares (t : ModuleTable) (parent child : ModuleId) : Prop :=
  ∃ m, t.get? parent = some m ∧ ∃ name ∈ m.spec.members, t.find name = some child

/-- The first module is the second one, or a descendant of it along the declarations. -/
def Below (t : ModuleTable) : ModuleId → ModuleId → Prop :=
  Relation.ReflTransGen fun child parent => t.Declares parent child

/-- Every declared member has a known name, is declared once, and is not a descendant of itself. -/
structure Sound (t : ModuleTable) : Prop where
  known : ∀ {p m}, t.get? p = some m → ∀ name ∈ m.spec.members, ∃ c, t.find name = some c
  nodup : ∀ {p m}, t.get? p = some m → m.spec.members.Nodup
  unique : ∀ {p q c}, t.Declares p c → t.Declares q c → p = q
  acyclic : ∀ x, ¬Relation.TransGen (fun child parent => t.Declares parent child) x x

/-! ## Lists of links -/

theorem link_ok_iff :
    t.link p name = .ok t' ↔
      ∃ c, t.find name = some c ∧ c ≠ p ∧ t.parentOf c = none ∧ t' = t.withLink c p := by
  unfold link require parentOf
  cases hfind : t.find name with
  | none => simp [Bind.bind, Except.bind]
  | some c =>
    show (if c = p then _ else _) = _ ↔ _
    split_ifs with hself
    · simp [hself]
    · cases hparent : (t.get? c).bind (·.parent) with
      | some other =>
        constructor
        · intro h
          cases h
        · intro h
          obtain ⟨d, hd, -, hfree, -⟩ := h
          cases hd
          rw [hparent] at hfree
          cases hfree
      | none =>
        simp only [Option.some.injEq, exists_eq_left', ne_eq, hself, not_false_eq_true, hparent,
          true_and]
        constructor
        · intro h
          cases h
          rfl
        · intro h
          rw [h]
          rfl

/-- Links that can be made one after the other: each to another module without a parent, and no two
to one module. -/
structure Linkable (t : ModuleTable) (links : List (ModuleId × String)) : Prop where
  free : ∀ l ∈ links, ∃ c, t.find l.2 = some c ∧ c ≠ l.1 ∧ t.parentOf c = none
  nodup : (links.map (·.2)).Nodup

theorem Indexed.find_inj (hi : t.Indexed) {name' : String} (h : t.find name = some c)
    (h' : t.find name' = some c) : name' = name := by
  obtain ⟨m, hm, hname⟩ := hi.get?_of_find h
  obtain ⟨m', hm', hname'⟩ := hi.get?_of_find h'
  rw [hm] at hm'
  cases hm'
  rw [← hname, ← hname']

theorem linkable_cons_iff (hi : t.Indexed) (hc : t.find name = some c) (hne : c ≠ p)
    (hfree : t.parentOf c = none) :
    t.Linkable ((p, name) :: links) ↔ (t.withLink c p).Linkable links := by
  obtain ⟨mc, hmc, -⟩ := hi.get?_of_find hc
  have hparent (id : ModuleId) : (t.withLink c p).parentOf id =
      if id = c then some p else t.parentOf id := parentOf_withLink (lt_size_of_get? hmc) id
  have hfind := (sameBut_withLink t c p).find
  constructor
  · intro h
    obtain ⟨hnew, hnodup⟩ := List.nodup_cons.1 h.nodup
    refine ⟨fun l hl => ?_, hnodup⟩
    obtain ⟨d, hd, hdne, hdfree⟩ := h.free l (List.mem_cons_of_mem _ hl)
    refine ⟨d, (hfind _).trans hd, hdne, ?_⟩
    rw [hparent, if_neg, hdfree]
    intro hdc
    rw [hdc] at hd
    exact hnew (List.mem_map.2 ⟨l, hl, hi.find_inj hc hd⟩)
  · intro h
    refine ⟨fun l hl => ?_, List.nodup_cons.2 ⟨fun hmem => ?_, h.nodup⟩⟩
    · rcases List.mem_cons.1 hl with rfl | hl
      · exact ⟨c, hc, hne, hfree⟩
      · obtain ⟨d, hd, hdne, hdfree⟩ := h.free l hl
        rw [hfind] at hd
        rw [hparent] at hdfree
        split_ifs at hdfree
        exact ⟨d, hd, hdne, hdfree⟩
    · obtain ⟨l, hl, hname⟩ := List.mem_map.1 hmem
      obtain ⟨d, hd, -, hdfree⟩ := h.free l hl
      rw [hfind, hname] at hd
      cases hc.symm.trans hd
      rw [hparent, if_pos rfl] at hdfree
      cases hdfree

theorem linkAll_ok_iff (hi : t.Indexed) (links : List (ModuleId × String)) :
    (t.linkAll links).2 = .ok () ↔ t.Linkable links := by
  induction links generalizing t with
  | nil => exact ⟨fun _ => ⟨by simp, by simp⟩, fun _ => rfl⟩
  | cons l links ih =>
    obtain ⟨p, name⟩ := l
    rw [linkAll]
    cases hlink : t.link p name with
    | error e =>
      constructor
      · intro h
        cases h
      · intro h
        obtain ⟨c, hc⟩ := h.free (p, name) List.mem_cons_self
        rw [link_ok_iff.2 ⟨c, hc.1, hc.2.1, hc.2.2, rfl⟩] at hlink
        cases hlink
    | ok t' =>
      obtain ⟨c, hc, hne, hfree, rfl⟩ := link_ok_iff.1 hlink
      have hi' := ((sameBut_withLink t c p).less (·.spec)).indexed hi
      rw [linkable_cons_iff hi hc hne hfree]
      exact ih hi'

/-- The second table is the first one with some links: new members are listed in order, behind those
that were there. -/
structure Linking (t : ModuleTable) (links : List (ModuleId × String)) (t' : ModuleTable) :
    Prop where
  same : t.SameBut Module.unlinked t'
  parentOf_iff : ∀ c p, t'.parentOf c = some p ↔
    t.parentOf c = some p ∨ ∃ l ∈ links, l.1 = p ∧ t.find l.2 = some c
  members_eq : ∀ p, (t'.members p).map some =
    (t.members p).map some ++ (links.filter (·.1 == p)).map fun l => t.find l.2

theorem linking_linkAll (hi : t.Indexed) (hlt : ∀ l ∈ links, l.1 < t.size)
    (hok : (t.linkAll links).2 = .ok ()) : t.Linking links (t.linkAll links).1 := by
  induction links generalizing t with
  | nil => exact ⟨.refl _ t, by simp [linkAll], by simp [linkAll]⟩
  | cons l links ih =>
    obtain ⟨p, name⟩ := l
    rw [linkAll] at hok ⊢
    cases hlink : t.link p name with
    | error e =>
      rw [hlink] at hok
      cases hok
    | ok t' =>
      rw [hlink] at hok
      obtain ⟨c, hc, hne, hfree, rfl⟩ := link_ok_iff.1 hlink
      obtain ⟨mc, hmc, -⟩ := hi.get?_of_find hc
      have hp : p < t.size := hlt (p, name) List.mem_cons_self
      have hone := sameBut_withLink t c p
      have hrest := ih ((hone.less (·.spec)).indexed hi)
        (fun l hl => hone.size ▸ hlt l (List.mem_cons_of_mem _ hl)) hok
      refine ⟨hone.trans hrest.same, fun d q => ?_, fun q => ?_⟩
      · -- the first link is the one that gives `c` a parent
        rw [hrest.parentOf_iff, parentOf_withLink (lt_size_of_get? hmc), List.exists_mem_cons_iff,
          ← or_assoc]
        simp only [hone.find]
        refine or_congr_left ?_
        split_ifs with hdc
        · rw [hdc, hfree, hc]
          simp
        · have hother : t.find name ≠ some d := by
            rw [hc]
            exact fun h => hdc (Option.some.inj h).symm
          simp [hother]
      · rw [hrest.members_eq, members_withLink hp hne]
        simp only [hone.find]
        by_cases hqp : q = p
        · subst hqp
          simp [hc]
        · simp [hqp, Ne.symm hqp]

/-! ## All declared members -/

theorem mem_declaredMembers {l : ModuleId × String} :
    l ∈ t.declaredMembers ↔ ∃ m, t.get? l.1 = some m ∧ l.2 ∈ m.spec.members := by
  obtain ⟨p, name⟩ := l
  unfold declaredMembers
  simp only [List.mem_flatMap, List.mem_map, Prod.mk.injEq]
  constructor
  · intro h
    obtain ⟨id, -, name', hname, rfl, rfl⟩ := h
    cases hm : t.get? id with
    | none =>
      rw [hm] at hname
      cases hname
    | some m =>
      rw [hm] at hname
      exact ⟨m, rfl, hname⟩
  · intro h
    obtain ⟨m, hm, hname⟩ := h
    refine ⟨p, mem_ids.2 (lt_size_of_get? hm), name, ?_, rfl, rfl⟩
    rw [hm]
    exact hname

theorem filter_flatMap_pairs {α β : Type} [DecidableEq α] (f : α → List β) {a : α} {l : List α}
    (hl : l.Nodup) (ha : a ∈ l) :
    (l.flatMap fun i => (f i).map (i, ·)).filter (·.1 == a) = (f a).map (a, ·) := by
  obtain ⟨before, after, rfl⟩ := List.append_of_mem ha
  have hnone {l : List α} (hl : a ∉ l) :
      (l.flatMap fun i => (f i).map (i, ·)).filter (·.1 == a) = [] := by
    refine List.filter_eq_nil_iff.2 fun e he => ?_
    obtain ⟨i, hi, he⟩ := List.mem_flatMap.1 he
    obtain ⟨b, -, rfl⟩ := List.mem_map.1 he
    exact fun heq => hl (beq_iff_eq.1 heq ▸ hi)
  obtain ⟨-, hnodup, hdisjoint⟩ := List.nodup_append.1 hl
  have hbefore : a ∉ before := fun h => hdisjoint a h a List.mem_cons_self rfl
  rw [List.flatMap_append, List.flatMap_cons, List.filter_append, List.filter_append,
    hnone hbefore, hnone (List.nodup_cons.1 hnodup).1]
  simp

/-- The links that a module declares, in order. -/
theorem filter_declaredMembers (hm : t.get? p = some m) :
    t.declaredMembers.filter (·.1 == p) = m.spec.members.map (p, ·) := by
  have hp : p ∈ t.ids := mem_ids.2 (lt_size_of_get? hm)
  have h := filter_flatMap_pairs (fun id => (t.get? id).elim [] (·.spec.members))
    (List.nodup_range (n := t.modules.size)) hp
  rw [hm] at h
  exact h

theorem declares_iff :
    t.Declares p c ↔ ∃ l ∈ t.declaredMembers, l.1 = p ∧ t.find l.2 = some c := by
  constructor
  · intro h
    obtain ⟨m, hm, name, hname, hc⟩ := h
    exact ⟨(p, name), mem_declaredMembers.2 ⟨m, hm, hname⟩, rfl, hc⟩
  · intro h
    obtain ⟨⟨_, name⟩, hl, rfl, hc⟩ := h
    obtain ⟨m, hm, hname⟩ := mem_declaredMembers.1 hl
    exact ⟨m, hm, name, hname, hc⟩

/-- No name is declared twice exactly if no module and no two modules do so. -/
theorem nodup_declaredNames_iff :
    (t.declaredMembers.map (·.2)).Nodup ↔
      (∀ p m, t.get? p = some m → m.spec.members.Nodup) ∧
      ∀ p q name, (p, name) ∈ t.declaredMembers → (q, name) ∈ t.declaredMembers → p = q := by
  have hnames : t.declaredMembers.map (·.2) =
      t.ids.flatMap fun id => (t.get? id).elim [] (·.spec.members) := by
    rw [declaredMembers, List.map_flatMap]
    refine congrArg (List.flatMap · _) (funext fun id => ?_)
    rw [List.map_map]
    exact List.map_id _
  have hmem (p : ModuleId) (name : String) :
      (p, name) ∈ t.declaredMembers ↔ name ∈ (t.get? p).elim [] (·.spec.members) := by
    rw [mem_declaredMembers]
    cases t.get? p <;> simp
  rw [hnames, List.nodup_flatMap]
  refine and_congr ?_ ?_
  · constructor
    · intro hall p m hm
      have hp := hall p (mem_ids.2 (lt_size_of_get? hm))
      rwa [hm] at hp
    · intro hall p hp
      obtain ⟨m, hm⟩ := exists_get? (mem_ids.1 hp)
      rw [hm]
      exact hall p m hm
  · constructor
    · intro hpair p q name hp hq
      by_contra hne
      have hid {p : ModuleId} (hp : (p, name) ∈ t.declaredMembers) : p ∈ t.ids :=
        mem_ids.2 (lt_size_of_mem_declaredMembers hp)
      have : Std.Symm (Function.onFun List.Disjoint fun id : ModuleId =>
          (t.get? id).elim [] (·.spec.members)) := ⟨fun _ _ => List.Disjoint.symm⟩
      exact hpair.forall (hid hp) (hid hq) hne ((hmem p name).1 hp) ((hmem q name).1 hq)
    · intro hall
      refine (List.nodup_iff_pairwise_ne.1 List.nodup_range).imp fun {p q} hne => ?_
      intro name hp hq
      exact hne (hall p q name ((hmem p name).2 hp) ((hmem q name).2 hq))

/-- The declared links can be made exactly if every member has a known name, is declared once, and
is not the module itself. -/
theorem Unlinked.linkable_iff (h : t.Unlinked) (hi : t.Indexed) :
    t.Linkable t.declaredMembers ↔
      (∀ p m, t.get? p = some m → ∀ name ∈ m.spec.members, ∃ c, t.find name = some c) ∧
      (∀ p m, t.get? p = some m → m.spec.members.Nodup) ∧
      (∀ p q c, t.Declares p c → t.Declares q c → p = q) ∧ ∀ x, ¬t.Declares x x := by
  constructor
  · intro hl
    obtain ⟨hdistinct, honce⟩ := nodup_declaredNames_iff.1 hl.nodup
    refine ⟨fun p m hm name hname => ?_, hdistinct, fun p q c hp hq => ?_, fun x hx => ?_⟩
    · obtain ⟨c, hc, -⟩ := hl.free (p, name) (mem_declaredMembers.2 ⟨m, hm, hname⟩)
      exact ⟨c, hc⟩
    · obtain ⟨⟨p, name⟩, hmem, rfl, hc⟩ := declares_iff.1 hp
      obtain ⟨⟨q, name'⟩, hmem', rfl, hc'⟩ := declares_iff.1 hq
      cases hi.find_inj hc hc'
      exact honce p q name hmem hmem'
    · obtain ⟨l, hmem, rfl, hself⟩ := declares_iff.1 hx
      obtain ⟨c, hc, hne, -⟩ := hl.free l hmem
      cases hself.symm.trans hc
      exact hne rfl
  · intro hall
    obtain ⟨hknown, hdistinct, hunique, hself⟩ := hall
    refine ⟨fun l hl => ?_, nodup_declaredNames_iff.2 ⟨hdistinct, fun p q name hp hq => ?_⟩⟩
    · obtain ⟨m, hm, hname⟩ := mem_declaredMembers.1 hl
      obtain ⟨c, hc⟩ := hknown _ m hm _ hname
      refine ⟨c, hc, fun heq => hself l.1 ?_, h.parentOf_eq c⟩
      exact declares_iff.2 ⟨l, hl, rfl, heq ▸ hc⟩
    · obtain ⟨m, hm, hname⟩ := mem_declaredMembers.1 hp
      obtain ⟨c, hc⟩ := hknown p m hm name hname
      exact hunique p q c (declares_iff.2 ⟨_, hp, rfl, hc⟩) (declares_iff.2 ⟨_, hq, rfl, hc⟩)

/-! ## Chains of parents and declarations -/

/-- If parents are those that declare a module, chains of parents lead from descendants upwards. -/
theorem exists_climbs_iff (hparent : ∀ c p, u.parentOf c = some p ↔ t.Declares p c) :
    (∃ n, u.Climbs n x a) ↔ t.Below x a := by
  constructor
  · intro h
    obtain ⟨n, hn⟩ := h
    induction hn with
    | refl x => exact .refl
    | step hp _ ih => exact .head ((hparent _ _).1 hp) ih
  · intro h
    induction h using Relation.ReflTransGen.head_induction_on with
    | refl => exact ⟨0, .refl a⟩
    | head hp _ ih =>
      obtain ⟨n, hn⟩ := ih
      exact ⟨n + 1, .step ((hparent _ _).2 hp) hn⟩

theorem exists_climbs_succ_iff (hparent : ∀ c p, u.parentOf c = some p ↔ t.Declares p c) :
    (∃ n, u.Climbs (n + 1) x a) ↔
      Relation.TransGen (fun child parent => t.Declares parent child) x a := by
  rw [Relation.TransGen.head'_iff]
  constructor
  · intro h
    obtain ⟨n, hn⟩ := h
    cases hn with
    | step hp hn => exact ⟨_, (hparent _ _).1 hp, (exists_climbs_iff hparent).1 ⟨n, hn⟩⟩
  · intro h
    obtain ⟨p, hp, hrest⟩ := h
    obtain ⟨n, hn⟩ := (exists_climbs_iff hparent).2 hrest
    exact ⟨n, .step ((hparent _ _).2 hp) hn⟩

open Classical in
/-- The modules that some chain of parents leads from to a given one. -/
noncomputable def subtree (t : ModuleTable) (x : ModuleId) : Finset ModuleId :=
  (Finset.range t.size).filter fun y => ∃ n, t.Climbs n y x

theorem card_subtree_le (t : ModuleTable) (x : ModuleId) : (t.subtree x).card ≤ t.size := by
  classical
  exact (Finset.card_filter_le _ _).trans_eq (Finset.card_range _)

/-- A module that is not on a cycle has fewer modules below it than its parent. -/
theorem Linked.card_subtree_lt (ht : t.Linked) (hx : ∀ n, ¬t.Climbs (n + 1) x x)
    (hp : t.parentOf x = some p) : (t.subtree x).card < (t.subtree p).card := by
  classical
  refine Finset.card_lt_card (Finset.ssubset_iff_of_subset (fun y hy => ?_) |>.2 ⟨p, ?_, ?_⟩)
  · obtain ⟨hlt, n, hn⟩ := Finset.mem_filter.1 hy
    exact Finset.mem_filter.2 ⟨hlt, n + 1, hn.trans (climbs_one hp)⟩
  · exact Finset.mem_filter.2 ⟨Finset.mem_range.2 (ht.parent_lt hp), 0, .refl p⟩
  · intro hmem
    obtain ⟨-, n, hn⟩ := Finset.mem_filter.1 hmem
    exact hx n (.step hp hn)

/-- Some chain of parents leads from the module to a module on a cycle of parents. -/
def BelowCycle (t : ModuleTable) (x : ModuleId) : Prop :=
  ∃ n c, t.Climbs n x c ∧ ∃ k, t.Climbs (k + 1) c c

/-- A chain of parents that comes to no cycle ends, after fewer links than there are modules. -/
theorem Linked.exists_climbs_root (ht : t.Linked) (hcycle : ¬t.BelowCycle x) (hx : x < t.size) :
    ∃ k r, t.Climbs k x r ∧ t.parentOf r = none ∧ k + (t.subtree x).card ≤ t.size := by
  induction hrest : t.size - (t.subtree x).card using Nat.strong_induction_on generalizing x with
  | _ rest ih =>
    have hcard := card_subtree_le t x
    cases hp : t.parentOf x with
    | none => exact ⟨0, x, .refl x, hp, by omega⟩
    | some p =>
      have hlt := ht.card_subtree_lt (fun n hn => hcycle ⟨0, x, .refl x, n, hn⟩) hp
      have hcard' := card_subtree_le t p
      have hcycle' : ¬t.BelowCycle p := fun ⟨n, c, hc, hk⟩ => hcycle ⟨n + 1, c, .step hp hc, hk⟩
      obtain ⟨k, r, hk, hr, hle⟩ := ih _ (by omega) hcycle' (ht.parent_lt hp) rfl
      exact ⟨k + 1, r, .step hp hk, hr, by omega⟩

/-- A chain of parents that ends comes to no cycle. -/
theorem Climbs.not_belowCycle (h : t.Climbs n x r) (hr : t.parentOf r = none) :
    ¬t.BelowCycle x := by
  rintro ⟨i, c, hc, k, hk⟩
  obtain ⟨j, hj⟩ : ∃ j, t.Climbs j c r := by
    clear hk
    induction hc generalizing n with
    | refl x => exact ⟨n, h⟩
    | step hp _ ih =>
      cases h with
      | refl =>
        rw [hr] at hp
        cases hp
      | step hp' h =>
        cases hp.symm.trans hp'
        exact ih h
  have hlevel := ((hk.trans hj).unique hj hr hr).1
  omega

/-- A root is above fewer links than there are modules. -/
theorem Linked.lt_size_of_climbs_root (ht : t.Linked) (hx : x < t.size) (h : t.Climbs n x r)
    (hr : t.parentOf r = none) : n < t.size := by
  obtain ⟨k, s, hk, hs, hle⟩ := ht.exists_climbs_root (h.not_belowCycle hr) hx
  have hself : x ∈ t.subtree x := by
    classical
    exact Finset.mem_filter.2 ⟨Finset.mem_range.2 hx, 0, .refl x⟩
  have hpos := Finset.card_pos.2 ⟨x, hself⟩
  have hkn := (hk.unique h hs hr).1
  omega

/-- The walk comes to all modules but those on cycles of parents and below them. -/
theorem Linked.mem_walk_iff (ht : t.Linked) (hx : x < t.size) :
    x ∈ t.walk ↔ ¬t.BelowCycle x := by
  rw [mem_walk]
  constructor
  · rintro ⟨r, hr, hxr⟩
    obtain ⟨k, -, hk⟩ := ht.mem_tree.1 hxr
    exact hk.not_belowCycle (mem_roots.1 hr).2
  · intro hcycle
    obtain ⟨k, r, hk, hr, -⟩ := ht.exists_climbs_root hcycle hx
    exact ⟨r, mem_roots.2 ⟨hk.lt_size ht hx, hr⟩,
      ht.mem_tree.2 ⟨k, ht.lt_size_of_climbs_root hx hk hr, hk⟩⟩

/-- The walk leaves no module out exactly if no chain of parents comes back to its start. -/
theorem Linked.stray?_eq_none_iff_acyclic (ht : t.Linked) :
    t.stray? = none ↔ ∀ n x, ¬t.Climbs (n + 1) x x := by
  rw [stray?_eq_none_iff]
  constructor
  · intro hall n x hcycle
    have hx : x < t.size := by
      cases hcycle with
      | step hp _ => exact lt_size_of_parentOf hp
    exact (ht.mem_walk_iff hx).1 (hall x hx) ⟨0, x, .refl x, n, hcycle⟩
  · intro hacyclic x hx
    refine (ht.mem_walk_iff hx).2 ?_
    rintro ⟨-, c, -, k, hk⟩
    exact hacyclic k c hk

/-- Groups do not change which modules the walk leaves out. -/
theorem Linked.stray?_assignGroups_eq_none_iff (ht : t.Linked) :
    t.assignGroups.stray? = none ↔ t.stray? = none := by
  have hsame := t.sameBut_assignGroups
  have ht' : t.assignGroups.Linked := ht.congr (hsame.less fun m => (m.parent, m.members))
  have hparent := (hsame.less (·.parent)).parentOf_eq
  rw [ht'.stray?_eq_none_iff_acyclic, ht.stray?_eq_none_iff_acyclic]
  constructor
  · intro h n x hcycle
    exact h n x (hcycle.congr hparent)
  · intro h n x hcycle
    exact h n x (hcycle.congr fun y => (hparent y).symm)

/-! ## Success -/

/-- The links of a table without links, once they are made, are the declarations. -/
theorem Unlinked.linking (h : t.Unlinked) (hi : t.Indexed) (hok : t.linkMembers.2 = .ok ()) :
    t.Linking t.declaredMembers t.linkMembers.1 ∧
      ∀ c p, t.linkMembers.1.parentOf c = some p ↔ t.Declares p c := by
  have hlinking := linking_linkAll hi (fun _ hl => lt_size_of_mem_declaredMembers hl) hok
  refine ⟨hlinking, fun c p => ?_⟩
  rw [linkMembers, hlinking.parentOf_iff, h.parentOf_eq, declares_iff]
  simp

theorem buildMembers_ok_iff_of_links {merge : Bool} :
    (t.buildMembers merge).2 = .ok () ↔ t.linkMembers.2 = .ok () ∧
      (if merge then t.linkMembers.1.assignGroups else t.linkMembers.1).stray? = none := by
  unfold buildMembers
  generalize t.linkMembers = links
  obtain ⟨t', result⟩ := links
  cases result with
  | error e => simp
  | ok _ =>
    dsimp only
    split
    · rename_i hstray
      simp [hstray]
    · rename_i hstray
      simp [hstray]

/-- The merging of members succeeds exactly on sound declarations, whether it merges or only
links. -/
theorem Unlinked.buildMembers_ok_iff (h : t.Unlinked) (hi : t.Indexed) (merge : Bool) :
    (t.buildMembers merge).2 = .ok () ↔ t.Sound := by
  have hlinked := (ends_linkMembers (linked_of_unlinked h) hi).1
  have hstray : (if merge then t.linkMembers.1.assignGroups else t.linkMembers.1).stray? = none ↔
      t.linkMembers.1.stray? = none := by
    split_ifs
    · exact hlinked.stray?_assignGroups_eq_none_iff
    · rfl
  rw [buildMembers_ok_iff_of_links, hstray, hlinked.stray?_eq_none_iff_acyclic]
  constructor
  · intro hok
    obtain ⟨hlinks, hacyclic⟩ := hok
    obtain ⟨hknown, hnodup, hunique, -⟩ := (h.linkable_iff hi).1 ((linkAll_ok_iff hi _).1 hlinks)
    have hparent := (h.linking hi hlinks).2
    refine ⟨fun {p m} => hknown p m, fun {p m} => hnodup p m, fun {p q c} => hunique p q c,
      fun x hcycle => ?_⟩
    obtain ⟨n, hn⟩ := (exists_climbs_succ_iff hparent).2 hcycle
    exact hacyclic n x hn
  · intro hsound
    have hlinks : t.linkMembers.2 = .ok () := by
      refine (linkAll_ok_iff hi _).2 ((h.linkable_iff hi).2 ⟨fun p m => hsound.known,
        fun p m => hsound.nodup, fun p q c => hsound.unique, fun x hx => ?_⟩)
      exact hsound.acyclic x (.single hx)
    have hparent := (h.linking hi hlinks).2
    refine ⟨hlinks, fun n x hcycle => ?_⟩
    exact hsound.acyclic x ((exists_climbs_succ_iff hparent).1 ⟨n, hcycle⟩)

end ModuleTable

end ModuleGraph
