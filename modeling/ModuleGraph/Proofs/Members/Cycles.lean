import ModuleGraph.Proofs.Members.Rearranging

/-!
# Member cycles

Members can be merged, or only linked, exactly if their declarations form a forest: every name is
known, no module is a member of itself or declared twice, and the modules that declare a module
never lead back to it (`ModuleTable.verdict_of_buildMembers`).

A cycle of several modules is not met on the way: the walk from the roots does not come near it. It
is inferred from the modules that the walk leaves out. These are the modules on cycles and those
that hang below one, and the error names the first of them. So the name that it gives leads to a
cycle, by following parents, but need not be on it (`ModuleTable.entangled_of_memberCycle`).
-/

namespace ModuleGraph

namespace ModuleTable

variable {t t' u : ModuleTable} {a c p r x y : ModuleId} {name : String} {merge : Bool} {n : Nat}
  {links : List (ModuleId × String)}

/-! ## Declarations that form a forest -/

/-- The modules that the members lists of all modules name, one list after the other. -/
def declaredModules (t : ModuleTable) : List ModuleId :=
  (t.declaredMembers.map (·.2)).filterMap t.find

/-- Every member is known, none is the module itself, and none stands twice in all lists
together. -/
structure Regular (t : ModuleTable) : Prop where
  known : ∀ p m, t.get? p = some m → ∀ name ∈ m.spec.members, ∃ c, t.find name = some c
  irreflexive : ∀ x, ¬t.Declares x x
  nodup : t.declaredModules.Nodup

/-- The modules that declare the module, and those that declare these, lead back to it. -/
def OnCycle (t : ModuleTable) (x : ModuleId) : Prop :=
  Relation.TransGen (fun child parent => t.Declares parent child) x x

/-- The module is on a cycle, or below one. -/
def Entangled (t : ModuleTable) (x : ModuleId) : Prop :=
  ∃ c, t.OnCycle c ∧ t.Below x c

theorem map_some_filterMap {α β : Type} {f : α → Option β} {l : List α}
    (h : ∀ a ∈ l, ∃ b, f a = some b) : (l.filterMap f).map some = l.map f := by
  rw [List.map_filterMap_some_eq_filter_map_isSome, List.filter_eq_self]
  intro b hb
  obtain ⟨a, ha, rfl⟩ := List.mem_map.1 hb
  exact Option.isSome_iff_exists.2 (h a ha)

/-- The declared links of a table without links can be made exactly if the declarations are
regular. -/
theorem Unlinked.linkable_iff_regular (h : t.Unlinked) (hi : t.Indexed) :
    t.Linkable t.declaredMembers ↔ t.Regular := by
  constructor
  · intro hl
    obtain ⟨hknown, -, -, hself⟩ := (h.linkable_iff hi).1 hl
    exact ⟨hknown, hself, hl.nodup.filterMap fun _ _ _ hc hc' => hi.find_inj hc' hc⟩
  · intro hr
    have hknown : ∀ l ∈ t.declaredMembers, ∃ c, t.find l.2 = some c := fun l hl => by
      obtain ⟨m, hm, hname⟩ := mem_declaredMembers.1 hl
      exact hr.known l.1 m hm l.2 hname
    refine ⟨fun l hl => ?_, ?_⟩
    · obtain ⟨c, hc⟩ := hknown l hl
      refine ⟨c, hc, fun heq => hr.irreflexive l.1 ?_, h.parentOf_eq c⟩
      exact declares_iff.2 ⟨l, hl, rfl, heq ▸ hc⟩
    · -- as the names are known, their modules tell them apart
      have hmap : t.declaredModules.map some = (t.declaredMembers.map (·.2)).map t.find :=
        map_some_filterMap (List.forall_mem_map.2 hknown)
      have hnodup := hr.nodup.map (Option.some_injective _)
      rw [hmap] at hnodup
      exact hnodup.of_map

theorem Unlinked.sound_iff (h : t.Unlinked) (hi : t.Indexed) :
    t.Sound ↔ t.Regular ∧ ∀ x, ¬t.OnCycle x := by
  rw [← h.linkable_iff_regular hi, h.linkable_iff hi]
  constructor
  · intro hs
    refine ⟨⟨fun p m => hs.known, fun p m => hs.nodup, fun p q c => hs.unique, fun x hx => ?_⟩,
      hs.acyclic⟩
    exact hs.acyclic x (.single hx)
  · rintro ⟨⟨hknown, hdistinct, hunique, -⟩, hacyclic⟩
    exact ⟨fun {p m} => hknown p m, fun {p m} => hdistinct p m, fun {p q c} => hunique p q c,
      hacyclic⟩

/-! ## The walk -/

/-- A tree that is no deeper than `n` is not cut off at `n`. -/
theorem Linked.treeBelow_succ (ht : t.Linked) (h : ∀ k x, t.Climbs k x a → k < n) :
    t.treeBelow (n + 1) a = t.treeBelow n a := by
  induction n generalizing a with
  | zero => exact absurd (h 0 a (.refl a)) (Nat.not_lt_zero 0)
  | succ n ih =>
    rw [treeBelow, treeBelow]
    refine congrArg (· ++ [a]) (List.flatMap_congr fun c hc => ih fun k x hx => ?_)
    exact Nat.lt_of_succ_lt_succ (h _ x (hx.trans (climbs_one (ht.mem_members.1 hc))))

/-- The bound on the depth of the walk never cuts a tree off, be there cycles or not. -/
theorem Linked.treeBelow_eq_tree (ht : t.Linked) (hr : r ∈ t.roots) (hn : t.size ≤ n) :
    t.treeBelow n r = t.tree r := by
  obtain ⟨hlt, hroot⟩ := mem_roots.1 hr
  induction n, hn using Nat.le_induction with
  | base => rfl
  | succ n hn ih =>
    rw [← ih]
    refine ht.treeBelow_succ fun k x hx => Nat.lt_of_lt_of_le ?_ hn
    have hxt : x < t.size := by
      cases hx with
      | refl => exact hlt
      | step hp _ => exact lt_size_of_parentOf hp
    exact ht.lt_size_of_climbs_root hxt hx hroot

theorem stray?_eq_some_iff :
    t.stray? = some x ↔ x < t.size ∧ x ∉ t.walk ∧ ∀ y < x, y ∈ t.walk := by
  unfold stray? ids
  rw [List.find?_range_eq_some]
  simp only [Std.TreeSet.contains_ofList, Bool.not_eq_true', Bool.not_not, List.mem_range,
    List.contains_iff_mem, ← Bool.not_eq_true]
  exact and_left_comm

/-- Where parents are those that declare a module, cycles of parents are cycles of declarations. -/
theorem belowCycle_iff (hparent : ∀ c p, u.parentOf c = some p ↔ t.Declares p c) :
    u.BelowCycle x ↔ t.Entangled x := by
  constructor
  · rintro ⟨n, c, hc, hcycle⟩
    exact ⟨c, (exists_climbs_succ_iff hparent).1 hcycle, (exists_climbs_iff hparent).1 ⟨n, hc⟩⟩
  · rintro ⟨c, hcycle, hbelow⟩
    obtain ⟨n, hc⟩ := (exists_climbs_iff hparent).2 hbelow
    exact ⟨n, c, hc, (exists_climbs_succ_iff hparent).2 hcycle⟩

/-- The first module that the walk leaves out is the first one on a cycle or below one. -/
theorem Linked.entangled_of_stray? (hu : u.Linked)
    (hparent : ∀ c p, u.parentOf c = some p ↔ t.Declares p c) (hstray : u.stray? = some x) :
    t.Entangled x ∧ ∀ y, t.Entangled y → x ≤ y := by
  obtain ⟨hx, hout, hbefore⟩ := stray?_eq_some_iff.1 hstray
  constructor
  · rw [hu.mem_walk_iff hx, not_not] at hout
    exact (belowCycle_iff hparent).1 hout
  · intro y hy
    by_contra hlt
    rw [Nat.not_le] at hlt
    exact (hu.mem_walk_iff (Nat.lt_trans hlt hx)).1 (hbefore y hlt) ((belowCycle_iff hparent).2 hy)

/-! ## Success and failure once the links are made -/

/-- The table that the walk goes through. -/
def walked (t : ModuleTable) (merge : Bool) : ModuleTable :=
  if merge then t.linkMembers.1.assignGroups else t.linkMembers.1

theorem sameBut_walked (t : ModuleTable) (merge : Bool) :
    t.linkMembers.1.SameBut Module.ungrouped (t.walked merge) := by
  unfold walked
  split_ifs
  · exact t.linkMembers.1.sameBut_assignGroups
  · exact .refl _ _

theorem Linked.walked (ht : t.Linked) (hi : t.Indexed) (merge : Bool) : (t.walked merge).Linked :=
  (ends_linkMembers ht hi).1.congr ((t.sameBut_walked merge).less fun m => (m.parent, m.members))

theorem Linked.specs_walked (ht : t.Linked) (hi : t.Indexed) (merge : Bool) :
    t.SameBut (·.spec) (t.walked merge) :=
  ((ends_linkMembers ht hi).2.1.less (·.spec)).trans ((t.sameBut_walked merge).less (·.spec))

theorem snd_buildMembers_of_links (hlinks : t.linkMembers.2 = .ok ()) (merge : Bool) :
    (t.buildMembers merge).2 = match (t.walked merge).stray? with
      | some x => .error (.memberCycle ((t.walked merge).name x))
      | none => .ok () := by
  unfold buildMembers walked
  generalize t.linkMembers = linked at *
  obtain ⟨l, result⟩ := linked
  cases hlinks
  dsimp only
  cases (if merge then l.assignGroups else l).stray? <;> rfl

/-! ## Links of tables that the engine makes -/

theorem SameBut.declares (h : t.SameBut (·.spec) t') (hd : t.Declares p c) : t'.Declares p c := by
  obtain ⟨m, hm, name, hname, hc⟩ := hd
  obtain ⟨m', hm', hspec⟩ := h.exists_get? hm
  exact ⟨m', hm', name, hspec ▸ hname, (h.find name).trans hc⟩

/-- Every link has been declared. -/
def LinksDeclared (t : ModuleTable) : Prop :=
  ∀ c p, t.parentOf c = some p → t.Declares p c

theorem LinksDeclared.of_sameBut (h : t.LinksDeclared)
    (hsame : t.SameBut (fun m => (m.spec, m.parent)) t') : t'.LinksDeclared := by
  intro c p hp
  rw [(hsame.less Prod.snd).parentOf_eq] at hp
  exact (hsame.less Prod.fst).declares (h c p hp)

theorem LinksDeclared.linkAll (h : t.LinksDeclared) (hi : t.Indexed)
    (hdeclared : ∀ l ∈ links, ∀ c, t.find l.2 = some c → t.Declares l.1 c) :
    (t.linkAll links).1.LinksDeclared := by
  induction links generalizing t with
  | nil => exact h
  | cons l links ih =>
    obtain ⟨p, name⟩ := l
    rw [ModuleTable.linkAll]
    cases hlink : t.link p name with
    | error e => exact h
    | ok t' =>
      obtain ⟨c, hc, -, -, rfl⟩ := link_ok_iff.1 hlink
      have hspec := (sameBut_withLink t c p).less (·.spec)
      refine ih (fun d q hq => ?_) (hspec.indexed hi) fun l hl d hd => ?_
      · rw [parentOf_withLink (hi.lt_size_of_find hc)] at hq
        split_ifs at hq with hdc
        · cases hq
          rw [hdc]
          exact hspec.declares (hdeclared (p, name) List.mem_cons_self c hc)
        · exact hspec.declares (h d q hq)
      · rw [hspec.find] at hd
        exact hspec.declares (hdeclared l (List.mem_cons_of_mem _ hl) d hd)

theorem LinksDeclared.buildMembers (h : t.LinksDeclared) (hi : t.Indexed) (merge : Bool) :
    (t.buildMembers merge).1.LinksDeclared := by
  have hlinks : t.linkMembers.1.LinksDeclared :=
    h.linkAll hi fun l hl c hc => declares_iff.2 ⟨l, hl, rfl, hc⟩
  have hwalked := hlinks.of_sameBut ((t.sameBut_walked merge).less fun m => (m.spec, m.parent))
  unfold walked at hwalked
  unfold ModuleTable.buildMembers
  generalize t.linkMembers = linked at *
  obtain ⟨l, result⟩ := linked
  cases result with
  | error e => exact hlinks
  | ok _ =>
    dsimp only at hwalked ⊢
    split
    · exact hwalked
    · cases merge with
      | false => exact hwalked
      | true =>
        exact hwalked.of_sameBut ((sameBut_mergeContents _).less fun m => (m.spec, m.parent))

/-- In a table that the engine has made, by whatever it did before, every link has been declared. -/
theorem Made.linksDeclared (h : t.Made) : t.LinksDeclared := by
  induction h with
  | empty =>
    intro c p hp
    simp [parentOf, get?] at hp
  | @add t t' spec id hmade hadd ih =>
    obtain ⟨hi', hget⟩ := (ends_add hmade.coherent.indexed spec).of_ok hadd
    have hkeep {id : ModuleId} {m : Module} (hm : t.get? id = some m) : t'.get? id = some m := by
      rw [hget, if_neg (Nat.ne_of_lt (lt_size_of_get? hm)), hm]
    intro c p hp
    have hold : t.parentOf c = some p := by
      rw [parentOf, hget] at hp
      split_ifs at hp with hc
      · cases hp
      · exact hp
    obtain ⟨m, hm, name, hname, hc⟩ := ih c p hold
    obtain ⟨mc, hmc, hmcname⟩ := hmade.coherent.indexed.get?_of_find hc
    exact ⟨m, hkeep hm, name, hname, (hi' name c).2 ⟨mc, hkeep hmc, hmcname⟩⟩
  | setBase id _ ih => exact ih.of_sameBut (.modify _ id fun _ => rfl)
  | hold _ hsame ih => exact ih.of_sameBut (hsame.less fun m => (m.spec, m.parent))
  | addRequirement id _ _ ih =>
    exact ih.of_sameBut (.modify _ id fun m => by split_ifs <;> rfl)
  | addPermit id _ _ ih =>
    exact ih.of_sameBut (.modify _ id fun m => by split_ifs <;> rfl)
  | members merge hmade ih => exact ih.buildMembers hmade.coherent.indexed merge

/-- If all declared links can be made, there were none before. -/
theorem Made.unlinked_of_links (h : t.Made) (hlinks : t.linkMembers.2 = .ok ()) : t.Unlinked := by
  refine h.coherent.unlinked fun c => Option.eq_none_iff_forall_ne_some.2 fun p hp => ?_
  obtain ⟨l, hl, -, hc⟩ := declares_iff.1 (h.linksDeclared c p hp)
  obtain ⟨d, hd, -, hfree⟩ := ((linkAll_ok_iff h.coherent.indexed _).1 hlinks).free l hl
  cases hc.symm.trans hd
  rw [hp] at hfree
  cases hfree

/-- A link closes a cycle only if it leads from a module to itself. -/
theorem exists_self_of_linkAll (h : (t.linkAll links).2 = .error (.memberCycle name)) :
    ∃ l ∈ links, l.2 = name ∧ t.find name = some l.1 := by
  induction links generalizing t with
  | nil => cases h
  | cons l links ih =>
    obtain ⟨p, member⟩ := l
    rw [linkAll] at h
    cases hlink : t.link p member with
    | ok t' =>
      rw [hlink] at h
      obtain ⟨l, hl, hname, hfind⟩ := ih h
      rw [(find_of_link hlink).2] at hfind
      exact ⟨l, List.mem_cons_of_mem _ hl, hname, hfind⟩
    | error e =>
      rw [hlink] at h
      cases h
      unfold link require at hlink
      cases hfind : t.find member with
      | none =>
        rw [hfind] at hlink
        cases hlink
      | some c =>
        rw [hfind] at hlink
        replace hlink : (if c = p then _ else _) = Except.error _ := hlink
        split_ifs at hlink with hself
        · cases hlink
          exact ⟨(p, name), List.mem_cons_self, rfl, hself ▸ hfind⟩
        · split at hlink <;> cases hlink

/-! ## The verdict -/

/-- The merging of members of a table without parents comes to an end: the walk meets a module once
at most, and as deep as it goes, its bound cuts nothing off. It succeeds exactly if every member is
known, no module is its own member or stands twice in all members lists, and no module is on a
cycle. If there is nothing wrong but a cycle, the error says so. Whether contents are merged makes
no difference. -/
theorem verdict_of_buildMembers (t : ModuleTable) (hmade : t.Made)
    (hfree : ∀ x, t.parentOf x = none) (merge : Bool) :
    ((t.walked merge).walk.Nodup ∧ ∀ r ∈ (t.walked merge).roots, ∀ depth, t.size ≤ depth →
      (t.walked merge).treeBelow depth r = (t.walked merge).tree r) ∧
    ((t.buildMembers merge).2 = .ok () ↔ t.Regular ∧ ∀ x, ¬t.OnCycle x) ∧
    (t.Regular → (∃ x, t.OnCycle x) →
      ∃ name, (t.buildMembers merge).2 = .error (.memberCycle name)) := by
  have hi := hmade.coherent.indexed
  have hunlinked := hmade.coherent.unlinked hfree
  have hlinked := hmade.coherent.linked.walked hi merge
  have hsize := (hmade.coherent.linked.specs_walked hi merge).size
  have hok : (t.buildMembers merge).2 = .ok () ↔ t.Regular ∧ ∀ x, ¬t.OnCycle x :=
    (hunlinked.buildMembers_ok_iff hi merge).trans (hunlinked.sound_iff hi)
  refine ⟨⟨hlinked.nodup_walk, fun r hr depth hdepth => ?_⟩, hok, fun hregular hcycle => ?_⟩
  · exact hlinked.treeBelow_eq_tree hr (hsize ▸ hdepth)
  · obtain ⟨x, hx⟩ := hcycle
    have hlinks : t.linkMembers.2 = .ok () :=
      (linkAll_ok_iff hi _).2 ((hunlinked.linkable_iff_regular hi).2 hregular)
    have hresult := snd_buildMembers_of_links hlinks merge
    cases hstray : (t.walked merge).stray? with
    | none =>
      rw [hstray] at hresult
      exact absurd hx ((hok.1 hresult).2 x)
    | some y =>
      rw [hstray] at hresult
      exact ⟨_, hresult⟩

end ModuleTable

namespace BuildPlan

/-- The table of a plan is made by the engine, and has no links yet. -/
theorem free_of_createModules (plan : BuildPlan) {t : ModuleTable}
    (h : plan.createModules = .ok t) : t.Made ∧ ∀ x, t.parentOf x = none :=
  ⟨plan.made_createModules.of_ok h, (plan.ends_createModules.of_ok h).2.1.parentOf_eq⟩

/-- A helper, a program with a tool and the helper as its members, and the tool, which has the
program as its member. -/
def circular : BuildPlan where
  specs := [
    { name := "helper", version := "1.0" },
    { name := "program", version := "1.0", members := ["tool", "helper"] },
    { name := "tool", version := "1.0", members := ["program"] }]

/-- The helper stands apart from the cycle, as a member of a module on it. -/
theorem exists_circular :
    ∃ t, circular.createModules = .ok t ∧ t.Regular ∧ t.OnCycle 1 ∧ ¬t.OnCycle 0 ∧
      t.find "helper" = some 0 ∧ ∀ merge,
      (t.buildMembers merge).2 = .error (.memberCycle "helper") := by
  have hrun : ∃ t, circular.createModules = .ok t ∧
      (∃ done, t.linkMembers.2 = .ok done ∧ True) ∧
      t.linkMembers.1.parentOf 1 = some 2 ∧ t.linkMembers.1.parentOf 2 = some 1 ∧
      (t.get? 0).any (·.spec.members.isEmpty) ∧ t.find "helper" = some 0 ∧ ∀ merge,
      (t.buildMembers merge).2 = .error (.memberCycle "helper") := by
    decide +kernel
  obtain ⟨t, ht, ⟨_, hlinks, -⟩, hprogram, htool, hhelper, hfind, hresult⟩ := hrun
  obtain ⟨hmade, hfree⟩ := circular.free_of_createModules ht
  have hi := hmade.coherent.indexed
  have hunlinked := hmade.coherent.unlinked hfree
  have hdeclares := (hunlinked.linking hi hlinks).2
  refine ⟨t, ht, ?_, ?_, fun hcycle => ?_, hfind, hresult⟩
  · exact (hunlinked.linkable_iff_regular hi).1 ((ModuleTable.linkAll_ok_iff hi _).1 hlinks)
  · exact .tail (.single ((hdeclares 1 2).1 hprogram)) ((hdeclares 2 1).1 htool)
  · -- no chain comes back to a module that declares no members
    obtain ⟨c, -, m, hm, name, hname, -⟩ := Relation.TransGen.tail'_iff.1 hcycle
    rw [hm, Option.any_some, List.isEmpty_iff] at hhelper
    rw [hhelper] at hname
    cases hname

end BuildPlan

namespace ModuleTable

/-- Members of members are merged, and a program that is a member of its tool is not. -/
theorem verdict_circular :
    (∃ t, BuildPlan.nested.createModules = .ok t ∧ (t.buildMembers false).2 = .ok () ∧
      t.Regular ∧ ∀ x, ¬t.OnCycle x) ∧
    ∃ t, BuildPlan.circular.createModules = .ok t ∧ t.Regular ∧ (∃ x, t.OnCycle x) ∧
      ∃ name, (t.buildMembers true).2 = .error (.memberCycle name) := by
  constructor
  · have hrun : ∃ t, BuildPlan.nested.createModules = .ok t ∧
        ∃ done, (t.buildMembers false).2 = .ok done ∧ True := by
      decide +kernel
    obtain ⟨t, ht, _, hok, -⟩ := hrun
    obtain ⟨hmade, hfree⟩ := BuildPlan.nested.free_of_createModules ht
    exact ⟨t, ht, hok, (verdict_of_buildMembers t hmade hfree false).2.1.1 hok⟩
  · obtain ⟨t, ht, hregular, hcycle, -⟩ := BuildPlan.exists_circular
    obtain ⟨hmade, hfree⟩ := BuildPlan.circular.free_of_createModules ht
    exact ⟨t, ht, hregular, ⟨1, hcycle⟩,
      (verdict_of_buildMembers t hmade hfree true).2.2 hregular ⟨1, hcycle⟩⟩

/-- If the merging of members fails over a cycle, be the table linked already or not, then the error
names either a module that declares itself, or else the first module, in the order of modules, that
is on a cycle of declarations or below one. -/
theorem entangled_of_memberCycle (t : ModuleTable) (hmade : t.Made) (merge : Bool) (name : String)
    (h : (t.buildMembers merge).2 = .error (.memberCycle name)) :
    ∃ x, t.find name = some x ∧ t.Entangled x ∧
      (t.Declares x x ∨ ∀ y, t.Entangled y → x ≤ y) := by
  have hi := hmade.coherent.indexed
  cases hlinks : t.linkMembers.2 with
  | error e =>
    have he : t.linkMembers.2 = .error (.memberCycle name) := by
      unfold buildMembers at h
      generalize t.linkMembers = linked at *
      obtain ⟨l, result⟩ := linked
      cases hlinks
      exact h
    obtain ⟨l, hl, rfl, hself⟩ := exists_self_of_linkAll he
    have hdeclares : t.Declares l.1 l.1 := declares_iff.2 ⟨l, hl, rfl, hself⟩
    exact ⟨l.1, hself, ⟨l.1, .single hdeclares, .refl⟩, .inl hdeclares⟩
  | ok _ =>
    have hunlinked := hmade.unlinked_of_links hlinks
    have hlinked := hmade.coherent.linked.walked hi merge
    have hparent (c p : ModuleId) : (t.walked merge).parentOf c = some p ↔ t.Declares p c := by
      rw [((t.sameBut_walked merge).less (·.parent)).parentOf_eq]
      exact (hunlinked.linking hi hlinks).2 c p
    rw [snd_buildMembers_of_links hlinks merge] at h
    cases hstray : (t.walked merge).stray? with
    | none =>
      rw [hstray] at h
      cases h
    | some x =>
      rw [hstray] at h
      cases h
      have hspecs := hmade.coherent.linked.specs_walked hi merge
      obtain ⟨hentangled, hfirst⟩ := hlinked.entangled_of_stray? hparent hstray
      refine ⟨x, ?_, hentangled, .inr hfirst⟩
      rw [hspecs.name_eq]
      exact hi.find_name (hspecs.size ▸ (stray?_eq_some_iff.1 hstray).1)

/-- The helper is named because it comes first, not because it is on the cycle. -/
theorem entangled_circular :
    ∃ t, BuildPlan.circular.createModules = .ok t ∧
      (t.buildMembers true).2 = .error (.memberCycle "helper") ∧
      ∃ x, t.find "helper" = some x ∧ t.Entangled x ∧
        (t.Declares x x ∨ ∀ y, t.Entangled y → x ≤ y) := by
  obtain ⟨t, ht, -, -, -, -, hresult⟩ := BuildPlan.exists_circular
  have hmade := (BuildPlan.circular.free_of_createModules ht).1
  exact ⟨t, ht, hresult true, entangled_of_memberCycle t hmade true "helper" (hresult true)⟩

/-- The module that the error names need not be on a cycle. -/
theorem not_onCycle_of_memberCycle_circular :
    ∃ t, BuildPlan.circular.createModules = .ok t ∧ ∀ merge,
      (t.buildMembers merge).2 = .error (.memberCycle "helper") ∧
      ∀ x, t.find "helper" = some x → ¬t.OnCycle x := by
  obtain ⟨t, ht, -, -, hcycle, hfind, hresult⟩ := BuildPlan.exists_circular
  refine ⟨t, ht, fun merge => ⟨hresult merge, fun x hx => ?_⟩⟩
  cases hfind.symm.trans hx
  exact hcycle

end ModuleTable

end ModuleGraph
