import ModuleGraph.Members
import ModuleGraph.Proofs.Table

/-!
# Links between modules and their members

The links of a table are made one by one, at both ends. `Linked` says that the two ends agree: the
members of a module are the modules with this parent, each listed once.

* `ModuleTable.ends_linkMembers`: the declared links make a linked table, and change nothing else
  (`ModuleTable.SameBut`).
-/

namespace ModuleGraph

/-- The module without its links. -/
def Module.unlinked (m : Module) : Module :=
  { m with parent := none, members := [] }

namespace ModuleTable

variable {t t' : ModuleTable} {id child parent : ModuleId} {m : Module}

/-! ## Both ends of a link -/

/-- The parent of a module, if it has one. -/
def parentOf (t : ModuleTable) (id : ModuleId) : Option ModuleId :=
  (t.get? id).bind (·.parent)

theorem parentOf_of_get? (h : t.get? id = some m) : t.parentOf id = m.parent := by
  simp [parentOf, h]

theorem lt_size_of_parentOf (h : t.parentOf child = some parent) : child < t.size := by
  obtain ⟨m, hm, -⟩ := Option.bind_eq_some_iff.1 h
  exact lt_size_of_get? hm

/-- The members of a module are the modules with this parent, each listed once. -/
structure Linked (t : ModuleTable) : Prop where
  parent_lt : ∀ {child parent}, t.parentOf child = some parent → parent < t.size
  mem_members : ∀ {child parent}, child ∈ t.members parent ↔ t.parentOf child = some parent
  nodup_members : ∀ parent, (t.members parent).Nodup

/-- The same links in a table that is no smaller. -/
theorem Linked.of_eq (h : t.Linked) (hsize : t.size ≤ t'.size)
    (hparent : ∀ id, t'.parentOf id = t.parentOf id)
    (hmembers : ∀ id, t'.members id = t.members id) :
    t'.Linked := by
  constructor
  · intro child parent hp
    rw [hparent] at hp
    exact Nat.lt_of_lt_of_le (h.parent_lt hp) hsize
  · intro child parent
    rw [hmembers, hparent]
    exact h.mem_members
  · intro parent
    rw [hmembers]
    exact h.nodup_members parent

/-- Whether the links of two tables are the same shows at the modules. -/
theorem Linked.congr (h : t.Linked) (hsame : t.SameBut (fun m => (m.parent, m.members)) t') :
    t'.Linked := by
  refine h.of_eq (Nat.le_of_eq hsame.size.symm) (fun id => ?_) fun id => ?_
  · have hid := congrArg (Option.bind · Prod.fst) (hsame.get? id)
    simpa [parentOf, Option.bind_map, Function.comp_def] using hid
  · have hid := congrArg (Option.elim · [] Prod.snd) (hsame.get? id)
    simp only [Option.elim_map] at hid
    exact hid

/-- No module has a parent or members. -/
def Unlinked (t : ModuleTable) : Prop :=
  ∀ id m, t.get? id = some m → m = m.unlinked

theorem Unlinked.parentOf_eq (h : t.Unlinked) (id : ModuleId) : t.parentOf id = none := by
  cases hm : t.get? id with
  | none => simp [parentOf, hm]
  | some m =>
    rw [parentOf_of_get? hm, h id m hm]
    rfl

theorem Unlinked.members_eq (h : t.Unlinked) (id : ModuleId) : t.members id = [] := by
  cases hm : t.get? id with
  | none => simp [members, hm]
  | some m =>
    rw [members_of_get? hm, h id m hm]
    rfl

theorem linked_of_unlinked (h : t.Unlinked) : t.Linked := by
  constructor
  · intro child parent hp
    rw [h.parentOf_eq] at hp
    cases hp
  · intro child parent
    simp [h.members_eq, h.parentOf_eq]
  · intro parent
    rw [h.members_eq]
    exact List.nodup_nil

/-! ## One link -/

/-- The table with a link between two modules. -/
def withLink (t : ModuleTable) (child parent : ModuleId) : ModuleTable :=
  (t.modify child fun m => { m with parent := some parent }).modify parent fun m =>
    { m with members := m.members ++ [child] }

theorem sameBut_withLink (t : ModuleTable) (child parent : ModuleId) :
    t.SameBut Module.unlinked (t.withLink child parent) := by
  have hchild : t.SameBut Module.unlinked
      (t.modify child fun m => { m with parent := some parent }) := .modify _ _ fun _ => by rfl
  exact hchild.trans (.modify _ parent fun _ => by rfl)

theorem parentOf_withLink (hc : child < t.size) (id : ModuleId) :
    (t.withLink child parent).parentOf id = if id = child then some parent else t.parentOf id := by
  obtain ⟨m, hm⟩ := exists_get? hc
  have hsame := map_get?_modify (·.parent)
    (f := fun m => { m with members := m.members ++ [child] }) (fun _ => rfl)
    (t.modify child fun m => { m with parent := some parent }) parent id
  have hbind (o : Option Module) : o.bind (·.parent) = (o.map (·.parent)).join := by
    cases o <;> rfl
  rw [withLink, parentOf, hbind, hsame, ← hbind, get?_modify]
  by_cases hid : id = child
  · subst hid
    simp [hm]
  · rw [if_neg (Ne.symm hid), if_neg hid, parentOf]

theorem members_withLink (hp : parent < t.size) (hne : child ≠ parent) (id : ModuleId) :
    (t.withLink child parent).members id =
      if id = parent then t.members id ++ [child] else t.members id := by
  obtain ⟨m, hm⟩ := exists_get? hp
  unfold withLink
  by_cases hid : id = parent
  · subst hid
    simp [members, hm, get?_modify_of_ne _ hne]
  · rw [if_neg hid, members, get?_modify_of_ne _ (Ne.symm hid), get?_modify, members]
    split_ifs
    · cases t.get? id <;> rfl
    · rfl

/-- A module without a parent may be linked to another one. -/
theorem Linked.insert (h : t.Linked) (hc : child < t.size) (hp : parent < t.size)
    (hne : child ≠ parent) (hfree : t.parentOf child = none) :
    (t.withLink child parent).Linked := by
  have hnew (p : ModuleId) : child ∉ t.members p := by
    rw [h.mem_members, hfree]
    simp
  constructor
  case parent_lt =>
    intro c p hcp
    rw [parentOf_withLink hc] at hcp
    rw [(sameBut_withLink t child parent).size]
    split_ifs at hcp
    · cases hcp
      exact hp
    · exact h.parent_lt hcp
  case mem_members =>
    intro c p
    rw [members_withLink hp hne, parentOf_withLink hc]
    by_cases hcc : c = child
    · subst hcc
      by_cases hpp : p = parent
      · simp [hpp]
      · simp [hpp, hnew p, Ne.symm hpp]
    · by_cases hpp : p = parent
      · simp [hpp, hcc, h.mem_members]
      · simp [hpp, hcc, h.mem_members]
  case nodup_members =>
    intro p
    rw [members_withLink hp hne]
    split_ifs
    · refine List.nodup_append.2 ⟨h.nodup_members p, by simp, ?_⟩
      intro c hcm d hd heq
      rw [List.mem_singleton] at hd
      subst hd
      exact hnew p (heq ▸ hcm)
    · exact h.nodup_members p

/-! ## All links -/

/-- The errors of making links. -/
inductive MemberError : BuildError → Prop where
  | unknownModule (name context : String) : MemberError (.unknownModule name context)
  | memberCycle (name : String) : MemberError (.memberCycle name)
  | multipleParents (name first second : String) : MemberError (.multipleParents name first second)

theorem ends_link (ht : t.Linked) (hi : t.Indexed) (hp : parent < t.size) (name : String) :
    Ends (t.link parent name) (fun t' => t'.Linked ∧ t.SameBut Module.unlinked t')
      MemberError := by
  unfold link require
  cases hfind : t.find name with
  | none => exact .unknownModule _ _
  | some child =>
    show Ends (if child = parent then _ else _) _ _
    split_ifs with hself
    · exact .memberCycle _
    · cases hparent : (t.get? child).bind (·.parent) with
      | some other => exact .multipleParents _ _ _
      | none =>
        obtain ⟨m, hm, -⟩ := hi.get?_of_find hfind
        exact ⟨ht.insert (lt_size_of_get? hm) hp hself hparent, sameBut_withLink t child parent⟩

theorem ends_linkAll : ∀ (links : List (ModuleId × String)) {t : ModuleTable}, t.Linked →
    t.Indexed → (∀ l ∈ links, l.1 < t.size) →
    (t.linkAll links).1.Linked ∧ t.SameBut Module.unlinked (t.linkAll links).1 ∧
      Ends (t.linkAll links).2 (fun _ => True) MemberError
  | [], t, ht, _, _ => ⟨ht, .refl _ t, trivial⟩
  | (parent, name) :: links, t, ht, hi, hlt => by
    have hlink := ends_link ht hi (hlt (parent, name) (by simp)) name
    rw [linkAll]
    cases hres : t.link parent name with
    | error e => exact ⟨ht, .refl _ t, hlink.of_error hres⟩
    | ok t' =>
      obtain ⟨ht', hsame⟩ := hlink.of_ok hres
      have hi' : t'.Indexed := (hsame.less (·.spec)).indexed hi
      obtain ⟨h₁, h₂, h₃⟩ := ends_linkAll links ht' hi' fun l hl => by
        rw [hsame.size]
        exact hlt l (by simp [hl])
      exact ⟨h₁, hsame.trans h₂, h₃⟩

theorem lt_size_of_mem_declaredMembers {l : ModuleId × String} (h : l ∈ t.declaredMembers) :
    l.1 < t.size := by
  rw [declaredMembers, List.mem_flatMap] at h
  obtain ⟨id, hid, hl⟩ := h
  obtain ⟨name, -, rfl⟩ := List.mem_map.1 hl
  exact mem_ids.1 hid

theorem ends_linkMembers (ht : t.Linked) (hi : t.Indexed) :
    t.linkMembers.1.Linked ∧ t.SameBut Module.unlinked t.linkMembers.1 ∧
      Ends t.linkMembers.2 (fun _ => True) MemberError :=
  ends_linkAll _ ht hi fun _ hl => lt_size_of_mem_declaredMembers hl

/-- A link that is made leads to a known member, and keeps the names. -/
theorem find_of_link {name : String} (h : t.link parent name = .ok t') :
    (t.find name).isSome ∧ t'.find = t.find := by
  unfold link require at h
  cases hfind : t.find name with
  | none =>
    rw [hfind] at h
    cases h
  | some child =>
    rw [hfind] at h
    replace h : (if child = parent then _ else _) = Except.ok t' := h
    split_ifs at h
    split at h
    · cases h
    · cases h
      exact ⟨rfl, rfl⟩

/-- If all links are made, all members are known. -/
theorem isSome_find_of_linkAll {links : List (ModuleId × String)}
    (h : (t.linkAll links).2 = .ok ()) : ∀ l ∈ links, (t.find l.2).isSome := by
  induction links generalizing t with
  | nil => simp
  | cons l links ih =>
    obtain ⟨parent, name⟩ := l
    rw [linkAll] at h
    cases hlink : t.link parent name with
    | error e =>
      rw [hlink] at h
      cases h
    | ok t' =>
      rw [hlink] at h
      obtain ⟨hname, hfind⟩ := find_of_link hlink
      refine List.forall_mem_cons.2 ⟨hname, ?_⟩
      rw [← hfind]
      exact ih h

/-- If members can be merged, all declared members are known. -/
theorem isSome_find_of_buildMembers {merge : Bool} (h : (t.buildMembers merge).2 = .ok ())
    (hm : t.get? id = some m) : ∀ name ∈ m.spec.members, (t.find name).isSome := by
  have hlinks : t.linkMembers.2 = .ok () := by
    unfold buildMembers at h
    split at h
    · cases h
    · rename_i hlinks
      rw [hlinks]
  intro name hname
  refine isSome_find_of_linkAll hlinks (id, name) ?_
  refine List.mem_flatMap.2 ⟨id, mem_ids.2 (lt_size_of_get? hm), ?_⟩
  rw [hm]
  exact List.mem_map_of_mem hname

end ModuleTable

end ModuleGraph
