import Mathlib.Data.Set.Insert
import ModuleGraph.Proofs.Index
import ModuleGraph.Registry.Classes

/-!
# What a registry knows of classes

A registry knows names, definitions and references, each as a set: `Registry.Knows N D E r` says
that `r` has one entry for each name of `N`, made from its definition in `D` if there is one, and
that its references are the pairs of `E` with two different ends. Numbers do not occur in `N`, `D`
and `E`, so neither do the orders in which classes are named, defined and referred to.
-/

namespace ModuleGraph

variable {N : Set String} {D : Set (String × Bool × Nat)} {E : Set (String × String)}

namespace ClassEntry

/-- The entry without the classes at the other ends of its references. -/
def bare (entry : ClassEntry) : ClassEntry :=
  { entry with references := {}, referrers := {} }

/-- The entry says what its definition says, or that there is none. -/
structure Follows (D : Set (String × Bool × Nat)) (entry : ClassEntry) : Prop where
  defined : ∀ isPublic size, (entry.name, isPublic, size) ∈ D →
    entry.bare = Registry.define { name := entry.name, isPublic, size } (.placeholder entry.name)
  undefined : (∀ isPublic size, (entry.name, isPublic, size) ∉ D) →
    entry.bare = .placeholder entry.name

namespace Follows

variable {entry entry' : ClassEntry}

theorem of_bare_eq (h : entry.Follows D) (hbare : entry'.bare = entry.bare) : entry'.Follows D := by
  have hname : entry'.name = entry.name := congrArg (·.name) hbare
  constructor
  · intro isPublic size hmem
    rw [hname] at hmem ⊢
    exact hbare.trans (h.defined isPublic size hmem)
  · intro hnone
    rw [hname] at hnone ⊢
    exact hbare.trans (h.undefined hnone)

theorem isDefined_iff (h : entry.Follows D) :
    entry.isDefined = true ↔ ∃ isPublic size, (entry.name, isPublic, size) ∈ D := by
  constructor
  · intro hdefined
    by_contra hnone
    have hbare := h.undefined fun isPublic size hmem => hnone ⟨isPublic, size, hmem⟩
    have hfalse : entry.isDefined = false := congrArg (·.isDefined) hbare
    rw [hfalse] at hdefined
    cases hdefined
  · rintro ⟨isPublic, size, hmem⟩
    exact congrArg (·.isDefined) (h.defined isPublic size hmem)

/-- Two entries of one name that follow the same definitions say the same. -/
theorem bare_eq (h : entry.Follows D) (h' : entry'.Follows D) (hname : entry'.name = entry.name) :
    entry'.bare = entry.bare := by
  by_cases hdefined : ∃ isPublic size, (entry.name, isPublic, size) ∈ D
  · obtain ⟨isPublic, size, hmem⟩ := hdefined
    rw [h.defined isPublic size hmem, h'.defined isPublic size (hname ▸ hmem), hname]
  · have hnone (isPublic : Bool) (size : Nat) : (entry.name, isPublic, size) ∉ D :=
      fun hmem => hdefined ⟨isPublic, size, hmem⟩
    rw [h.undefined hnone, h'.undefined (hname ▸ hnone), hname]

end Follows

end ClassEntry

namespace Registry

/-- The registry has an entry for each name in `N`, made from the definitions in `D`, and the
references in `E` with different ends. -/
structure Knows (N : Set String) (D : Set (String × Bool × Nat)) (E : Set (String × String))
    (r : Registry) : Prop where
  indexed : IndexedBy ClassEntry.name r.classes r.classIndex
  mem_names : ∀ name, name ∈ N ↔ ∃ (c : ClassId) (entry : ClassEntry),
    r.classes[c]? = some entry ∧ entry.name = name
  definitions : ∀ {name isPublic size}, (name, isPublic, size) ∈ D → name ∈ N
  ends : ∀ {source target}, (source, target) ∈ E → source ∈ N ∧ target ∈ N
  follows : ∀ (c : ClassId) entry, r.classes[c]? = some entry → entry.Follows D
  mem_references : ∀ (c : ClassId) entry, r.classes[c]? = some entry → ∀ d,
    d ∈ entry.references ↔ ∃ target, r.classes[d]? = some target ∧ entry.name ≠ target.name ∧
      (entry.name, target.name) ∈ E

theorem knows_empty : Knows ∅ ∅ ∅ {} where
  indexed := indexedBy_empty _
  mem_names := by simp
  definitions := False.elim
  ends := False.elim
  follows := by simp
  mem_references := by simp

namespace Knows

variable {r : Registry} {c d : ClassId} {e f : ClassEntry}

theorem findClass_eq_some_iff (h : r.Knows N D E) {name : String} :
    r.findClass name = some c ↔ ∃ entry, r.classes[c]? = some entry ∧ entry.name = name :=
  h.indexed name c

/-- The part of a registry that holds resources does not matter. -/
theorem congr (h : r.Knows N D E) {s : Registry} (hclasses : s.classes = r.classes)
    (hindex : s.classIndex = r.classIndex) : s.Knows N D E := by
  obtain ⟨classes, index, resources, resourceIndex⟩ := s
  cases hclasses
  cases hindex
  exact ⟨h.indexed, h.mem_names, h.definitions, h.ends, h.follows, h.mem_references⟩

/-- A class is added of which nothing but the name is known. -/
theorem push (h : r.Knows N D E) {name : String} (hnew : name ∉ N) :
    Knows (insert name N) D E
      { r with
        classes := r.classes.push (.placeholder name)
        classIndex := r.classIndex.insert name r.classes.size } := by
  have hpush (c : ClassId) : (r.classes.push (.placeholder name))[c]? =
      if c = r.classes.size then some (.placeholder name) else r.classes[c]? :=
    Array.getElem?_push
  have hold : r.classes[r.classes.size]? = none := by simp
  have hnone : r.classIndex[name]? = none := by
    refine Option.eq_none_iff_forall_ne_some.2 fun c hc => hnew ?_
    obtain ⟨entry, hentry, hname⟩ := (h.indexed name c).1 hc
    exact (h.mem_names name).2 ⟨c, entry, hentry, hname⟩
  refine ⟨h.indexed.push (a := .placeholder name) hnone, fun other => ?names,
    fun hmem => .inr (h.definitions hmem), fun hmem => ⟨.inr (h.ends hmem).1, .inr (h.ends hmem).2⟩,
    fun c entry hc => ?follows, fun c entry hc d => ?references⟩
  case names =>
    rw [Set.mem_insert_iff, h.mem_names]
    constructor
    · rintro (rfl | ⟨c, entry, hc, hname⟩)
      · exact ⟨r.classes.size, .placeholder other, by rw [hpush, if_pos rfl], rfl⟩
      · refine ⟨c, entry, ?_, hname⟩
        rw [hpush, if_neg (fun heq => by rw [heq, hold] at hc; cases hc)]
        exact hc
    · rintro ⟨c, entry, hc, hname⟩
      rw [hpush] at hc
      split_ifs at hc
      · cases hc
        exact .inl hname.symm
      · exact .inr ⟨c, entry, hc, hname⟩
  case follows =>
    rw [hpush] at hc
    split_ifs at hc
    · cases hc
      exact ⟨fun isPublic size hmem => absurd (h.definitions hmem) hnew, fun _ => rfl⟩
    · exact h.follows c entry hc
  case references =>
    -- no reference known so far has the new name at an end
    rw [hpush] at hc
    rw [hpush]
    split_ifs at hc
    · cases hc
      constructor
      · intro hd
        simp [ClassEntry.placeholder] at hd
      · rintro ⟨target, -, -, hmem⟩
        exact absurd (h.ends hmem).1 hnew
    · rw [h.mem_references c entry hc]
      split_ifs with hd
      · subst hd
        rw [hold]
        constructor
        · rintro ⟨target, htarget, -⟩
          cases htarget
        · rintro ⟨target, htarget, -, hmem⟩
          cases htarget
          exact absurd (h.ends hmem).2 hnew
      · rfl

/-- A name is known afterwards, and nothing else has changed. -/
theorem intern (h : r.Knows N D E) (name : String) :
    (r.intern name).1.Knows (insert name N) D E ∧
      ∃ entry, (r.intern name).1.classes[(r.intern name).2]? = some entry ∧ entry.name = name := by
  unfold Registry.intern
  split
  case h_1 id hfound =>
    obtain ⟨entry, hentry, hname⟩ := h.findClass_eq_some_iff.1 hfound
    rw [Set.insert_eq_of_mem ((h.mem_names name).2 ⟨id, entry, hentry, hname⟩)]
    exact ⟨h, entry, hentry, hname⟩
  case h_2 hnone =>
    refine ⟨h.push fun hmem => ?_, .placeholder name, ?_, rfl⟩
    · obtain ⟨c, entry, hentry, hname⟩ := (h.mem_names name).1 hmem
      cases hnone.symm.trans (h.findClass_eq_some_iff.2 ⟨entry, hentry, hname⟩)
    · simp

theorem getElem?_intern (hc : r.classes[c]? = some e) (name : String) :
    (r.intern name).1.classes[c]? = some e := by
  unfold Registry.intern
  split
  · exact hc
  · rw [Array.getElem?_push, if_neg]
    · exact hc
    · rintro rfl
      simp at hc

/-- Entries change in everything but their names. -/
theorem modify (h : r.Knows N D E) {D' : Set (String × Bool × Nat)} {E' : Set (String × String)}
    {classes : Array ClassEntry} {g : ClassId → ClassEntry → ClassEntry}
    (hget : ∀ c : ClassId, classes[c]? = r.classes[c]?.map (g c))
    (hname : ∀ c entry, (g c entry).name = entry.name)
    (hD : ∀ {name isPublic size}, (name, isPublic, size) ∈ D' → name ∈ N)
    (hE : ∀ {source target}, (source, target) ∈ E' → source ∈ N ∧ target ∈ N)
    (hfollows : ∀ (c : ClassId) entry, r.classes[c]? = some entry → (g c entry).Follows D')
    (hreferences : ∀ (c : ClassId) entry, r.classes[c]? = some entry → ∀ d,
      d ∈ (g c entry).references ↔ ∃ target, r.classes[d]? = some target ∧
        entry.name ≠ target.name ∧ (entry.name, target.name) ∈ E') :
    Knows N D' E' { r with classes } := by
  have hexists {P : ClassEntry → Prop} (hP : ∀ c entry, P (g c entry) ↔ P entry) (c : ClassId) :
      (∃ entry, classes[c]? = some entry ∧ P entry) ↔
        ∃ entry, r.classes[c]? = some entry ∧ P entry := by
    simp only [hget, Option.map_eq_some_iff, exists_exists_and_eq_and, hP]
  refine ⟨h.indexed.congr fun c => ?_, fun name => ?_, hD, hE, fun c entry hc => ?_,
    fun c entry hc d => ?_⟩
  · rw [hget, Option.map_map]
    exact congrArg (Option.map · _) (funext (hname c))
  · rw [h.mem_names]
    exact exists_congr fun c => (hexists (fun c entry => by rw [hname]) c).symm
  · rw [hget, Option.map_eq_some_iff] at hc
    obtain ⟨old, hold, rfl⟩ := hc
    exact hfollows c old hold
  · rw [hget, Option.map_eq_some_iff] at hc
    obtain ⟨old, hold, rfl⟩ := hc
    rw [hreferences c old hold, hname]
    exact (hexists (fun c entry => by rw [hname]) d).symm

theorem eq_of_name_eq (h : r.Knows N D E) (hc : r.classes[c]? = some e)
    (hd : r.classes[d]? = some f) (hname : e.name = f.name) : c = d :=
  h.indexed.eq_of_key_eq hc hd hname

theorem mem_of_getElem? (h : r.Knows N D E) (hc : r.classes[c]? = some e) : e.name ∈ N :=
  (h.mem_names e.name).2 ⟨c, e, hc, rfl⟩

/-- A class is defined that has been known by name only. -/
theorem define (h : r.Knows N D E) (hc : r.classes[c]? = some e)
    (hnew : ∀ isPublic size, (e.name, isPublic, size) ∉ D) (isPublic : Bool) (size : Nat) :
    Knows N (insert (e.name, isPublic, size) D) E
      { r with
        classes := r.classes.modify c (Registry.define { name := e.name, isPublic, size }) } := by
  let record : ClassRecord := { name := e.name, isPublic, size }
  refine h.modify (g := fun d entry => if c = d then Registry.define record entry else entry)
    (fun d => ?get) (fun d entry => ?name) ?definitions h.ends (fun d entry hd => ?follows)
    fun d entry hd x => ?references
  case get =>
    rw [Array.getElem?_modify]
    split_ifs <;> simp [record]
  case name => split_ifs <;> rfl
  case definitions =>
    rintro name isPublic size (heq | hmem)
    · cases heq
      exact h.mem_of_getElem? hc
    · exact h.definitions hmem
  case follows =>
    have hfollows := h.follows d entry hd
    split_ifs with hcd
    · subst hcd
      cases hc.symm.trans hd
      refine ⟨fun isPublic' size' hmem => ?_, fun hnone => absurd (.inl rfl) (hnone isPublic size)⟩
      obtain heq | hmem := hmem
      · cases heq
        exact congrArg (Registry.define record) (hfollows.undefined hnew)
      · exact absurd hmem (hnew isPublic' size')
    · have hname : entry.name ≠ e.name := fun heq => hcd (h.eq_of_name_eq hc hd heq.symm)
      refine ⟨fun isPublic' size' hmem => ?_, fun hnone => ?_⟩
      · obtain heq | hmem := hmem
        · exact absurd (congrArg Prod.fst heq) hname
        · exact hfollows.defined isPublic' size' hmem
      · exact hfollows.undefined fun isPublic' size' hmem => hnone isPublic' size' (.inr hmem)
  case references =>
    rw [← h.mem_references d entry hd]
    split_ifs <;> rfl

/-- A reference is recorded between two known classes. -/
theorem addReference (h : r.Knows N D E) (hc : r.classes[c]? = some e)
    (hd : r.classes[d]? = some f) : (r.addReference c d).Knows N D (insert (e.name, f.name) E) := by
  have hends {source target : String} (hmem : (source, target) ∈ insert (e.name, f.name) E) :
      source ∈ N ∧ target ∈ N := by
    obtain heq | hmem := hmem
    · cases heq
      exact ⟨h.mem_of_getElem? hc, h.mem_of_getElem? hd⟩
    · exact h.ends hmem
  unfold Registry.addReference
  split_ifs with hcd
  · subst hcd
    cases hc.symm.trans hd
    refine ⟨h.indexed, h.mem_names, h.definitions, hends, h.follows, fun x entry hx y => ?_⟩
    rw [h.mem_references x entry hx]
    refine exists_congr fun target => and_congr_right fun _ => and_congr_right fun hne => ?_
    rw [Set.mem_insert_iff, or_iff_right]
    rintro heq
    exact hne ((congrArg Prod.fst heq).trans (congrArg Prod.snd heq).symm)
  · refine h.modify
      (g := fun x entry =>
        { entry with
          references := if c = x then entry.references.insert d else entry.references
          referrers := if d = x then entry.referrers.insert c else entry.referrers })
      (fun x => ?get) (fun _ _ => rfl) h.definitions hends
      (fun x entry hx => (h.follows x entry hx).of_bare_eq rfl) fun x entry hx y => ?references
    case get =>
      rw [Array.getElem?_modify, Array.getElem?_modify]
      split_ifs <;> simp_all
    case references =>
      have hinsert : y ∈ (if c = x then entry.references.insert d else entry.references) ↔
          (c = x ∧ d = y) ∨ y ∈ entry.references := by
        split_ifs with hx
        · rw [Std.TreeSet.mem_insert]
          simp [hx]
        · simp [hx]
      show y ∈ (if c = x then _ else _) ↔ _
      rw [hinsert, h.mem_references x entry hx]
      constructor
      · rintro (⟨rfl, rfl⟩ | ⟨target, hy, hne, hmem⟩)
        · cases hc.symm.trans hx
          exact ⟨f, hd, fun hname => hcd (h.eq_of_name_eq hc hd hname), .inl rfl⟩
        · exact ⟨target, hy, hne, .inr hmem⟩
      · rintro ⟨target, hy, hne, heq | hmem⟩
        · exact .inl ⟨h.eq_of_name_eq hc hx (congrArg Prod.fst heq).symm,
            h.eq_of_name_eq hd hy (congrArg Prod.snd heq).symm⟩
        · exact .inr ⟨target, hy, hne, hmem⟩

end Knows

end Registry

end ModuleGraph
