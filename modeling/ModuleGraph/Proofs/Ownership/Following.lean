import ModuleGraph.Proofs.Ownership.Completion

/-!
# What modules follow

A module follows the references of the classes that it has by its roots and by other references that
it follows (`Partition.Followed`), and not those of the classes that it merely includes. A module is
`Partition.Settled` if the references that it follows lead to owned classes, whoever the owners are.

* `Takes.settled`: the completion of a module that owns just its roots settles it.
* `Takes.keeps_settled`: what other modules take does not unsettle it.
-/

namespace ModuleGraph

/-- The class exists: its definition is known. -/
def Registry.Defines (registry : Registry) (c : ClassId) : Prop :=
  ∃ entry, registry.classes[c]? = some entry ∧ entry.isDefined = true

instance Registry.decidableDefines (registry : Registry) (c : ClassId) :
    Decidable (registry.Defines c) :=
  decidable_of_iff ((registry.classes[c]?).any (·.isDefined) = true) (Option.any_eq_true _ _)

namespace Partition

variable {p q : Partition} {module id : ModuleId} {c k r : ClassId} {C : Set ClassId}
  {R : Set ResourceId} {U : Set Reference}

/-! ## What claims never touch -/

theorem spec_of_get? {m : Module} (h : p.table.get? id = some m) : p.spec id = m.spec := by
  simp [spec, h]

namespace Grows

theorem spec_eq (h : p.Grows q) : q.spec = p.spec := by
  funext id
  have houtline (s : Partition) :
      s.spec id = ((s.table.get? id).map Module.outline).elim default (·.spec) := by
    unfold spec
    cases s.table.get? id <;> rfl
  rw [houtline, houtline, h.table.get? id]

theorem className_eq (h : p.Grows q) : q.registry.className = p.registry.className := by
  funext c
  have hname (s : Registry) :
      s.className c = ((s.classes[c]?).map ClassEntry.unowned).elim "" (·.name) := by
    unfold Registry.className
    cases s.classes[c]? <;> rfl
  rw [hname, hname, h.classes c]

theorem referencesOf_eq (h : p.Grows q) : q.registry.referencesOf = p.registry.referencesOf := by
  funext c
  have hrefs (s : Registry) : s.referencesOf c =
      ((s.classes[c]?).map ClassEntry.unowned).elim [] (·.references.toList) := by
    unfold Registry.referencesOf
    cases s.classes[c]? <;> rfl
  rw [hrefs, hrefs, h.classes c]

theorem defines_iff (h : p.Grows q) : q.registry.Defines c ↔ p.registry.Defines c := by
  constructor
  · intro hc
    obtain ⟨entry, he, hdefined⟩ := hc
    obtain ⟨before, hb, hsame⟩ := h.exists_class_before he
    exact ⟨before, hb, (congrArg ClassEntry.isDefined hsame).trans hdefined⟩
  · intro hc
    obtain ⟨entry, he, hdefined⟩ := hc
    obtain ⟨after, ha, hsame⟩ := h.exists_class he
    exact ⟨after, ha, (congrArg ClassEntry.isDefined hsame).trans hdefined⟩

end Grows

/-! ## Classes that a module follows -/

/-- The module owns the class by its roots and by the references that it follows from them. -/
inductive Followed (p : Partition) (id : ModuleId) : ClassId → Prop where
  | root {c : ClassId} : p.registry.classOwner c = some id →
      (p.spec id).hasRoot (p.registry.className c) = true → Followed p id c
  | step {k c : ClassId} : Followed p id k → c ∈ p.registry.referencesOf k →
      p.registry.classOwner c = some id →
      (p.spec id).excludesClass (p.registry.className c) = false → Followed p id c

theorem Followed.classOwner (h : p.Followed id c) : p.registry.classOwner c = some id := by
  cases h with
  | root howner _ => exact howner
  | step _ _ howner _ => exact howner

/-- Only what the module owns matters. -/
theorem Followed.congr (h : p.Followed id c) (hspec : q.spec = p.spec)
    (hname : q.registry.className = p.registry.className)
    (hrefs : q.registry.referencesOf = p.registry.referencesOf)
    (howner : ∀ c, p.registry.classOwner c = some id → q.registry.classOwner c = some id) :
    q.Followed id c := by
  induction h with
  | root hc hroot => exact .root (howner _ hc) (by rw [hspec, hname]; exact hroot)
  | step _ hr hc hadmits ih =>
    exact .step ih (by rw [hrefs]; exact hr) (howner _ hc) (by rw [hspec, hname]; exact hadmits)

/-- The module is done: references of the classes that it follows lead to owned classes, unless it
excludes them, and it owns nothing but what it follows or includes. -/
structure Settled (p : Partition) (id : ModuleId) : Prop where
  exists_owner : ∀ {k r}, p.Followed id k → r ∈ p.registry.referencesOf k →
    p.registry.Defines r → (p.spec id).excludesClass (p.registry.className r) = false →
      ∃ owner, p.registry.classOwner r = some owner
  followed : ∀ {c}, p.registry.classOwner c = some id →
    p.Followed id c ∨ (p.spec id).includesClass (p.registry.className c) = true

/-- Every class that exists and is a root of one of the modules has an owner. -/
def Rooted (p : Partition) (ids : List ModuleId) : Prop :=
  ∀ id ∈ ids, ∀ c, p.registry.Defines c → (p.spec id).hasRoot (p.registry.className c) = true →
    ∃ owner, p.registry.classOwner c = some owner

theorem Rooted.of_grows {ids : List ModuleId} (h : p.Rooted ids) (hgrows : p.Grows q) :
    q.Rooted ids := by
  intro id hid c hc hroot
  rw [hgrows.spec_eq, hgrows.className_eq] at hroot
  obtain ⟨owner, howner⟩ := h id hid c (hgrows.defines_iff.1 hc) hroot
  exact ⟨owner, hgrows.classOwner c owner howner⟩

/-! ## Completions -/

/-- What a completion takes is free. -/
theorem Gathers.free {spec : ModuleSpec} {seeds : Set ClassId} (h : p.Gathers spec seeds c) :
    p.Free c := by
  rcases h with hreaches | ⟨-, entry, he, hnone, hdefined, -⟩
  · obtain ⟨entry, he, hnone, hdefined, -⟩ := hreaches.open
    exact ⟨entry, he, hnone, hdefined⟩
  · exact ⟨entry, he, hnone, hdefined⟩

theorem open_iff_defines {spec : ModuleSpec} : p.Open spec c ↔ p.registry.Defines c ∧
    p.registry.classOwner c = none ∧ spec.excludesClass (p.registry.className c) = false := by
  unfold Open Registry.Defines Registry.classOwner Registry.className
  cases p.registry.classes[c]? with
  | none => simp
  | some entry => simp [and_left_comm]

theorem Free.classOwner (h : p.Free c) : p.registry.classOwner c = none := by
  obtain ⟨entry, he, hnone, -⟩ := h
  rw [Registry.classOwner_of_getElem? he, hnone]

namespace Takes

/-- A class is owned by a module if it was before or has been taken by that module. -/
theorem classOwner_eq_some_iff (h : p.Takes module C R U q) (hfree : ∀ c ∈ C, p.Free c) :
    q.registry.classOwner c = some id ↔
      (c ∈ C ∧ id = module) ∨ p.registry.classOwner c = some id := by
  by_cases hc : c ∈ C
  · obtain ⟨entry, he, -⟩ := hfree c hc
    rw [h.classOwner_of_mem hc he, (hfree c hc).classOwner]
    simp [hc, eq_comm]
  · rw [h.classOwner_of_not_mem hc]
    simp [hc]

/-- What others take does not unsettle a module. -/
theorem keeps_settled (h : p.Takes module C R U q) (hgrows : p.Grows q)
    (hfree : ∀ c ∈ C, p.Free c) (hne : id ≠ module) (hs : p.Settled id) : q.Settled id := by
  have howner (c : ClassId) :
      q.registry.classOwner c = some id ↔ p.registry.classOwner c = some id := by
    rw [h.classOwner_eq_some_iff hfree]
    simp [hne]
  constructor
  · intro k r hk hr hdefines hadmits
    have hk' : p.Followed id k := hk.congr hgrows.spec_eq.symm hgrows.className_eq.symm
      hgrows.referencesOf_eq.symm fun c => (howner c).1
    rw [hgrows.referencesOf_eq] at hr
    rw [hgrows.spec_eq, hgrows.className_eq] at hadmits
    obtain ⟨owner, hr⟩ := hs.exists_owner hk' hr (hgrows.defines_iff.1 hdefines) hadmits
    exact ⟨owner, hgrows.classOwner r owner hr⟩
  · intro c hc
    rw [hgrows.spec_eq, hgrows.className_eq]
    refine (hs.followed ((howner c).1 hc)).imp_left fun hfollowed => ?_
    exact hfollowed.congr hgrows.spec_eq hgrows.className_eq hgrows.referencesOf_eq
      fun c => (howner c).2

variable {seeds : Set ClassId} {ids : List ModuleId}

/-- A module owns in the end what it owned at the start and what its completion has taken. -/
theorem classOwner_eq_module_iff (h : p.Takes module {c | p.Gathers (p.spec module) seeds c} R U q)
    (hseeds : ∀ c, c ∈ seeds ↔ p.registry.classOwner c = some module) :
    q.registry.classOwner c = some module ↔ p.Gathers (p.spec module) seeds c ∨ c ∈ seeds := by
  rw [h.classOwner_eq_some_iff fun c hc => Gathers.free hc, hseeds]
  simp

/-- What the module follows in the end is what its search has gone through. -/
theorem source_of_followed (h : p.Takes module {c | p.Gathers (p.spec module) seeds c} R U q)
    (hgrows : p.Grows q) (hrooted : p.Rooted ids) (hid : module ∈ ids)
    (hseeds : ∀ c, c ∈ seeds ↔ p.registry.classOwner c = some module)
    (hk : q.Followed module k) : k ∈ seeds ∨ p.Reaches (p.spec module) seeds k := by
  induction hk with
  | @root c hc hroot =>
    refine .inl (((h.classOwner_eq_module_iff hseeds).1 hc).resolve_left fun hgathers => ?_)
    -- a free class is nobody's root
    obtain ⟨entry, he, -, hdefined⟩ := hgathers.free
    rw [hgrows.spec_eq, hgrows.className_eq] at hroot
    obtain ⟨owner, hsome⟩ := hrooted module hid c ⟨entry, he, hdefined⟩ hroot
    rw [hgathers.free.classOwner] at hsome
    cases hsome
  | @step k c _ hr hc hadmits ih =>
    rcases (h.classOwner_eq_module_iff hseeds).1 hc with hgathers | hseed
    · obtain ⟨entry, he, -, hdefined⟩ := hgathers.free
      rw [hgrows.referencesOf_eq] at hr
      rw [hgrows.spec_eq, hgrows.className_eq] at hadmits
      have hopen : p.Open (p.spec module) c :=
        open_iff_defines.2 ⟨⟨entry, he, hdefined⟩, hgathers.free.classOwner, hadmits⟩
      exact .inr (ih.elim (fun hk => .seed hk hr hopen) fun hk => .step hk hr hopen)
    · exact .inl hseed

theorem followed_of_source (h : p.Takes module {c | p.Gathers (p.spec module) seeds c} R U q)
    (hgrows : p.Grows q) (hseeds : ∀ c, c ∈ seeds ↔ p.registry.classOwner c = some module)
    (hroots : ∀ c ∈ seeds, (p.spec module).hasRoot (p.registry.className c) = true)
    (hk : k ∈ seeds ∨ p.Reaches (p.spec module) seeds k) : q.Followed module k := by
  have hseed : ∀ {c}, c ∈ seeds → q.Followed module c := by
    intro c hc
    refine .root ((h.classOwner_eq_module_iff hseeds).2 (.inr hc)) ?_
    rw [hgrows.spec_eq, hgrows.className_eq]
    exact hroots c hc
  have hstep : ∀ {k c}, q.Followed module k → c ∈ p.registry.referencesOf k →
      p.Open (p.spec module) c → p.Reaches (p.spec module) seeds c → q.Followed module c := by
    intro k c hk hr hopen hreaches
    refine .step hk (by rw [hgrows.referencesOf_eq]; exact hr)
      ((h.classOwner_eq_module_iff hseeds).2 (.inl (.inl hreaches))) ?_
    rw [hgrows.spec_eq, hgrows.className_eq]
    exact (open_iff_defines.1 hopen).2.2
  rcases hk with hk | hk
  · exact hseed hk
  · induction hk with
    | seed hk hr hopen => exact hstep (hseed hk) hr hopen (.seed hk hr hopen)
    | step hk hr hopen ih => exact hstep ih hr hopen (.step hk hr hopen)

/-- A module that owns just its roots is settled by its completion. -/
theorem settled (h : p.Takes module {c | p.Gathers (p.spec module) seeds c} R U q)
    (hgrows : p.Grows q) (hrooted : p.Rooted ids) (hid : module ∈ ids)
    (hseeds : ∀ c, c ∈ seeds ↔ p.registry.classOwner c = some module)
    (hroots : ∀ c ∈ seeds, (p.spec module).hasRoot (p.registry.className c) = true) :
    q.Settled module := by
  constructor
  · intro k r hk hr hdefines hadmits
    rw [hgrows.referencesOf_eq] at hr
    rw [hgrows.spec_eq, hgrows.className_eq] at hadmits
    cases hnone : p.registry.classOwner r with
    | some owner => exact ⟨owner, hgrows.classOwner r owner hnone⟩
    | none =>
      have hopen : p.Open (p.spec module) r :=
        open_iff_defines.2 ⟨hgrows.defines_iff.1 hdefines, hnone, hadmits⟩
      have hreaches : p.Reaches (p.spec module) seeds r :=
        (h.source_of_followed hgrows hrooted hid hseeds hk).elim
          (fun hk => .seed hk hr hopen) fun hk => .step hk hr hopen
      exact ⟨module, (h.classOwner_eq_module_iff hseeds).2 (.inl (.inl hreaches))⟩
  · intro c hc
    rcases (h.classOwner_eq_module_iff hseeds).1 hc with (hc | ⟨-, entry, he, -, -, hc⟩) | hc
    · exact .inl (h.followed_of_source hgrows hseeds hroots (.inr hc))
    · rw [hgrows.spec_eq, hgrows.className_eq]
      exact .inr (by simpa [Registry.className, he] using hc)
    · exact .inl (h.followed_of_source hgrows hseeds hroots (.inl hc))

end Takes

theorem settled_of_none (h : ∀ c, p.registry.classOwner c ≠ some id) : p.Settled id where
  exists_owner hk := absurd hk.classOwner (h _)
  followed hc := absurd hc (h _)

end Partition

end ModuleGraph
