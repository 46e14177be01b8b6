import ModuleGraph.Proofs.Ownership.Following

/-!
# One module after another

All modules claim their roots before the first one is completed (`Partition.Seeded`), and then they
are completed in order. When the turn of a module comes, the modules before it are complete, and
this one and those after it own just their roots (`Partition.Completing`).

`BuildPlan.ends_closeAll` runs through the modules: what each completion carries from one module to
the next holds in the end.
-/

namespace ModuleGraph

namespace Partition

variable {p q : Partition} {id : ModuleId} {c : ClassId}

/-! ## Roots -/

/-- Some modules have claimed their roots, and nothing else is owned. A class that is a root of
several modules goes to the first of them. -/
structure Seeded (p : Partition) (done : List ModuleId) (seeds : List (ModuleId × List ClassId)) :
    Prop where
  ids : seeds.map (·.1) = done
  mem_iff : ∀ s ∈ seeds, ∀ c, c ∈ s.2 ↔ p.registry.classOwner c = some s.1
  hasRoot : ∀ s ∈ seeds, ∀ c ∈ s.2, (p.spec s.1).hasRoot (p.registry.className c) = true
  owner_mem : ∀ {c owner}, p.registry.classOwner c = some owner → owner ∈ done
  rooted : p.Rooted done
  first : ∀ {c owner}, p.registry.classOwner c = some owner →
    ∀ id ∈ done, (p.spec id).hasRoot (p.registry.className c) = true → owner ≤ id
  resourceOwner : ∀ s, p.registry.resourceOwner s = none

/-- What a module owns are its roots. -/
theorem Seeded.hasRoot_of_owner {done : List ModuleId} {seeds : List (ModuleId × List ClassId)}
    (h : p.Seeded done seeds) (hc : p.registry.classOwner c = some id) :
    (p.spec id).hasRoot (p.registry.className c) = true := by
  have hmem : id ∈ seeds.map (·.1) := h.ids ▸ h.owner_mem hc
  obtain ⟨s, hs, rfl⟩ := List.mem_map.1 hmem
  exact h.hasRoot s hs c ((h.mem_iff s hs c).2 hc)

/-- One more module claims its roots. -/
theorem Seeded.next {done : List ModuleId} {seeds : List (ModuleId × List ClassId)}
    (h : p.Seeded done seeds) (hlt : ∀ other ∈ done, other < id) (hgrows : p.Grows q)
    {roots : List ClassId} (hroots : roots = p.unownedWhere (p.spec id).hasRoot)
    (htakes : p.Takes id {c | c ∈ roots} ∅ ∅ q) :
    q.Seeded (done ++ [id]) (seeds ++ [(id, roots)]) := by
  have hid : id ∉ done := fun hmem => Nat.lt_irrefl id (hlt id hmem)
  have hfree : ∀ c ∈ {c | c ∈ roots}, p.Free c := fun c hc => by
    rw [Set.mem_ofPred_eq, hroots] at hc
    exact free_of_mem_unownedWhere hc
  have howner {c : ClassId} {owner : ModuleId} : q.registry.classOwner c = some owner ↔
      (c ∈ roots ∧ owner = id) ∨ p.registry.classOwner c = some owner :=
    htakes.classOwner_eq_some_iff hfree
  have hmem {c : ClassId} : c ∈ roots ↔ p.registry.Defines c ∧ p.registry.classOwner c = none ∧
      (p.spec id).hasRoot (p.registry.className c) = true := by
    rw [hroots, unownedWhere, Registry.mem_classesWhere]
    unfold Registry.Defines Registry.classOwner Registry.className
    cases p.registry.classes[c]? with
    | none => simp
    | some entry => simp [and_assoc, and_left_comm]
  refine ⟨by simp [h.ids], ?mem_iff, ?hasRoot, ?owner_mem, ?rooted, ?first, ?resourceOwner⟩
  case mem_iff =>
    intro s hs c
    rw [howner]
    rcases List.mem_append.1 hs with hs | hs
    · have hne : s.1 ≠ id := fun heq => hid (heq ▸ h.ids ▸ List.mem_map_of_mem hs)
      simp [hne, h.mem_iff s hs c]
    · obtain rfl := List.mem_singleton.1 hs
      have hnot : p.registry.classOwner c ≠ some id := fun hc => hid (h.owner_mem hc)
      simp [hnot]
  case hasRoot =>
    intro s hs c hc
    rw [hgrows.spec_eq, hgrows.className_eq]
    rcases List.mem_append.1 hs with hs | hs
    · exact h.hasRoot s hs c hc
    · obtain rfl := List.mem_singleton.1 hs
      exact (hmem.1 hc).2.2
  case owner_mem =>
    intro c owner hc
    rcases howner.1 hc with ⟨-, rfl⟩ | hc
    · exact List.mem_append_right _ (List.mem_singleton_self _)
    · exact List.mem_append_left _ (h.owner_mem hc)
  case rooted =>
    intro other hother c hc hroot
    rcases List.mem_append.1 hother with hother | hother
    · exact h.rooted.of_grows hgrows other hother c hc hroot
    · obtain rfl := List.mem_singleton.1 hother
      rw [hgrows.spec_eq, hgrows.className_eq] at hroot
      cases hnone : p.registry.classOwner c with
      | some owner => exact ⟨owner, howner.2 (.inr hnone)⟩
      | none => exact ⟨other, howner.2 (.inl ⟨hmem.2 ⟨hgrows.defines_iff.1 hc, hnone, hroot⟩, rfl⟩)⟩
  case first =>
    intro c owner hc other hother hroot
    rw [hgrows.spec_eq, hgrows.className_eq] at hroot
    rcases howner.1 hc with ⟨hc, rfl⟩ | hc
    · rcases List.mem_append.1 hother with hother | hother
      · -- what is a root of a module before this one has an owner already
        obtain ⟨hdefines, hnone, -⟩ := hmem.1 hc
        obtain ⟨owner, howner⟩ := h.rooted other hother c hdefines hroot
        rw [hnone] at howner
        cases howner
      · exact Nat.le_of_eq (List.mem_singleton.1 hother).symm
    · rcases List.mem_append.1 hother with hother | hother
      · exact h.first hc other hother hroot
      · rw [List.mem_singleton.1 hother]
        exact Nat.le_of_lt (hlt owner (h.owner_mem hc))
  case resourceOwner =>
    intro s
    unfold Registry.resourceOwner
    rw [htakes.resource_of_not_mem s (Set.notMem_empty s)]
    exact h.resourceOwner s

/-! ## Completions -/

/-- The classes that a module owns. -/
def owned (p : Partition) (id : ModuleId) : Set ClassId :=
  {c | p.registry.classOwner c = some id}

/-- The modules before number `n` are complete and the others own just their roots; the step
completes module `n`. -/
structure Completing (n : ModuleId) (p q : Partition) : Prop where
  lt_size : n < p.table.size
  consistent : p.Consistent
  rooted : p.Rooted p.table.ids
  hasRoot : ∀ id ≥ n, ∀ c ∈ p.owned id, (p.spec id).hasRoot (p.registry.className c) = true
  grows : p.Grows q
  takes : p.Takes n {c | p.Gathers (p.spec n) (p.owned n) c} {s | p.Draws n (p.owned n) s}
    {u | p.Leaves (p.spec n) (p.owned n) u} q

namespace Completing

variable {n : ModuleId}

/-- The owner of a class is the same as before, or it is the module that is completed. -/
theorem classOwner_eq_some_iff (h : Completing n p q) : q.registry.classOwner c = some id ↔
    (p.Gathers (p.spec n) (p.owned n) c ∧ id = n) ∨ p.registry.classOwner c = some id :=
  h.takes.classOwner_eq_some_iff fun _ hc => Gathers.free hc

/-- Other modules own what they owned before. -/
theorem owned_of_ne (h : Completing n p q) (hid : id ≠ n) : q.owned id = p.owned id := by
  ext c
  simp only [owned, Set.mem_ofPred_eq, h.classOwner_eq_some_iff, hid, and_false, false_or]

end Completing

end Partition

namespace BuildPlan

open ModuleGraph.Partition

variable {p : Partition}

theorem ends_seedAll_seeded (hp : p.Consistent) (hr : p.registry.Unowned) :
    Ends (seedAll p) (fun r => p.Grows r.1 ∧ r.1.Consistent ∧ r.1.Seeded p.table.ids r.2)
      (fun _ => False) := by
  rw [seedAll]
  refine Ends.foldlM_prefix (fun done r => p.Grows r.1 ∧ r.1.Consistent ∧ r.1.Seeded done r.2)
    [] p.table.ids (p, []) ⟨.refl p, hp, ?_⟩ ?_
  · exact ⟨rfl, by simp, by simp, fun hc => by simp [hr.classOwner] at hc, by simp [Rooted],
      by simp, hr.resourceOwner⟩
  · rintro done id after hids ⟨q, seeds⟩ ⟨hpq, hq, hseeded⟩
    rw [List.nil_append] at hids
    have hsorted : (done ++ id :: after).Pairwise (· < ·) := hids ▸ List.pairwise_lt_range
    have hbefore : ∀ other ∈ done, other < id := fun other hother =>
      (List.pairwise_append.1 hsorted).2.2 other hother id List.mem_cons_self
    have hlt : id < p.table.size := ModuleTable.mem_ids.1 (by simp [hids])
    refine ((ends_seedRoots hq (hpq.size_table ▸ hlt)).and (takes_seedRoots q id)).bind ?_
    rintro r ⟨⟨hqr, hr⟩, hroots, htakes⟩
    exact ⟨hpq.trans hqr, hr, hseeded.next hbefore hqr hroots htakes⟩

/-- What holds once all modules have claimed their roots, and is carried by each completion from one
module to the next, holds when all modules are complete. -/
theorem ends_closeAll {seeds : List (ModuleId × List ClassId)} (hp : p.Consistent)
    (hseeded : p.Seeded p.table.ids seeds) (inv : Nat → Partition → Prop) (hstart : inv 0 p)
    (hstep : ∀ {n q r}, p.Grows q → Completing n q r → inv n q → inv (n + 1) r) :
    Ends (seeds.foldlM (fun p s => (closeOne p s).result) p)
      (fun q => p.Grows q ∧ q.Consistent ∧ inv p.table.size q) (fun _ => False) := by
  have hlength : seeds.length = p.table.size := by
    simpa [ModuleTable.ids, ModuleTable.size] using congrArg List.length hseeded.ids
  rw [← hlength]
  refine (Ends.foldlM_prefix (fun done q => p.Grows q ∧ q.Consistent ∧ inv done.length q ∧
      ∀ id ≥ done.length, q.owned id = p.owned id)
    [] seeds p ⟨.refl p, hp, hstart, fun _ _ => rfl⟩ ?_).weaken
    fun q hq => ⟨hq.1, hq.2.1, hq.2.2.1⟩
  rintro done s after hsplit q ⟨hpq, hq, hinv, hpending⟩
  rw [List.nil_append] at hsplit
  -- the seeds stand in the order of the modules
  have hnumber : s.1 = done.length := by
    have hget := congrArg (·[done.length]?) hseeded.ids
    simp only [hsplit, List.map_append, List.map_cons, ModuleTable.ids] at hget
    rw [List.getElem?_append_right (by simp)] at hget
    have hlt : done.length < p.table.modules.size := by
      rw [← ModuleTable.size, ← hlength, hsplit]
      simp
    simpa [List.getElem?_range hlt] using hget
  have hs : s ∈ seeds := by simp [hsplit]
  have hseeds : {c | c ∈ s.2} = q.owned s.1 := by
    rw [hpending s.1 (Nat.le_of_eq hnumber.symm)]
    exact Set.ext (hseeded.mem_iff s hs)
  have hm : s.1 < q.table.size := by
    rw [hpq.size_table, hnumber, ← hlength, hsplit]
    simp
  have hroots : ∀ id ≥ s.1, ∀ c ∈ q.owned id,
      (q.spec id).hasRoot (q.registry.className c) = true := by
    intro id hid c hc
    rw [hpending id (hnumber ▸ hid)] at hc
    rw [hpq.spec_eq, hpq.className_eq]
    exact hseeded.hasRoot_of_owner hc
  have hids : q.table.ids = p.table.ids := congrArg List.range hpq.size_table
  simp only [closeOne, Logged.result_bind, Logged.result_emitIf, Logged.result_pure]
  refine ((ends_closeOver hq hm s.2).and (ends_completes q s.2 hm)).bind ?_
  rintro r ⟨⟨hqr, hr⟩, -, hcompletes⟩
  have hcompleting : Completing s.1 q r.1 :=
    ⟨hm, hq, hids ▸ hseeded.rooted.of_grows hpq, hroots, hqr, hseeds ▸ hcompletes.takes⟩
  rw [List.length_append, List.length_singleton]
  refine ⟨hpq.trans hqr, hr, ?_, fun id hid => ?_⟩
  · rw [← hnumber] at hinv ⊢
    exact hstep hpq hcompleting hinv
  · have hne : id ≠ s.1 := Nat.ne_of_gt (hnumber ▸ hid)
    rw [hcompleting.owned_of_ne hne, hpending id (Nat.le_of_succ_le hid)]

end BuildPlan

end ModuleGraph
