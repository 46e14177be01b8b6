import ModuleGraph.Proofs.Exporters
import ModuleGraph.Proofs.Ownership.InOrder
import ModuleGraph.Proofs.Reports

/-!
# References left unresolved

**Theorem (`unresolved_of_build`).** What a report of a successful build lists as unresolved are
references of classes that the report lists. Their targets have no owner, or one that came too late:
it does not have the target as a root, and is a module after the owner of the source, or the module
for unknown items (`Partition.Misses`). All references of that kind are listed, but for those from
classes of the module for unknown items.

A module notes what it leaves unresolved when it is completed, and the note stays when another
module takes the target afterwards. So the listed references are not those that no module has
claimed (`owned_of_unresolved_delayed`).
-/

namespace ModuleGraph

namespace Partition

variable {p q : Partition} {module x : ModuleId} {C : Set ClassId} {R : Set ResourceId}
  {U : Set Reference} {u : Reference} {unknown : Option ModuleId} {n : Nat}

/-- What a step notes is added to what its module has noted before. -/
theorem Takes.holds_unresolved_iff (h : p.Takes module C R U q) (hm : module < p.table.size) :
    q.table.Holds x (.unresolved u) ↔
      (x = module ∧ u ∈ U) ∨ p.table.Holds x (.unresolved u) := by
  by_cases hx : x = module
  · subst hx
    obtain ⟨m, hm⟩ := ModuleTable.exists_get? hm
    obtain ⟨m', hm', hgains⟩ := h.gains m hm
    rw [ModuleTable.holds_of_get? hm, ModuleTable.holds_of_get? hm']
    simpa [Module.Holds, or_comm] using hgains.mem_unresolved u
  · simp [ModuleTable.Holds, h.others x hx, hx]

/-! ## References that a module misses -/

/-- Module `x` owns the source of the reference. The target has no owner, or one that does not have
it as a root and came after `x`: a module with a greater number, or the one for unknown items. -/
structure Misses (p : Partition) (unknown : Option ModuleId) (x : ModuleId) (u : Reference) :
    Prop where
  source : p.registry.classOwner u.1 = some x
  refers : u.2 ∈ p.registry.referencesOf u.1
  target : ∀ y, p.registry.classOwner u.2 = some y → (x < y ∨ unknown = some y) ∧
    (p.spec y).hasRoot (p.registry.className u.2) = false

/-- The modules with numbers below `n` have noted references that they miss, the others have noted
nothing; the modules below `n` other than that for unknown items have noted all that they miss
because nobody else has claimed it before. -/
structure Noted (p : Partition) (unknown : Option ModuleId) (n : Nat) : Prop where
  sound : ∀ {x u}, p.table.Holds x (.unresolved u) → x < n ∧ p.Misses unknown x u
  complete : ∀ {x u}, x < n → unknown ≠ some x → p.Misses none x u →
    (p.registry.classes[u.2]?).isSome → p.table.Holds x (.unresolved u)

/-- What is free once the roots have been claimed is nobody's root. -/
theorem Rooted.not_hasRoot_of_free {c : ClassId} {ids : List ModuleId} (h : p.Rooted ids)
    (hx : x ∈ ids) (hc : p.Free c) : (p.spec x).hasRoot (p.registry.className c) = false := by
  rw [← Bool.not_eq_true]
  intro hroot
  have hnone := hc.classOwner
  obtain ⟨entry, he, -, hdefined⟩ := hc
  obtain ⟨owner, howner⟩ := h x hx c ⟨entry, he, hdefined⟩ hroot
  rw [hnone] at howner
  cases howner

/-- What a module misses it still misses when a later module, or the one for unknown items, has
taken free classes. -/
theorem Misses.of_takes (h : p.Misses none x u) (htakes : p.Takes module C R U q)
    (hgrows : p.Grows q) {ids : List ModuleId} (hrooted : p.Rooted ids) (hm : module ∈ ids)
    (hfree : ∀ c ∈ C, p.Free c) (hlater : x < module ∨ unknown = some module) :
    q.Misses unknown x u where
  source := hgrows.classOwner _ _ h.source
  refers := by
    rw [hgrows.referencesOf_eq]
    exact h.refers
  target y hy := by
    rw [hgrows.spec_eq, hgrows.className_eq]
    rcases (htakes.classOwner_eq_some_iff hfree).1 hy with ⟨hc, rfl⟩ | hy
    · exact ⟨hlater, hrooted.not_hasRoot_of_free hm (hfree u.2 hc)⟩
    · obtain ⟨hlt, hroot⟩ := h.target y hy
      exact ⟨hlt.imp_right (by simp), hroot⟩

/-- What is missed after others have taken classes was missed before. -/
theorem Misses.before (h : q.Misses none x u) (htakes : p.Takes module C R U q)
    (hgrows : p.Grows q) (hfree : ∀ c ∈ C, p.Free c) (hne : x ≠ module) : p.Misses none x u where
  source := by
    rcases (htakes.classOwner_eq_some_iff hfree).1 h.source with ⟨-, heq⟩ | hx
    · exact absurd heq hne
    · exact hx
  refers := by
    rw [← hgrows.referencesOf_eq]
    exact h.refers
  target y hy := by
    rw [← hgrows.spec_eq, ← hgrows.className_eq]
    exact h.target y (hgrows.classOwner _ _ hy)

/-! ## Completions -/

/-- A class that is missing or excluded is not taken. -/
theorem Barred.not_gathers {spec : ModuleSpec} {seeds : Set ClassId} {c : ClassId}
    (h : p.Barred spec c) : ¬p.Gathers spec seeds c := by
  rintro (hreaches | ⟨-, entry, he, -, hdefined, hincludes⟩)
  · exact hreaches.open.not_barred h
  · obtain ⟨entry', he', -, hundefined | hexcludes⟩ := h
    · cases he.symm.trans he'
      rw [hdefined] at hundefined
      cases hundefined
    · cases he.symm.trans he'
      simp [ModuleSpec.includesClass, hexcludes] at hincludes

theorem Grows.isSome_class (h : p.Grows q) (c : ClassId) :
    (q.registry.classes[c]?).isSome = (p.registry.classes[c]?).isSome := by
  simpa using congrArg Option.isSome (h.classes c)

namespace Completing

/-- What has no owner and is not taken has no owner after the completion. -/
theorem classOwner_eq_none (h : Completing n p q) {c : ClassId}
    (hnone : p.registry.classOwner c = none) (hc : ¬p.Gathers (p.spec n) (p.owned n) c) :
    q.registry.classOwner c = none :=
  (h.takes.classOwner_of_not_mem hc).trans hnone

/-- What a completion leaves unresolved are references to classes without an owner. -/
theorem misses_of_leaves (h : Completing n p q) (hu : p.Leaves (p.spec n) (p.owned n) u) :
    q.Misses none n u := by
  cases hu with
  | @followed k r hk hr hbarred =>
    have hnone : q.registry.classOwner r = none := by
      refine h.classOwner_eq_none ?_ hbarred.not_gathers
      obtain ⟨entry, he, hnone, -⟩ := hbarred
      rw [Registry.classOwner_of_getElem? he, hnone]
    refine ⟨h.classOwner_eq_some_iff.2 ?_, h.grows.referencesOf_eq ▸ hr, by simp [hnone]⟩
    exact hk.symm.imp (fun hreaches => ⟨.inl hreaches, rfl⟩) id
  | @included k r hk hr hnone hgathers =>
    refine ⟨h.classOwner_eq_some_iff.2 (.inl ⟨.inr hk, rfl⟩), h.grows.referencesOf_eq ▸ hr, ?_⟩
    simp [h.classOwner_eq_none hnone hgathers]

/-- A completion leaves every reference unresolved that its module misses. -/
theorem leaves_of_misses (h : Completing n p q) (hu : q.Misses none n u)
    (hsome : (p.registry.classes[u.2]?).isSome) : p.Leaves (p.spec n) (p.owned n) u := by
  obtain ⟨k, r⟩ := u
  obtain ⟨hsource, hrefers, htarget⟩ := hu
  dsimp only at hsource hrefers htarget hsome
  rw [h.grows.referencesOf_eq] at hrefers
  have hgathers : ¬p.Gathers (p.spec n) (p.owned n) r := fun hgathers => by
    obtain ⟨hlt | hunknown, -⟩ := htarget n (h.classOwner_eq_some_iff.2 (.inl ⟨hgathers, rfl⟩))
    · exact Nat.lt_irrefl n hlt
    · cases hunknown
  have hnone : p.registry.classOwner r = none := by
    rw [Option.eq_none_iff_forall_ne_some]
    intro y hy
    obtain ⟨hlt | hunknown, hroot⟩ := htarget y (h.grows.classOwner _ _ hy)
    · -- a module that is still to be completed owns just its roots
      rw [h.grows.spec_eq, h.grows.className_eq, h.hasRoot y (Nat.le_of_lt hlt) r hy] at hroot
      cases hroot
    · cases hunknown
  have hfollowed (hk : k ∈ p.owned n ∨ p.Reaches (p.spec n) (p.owned n) k) :
      p.Leaves (p.spec n) (p.owned n) (k, r) := by
    refine .followed hk hrefers ?_
    by_contra hbarred
    obtain ⟨entry, he⟩ := Option.isSome_iff_exists.1 hsome
    have hopen : p.Open (p.spec n) r := by
      rw [Registry.classOwner_of_getElem? he] at hnone
      simpa [Open, Barred, he, hnone] using hbarred
    exact hgathers (.inl (hk.elim (fun hk => .seed hk hrefers hopen)
      fun hk => .step hk hrefers hopen))
  rcases h.classOwner_eq_some_iff.1 hsource with ⟨hreaches | hincludes, -⟩ | hk
  · exact hfollowed (.inr hreaches)
  · exact .included hincludes hrefers hnone hgathers
  · exact hfollowed (.inl hk)

/-- The completion of a module adds what this module misses. -/
theorem noted (h : Completing n p q) (hnoted : p.Noted none n) : q.Noted none (n + 1) := by
  have hmem : n ∈ p.table.ids := ModuleTable.mem_ids.2 h.lt_size
  have hfree : ∀ c ∈ {c | p.Gathers (p.spec n) (p.owned n) c}, p.Free c :=
    fun c hc => Gathers.free hc
  refine ⟨fun {x u} hu => ?_, fun {x u} hlt _ hmisses hsome => ?_⟩
  · rcases (h.takes.holds_unresolved_iff h.lt_size).1 hu with ⟨rfl, hu⟩ | hu
    · exact ⟨Nat.lt_succ_self x, h.misses_of_leaves hu⟩
    · obtain ⟨hlt, hmisses⟩ := hnoted.sound hu
      exact ⟨Nat.lt_succ_of_lt hlt,
        hmisses.of_takes h.takes h.grows h.rooted hmem hfree (.inl hlt)⟩
  · rw [h.takes.holds_unresolved_iff h.lt_size]
    rw [h.grows.isSome_class] at hsome
    rcases Nat.lt_succ_iff_lt_or_eq.1 hlt with hlt | rfl
    · exact .inr (hnoted.complete hlt (by simp)
        (hmisses.before h.takes h.grows hfree (Nat.ne_of_lt hlt)) hsome)
    · exact .inl ⟨rfl, h.leaves_of_misses hmisses hsome⟩

end Completing

/-- The module for unknown items takes classes that others miss, and notes nothing. -/
theorem Noted.assignUnclaimed (h : p.Noted none n) (hm : module < p.table.size)
    (hrooted : p.Rooted p.table.ids) (hgrows : p.Grows q)
    (htakes : p.Takes module {c | c ∈ p.unownedWhere fun _ => true} R ∅ q) :
    q.Noted (some module) n := by
  have hfree : ∀ c ∈ {c | c ∈ p.unownedWhere fun _ => true}, p.Free c :=
    fun c hc => free_of_mem_unownedWhere hc
  have hholds (x : ModuleId) (u : Reference) :
      q.table.Holds x (.unresolved u) ↔ p.table.Holds x (.unresolved u) := by
    rw [htakes.holds_unresolved_iff hm]
    simp
  refine ⟨fun {x u} hu => ?_, fun {x u} hlt hne hmisses hsome => ?_⟩
  · obtain ⟨hlt, hmisses⟩ := h.sound ((hholds x u).1 hu)
    exact ⟨hlt, hmisses.of_takes htakes hgrows hrooted (ModuleTable.mem_ids.2 hm) hfree (.inr rfl)⟩
  · rw [hgrows.isSome_class] at hsome
    have hne' : x ≠ module := fun heq => hne (heq ▸ rfl)
    exact (hholds x u).2 (h.complete hlt (by simp) (hmisses.before htakes hgrows hfree hne') hsome)

/-! ## Groups -/

/-- Only the specifications of owners matter. -/
theorem misses_congr {table : ModuleTable}
    (hspec : ∀ {c y}, p.registry.classOwner c = some y →
      Partition.spec ⟨p.registry, table⟩ y = p.spec y) :
    Partition.Misses ⟨p.registry, table⟩ unknown x u ↔ p.Misses unknown x u := by
  constructor
  · rintro ⟨hsource, hrefers, htarget⟩
    exact ⟨hsource, hrefers, fun y hy => hspec hy ▸ htarget y hy⟩
  · rintro ⟨hsource, hrefers, htarget⟩
    refine ⟨hsource, hrefers, fun y hy => ?_⟩
    rw [hspec hy]
    exact htarget y hy

/-- The notes of the groups: references that their modules miss, and all of those but for what the
module for unknown items owns, or has claimed before others could. -/
structure Notes (p : Partition) (unknown : Option ModuleId) : Prop where
  owner_lt : ∀ {c y}, p.registry.classOwner c = some y → y < p.table.size
  sound : ∀ {top u}, p.table.group top = top → p.table.Holds top (.unresolved u) →
    ∃ x, p.table.group x = top ∧ p.Misses unknown x u
  complete : ∀ {top x u}, p.table.group top = top → p.table.group x = top → unknown ≠ some x →
    p.Misses none x u → (p.registry.classes[u.2]?).isSome → p.table.Holds top (.unresolved u)

/-- A group takes over the notes of its modules. -/
theorem Noted.notes (h : p.Noted unknown p.table.size) (hp : p.Consistent) {table : ModuleTable}
    (hmerged : p.table.Merged table) : Notes ⟨p.registry, table⟩ unknown := by
  have hspec : ∀ {c y}, p.registry.classOwner c = some y →
      Partition.spec ⟨p.registry, table⟩ y = p.spec y := fun {_ y} _ => by
    have hy := congrArg (Option.elim · default id) (hmerged.same.get? y)
    simpa [Partition.spec, Option.elim_map] using hy
  refine ⟨fun {c y} hy => ?_, fun {top u} htop hu => ?_,
    fun {top x u} htop hx hne hmisses hsome => ?_⟩
  · rw [hmerged.same.size]
    exact hp.classes.owner_lt hy
  · obtain ⟨x, hx, hu⟩ := (hmerged.holds _ htop).1 hu
    exact ⟨x, hx, (misses_congr hspec).2 (h.sound hu).2⟩
  · rw [misses_congr hspec] at hmisses
    refine (hmerged.holds _ htop).2 ⟨x, hx, h.complete ?_ hne hmisses hsome⟩
    exact hp.classes.owner_lt hmisses.source

/-- New empty modules note nothing. -/
theorem Notes.of_extends (h : p.Notes unknown) {table : ModuleTable}
    (hext : p.table.Extends table) : Notes ⟨p.registry, table⟩ unknown := by
  have hspec : ∀ {c y}, p.registry.classOwner c = some y →
      Partition.spec ⟨p.registry, table⟩ y = p.spec y := fun {_ y} hy => by
    obtain ⟨m, hm⟩ := ModuleTable.exists_get? (h.owner_lt hy)
    obtain ⟨m', hm', hplain⟩ := hext.exists_get? hm
    rw [spec_of_get? hm, spec_of_get? (p := ⟨p.registry, table⟩) hm']
    exact congrArg (·.spec) hplain
  refine ⟨fun hy => Nat.lt_of_lt_of_le (h.owner_lt hy) hext.size_le, fun {top u} htop hu => ?_,
    fun {top x u} htop hx hne hmisses hsome => ?_⟩
  · rw [hext.group_eq] at htop
    obtain ⟨x, hx, hmisses⟩ := h.sound htop ((hext.holds_iff _).1 hu)
    exact ⟨x, (hext.group_eq x).trans hx, (misses_congr hspec).2 hmisses⟩
  · rw [hext.group_eq] at htop hx
    rw [misses_congr hspec] at hmisses
    exact (hext.holds_iff _).2 (h.complete htop hx hne hmisses hsome)

end Partition

namespace BuildPlan

open ModuleGraph.Partition

variable {p : Partition}

/-- Nothing is noted when roots are claimed. -/
theorem ends_seedAll_unnoted (hnone : ∀ x u, ¬p.table.Holds x (.unresolved u)) :
    Ends (seedAll p) (fun r => ∀ x u, ¬r.1.table.Holds x (.unresolved u)) (fun _ => False) := by
  rw [seedAll]
  refine (Ends.foldlM (fun r : Partition × List (ModuleId × List ClassId) =>
      p.table.SameBut Module.outline r.1.table ∧ ∀ x u, ¬r.1.table.Holds x (.unresolved u))
    ⟨.refl _ _, hnone⟩ ?_).weaken fun r hr => hr.2
  rintro r ⟨hsame, hr⟩ id hid
  have hlt : id < r.1.table.size := hsame.size ▸ ModuleTable.mem_ids.1 hid
  refine (r.1.takes_seedRoots id).bind ?_
  rintro q ⟨-, htakes⟩
  refine ⟨hsame.trans (htakes.sameBut hlt), fun x u => ?_⟩
  rw [htakes.holds_unresolved_iff hlt]
  simpa using hr x u

/-- Once everything has been claimed, each module has noted what it misses. -/
theorem ends_assignUnits_noted (plan : BuildPlan) (hp : p.Consistent) (hr : p.registry.Unowned)
    (hi : p.table.Indexed) (hnone : ∀ x u, ¬p.table.Holds x (.unresolved u))
    (hfound : ∀ unknown, plan.options.unknownModule = some unknown →
      (p.table.find unknown).isSome) :
    Ends (plan.assignUnits p).result
      (fun q => p.Grows q ∧ q.Consistent ∧
        q.Noted (plan.options.unknownModule.bind q.table.find) q.table.size)
      (fun _ => False) := by
  simp only [assignUnits, Logged.result_bind, Logged.result_liftM, Logged.result_foldlM]
  refine ((ends_seedAll_seeded hp hr).and (ends_seedAll_unnoted hnone)).bind ?_
  rintro ⟨q, seeds⟩ ⟨⟨hpq, hq, hseeded⟩, hnone⟩
  have hids : q.table.ids = p.table.ids := congrArg List.range hpq.size_table
  have hstart : q.Noted none 0 := ⟨fun {x u} hu => absurd hu (hnone x u), fun hlt => by cases hlt⟩
  rw [← hids] at hseeded
  refine (ends_closeAll hq hseeded (fun n r => r.Noted none n) hstart
    fun _ hstep => hstep.noted).bind ?_
  rintro r ⟨hqr, hr, hnoted⟩
  have hpr := hpq.trans hqr
  rw [← hqr.size_table] at hnoted
  unfold assignRest
  cases hunknown : plan.options.unknownModule with
  | none =>
    simp only [Logged.result_bind, Logged.result_emitIf, Logged.result_pure]
    exact ⟨hpr, hr, hnoted⟩
  | some unknown =>
    obtain ⟨id, hid⟩ := Option.isSome_iff_exists.1 (hfound unknown hunknown)
    have hid' : r.table.find unknown = some id := (hpr.table.find unknown).trans hid
    obtain ⟨m, hm, -⟩ := (hpr.indexed hi).get?_of_find hid'
    have hlt := ModuleTable.lt_size_of_get? hm
    have hrequire : r.table.require unknown "settings.unknown-module" = .ok id := by
      simp [ModuleTable.require, hid']
    have hrooted : r.Rooted r.table.ids := by
      have hids' : r.table.ids = q.table.ids := congrArg List.range hqr.size_table
      exact hids' ▸ hseeded.rooted.of_grows hqr
    simp only [Logged.result_bind, Logged.result_emitIf, Logged.result_pure, Logged.result_liftM,
      hrequire]
    refine Ends.ok_bind (((ends_assignUnclaimed hr hlt).and (r.takes_assignUnclaimed id)).bind ?_)
    rintro s ⟨⟨hrs, hs, -⟩, htakes⟩
    refine ⟨hpr.trans hrs, hs, ?_⟩
    rw [Option.bind_some, hrs.table.find, hid', hrs.size_table]
    exact hnoted.assignUnclaimed hlt hrooted hrs htakes

/-- What a build hands over to its resolution: the module for unknown items is known, and the groups
have their notes. -/
structure Annotated (plan : BuildPlan) (p : Partition) : Prop where
  indexed : p.table.Indexed
  found : ∀ unknown, plan.options.unknownModule = some unknown → (p.table.find unknown).isSome
  notes : p.Notes (plan.options.unknownModule.bind p.table.find)

/-- The module for unknown items keeps its number. -/
theorem Annotated.of_extends {plan : BuildPlan} (h : plan.Annotated p) {table : ModuleTable}
    (hext : p.table.Extends table) : plan.Annotated ⟨p.registry, table⟩ := by
  have hfind (unknown : String) (hunknown : plan.options.unknownModule = some unknown) :
      table.find unknown = p.table.find unknown := by
    obtain ⟨id, hid⟩ := Option.isSome_iff_exists.1 (h.found unknown hunknown)
    rw [hid, hext.find_eq h.indexed hid]
  refine ⟨hext.indexed h.indexed, fun unknown hunknown => ?_, ?_⟩
  · rw [hfind unknown hunknown]
    exact h.found unknown hunknown
  · have hsame : plan.options.unknownModule.bind table.find =
        plan.options.unknownModule.bind p.table.find := by
      cases hunknown : plan.options.unknownModule with
      | none => rfl
      | some unknown => exact hfind unknown hunknown
    rw [hsame]
    exact h.notes.of_extends hext

/-- The claims of all modules and the merging of members. -/
theorem ends_annotate (plan : BuildPlan) {registry : Registry} {table : ModuleTable}
    (htable : plan.Created table) (hregistry : registry.Unowned) :
    Ends ((plan.assignUnits ⟨registry, table⟩).result >>= plan.mergeMembers) plan.Annotated
      StageError := by
  obtain ⟨hi, hfresh, hfound⟩ := htable
  have hnone : ∀ x u, ¬table.Holds x (.unresolved u) := by
    rintro x u ⟨m, hm, hu⟩
    rw [hfresh x m hm] at hu
    simp [Module.Holds] at hu
  refine ((ends_assignUnits_noted plan (p := ⟨registry, table⟩)
    (consistent_of_fresh hregistry hfresh) hregistry hi hnone hfound).mono (fun _ h => h)
    fun _ => False.elim).bind ?_
  rintro q ⟨hgrows, hq, hnoted⟩
  refine (ends_mergeMembers_merged plan hfresh hi hgrows.table).mono ?_ fun _ => .member
  rintro ⟨_, table'⟩ ⟨hregistry, hmerged⟩
  subst hregistry
  have hfind (name : String) : table'.find name = table.find name :=
    (hmerged.same.find name).trans (hgrows.table.find name)
  refine ⟨hmerged.same.indexed (hgrows.indexed hi), fun unknown hunknown => ?_, ?_⟩
  · rw [hfind]
    exact hfound unknown hunknown
  · have hsame : q.table.find = table'.find := funext fun name => (hmerged.same.find name).symm
    rw [hsame] at hnoted
    exact hnoted.notes hq hmerged

end BuildPlan

/-! ## Reports -/

/-- The names of the classes at both ends of a reference. -/
def Outcome.named (outcome : Outcome) (u : Reference) : UnresolvedReport where
  source := outcome.partition.registry.className u.1
  target := outcome.partition.registry.className u.2

theorem Outcome.unresolved_of_report? {outcome : Outcome} {X : ModuleId} {m : Module}
    {report : ModuleReport} (hm : outcome.table.get? X = some m)
    (h : outcome.report? X = some report) :
    report.unresolved = m.unresolved.toList.map outcome.named := by
  obtain ⟨info, -, h⟩ := Option.bind_eq_some_iff.1 h
  rw [hm] at h
  cases h
  rfl

namespace Builder

open ModuleGraph.Partition

/-- The number of the module for unknown items. -/
def unknownIn (builder : Builder) (outcome : Outcome) : Option ModuleId :=
  builder.plan.options.unknownModule.bind outcome.table.find

/-- Each report of a successful build lists as unresolved only what modules of its group miss, and
the sources are among the classes that it lists. It lists all that the modules miss because nobody
else has claimed it before, but for those from classes of the module for unknown items. -/
theorem unresolved_of_build (builder : Builder) (registry : Registry) (outcome : Outcome)
    (hregistry : registry.Unowned) (hbuild : (builder.build registry).result = .ok outcome) :
    ∀ X ∈ outcome.order, ∃ report, outcome.report? X = some report ∧
      (∀ entry ∈ report.unresolved, entry.source ∈ report.classes ∧
        ∃ x u, outcome.table.group x = X ∧ entry = outcome.named u ∧
          outcome.partition.Misses (builder.unknownIn outcome) x u) ∧
      ∀ x u, outcome.table.group x = X → builder.unknownIn outcome ≠ some x →
        outcome.partition.Misses none x u →
        (outcome.partition.registry.classes[u.2]?).isSome →
        outcome.named u ∈ report.unresolved := by
  have hstages : Ends (builder.stages registry) (fun r => builder.plan.Annotated r.1) StageError :=
    builder.ends_stages_divided registry
      (fun table htable => BuildPlan.ends_annotate builder.plan htable hregistry)
      (fun h => h.indexed) fun h hext => h.of_extends hext
  obtain ⟨hdivided, policy, hresolution⟩ := (builder.ends_build hregistry).of_ok hbuild
  rw [result_build] at hbuild
  obtain ⟨r, hr, hresolve⟩ := exists_of_bind_ok hbuild
  have hannotated := hstages.of_ok hr
  obtain ⟨hpartition, -⟩ :=
    (BuildPlan.ends_resolve builder.plan hannotated.indexed _ _).of_ok hresolve
  rw [← hpartition] at hannotated
  have hnotes : outcome.partition.Notes (builder.unknownIn outcome) := hannotated.notes
  intro X hX
  have hgroup : outcome.table.group X = X := hresolution.group_of_mem_order hX
  obtain ⟨m, hm⟩ := hresolution.exists_module hX
  obtain ⟨report, hreport, -⟩ := hresolution.exists_report hX
  have hmem (u : Reference) : outcome.table.Holds X (.unresolved u) ↔ u ∈ m.unresolved.toList := by
    rw [ModuleTable.holds_of_get? hm]
    exact Std.TreeSet.mem_toList.symm
  have hunresolved := Outcome.unresolved_of_report? hm hreport
  refine ⟨report, hreport, fun entry hentry => ?_, fun x u hx hne hmisses hsome => ?_⟩
  · rw [hunresolved] at hentry
    obtain ⟨u, hu, rfl⟩ := List.mem_map.1 hentry
    obtain ⟨x, hx, hmisses⟩ := hnotes.sound hgroup ((hmem u).2 hu)
    refine ⟨?_, x, u, hx, rfl, hmisses⟩
    have hclass : outcome.table.Holds X (.unit u.1) :=
      (hdivided.divides.holds_class hgroup u.1).2 ⟨x, hmisses.source, hx⟩
    rw [ModuleTable.holds_of_get? hm] at hclass
    rw [Outcome.classes_of_report? hm hreport]
    exact (List.mergeSort_perm ..).mem_iff.2
      (List.mem_map_of_mem (Std.TreeSet.mem_toList.2 hclass))
  · rw [hunresolved]
    exact List.mem_map_of_mem ((hmem u).1 (hnotes.complete hgroup hx hne hmisses hsome))

/-- A program refers to a tool. -/
def delayedClasses : Registry := .populate [
  .register { name := "a.Main", references := ["b.Tool"] },
  .register { name := "b.Tool" }]

/-- The first module has the program and excludes the tool, which the second one includes. -/
def delayed : Builder := .plain {
  specs := [
    { name := "first", version := "1.0", roots := ⟨[.package "a"]⟩, excludes := ⟨[.package "b"]⟩ },
    { name := "second", version := "1.0", includes := ⟨[.package "b"]⟩ }] }

/-- The first module misses the tool, so its report lists the reference. -/
theorem unresolved_delayed :
    delayedClasses.Unowned ∧
      ∃ outcome, (delayed.build delayedClasses).result = .ok outcome ∧ 0 ∈ outcome.order ∧
        outcome.partition.Misses none 0 (0, 1) ∧
        ∃ report, outcome.report? 0 = some report ∧
          outcome.named (0, 1) ∈ report.unresolved := by
  have hrun : ∃ outcome, (delayed.build delayedClasses).result = .ok outcome ∧
      0 ∈ outcome.order ∧ outcome.table.group 0 = 0 ∧
      outcome.partition.registry.classOwner 0 = some 0 ∧
      1 ∈ outcome.partition.registry.referencesOf 0 ∧
      outcome.partition.registry.classOwner 1 = some 1 ∧
      (outcome.partition.spec 1).hasRoot (outcome.partition.registry.className 1) = false := by
    decide +kernel
  obtain ⟨outcome, hbuild, horder, hgroup, hsource, hrefers, htarget, hroot⟩ := hrun
  have hunowned : delayedClasses.Unowned := (Registry.pristine_populate _).unowned
  have hmisses : outcome.partition.Misses none 0 (0, 1) := by
    refine ⟨hsource, hrefers, fun y hy => ?_⟩
    cases htarget.symm.trans hy
    exact ⟨.inl Nat.zero_lt_one, hroot⟩
  have hknown : (outcome.partition.registry.classes[1]?).isSome := by
    obtain ⟨entry, he, -⟩ := Registry.classOwner_eq_some_iff.1 htarget
    rw [he]
    rfl
  obtain ⟨report, hreport, -, hlisted⟩ :=
    unresolved_of_build delayed delayedClasses outcome hunowned hbuild 0 horder
  exact ⟨hunowned, outcome, hbuild, horder, hmisses, report, hreport,
    hlisted 0 (0, 1) hgroup (by simp [unknownIn, delayed, plan]) hmisses hknown⟩

/-- The report of the first module lists a reference to the tool as unresolved, and yet the second
module has claimed the tool. -/
theorem owned_of_unresolved_delayed :
    delayedClasses.Pristine ∧
      ∃ outcome, (delayed.build delayedClasses).result = .ok outcome ∧
        (∃ report ∈ outcome.reports, ⟨"a.Main", "b.Tool"⟩ ∈ report.unresolved) ∧
        ∃ c, outcome.partition.registry.findClass "b.Tool" = some c ∧
          outcome.partition.registry.classOwner c = some 1 := by
  refine ⟨Registry.pristine_populate _, ?_⟩
  have hrun : ∃ outcome, (delayed.build delayedClasses).result = .ok outcome ∧
      (∃ report ∈ outcome.reports, ⟨"a.Main", "b.Tool"⟩ ∈ report.unresolved) ∧
      outcome.partition.registry.findClass "b.Tool" = some 1 ∧
      outcome.partition.registry.classOwner 1 = some 1 := by
    decide +kernel
  obtain ⟨outcome, hbuild, hreport, hfind, howner⟩ := hrun
  exact ⟨outcome, hbuild, hreport, 1, hfind, howner⟩

end Builder

end ModuleGraph
