import ModuleGraph.Proofs.Ownership.InOrder

/-!
# Where chains of references lead

A chain of references that begins at a root of a module (`Registry.Chain`) may leave the module:
classes on it can belong to others by their own roots, references and include patterns. Who owns a
class decides whether the chain is followed beyond it. An owner stops the chain (`Partition.Stops`)
if it excludes the next class or has the class by its include patterns alone.

* `BuildPlan.ends_closeAll_settled`: when all modules are complete, all of them are settled.
* `BuildPlan.owned_of_chain`: a chain leads to an owned class unless an owner on the way stops it.
-/

namespace ModuleGraph

namespace Registry

/-- References lead from a root of a module to other classes. All of them exist, and the module
excludes none of the others. -/
structure Chain (registry : Registry) (spec : ModuleSpec) (u : Nat → ClassId) (n : Nat) : Prop where
  defines : ∀ i ≤ n, registry.Defines (u i)
  refers : ∀ i < n, u (i + 1) ∈ registry.referencesOf (u i)
  hasRoot : spec.hasRoot (registry.className (u 0)) = true
  admits : ∀ i < n, spec.excludesClass (registry.className (u (i + 1))) = false

instance decidableChain (registry : Registry) (spec : ModuleSpec) (u : Nat → ClassId) (n : Nat) :
    Decidable (registry.Chain spec u n) :=
  decidable_of_iff ((∀ i ≤ n, registry.Defines (u i)) ∧
      (∀ i < n, u (i + 1) ∈ registry.referencesOf (u i)) ∧
      spec.hasRoot (registry.className (u 0)) = true ∧
      ∀ i < n, spec.excludesClass (registry.className (u (i + 1))) = false)
    ⟨fun ⟨hdefines, hrefers, hroot, hadmits⟩ => ⟨hdefines, hrefers, hroot, hadmits⟩,
      fun h => ⟨h.defines, h.refers, h.hasRoot, h.admits⟩⟩

end Registry

namespace Partition

variable {p q : Partition} {id : ModuleId} {c : ClassId}

/-! ## Chains -/

/-- A chain is one in every partition that grows out of it. -/
theorem Grows.chain (h : p.Grows q) {spec : ModuleSpec} {u : Nat → ClassId} {n : Nat}
    (hchain : p.registry.Chain spec u n) : q.registry.Chain spec u n where
  defines i hi := h.defines_iff.2 (hchain.defines i hi)
  refers i hi := by
    rw [h.referencesOf_eq]
    exact hchain.refers i hi
  hasRoot := by
    rw [h.className_eq]
    exact hchain.hasRoot
  admits i hi := by
    rw [h.className_eq]
    exact hchain.admits i hi

/-- The module owns the class by its include patterns alone, so it does not follow its
references. -/
structure OnlyIncluded (p : Partition) (id : ModuleId) (c : ClassId) : Prop where
  owner : p.registry.classOwner c = some id
  includes : (p.spec id).includesClass (p.registry.className c) = true
  not_followed : ¬p.Followed id c

/-- The owner of the first class does not follow its reference to the second one. -/
def Stops (p : Partition) (c next : ClassId) : Prop :=
  ∃ owner, p.registry.classOwner c = some owner ∧
    ((p.spec owner).excludesClass (p.registry.className next) = true ∨ p.OnlyIncluded owner c)

/-- Along a chain that no owner stops, every class has an owner. -/
theorem exists_owner_of_chain {ids : List ModuleId} (hrooted : p.Rooted ids)
    (hsettled : ∀ id, p.Settled id) (hid : id ∈ ids) {u : Nat → ClassId} {n : Nat}
    (hchain : p.registry.Chain (p.spec id) u n) (hstops : ∀ i < n, ¬p.Stops (u i) (u (i + 1))) :
    ∀ i ≤ n, ∃ owner, p.registry.classOwner (u i) = some owner := by
  intro i
  induction i with
  | zero => exact fun hi => hrooted id hid _ (hchain.defines 0 hi) hchain.hasRoot
  | succ i ih =>
    intro hi
    obtain ⟨owner, howner⟩ := ih (Nat.le_of_succ_le hi)
    -- the owner does not stop the chain, so it follows the class
    have hfollowed : p.Followed owner (u i) := by
      by_contra hnot
      have hincludes := ((hsettled owner).followed howner).resolve_left hnot
      exact hstops i hi ⟨owner, howner, .inr ⟨howner, hincludes, hnot⟩⟩
    have hadmits : (p.spec owner).excludesClass (p.registry.className (u (i + 1))) = false := by
      rw [← Bool.not_eq_true]
      exact fun hexcludes => hstops i hi ⟨owner, howner, .inl hexcludes⟩
    exact (hsettled owner).exists_owner hfollowed (hchain.refers i hi)
      (hchain.defines (i + 1) hi) hadmits

/-! ## All modules -/

/-- A completion settles its module, and what it takes unsettles none. -/
theorem Completing.settled {n : ModuleId} (h : Completing n p q)
    (hsettled : ∀ id < n, p.Settled id) : ∀ id < n + 1, q.Settled id := by
  intro id hid
  rcases Nat.lt_succ_iff_lt_or_eq.1 hid with hlt | rfl
  · exact h.takes.keeps_settled h.grows (fun _ hc => Gathers.free hc) (Nat.ne_of_lt hlt)
      (hsettled id hlt)
  · exact h.takes.settled h.grows h.rooted (ModuleTable.mem_ids.2 h.lt_size) (fun _ => Iff.rfl)
      (h.hasRoot id (Nat.le_refl id))

end Partition

namespace BuildPlan

open ModuleGraph.Partition

variable {p : Partition}

/-- The completions that follow the claims of roots settle every module. -/
theorem ends_closeAll_settled {seeds : List (ModuleId × List ClassId)} (hp : p.Consistent)
    (hseeded : p.Seeded p.table.ids seeds) :
    Ends (seeds.foldlM (fun p s => (closeOne p s).result) p)
      (fun q => p.Grows q ∧ q.Consistent ∧ ∀ id, q.Settled id) (fun _ => False) := by
  refine (ends_closeAll hp hseeded (fun n q => ∀ id < n, q.Settled id) (by simp)
    fun _ hstep => hstep.settled).weaken fun q ⟨hpq, hq, hsettled⟩ => ⟨hpq, hq, fun id => ?_⟩
  by_cases hid : id < p.table.size
  · exact hsettled id hid
  · -- what is no module owns nothing
    exact settled_of_none fun c hc => hid (hpq.size_table ▸ hq.classes.owner_lt hc)

/-- Everything that exists has an owner, or every class on a chain that no owner stops. -/
structure Leads (plan : BuildPlan) (p : Partition) : Prop where
  total : plan.options.unknownModule.isSome → p.Total
  settled : plan.options.unknownModule = none → ∀ id, p.Settled id
  rooted : p.Rooted p.table.ids

/-- The rest is left as it is, or there is a module for it. -/
theorem ends_assignRest_leads (plan : BuildPlan) (hp : p.Consistent)
    (hfound : ∀ unknown, plan.options.unknownModule = some unknown → (p.table.find unknown).isSome)
    (hi : p.table.Indexed) (hrooted : p.Rooted p.table.ids) (hsettled : ∀ id, p.Settled id) :
    Ends (plan.assignRest p).result (fun q => p.Grows q ∧ plan.Leads q) (fun _ => False) := by
  unfold assignRest
  cases hunknown : plan.options.unknownModule with
  | none =>
    simp only [Logged.result_bind, Logged.result_emitIf, Logged.result_pure]
    exact ⟨.refl p, by simp [hunknown], fun _ => hsettled, hrooted⟩
  | some unknown =>
    obtain ⟨id, hid⟩ := Option.isSome_iff_exists.1 (hfound unknown hunknown)
    obtain ⟨m, hm, -⟩ := hi.get?_of_find hid
    have hrequire : p.table.require unknown "settings.unknown-module" = .ok id := by
      simp [ModuleTable.require, hid]
    simp only [Logged.result_bind, Logged.result_emitIf, Logged.result_pure, Logged.result_liftM,
      hrequire]
    refine Ends.ok_bind ((ends_assignUnclaimed hp (ModuleTable.lt_size_of_get? hm)).bind ?_)
    rintro r ⟨hpr, -, htotal⟩
    have hids : r.1.table.ids = p.table.ids := congrArg List.range hpr.size_table
    exact ⟨hpr, fun _ => htotal, by simp [hunknown], hids ▸ hrooted.of_grows hpr⟩

theorem ends_assignUnits_leads (plan : BuildPlan) (hp : p.Consistent) (hr : p.registry.Unowned)
    (hfound : ∀ unknown, plan.options.unknownModule = some unknown → (p.table.find unknown).isSome)
    (hi : p.table.Indexed) :
    Ends (plan.assignUnits p).result (fun q => p.Grows q ∧ plan.Leads q) (fun _ => False) := by
  simp only [assignUnits, Logged.result_bind, Logged.result_liftM, Logged.result_foldlM]
  refine (ends_seedAll_seeded hp hr).bind ?_
  rintro r ⟨hpr, hr, hseeded⟩
  have hids : r.1.table.ids = p.table.ids := congrArg List.range hpr.size_table
  rw [← hids] at hseeded
  refine (ends_closeAll_settled hr hseeded).bind ?_
  rintro q ⟨hrq, hq, hsettled⟩
  have hpq := hpr.trans hrq
  have hids : q.table.ids = r.1.table.ids := congrArg List.range hrq.size_table
  refine (ends_assignRest_leads plan hq (fun unknown hunknown => ?_) (hpq.indexed hi)
    (hids ▸ hseeded.rooted.of_grows hrq) hsettled).weaken fun s hs => ⟨hpq.trans hs.1, hs.2⟩
  rw [hpq.table.find]
  exact hfound unknown hunknown

/-- A chain from a root of a module leads to an owned class, unless the owner of a class on it stops
it; and no chain is stopped where a module is given what is left over. -/
theorem owned_of_chain (plan : BuildPlan) {registry : Registry} {table : ModuleTable}
    (hregistry : registry.Unowned) (htable : plan.createModules = .ok table) :
    ∃ p, (plan.assignUnits ⟨registry, table⟩).result = .ok p ∧
      ∀ id m, table.get? id = some m → ∀ u n, registry.Chain m.spec u n →
        (∃ owner, p.registry.classOwner (u n) = some owner) ∨
          plan.options.unknownModule = none ∧ ∃ i < n, p.Stops (u i) (u (i + 1)) := by
  obtain ⟨hi, hfresh, hfound⟩ := plan.ends_createModules.of_ok htable
  have hends := ends_assignUnits_leads plan (p := ⟨registry, table⟩)
    (consistent_of_fresh hregistry hfresh) hregistry hfound hi
  cases hresult : (plan.assignUnits ⟨registry, table⟩).result with
  | error e => exact (hends.of_error hresult).elim
  | ok p =>
    obtain ⟨hgrows, hleads⟩ := hends.of_ok hresult
    refine ⟨p, rfl, fun id m hm u n hchain => ?_⟩
    have hchain' := hgrows.chain hchain
    cases hunknown : plan.options.unknownModule with
    | some unknown =>
      obtain ⟨entry, he, hdefined⟩ := hchain'.defines n (Nat.le_refl n)
      have hsome := (hleads.total (by simp [hunknown])).1 (u n) entry he hdefined
      rw [← Registry.classOwner_of_getElem? he] at hsome
      exact .inl (Option.isSome_iff_exists.1 hsome)
    | none =>
      by_cases hstops : ∃ i < n, p.Stops (u i) (u (i + 1))
      · exact .inr ⟨rfl, hstops⟩
      · have hid : id ∈ p.table.ids := ModuleTable.mem_ids.2
          (hgrows.size_table ▸ ModuleTable.lt_size_of_get? hm)
        have hspec : p.spec id = m.spec := by
          rw [hgrows.spec_eq]
          exact spec_of_get? hm
        refine .inl (exists_owner_of_chain hleads.rooted (hleads.settled hunknown) hid
          (hspec ▸ hchain') (fun i hi hstop => hstops ⟨i, hi, hstop⟩) n (Nat.le_refl n))

/-- A program refers to a library, which needs a third class. -/
def layers : Registry := .populate [
  .register { name := "app.Main", references := ["lib.Core"] },
  .register { name := "lib.Core", references := ["util.Text"] },
  .register { name := "util.Text" }]

/-- One module for the program and one for the library. -/
def layered : BuildPlan where
  specs := [{ name := "app", version := "1.0", roots := ⟨[.package "app"]⟩ },
    { name := "lib", version := "1.0", roots := ⟨[.package "lib"]⟩ }]

/-- The chain from the program through the library leads to an owned class. -/
theorem owned_of_chain_layered :
    ∃ table, layered.createModules = .ok table ∧
      ∃ p, (layered.assignUnits ⟨layers, table⟩).result = .ok p ∧
        ∃ m, table.get? 0 = some m ∧ layers.Chain m.spec id 2 ∧
          ((∃ owner, p.registry.classOwner 2 = some owner) ∨
            layered.options.unknownModule = none ∧ ∃ i < 2, p.Stops i (i + 1)) := by
  have hrun : ∃ table, layered.createModules = .ok table ∧
      (table.get? 0).any fun m => decide (layers.Chain m.spec id 2) := by
    decide +kernel
  obtain ⟨table, htable, hany⟩ := hrun
  obtain ⟨m, hm, hchain⟩ := (Option.any_eq_true _ _).1 hany
  have hchain := of_decide_eq_true hchain
  obtain ⟨p, hresult, hleads⟩ :=
    owned_of_chain layered (Registry.pristine_populate _).unowned htable
  exact ⟨table, htable, p, hresult, m, hm, hchain, hleads 0 m hm id 2 hchain⟩

/-- A class refers to another one. -/
def contestedClasses : Registry := .populate [
  .register { name := "a.Main", references := ["b.Tool"] },
  .register { name := "b.Tool" }]

/-- The first class is a root of two modules. The one that claims it excludes the other class. -/
def contested : BuildPlan where
  specs := [
    { name := "first", version := "1.0", roots := ⟨[.package "a"]⟩, excludes := ⟨[.package "b"]⟩ },
    { name := "second", version := "1.0", roots := ⟨[.package "a"]⟩ }]

/-- The reference leads from a root of the second module to a class that this module does not
exclude, and yet no module owns that class. -/
theorem not_owned_of_chain_contested :
    contestedClasses.Unowned ∧ ∃ table, contested.createModules = .ok table ∧
      ∃ p, (contested.assignUnits ⟨contestedClasses, table⟩).result = .ok p ∧
        ∃ m, table.get? 1 = some m ∧ contestedClasses.Chain m.spec id 1 ∧
          p.registry.classOwner 1 = none := by
  have hrun : ∃ table, contested.createModules = .ok table ∧
      ∃ p, (contested.assignUnits ⟨contestedClasses, table⟩).result = .ok p ∧
        ((table.get? 1).any fun m => decide (contestedClasses.Chain m.spec id 1)) ∧
          p.registry.classOwner 1 = none := by
    decide +kernel
  obtain ⟨table, htable, p, hresult, hany, hnone⟩ := hrun
  obtain ⟨m, hm, hchain⟩ := (Option.any_eq_true _ _).1 hany
  exact ⟨(Registry.pristine_populate _).unowned, table, htable, p, hresult, m, hm,
    of_decide_eq_true hchain, hnone⟩

end BuildPlan

end ModuleGraph
