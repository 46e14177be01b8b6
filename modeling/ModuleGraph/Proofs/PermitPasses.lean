import ModuleGraph.Proofs.ModuleInfos

/-!
# What the permit passes add

Both passes over the edges add permits to modules that pass a test, and the test of a module comes
out the same before and after: a module without permits gets none in the second pass. So a pass adds
the requesters of a module or nothing (`ModuleInfos.permitAll_grants`), and both passes together
have a closed form (`ModuleInfos.fixPermits_permits`).
-/

namespace ModuleGraph

namespace ModuleInfos

variable {infos infos' infos'' : ModuleInfos} {test : ModuleInfo → Bool} {edges edges' : List Edge}
  {edge : Edge}

/-! ## The edges of a graph -/

/-- A module requires another one. -/
def Requires (infos : ModuleInfos) (name : String) (D : ModuleId) : Prop :=
  ∃ (X : ModuleId) (info : ModuleInfo), infos[X]? = some info ∧ info.name = name ∧
    ∃ dep ∈ info.requires, dep.module = D

/-- A module requires another one locally. -/
def RequiresLocally (infos : ModuleInfos) (name : String) (D : ModuleId) : Prop :=
  ∃ (X : ModuleId) (info : ModuleInfo), infos[X]? = some info ∧ info.name = name ∧
    ∃ dep ∈ info.requires, dep.module = D ∧ dep.modifiers.isLocal

theorem RequiresLocally.requires {name : String} {D : ModuleId}
    (h : infos.RequiresLocally name D) : infos.Requires name D := by
  obtain ⟨X, info, hX, hname, dep, hdep, hD, -⟩ := h
  exact ⟨X, info, hX, hname, dep, hdep, hD⟩

theorem mem_edges_iff : edge ∈ infos.edges ↔ ∃ (X : ModuleId) (info : ModuleInfo),
    infos[X]? = some info ∧ ∃ dep ∈ info.requires,
      edge = { target := dep.module, targetName := dep.moduleName, requester := info.name,
               isLocal := dep.modifiers.isLocal } := by
  simp only [edges, List.mem_flatMap, mem_treeMap_values, List.mem_map]
  constructor
  · rintro ⟨info, ⟨X, hX⟩, dep, hdep, rfl⟩
    exact ⟨X, info, hX, dep, hdep, rfl⟩
  · rintro ⟨X, info, hX, dep, hdep, rfl⟩
    exact ⟨info, ⟨X, hX⟩, dep, hdep, rfl⟩

theorem requires_iff {name : String} {D : ModuleId} :
    infos.Requires name D ↔ ∃ edge ∈ infos.edges, edge.target = D ∧ edge.requester = name := by
  constructor
  · rintro ⟨X, info, hX, rfl, dep, hdep, rfl⟩
    exact ⟨_, mem_edges_iff.2 ⟨X, info, hX, dep, hdep, rfl⟩, rfl, rfl⟩
  · rintro ⟨edge, hedge, rfl, rfl⟩
    obtain ⟨X, info, hX, dep, hdep, rfl⟩ := mem_edges_iff.1 hedge
    exact ⟨X, info, hX, rfl, dep, hdep, rfl⟩

theorem requiresLocally_iff {name : String} {D : ModuleId} :
    infos.RequiresLocally name D ↔
      ∃ edge ∈ infos.edges.filter (·.isLocal), edge.target = D ∧ edge.requester = name := by
  constructor
  · rintro ⟨X, info, hX, rfl, dep, hdep, rfl, hlocal⟩
    exact ⟨_, List.mem_filter.2 ⟨mem_edges_iff.2 ⟨X, info, hX, dep, hdep, rfl⟩, hlocal⟩, rfl, rfl⟩
  · rintro ⟨edge, hedge, rfl, rfl⟩
    obtain ⟨hedge, hlocal⟩ := List.mem_filter.1 hedge
    obtain ⟨X, info, hX, dep, hdep, rfl⟩ := mem_edges_iff.1 hedge
    exact ⟨X, info, hX, rfl, dep, hdep, rfl, hlocal⟩

theorem SameButPermits.symm (h : infos.SameButPermits infos') : infos'.SameButPermits infos :=
  fun X => (h X).symm

/-- Permits have no influence on names and requires lists. -/
theorem SameButPermits.exists_requirer (h : infos.SameButPermits infos') {X : ModuleId}
    {info : ModuleInfo} (hX : infos[X]? = some info) :
    ∃ info', infos'[X]? = some info' ∧ info'.name = info.name ∧ info'.requires = info.requires := by
  obtain ⟨info', hX', heq⟩ := h.exists_after hX
  exact ⟨info', hX', congrArg (·.name) heq, congrArg (·.requires) heq⟩

theorem Requires.of_sameButPermits {name : String} {D : ModuleId}
    (hsame : infos.SameButPermits infos') (h : infos.Requires name D) :
    infos'.Requires name D := by
  obtain ⟨X, info, hX, rfl, hdep⟩ := h
  obtain ⟨info', hX', hname, hrequires⟩ := hsame.exists_requirer hX
  exact ⟨X, info', hX', hname, hrequires ▸ hdep⟩

theorem RequiresLocally.of_sameButPermits {name : String} {D : ModuleId}
    (hsame : infos.SameButPermits infos') (h : infos.RequiresLocally name D) :
    infos'.RequiresLocally name D := by
  obtain ⟨X, info, hX, rfl, hdep⟩ := h
  obtain ⟨info', hX', hname, hrequires⟩ := hsame.exists_requirer hX
  exact ⟨X, info', hX', hname, hrequires ▸ hdep⟩

theorem SameButPermits.requires_iff (h : infos.SameButPermits infos') {name : String}
    {D : ModuleId} : infos'.Requires name D ↔ infos.Requires name D :=
  ⟨.of_sameButPermits h.symm, .of_sameButPermits h⟩

theorem SameButPermits.requiresLocally_iff (h : infos.SameButPermits infos') {name : String}
    {D : ModuleId} : infos'.RequiresLocally name D ↔ infos.RequiresLocally name D :=
  ⟨.of_sameButPermits h.symm, .of_sameButPermits h⟩

/-! ## One pass -/

/-- A test that one more permit never turns. -/
def Stable (test : ModuleInfo → Bool) : Prop :=
  ∀ info permit, test info = true →
    test { info with permits := info.permits.insert permit } = true

/-- Modules that pass the test have been granted their requesters among the edges, no module comes
out differently in the test, and only permits have changed. -/
structure Grants (test : ModuleInfo → Bool) (edges : List Edge) (infos infos' : ModuleInfos) :
    Prop where
  same : infos.SameButPermits infos'
  test_eq : ∀ {X : ModuleId} {info info'}, infos[X]? = some info → infos'[X]? = some info' →
    test info' = test info
  mem_permits : ∀ {X : ModuleId} {info info'}, infos[X]? = some info → infos'[X]? = some info' →
    ∀ name, name ∈ info'.permits ↔ name ∈ info.permits ∨
      (test info = true ∧ ∃ edge ∈ edges, edge.target = X ∧ edge.requester = name)

/-- Nothing is granted to modules that fail the test, or along no edge. -/
theorem grants_refl (h : ∀ edge ∈ edges, ∀ info, infos[edge.target]? = some info →
    test info = false) : Grants test edges infos infos where
  same := .refl infos
  test_eq hX hX' := by
    rw [hX] at hX'
    cases hX'
    rfl
  mem_permits {X info info'} hX hX' name := by
    rw [hX] at hX'
    cases hX'
    refine ⟨.inl, ?_⟩
    rintro (hname | ⟨htest, edge, hedge, rfl, -⟩)
    · exact hname
    · rw [h edge hedge info hX] at htest
      cases htest

theorem Grants.trans (h₁ : Grants test edges infos infos')
    (h₂ : Grants test edges' infos' infos'') :
    Grants test (edges ++ edges') infos infos'' where
  same := h₁.same.trans h₂.same
  test_eq hX hX'' := by
    obtain ⟨info', hX', -⟩ := h₁.same.exists_after hX
    exact (h₂.test_eq hX' hX'').trans (h₁.test_eq hX hX')
  mem_permits hX hX'' name := by
    obtain ⟨info', hX', -⟩ := h₁.same.exists_after hX
    rw [h₂.mem_permits hX' hX'', h₁.mem_permits hX hX', h₁.test_eq hX hX', or_assoc,
      ← and_or_left]
    simp only [List.mem_append, or_and_right, exists_or]

theorem addPermit_permits {info info' : ModuleInfo} {permit : String}
    {added : Bool} (h : info.addPermit permit = .ok (info', added)) :
    (info' = info ∨ info' = { info with permits := info.permits.insert permit }) ∧
      ∀ name, name ∈ info'.permits ↔ name ∈ info.permits ∨ name = permit := by
  unfold ModuleInfo.addPermit at h
  split_ifs at h with hold hfrozen
  · cases h
    refine ⟨.inl rfl, fun name => ⟨.inl, ?_⟩⟩
    rintro (hname | rfl)
    · exact hname
    · exact Std.TreeSet.contains_iff_mem.1 hold
  · cases h
    refine ⟨.inr rfl, fun name => ?_⟩
    rw [Std.TreeSet.mem_insert, Std.LawfulEqCmp.compare_eq_iff_eq, or_comm, eq_comm]

/-- One entry is replaced by itself with at most one more permit. -/
theorem grants_insert (hstable : Stable test) {target permitted : ModuleInfo}
    (htarget : infos[edge.target]? = some target) (htest : test target = true)
    (hor : permitted = target ∨
      permitted = { target with permits := target.permits.insert edge.requester })
    (hpermits : ∀ name, name ∈ permitted.permits ↔ name ∈ target.permits ∨ name = edge.requester) :
    Grants test [edge] infos (infos.insert edge.target permitted) := by
  have hget (X : ModuleId) : (Std.TreeMap.insert infos edge.target permitted)[X]? =
      if edge.target = X then some permitted else infos[X]? := treeMap_getElem?_insert _ _ _ _
  have hcases {X : ModuleId} {info info' : ModuleInfo} (hX : infos[X]? = some info)
      (hX' : (Std.TreeMap.insert infos edge.target permitted)[X]? = some info') :
      (edge.target = X ∧ info = target ∧ info' = permitted) ∨ (edge.target ≠ X ∧ info' = info) := by
    rw [hget] at hX'
    split_ifs at hX' with heq
    · subst heq
      rw [htarget] at hX
      exact .inl ⟨rfl, (Option.some.inj hX).symm, (Option.some.inj hX').symm⟩
    · rw [hX] at hX'
      exact .inr ⟨heq, (Option.some.inj hX').symm⟩
  constructor
  case same =>
    intro X
    show Option.map _ (Std.TreeMap.insert infos edge.target permitted)[X]? = _
    rw [hget]
    split_ifs with heq
    · rw [← heq, htarget]
      rcases hor with rfl | rfl <;> rfl
    · rfl
  case test_eq =>
    intro X info info' hX hX'
    rcases hcases hX hX' with ⟨-, rfl, rfl⟩ | ⟨-, rfl⟩
    · rcases hor with rfl | rfl
      · rfl
      · rw [htest, hstable info edge.requester htest]
    · rfl
  case mem_permits =>
    intro X info info' hX hX' name
    rcases hcases hX hX' with ⟨rfl, rfl, rfl⟩ | ⟨hne, rfl⟩
    · rw [hpermits]
      simp [htest, eq_comm]
    · simp [hne]

theorem permitIf_grants (hstable : Stable test) {added : Nat}
    (h : permitIf test infos edge = .ok (infos', added)) : Grants test [edge] infos infos' := by
  unfold permitIf at h
  cases htarget : infos[edge.target]? with
  | none =>
    rw [htarget] at h
    cases h
  | some target =>
    rw [htarget] at h
    dsimp only at h
    split_ifs at h with htest
    · obtain ⟨⟨permitted, new⟩, hadd, h⟩ := exists_of_bind_ok h
      cases h
      obtain ⟨hor, hpermits⟩ := addPermit_permits hadd
      exact grants_insert hstable htarget htest hor hpermits
    · cases h
      refine grants_refl fun e he info hinfo => ?_
      -- the one edge leads to a module that does not pass
      rw [List.mem_singleton.1 he, htarget] at hinfo
      cases hinfo
      simpa using htest

/-- A pass grants the requesters of each module that passes its test. -/
theorem permitAll_grants (hstable : Stable test) :
    ∀ (edges : List Edge) {infos infos' : ModuleInfos} (added : Nat) {total : Nat},
      permitAll test infos added edges = (infos', .ok total) → Grants test edges infos infos'
  | [], infos, _, _, _, h => by
    cases h
    exact grants_refl (by simp)
  | edge :: edges, infos, infos', added, total, h => by
    rw [permitAll] at h
    cases hres : permitIf test infos edge with
    | error e =>
      rw [hres] at h
      cases h
    | ok r =>
      obtain ⟨next, more⟩ := r
      rw [hres] at h
      exact (permitIf_grants hstable hres).trans (permitAll_grants hstable edges (added + more) h)

/-! ## Both passes -/

theorem stable_true : Stable fun _ => true := fun _ _ _ => rfl

theorem stable_permits : Stable fun info => !info.permits.isEmpty := by
  intro info permit _
  simp

/-- Some permit is there. -/
theorem exists_permit_iff {info : ModuleInfo} :
    (!info.permits.isEmpty) = true ↔ ∃ name, name ∈ info.permits := by
  rw [Bool.not_eq_true', Std.TreeSet.isEmpty_eq_false_iff_exists_mem]

/-- Some permit is there or comes along a local edge. -/
def Admits (infos : ModuleInfos) (X : ModuleId) (info : ModuleInfo) : Prop :=
  (∃ permit, permit ∈ info.permits) ∨ ∃ requester, infos.RequiresLocally requester X

/-- Both passes change permits only. In the end a module permits what it permitted before and all
its requesters, if it permitted anyone before or has a local requester; otherwise it permits nobody.
-/
theorem fixPermits_permits {added : Nat} (h : infos.fixPermits = (infos', .ok added)) :
    infos.SameButPermits infos' ∧
      ∀ (X : ModuleId) info info', infos[X]? = some info → infos'[X]? = some info' →
        ∀ name, name ∈ info'.permits ↔
          (name ∈ info.permits ∨ infos.Requires name X) ∧ infos.Admits X info := by
  unfold fixPermits at h
  dsimp only at h
  cases hfirst : permitAll (fun _ => true) infos 0 (infos.edges.filter (·.isLocal)) with
  | mk middle result =>
    rw [hfirst] at h
    cases result with
    | error e => cases h
    | ok first =>
      dsimp only at h
      have hpass₁ := permitAll_grants stable_true _ _ hfirst
      have hpass₂ := permitAll_grants stable_permits _ _ h
      refine ⟨hpass₁.same.trans hpass₂.same, fun X info info₂ hX hX₂ name => ?_⟩
      obtain ⟨info₁, hX₁, -⟩ := hpass₁.same.exists_after hX
      have hpermits₁ (name : String) :
          name ∈ info₁.permits ↔ name ∈ info.permits ∨ infos.RequiresLocally name X := by
        rw [hpass₁.mem_permits hX hX₁, requiresLocally_iff]
        simp
      have hsome : (∃ permit, permit ∈ info₁.permits) ↔ infos.Admits X info := by
        unfold Admits
        rw [← exists_or]
        exact exists_congr hpermits₁
      rw [hpass₂.mem_permits hX₁ hX₂, exists_permit_iff, hsome, ← requires_iff, hpermits₁]
      constructor
      · rintro ((hname | hlocal) | ⟨hadmits, hrequires⟩)
        · exact ⟨.inl hname, .inl ⟨name, hname⟩⟩
        · exact ⟨.inr hlocal.requires, .inr ⟨name, hlocal⟩⟩
        · exact ⟨.inr hrequires, hadmits⟩
      · rintro ⟨hname | hrequires, hadmits⟩
        · exact .inl (.inl hname)
        · exact .inr ⟨hadmits, hrequires⟩

end ModuleInfos

end ModuleGraph
