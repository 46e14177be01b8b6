import ModuleGraph.Proofs.PermitPasses
import ModuleGraph.Proofs.Stages

/-!
# Permits in closed form

A finished module starts with the permits that the modules of its group declare, as names of groups
(`EvidenceBase.Declares`). The permit passes run over the edges as they are in the end, so the final
permits are the declared ones together with all requesters, unless there is neither a declared one
nor a local requester. Then there is none at all, which admits everyone.

* `Outcome.Permits`: the closed form, and who is admitted by it.
* `Builder.permits_of_build`: either variant of a build gives every top-level module such permits,
  whatever owners the registry has at the start.
-/

namespace ModuleGraph

namespace EvidenceBase

variable {base : EvidenceBase} {policy : ExporterPolicy} {top : ModuleId} {deps : Dependences}
  {info : ModuleInfo} {m : Module} {name : String}

/-- The name is that of the group of a module that the given one permits. -/
def Admits (base : EvidenceBase) (m : Module) (name : String) : Prop :=
  ∃ permit ∈ m.permits, ∃ id, base.table.find permit = some id ∧
    base.table.name (base.table.group id) = name

/-- The name is declared among the permits of a group. -/
def Declares (base : EvidenceBase) (top : ModuleId) (name : String) : Prop :=
  ∃ m ∈ base.table.groupModules top, base.Admits m name

theorem ends_addPermits_permits (base : EvidenceBase) (info : ModuleInfo) (m : Module) :
    Ends (base.addPermits info m)
      (fun info' => ∀ name, name ∈ info'.permits ↔ name ∈ info.permits ∨ base.Admits m name)
      fun _ => True := by
  unfold addPermits Admits
  refine (Ends.foldlM_prefix
    (fun (done : List String) (info' : ModuleInfo) => ∀ name, name ∈ info'.permits ↔
      name ∈ info.permits ∨ ∃ permit ∈ done, ∃ id, base.table.find permit = some id ∧
        base.table.name (base.table.group id) = name)
    [] m.permits info (by simp) ?_)
  intro done permit after _ info' hinfo
  have hgroup (context : String) : Ends (base.table.requireGroup permit context)
      (fun group => ∃ id, base.table.find permit = some id ∧
        base.table.name (base.table.group id) = group) fun _ => True := by
    unfold ModuleTable.requireGroup
    exact ((base.table.ends_require _ _).mono (fun _ h => h) fun _ _ => trivial).bind
      fun id hid => ⟨id, hid, rfl⟩
  refine (hgroup _).bind fun group ⟨id, hid, hname⟩ => ?_
  refine (Ends.self _).bind fun r hadd => ?_
  obtain ⟨-, hpermits⟩ := ModuleInfos.addPermit_permits hadd
  intro name
  have hpermit : name = group ↔ ∃ id, base.table.find permit = some id ∧
      base.table.name (base.table.group id) = name := by
    simp [hid, hname, eq_comm]
  rw [hpermits, hinfo, or_assoc, hpermit]
  simp only [List.mem_append, List.mem_singleton, or_and_right, exists_or, exists_eq_left]

/-- A module is finished with the permits declared for its group. -/
theorem ends_finish_permits (base : EvidenceBase) (policy : ExporterPolicy) (top : ModuleId)
    (deps : Dependences) :
    Ends (base.finish policy top deps).result
      (fun info => ∀ name, name ∈ info.permits ↔ base.Declares top name) fun _ => True := by
  simp only [finish, Logged.result_bind, Logged.result_foldlM, Logged.result_ofExcept]
  refine (Ends.self _).bind fun kept _ => ?_
  refine (Ends.self _).bind fun bound _ => ?_
  generalize hinfo : ({ ModuleInfo.new top _ _ bound with
    views := _, mainClass := _ } : ModuleInfo) = info
  have hnone : info.permits = {} := by
    subst hinfo
    rfl
  refine Ends.foldlM_prefix
    (fun (done : List Module) (info' : ModuleInfo) => ∀ name, name ∈ info'.permits ↔
      ∃ m ∈ done, base.Admits m name)
    [] (base.table.groupModules top) info (by simp [hnone]) ?_
  intro done m after _ info' hinfo
  refine (ends_addPermits_permits base info' m).weaken fun info'' hinfo' name => ?_
  rw [hinfo', hinfo]
  simp only [List.mem_append, List.mem_singleton, or_and_right, exists_or, exists_eq_left]

end EvidenceBase

/-! ## All modules -/

namespace ModuleInfos

variable {infos infos' : ModuleInfos}

theorem permits_freeze {X : ModuleId} {info : ModuleInfo} (h : infos.freeze[X]? = some info) :
    ∃ before, infos[X]? = some before ∧ info.permits = before.permits := by
  unfold freeze at h
  rw [Std.TreeMap.getElem?_map, Option.map_eq_some_iff] at h
  obtain ⟨before, hbefore, rfl⟩ := h
  exact ⟨before, hbefore, rfl⟩

end ModuleInfos

namespace BuildPlan

/-- The permits of all finished modules. -/
def Permitted (base : EvidenceBase) (infos : ModuleInfos) : Prop :=
  ∀ (X : ModuleId) info, infos[X]? = some info → ∀ name, name ∈ info.permits ↔
    (base.Declares X name ∨ infos.Requires name X) ∧
      ((∃ permit, base.Declares X permit) ∨ ∃ requester, infos.RequiresLocally requester X)

theorem ends_finishAll_permits (policy : ExporterPolicy) (collected : Collected) :
    Ends (finishAll policy collected).result (Permitted collected.base) fun _ => True := by
  simp only [finishAll, Logged.result_bind, Logged.result_foldlM]
  have hfold : Ends (collected.edges.toList.foldlM
      (fun infos entry => (collected.base.finishInto policy infos entry).result) {})
      (fun infos : ModuleInfos => ∀ (X : ModuleId) info, infos[X]? = some info →
        ∀ name, name ∈ info.permits ↔ collected.base.Declares X name) fun _ => True := by
    refine Ends.foldlM (fun infos : ModuleInfos => ∀ (X : ModuleId) info, infos[X]? = some info →
      ∀ name, name ∈ info.permits ↔ collected.base.Declares X name) (by simp)
      fun infos hinfos entry _ => ?_
    simp only [EvidenceBase.finishInto, Logged.result_bind]
    refine (collected.base.ends_finish_permits policy entry.1 entry.2).bind fun info hinfo => ?_
    split_ifs
    · trivial
    · intro X info' hX
      replace hX : (Std.TreeMap.insert infos entry.1 info)[X]? = some info' := hX
      rw [treeMap_getElem?_insert] at hX
      split_ifs at hX with heq
      · cases hX
        exact heq ▸ hinfo
      · exact hinfos X info' hX
  refine hfold.bind fun infos hinfos => ?_
  cases hfix : infos.fixPermits with
  | mk fixed result =>
    cases result with
    | error e => trivial
    | ok added =>
      obtain ⟨hsame, hpermits⟩ := ModuleInfos.fixPermits_permits hfix
      have hfrozen := hsame.trans fixed.sameButPermits_freeze
      intro X final hX name
      obtain ⟨info', hX', hfinal⟩ := ModuleInfos.permits_freeze hX
      obtain ⟨info, hinfo, -⟩ := hsame.exists_before hX'
      simp only [hfrozen.requires_iff, hfrozen.requiresLocally_iff]
      rw [hfinal, hpermits X info info' hinfo hX', ModuleInfos.Admits, hinfos X info hinfo]
      simp only [hinfos X info hinfo]

end BuildPlan

/-! ## The closed form -/

/-- The final permits of a module are those declared for its group and all its requesters, if one is
declared or a requester is local; otherwise there is none. So every requester is admitted, and a
local one by name. -/
structure Outcome.Permits (outcome : Outcome) (D : ModuleId) (info : ModuleInfo) : Prop where
  settled : (∃ permit, outcome.base.Declares D permit) ∨
      (∃ requester, outcome.infos.RequiresLocally requester D) →
    ∀ name, name ∈ info.permits ↔
      outcome.base.Declares D name ∨ outcome.infos.Requires name D
  unsettled : (∀ permit, ¬outcome.base.Declares D permit) →
    (∀ requester, ¬outcome.infos.RequiresLocally requester D) → info.permits.isEmpty
  admits : ∀ requester, outcome.infos.Requires requester D →
    info.permits.isEmpty ∨ requester ∈ info.permits
  admits_local : ∀ requester, outcome.infos.RequiresLocally requester D →
    requester ∈ info.permits

theorem BuildPlan.Permitted.permits {outcome : Outcome}
    (h : BuildPlan.Permitted outcome.base outcome.infos) {D : ModuleId} {info : ModuleInfo}
    (hD : outcome.infos[D]? = some info) : outcome.Permits D info where
  settled hany name := by
    rw [h D info hD]
    exact and_iff_left hany
  unsettled hnone hlocal := by
    rw [Std.TreeSet.isEmpty_iff_forall_not_mem]
    intro name hname
    rcases ((h D info hD name).1 hname).2 with ⟨permit, hpermit⟩ | ⟨requester, hrequester⟩
    · exact hnone permit hpermit
    · exact hlocal requester hrequester
  admits requester hrequires := by
    by_cases hempty : info.permits.isEmpty
    · exact .inl hempty
    · rw [Bool.not_eq_true, Std.TreeSet.isEmpty_eq_false_iff_exists_mem] at hempty
      obtain ⟨name, hname⟩ := hempty
      exact .inr ((h D info hD requester).2 ⟨.inr hrequires, ((h D info hD name).1 hname).2⟩)
  admits_local requester hlocal :=
    (h D info hD requester).2 ⟨.inr hlocal.requires, .inr ⟨requester, hlocal⟩⟩

/-- The resolution of a module graph gives its modules their permits. -/
theorem BuildPlan.ends_resolve_permits (plan : BuildPlan) {p : Partition} (hi : p.table.Indexed)
    (policy : ExporterPolicy) (seeds : List ModuleId) :
    Ends (plan.resolve p policy seeds).result
      (fun outcome => BuildPlan.Permitted outcome.base outcome.infos ∧
        ∀ D ∈ outcome.table.topLevel, ∃ info, outcome.infos[D]? = some info)
      fun _ => True := by
  simp only [resolve, Logged.result_bind, Logged.result_liftM, Logged.result_emit,
    Logged.result_pure]
  refine ((ends_collect plan p).mono (fun _ h => h) fun _ _ => trivial).bind
    fun collected hcollected => ?_
  have hbase : collected.base = ⟨p.table, p.registry, collected.base.surfaces⟩ := by
    rw [← hcollected.table_eq, ← hcollected.registry_eq]
  refine (Ends.self _).bind fun infos hinfos => ?_
  have hpermitted := (ends_finishAll_permits policy collected).of_ok hinfos
  have hfinishes := (Collects.ends_finish hi policy hcollected).of_ok hinfos
  rw [hbase] at hpermitted hfinishes
  refine (Ends.self _).bind fun order _ => ?_
  exact .ok_bind ⟨hpermitted, fun D hD => (hfinishes.exists_info_iff D).2 hD⟩

/-- Whatever the configuration and the registry, a successful build of either variant gives each
top-level module its permits in closed form. -/
theorem Builder.permits_of_build (builder : Builder) (registry : Registry) (outcome : Outcome)
    (hbuild : (builder.build registry).result = .ok outcome) (D : ModuleId)
    (hD : D ∈ outcome.table.topLevel) :
    ∃ info, outcome.infos[D]? = some info ∧ outcome.Permits D info := by
  obtain ⟨p, policy, seeds, hi, hresolve⟩ := (builder.ends_stages registry).of_ok hbuild
  obtain ⟨hpermitted, hinfos⟩ :=
    (BuildPlan.ends_resolve_permits builder.plan hi policy seeds).of_ok hresolve
  obtain ⟨info, hinfo⟩ := hinfos D hD
  exact ⟨info, hinfo, hpermitted.permits hinfo⟩

/-- A program that uses a library, and a friend that the library permits. -/
def BuildPlan.friends : BuildPlan where
  specs := [
    { name := "app", version := "1.0", roots := ⟨[.subtree "app"]⟩ },
    { name := "lib", version := "1.0", roots := ⟨[.package "lib"]⟩, permits := ["pal"] },
    { name := "pal", version := "1.0", roots := ⟨[.package "other"]⟩ }]

/-- The library ends up with its friend and its user. -/
theorem Builder.permits_friends :
    ∃ outcome, ((Builder.plain .friends).build .sample).result = .ok outcome ∧
      1 ∈ outcome.table.topLevel ∧
      ∃ info, outcome.infos[1]? = some info ∧ info.permits.toList = ["app", "pal"] ∧
        outcome.Permits 1 info := by
  have hrun : ∃ outcome, ((Builder.plain .friends).build .sample).result = .ok outcome ∧
      1 ∈ outcome.table.topLevel ∧
      (outcome.infos[1]?).map (·.permits.toList) = some ["app", "pal"] := by
    decide +kernel
  obtain ⟨outcome, hbuild, htop, hpermits⟩ := hrun
  obtain ⟨info, hinfo, hclosed⟩ := permits_of_build _ _ outcome hbuild 1 htop
  rw [hinfo] at hpermits
  exact ⟨outcome, hbuild, htop, info, hinfo, Option.some.inj hpermits, hclosed⟩

end ModuleGraph
