import ModuleGraph.Proofs.Privileges

/-!
# The aggregates of a platform

The preparation notes at the aggregates, one module of the platform after the other, that they hand
on the module or its exporter. A note names its target, and is followed only later: by then the
target still bears the name, it takes part in the module graph, and the note is evidence for a
public dependence that nothing makes optional. The policy may send that dependence on, from an
exporter to an exporter of its own, and no further.

* `PlatformPlan.noted_foldl_aggregate`: the notes that a pass over some modules leaves.
* `BuildPlan.Resolution.offers`: what becomes of a note.
* `PlatformPlan.offers_of_build`: in a platform build, the first aggregate hands on every module of
  the platform, and the second one those that are privileged or hold the tools of the runtime.
-/

namespace ModuleGraph

/-! ## The notes of the preparation -/

namespace ModuleTable

variable {t : ModuleTable} {X E : ModuleId}

/-- A note at one module of its own group does not bring another one into the module graph. -/
theorem isTopLevel_of_addRequirement {requirement : Requirement} (hgroup : t.group E = E)
    (hne : X ≠ E) (h : (t.addRequirement E requirement).isTopLevel X) : t.isTopLevel X := by
  have hget (x : ModuleId) (hx : x ≠ E) : (t.addRequirement E requirement).get? x = t.get? x :=
    get?_modify_of_ne _ hx.symm
  have hrequires : ((t.addRequirement E requirement).groupModules X).any (·.hasRequires) →
      (t.groupModules X).any (·.hasRequires) := by
    intro hany
    obtain ⟨m, hm, hrequires⟩ := List.any_eq_true.1 hany
    obtain ⟨x, hx, hmember⟩ := mem_groupModules.1 hm
    rw [(t.extends_addRequirement E requirement).group_eq] at hmember
    have hother : x ≠ E := by
      rintro rfl
      exact hne (hmember.elim Eq.symm fun heq => heq.symm.trans hgroup)
    exact List.any_eq_true.2 ⟨m, mem_groupModules.2 ⟨x, hget x hother ▸ hx, hmember⟩, hrequires⟩
  unfold isTopLevel at h ⊢
  rw [hget X hne] at h
  cases hm : t.get? X with
  | none =>
    rw [hm] at h
    exact h
  | some m =>
    rw [hm] at h
    simp only [Bool.and_eq_true, Bool.or_eq_true] at h ⊢
    exact ⟨h.1, h.2.imp_right hrequires⟩

end ModuleTable

namespace PlatformPlan

/-- The group of the first aggregate, which hands on the public modules. -/
def IsJdk (platform : PlatformPlan) (table : ModuleTable) (X : ModuleId) : Prop :=
  table.IsGroupOf X platform.settings.jdkModule

/-- The group of the second aggregate, which hands on what the runtime needs. -/
def IsJre (platform : PlatformPlan) (table : ModuleTable) (X : ModuleId) : Prop :=
  table.IsGroupOf X platform.settings.jreModule

/-- The name is that of a public or an internal module of the platform. -/
def Covers (platform : PlatformPlan) (name : String) : Prop :=
  hasStart name platform.settings.publicStart ∨ hasStart name platform.settings.internalStart

variable {platform : PlatformPlan} {exporters : Std.TreeMap ModuleId ModuleId}
  {privileged : Std.TreeSet ModuleId} {aggregates : Aggregates} {t : ModuleTable} {m e : ModuleId}

/-- The notes that are due for a module of the platform. -/
structure Noted (platform : PlatformPlan) (exporters : Std.TreeMap ModuleId ModuleId)
    (privileged : Std.TreeSet ModuleId) (aggregates : Aggregates) (t : ModuleTable)
    (m : ModuleId) : Prop where
  jdk : t.HandsOn aggregates.jdk (exporters.getD m m)
  jre : m ∈ privileged ∨ t.name m = platform.settings.jreToolsModule →
    t.HandsOn aggregates.jre (exporters.getD m m)

/-- The module is one of the aggregates. -/
def Aggregates.Has (aggregates : Aggregates) (X : ModuleId) : Prop :=
  X = aggregates.jdk ∨ X = aggregates.jre

/-- The aggregates are modules of their own groups. -/
structure Aggregates.Stand (aggregates : Aggregates) (t : ModuleTable) : Prop where
  lt_size : ∀ {X}, aggregates.Has X → X < t.size
  group_eq : ∀ {X}, aggregates.Has X → t.group X = X

theorem Aggregates.Stand.of_keeps {t' : ModuleTable} (h : aggregates.Stand t) (hk : t.Keeps t') :
    aggregates.Stand t' :=
  ⟨fun hX => Nat.lt_of_lt_of_le (h.lt_size hX) hk.size_le,
    fun {X} hX => (hk.group_eq X).trans (h.group_eq hX)⟩

theorem Noted.of_keeps {t' : ModuleTable} (hm : m < t.size)
    (h : platform.Noted exporters privileged aggregates t m) (hk : t.Keeps t') :
    platform.Noted exporters privileged aggregates t' m := by
  refine ⟨h.jdk.of_keeps hk, fun hdue => (h.jre ?_).of_keeps hk⟩
  rwa [hk.name_eq hm] at hdue

/-- The step for a module makes the notes that are due for it. -/
theorem noted_aggregate (privileged : Std.TreeSet ModuleId) (hstand : aggregates.Stand t)
    (hcovers : platform.Covers (t.name m)) (hm : m < t.size) (he : exporters.getD m m < t.size)
    (hnot : ¬aggregates.Has m) (hnot' : ¬aggregates.Has (exporters.getD m m)) :
    platform.Noted exporters privileged aggregates
      (platform.aggregate exporters privileged aggregates t m) m := by
  generalize hexporter : exporters.getD m m = e at he hnot'
  have hstep : platform.aggregate exporters privileged aggregates t m =
      if privileged.contains m || t.name m == platform.settings.jreToolsModule then
        (t.addRequirement aggregates.jdk (reexport (t.name e))).addRequirement aggregates.jre
          (reexport (t.name e))
      else t.addRequirement aggregates.jdk (reexport (t.name e)) := by
    unfold aggregate
    simp only [Aggregates.Has, not_or] at hnot hnot'
    rcases hcovers with hcovers | hcovers <;> simp [hexporter, hnot, hnot', hcovers]
  -- the first note, and the second one on top of it
  have hjdk : (t.addRequirement aggregates.jdk (reexport (t.name e))).HandsOn aggregates.jdk e :=
    ModuleTable.handsOn_addRequirement (fun heq => hnot' (.inl heq.symm))
      (hstand.lt_size (.inl rfl)) he (hstand.group_eq (.inl rfl))
  have hkeeps := t.keeps_addRequirement aggregates.jdk (reexport (t.name e))
  have hkeeps' := (t.addRequirement aggregates.jdk (reexport (t.name e))).keeps_addRequirement
    aggregates.jre (reexport (t.name e))
  have hjre : ((t.addRequirement aggregates.jdk (reexport (t.name e))).addRequirement
      aggregates.jre (reexport (t.name e))).HandsOn aggregates.jre e := by
    have hstand' := hstand.of_keeps hkeeps
    have hnew := ModuleTable.handsOn_addRequirement
      (t := t.addRequirement aggregates.jdk (reexport (t.name e)))
      (fun heq => hnot' (.inr heq.symm)) (hstand'.lt_size (.inr rfl))
      (Nat.lt_of_lt_of_le he hkeeps.size_le) (hstand'.group_eq (.inr rfl))
    rwa [hkeeps.name_eq he] at hnew
  rw [hstep]
  constructor
  · rw [hexporter]
    split_ifs
    · exact hjdk.of_keeps hkeeps'
    · exact hjdk
  · rw [hexporter]
    intro hdue
    split_ifs at hdue ⊢ with hcondition
    · exact hjre
    · rw [hkeeps.name_eq hm] at hdue
      refine absurd ?_ hcondition
      simpa [Std.TreeSet.contains_iff_mem] using hdue

/-- A pass over some modules makes the notes that are due for them. -/
theorem noted_foldl_aggregate (privileged : Std.TreeSet ModuleId) {ids : List ModuleId}
    (hstand : aggregates.Stand t) (hmem : m ∈ ids) (hcovers : platform.Covers (t.name m))
    (hm : m < t.size) (he : exporters.getD m m < t.size) (hnot : ¬aggregates.Has m)
    (hnot' : ¬aggregates.Has (exporters.getD m m)) :
    platform.Noted exporters privileged aggregates
      (ids.foldl (platform.aggregate exporters privileged aggregates) t) m := by
  obtain ⟨before, after, rfl⟩ := List.append_of_mem hmem
  rw [List.foldl_append, List.foldl_cons]
  have hbefore := keeps_foldl_aggregate platform exporters privileged aggregates t before
  have hstep := noted_aggregate privileged (hstand.of_keeps hbefore)
    (by rwa [hbefore.name_eq hm]) (Nat.lt_of_lt_of_le hm hbefore.size_le)
    (Nat.lt_of_lt_of_le he hbefore.size_le) hnot hnot'
  refine hstep.of_keeps ?_ (keeps_foldl_aggregate platform exporters privileged aggregates _ after)
  have hkeeps := hbefore.trans (keeps_aggregate platform exporters privileged aggregates _ m)
  exact Nat.lt_of_lt_of_le hm hkeeps.size_le

/-- A pass over some modules brings none but the aggregates into the module graph. -/
theorem isTopLevel_of_foldl_aggregate {ids : List ModuleId} (hstand : aggregates.Stand t)
    (hnot : ¬aggregates.Has m)
    (h : (ids.foldl (platform.aggregate exporters privileged aggregates) t).isTopLevel m) :
    t.isTopLevel m := by
  induction ids generalizing t with
  | nil => exact h
  | cons id ids ih =>
    have hkeeps := keeps_aggregate platform exporters privileged aggregates t id
    replace h := ih (hstand.of_keeps hkeeps) h
    unfold aggregate at h
    simp only [Aggregates.Has, not_or] at hnot
    have hjdk := hstand.group_eq (.inl rfl)
    have hjre := hstand.group_eq (.inr rfl)
    dsimp only at h
    split_ifs at h
    · exact h
    · refine ModuleTable.isTopLevel_of_addRequirement hjdk hnot.1
        (ModuleTable.isTopLevel_of_addRequirement ?_ hnot.2 h)
      rw [(t.extends_addRequirement _ _).group_eq, hjre]
    · exact ModuleTable.isTopLevel_of_addRequirement hjdk hnot.1 h

end PlatformPlan

/-! ## What becomes of a note -/

/-- The module requires another one publicly, or the exporter of that one. -/
def Outcome.Offers (outcome : Outcome) (policy : ExporterPolicy) (A e : ModuleId) : Prop :=
  outcome.infos.LeadsOn A e ∨ ∃ E, policy.exporters[e]? = some E ∧ outcome.infos.LeadsOn A E

/-- The policy takes the dependence that a note brings one step further at most. -/
theorem BuildPlan.Resolution.offers {plan : BuildPlan} {policy : ExporterPolicy} {outcome : Outcome}
    (h : plan.Resolution policy outcome) (hi : outcome.table.Indexed)
    (hexporters : ∀ D E, policy.exporters[D]? = some E → outcome.table.HandsOn E D)
    {A e : ModuleId} (hands : outcome.table.HandsOn A e) (he : outcome.table.isTopLevel e) :
    outcome.Offers policy A e := by
  obtain ⟨info, deps, dep, hinfo, hfinished, hdep, rfl, hpublic, hneeded⟩ :=
    h.exists_handed hi hands he
  have hkept : ¬(dep.modifiers.isOptional ∧ policy.dropsOptional A) := fun hdrop =>
    hneeded hdrop.1
  rcases outcome.base.applyPolicy_sends_or policy A dep with ⟨E, hsends, heq⟩ | ⟨-, heq⟩
  · have htop := (hexporters _ E hsends.exporter).isTopLevel
    obtain ⟨final, hfinal, htarget, hstays⟩ := hfinished.exists_mem_of_leaves
      ⟨_, dep, hdep, hkept, heq.symm, htop⟩
    refine .inr ⟨E, hsends.exporter, info, hinfo, final, hfinal, htarget, ?_⟩
    apply hstays
    exact hpublic
  · obtain ⟨final, hfinal, htarget, hstays⟩ := hfinished.exists_mem_of_leaves
      ⟨_, dep, hdep, hkept, heq.symm, he⟩
    exact .inl ⟨info, hinfo, final, hfinal, htarget, hstays hpublic⟩

/-! ## Platform builds -/

namespace PlatformPlan

namespace Readied

variable {platform : PlatformPlan} {policy : ExporterPolicy} {boot base : ModuleId}
  {aggregates : Aggregates} {ready final : ModuleTable} {m : ModuleId}

theorem stand (h : platform.Readied policy boot base aggregates ready final) :
    aggregates.Stand ready := by
  obtain ⟨jdk, hjdk, hjdkGroup⟩ := h.jdk
  obtain ⟨jre, hjre, hjreGroup⟩ := h.jre
  have hjdkFind := group_of_find h.settled hjdk
  have hjreFind := group_of_find h.settled hjre
  rw [hjdkGroup] at hjdkFind
  rw [hjreGroup] at hjreFind
  constructor
  · rintro X (rfl | rfl)
    · exact hjdkFind.1
    · exact hjreFind.1
  · rintro X (rfl | rfl)
    · exact hjdkFind.2
    · exact hjreFind.2

theorem isJdk (h : platform.Readied policy boot base aggregates ready final) :
    platform.IsJdk final aggregates.jdk :=
  h.jdk.of_keeps h.settled.indexed h.keeps

theorem isJre (h : platform.Readied policy boot base aggregates ready final) :
    platform.IsJre final aggregates.jre :=
  h.jre.of_keeps h.settled.indexed h.keeps

/-- The notes bring none but the aggregates into the module graph. -/
theorem mem_topLevel (h : platform.Readied policy boot base aggregates ready final)
    (hm : m ∈ final.topLevel) (hnot : ¬aggregates.Has m) : m ∈ ready.topLevel := by
  rw [h.final_eq] at hm
  exact BuildPlan.mem_topLevel.2 <|
    isTopLevel_of_foldl_aggregate h.stand hnot (BuildPlan.mem_topLevel.1 hm)

/-- A module of the final graph, none of the aggregates, is privileged if it is no ordinary one. -/
theorem mem_privileged (h : platform.Readied policy boot base aggregates ready final)
    (hm : m ∈ final.topLevel) (hnot : ¬aggregates.Has m) (hm' : ¬platform.Ordinary final m) :
    m ∈ policy.privileged := by
  have hready := h.mem_topLevel hm hnot
  by_contra hmem
  rw [h.mem_privileged_iff, not_and] at hmem
  replace hmem := hmem hready
  simp only [not_or] at hmem
  refine hm' ⟨?_, ?_, ?_⟩
  · rw [h.isBoot_iff]
    exact hmem.1
  · rw [h.isBase_iff]
    exact hmem.2.1
  · intro boot' hboot'
    rw [h.isBoot_iff] at hboot'
    subst hboot'
    exact hmem.2.2

/-- A module or its exporter, whatever the policy has, takes part in the final module graph. -/
theorem isTopLevel_getD (h : platform.Readied policy boot base aggregates ready final)
    (hm : m ∈ final.topLevel) : final.isTopLevel (policy.exporters.getD m m) := by
  rw [Std.TreeMap.getD_eq_getD_getElem?]
  cases hE : policy.exporters[m]? with
  | none => exact BuildPlan.mem_topLevel.1 hm
  | some E => exact ((h.handsOn m E hE).of_keeps h.keeps).isTopLevel

end Readied

/-- In a platform build, take a module of the platform that takes part in the module graph, and is
neither of the two aggregates; and let `e` be its exporter, or the module itself. If `e` is neither
of the two aggregates either, then the first one requires `e` publicly, or the exporter of `e`. So
does the second one, if the module is privileged or holds the tools of the runtime. -/
theorem offers_of_build (platform : PlatformPlan) (registry : Registry) (outcome : Outcome)
    (hbuild : (platform.build registry).result = .ok outcome) :
    ∃ p prepared, (platform.prepared registry).result = .ok (p, prepared) ∧
      ∃ jdk jre, platform.IsJdk outcome.table jdk ∧ platform.IsJre outcome.table jre ∧
        ∀ m ∈ outcome.table.topLevel, m ≠ jdk → m ≠ jre → platform.Covers (outcome.table.name m) →
          ∀ e, e = prepared.policy.exporters.getD m m → e ≠ jdk → e ≠ jre →
            outcome.Offers prepared.policy jdk e ∧
            (¬platform.Ordinary outcome.table m ∨
              outcome.table.name m = platform.settings.jreToolsModule →
              outcome.Offers prepared.policy jre e) := by
  obtain ⟨p, prepared, boot, base, aggregates, ready, hprepared, hresolution, h⟩ :=
    exists_readied platform registry outcome hbuild
  refine ⟨p, prepared, hprepared, aggregates.jdk, aggregates.jre, h.isJdk, h.isJre, ?_⟩
  rintro m hm hjdk hjre hcovers e rfl hjdk' hjre'
  have hnot : ¬aggregates.Has m := not_or.2 ⟨hjdk, hjre⟩
  have hready := h.mem_topLevel hm hnot
  have hlt : m < ready.size := ModuleTable.lt_size_of_isTopLevel (BuildPlan.mem_topLevel.1 hready)
  have hexporter : prepared.policy.exporters.getD m m < ready.size := by
    have htop := ModuleTable.lt_size_of_isTopLevel (h.isTopLevel_getD hm)
    rwa [h.sameBut.size] at htop
  have hname := h.keeps.name_eq hlt
  rw [hname] at hcovers ⊢
  -- the notes that the pass over the ready table makes
  have hnoted := noted_foldl_aggregate prepared.policy.privileged h.stand hready
    hcovers hlt hexporter hnot (not_or.2 ⟨hjdk', hjre'⟩)
  rw [← h.final_eq] at hnoted
  have hi := h.keeps.indexed h.settled.indexed
  have hands := fun D E hE => (h.handsOn D E hE).of_keeps h.keeps
  have htop := h.isTopLevel_getD hm
  refine ⟨hresolution.offers hi hands hnoted.jdk htop, fun hdue => ?_⟩
  refine hresolution.offers hi hands (hnoted.jre ?_) htop
  rcases hdue with hprivileged | htools
  · exact .inl (h.mem_privileged hm hnot hprivileged)
  · exact .inr (hname.trans htools)

/-- The first aggregate hands on the exporter of the internal module, and the second one that of the
boot module. -/
theorem offers_chained :
    ∃ outcome, (PlatformPlan.chained.build .chained).result = .ok outcome ∧
      ∃ p prepared, (PlatformPlan.chained.prepared .chained).result = .ok (p, prepared) ∧
        prepared.policy.exporters.getD 1 1 = 2 ∧ outcome.Offers prepared.policy 4 2 ∧
        prepared.policy.exporters.getD 2 2 = 3 ∧ outcome.Offers prepared.policy 5 3 := by
  have hrun : ∃ outcome, (PlatformPlan.chained.build .chained).result = .ok outcome ∧
      (outcome.table.find "jdk.boot" = some 2 ∧ outcome.table.group 2 = 2) ∧
      (outcome.table.find "jdk" = some 4 ∧ outcome.table.group 4 = 4) ∧
      (outcome.table.find "jdk.jre" = some 5 ∧ outcome.table.group 5 = 5) ∧
      (1 ∈ outcome.table.topLevel ∧ outcome.table.name 1 = "sun.boot") ∧
      2 ∈ outcome.table.topLevel ∧ outcome.table.name 2 = "jdk.boot" := by
    decide +kernel
  have hprepared : ∃ r, (PlatformPlan.chained.prepared .chained).result = .ok r ∧
      r.2.policy.exporters.getD 1 1 = 2 ∧ r.2.policy.exporters.getD 2 2 = 3 := by
    decide +kernel
  obtain ⟨outcome, hbuild, ⟨hboot, hbootGroup⟩, ⟨hjdk, hjdkGroup⟩, ⟨hjre, hjreGroup⟩,
    ⟨hinternal, hinternalName⟩, hpublic, hpublicName⟩ := hrun
  obtain ⟨⟨p, prepared⟩, hprepared, hexporter, hexporter'⟩ := hprepared
  obtain ⟨p', prepared', hprepared', jdk, jre, ⟨jdkId, hfind, hgroup⟩, ⟨jreId, hfind', hgroup'⟩,
    h⟩ :=
    offers_of_build .chained .chained outcome hbuild
  cases hprepared.symm.trans hprepared'
  cases hjdk.symm.trans hfind
  cases hjre.symm.trans hfind'
  cases hjdkGroup.symm.trans hgroup
  cases hjreGroup.symm.trans hgroup'
  have hspecial : ¬PlatformPlan.chained.Ordinary outcome.table 2 := fun hordinary =>
    hordinary.not_boot ⟨2, hboot, hbootGroup⟩
  have hfirst := h 1 hinternal (by decide) (by decide)
    (hinternalName ▸ .inr (by decide)) 2 hexporter.symm (by decide) (by decide)
  have hsecond := h 2 hpublic (by decide) (by decide)
    (hpublicName ▸ .inl (by decide)) 3 hexporter'.symm (by decide) (by decide)
  exact ⟨outcome, hbuild, p, prepared, hprepared, hexporter, hfirst.1, hexporter',
    hsecond.2 (.inl hspecial)⟩

end PlatformPlan

end ModuleGraph
