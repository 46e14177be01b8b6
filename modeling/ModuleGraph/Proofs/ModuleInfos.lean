import ModuleGraph.Proofs.Dependences.Finish
import ModuleGraph.Resolution.Build

/-!
# The modules of a graph

All top-level modules are finished, each once (`ends_finishAll`). As every dependence leads to a
finished module and permits are frozen last, the permits can always be made to agree with the
dependences (`ModuleInfos.ends_fixPermits`), and nothing but permits changes by that.
-/

namespace ModuleGraph

namespace ModuleInfos

variable {infos infos' infos'' : ModuleInfos}

/-! ## Permits -/

/-- Only permits differ. -/
def SameButPermits (infos infos' : ModuleInfos) : Prop :=
  ∀ X : ModuleId, infos'[X]?.map ModuleInfo.unpermitted = infos[X]?.map ModuleInfo.unpermitted

/-- No module has its permits frozen. -/
def Unfrozen (infos : ModuleInfos) : Prop :=
  ∀ (X : ModuleId) info, infos[X]? = some info → info.frozen = false

theorem SameButPermits.refl (infos : ModuleInfos) : infos.SameButPermits infos := fun _ => rfl

theorem SameButPermits.trans (h₁ : infos.SameButPermits infos')
    (h₂ : infos'.SameButPermits infos'') : infos.SameButPermits infos'' :=
  fun X => (h₂ X).trans (h₁ X)

theorem SameButPermits.exists_before (h : infos.SameButPermits infos') {X : ModuleId}
    {info : ModuleInfo} (hX : infos'[X]? = some info) :
    ∃ before, infos[X]? = some before ∧ before.unpermitted = info.unpermitted := by
  have hsame := (h X).symm
  rw [hX, Option.map_some, Option.map_eq_some_iff] at hsame
  exact hsame

theorem SameButPermits.exists_after (h : infos.SameButPermits infos') {X : ModuleId}
    {info : ModuleInfo} (hX : infos[X]? = some info) :
    ∃ after, infos'[X]? = some after ∧ after.unpermitted = info.unpermitted := by
  have hsame := h X
  rw [hX, Option.map_some, Option.map_eq_some_iff] at hsame
  exact hsame

/-- A permit is added unless it is there. -/
theorem ends_permitIf (hfrozen : infos.Unfrozen) (test : ModuleInfo → Bool) {edge : Edge}
    {target : ModuleInfo} (htarget : infos[edge.target]? = some target) :
    Ends (permitIf test infos edge) (fun r => infos.SameButPermits r.1 ∧ r.1.Unfrozen)
      (fun _ => False) := by
  unfold permitIf
  rw [htarget]
  dsimp only
  split_ifs
  · refine (ModuleInfo.ends_addPermit (hfrozen _ _ htarget) _).bind fun r ⟨hsame, hr⟩ => ?_
    have hget (X : ModuleId) : (Std.TreeMap.insert infos edge.target r.1)[X]? =
        if edge.target = X then some r.1 else infos[X]? := treeMap_getElem?_insert _ _ _ _
    constructor
    · intro X
      show Option.map _ (Std.TreeMap.insert infos edge.target r.1)[X]? = _
      rw [hget]
      split_ifs with hX
      · rw [← hX, htarget, Option.map_some, Option.map_some, hsame]
      · rfl
    · intro X info hX
      replace hX : (Std.TreeMap.insert infos edge.target r.1)[X]? = some info := hX
      rw [hget] at hX
      split_ifs at hX
      · cases hX
        exact hr
      · exact hfrozen X info hX
  · exact ⟨.refl infos, hfrozen⟩

theorem ends_permitAll (test : ModuleInfo → Bool) :
    ∀ (edges : List Edge) {infos : ModuleInfos} (added : Nat), infos.Unfrozen →
      (∀ edge ∈ edges, ∃ target, infos[edge.target]? = some target) →
      infos.SameButPermits (permitAll test infos added edges).1 ∧
        (permitAll test infos added edges).1.Unfrozen ∧
        Ends (permitAll test infos added edges).2 (fun _ => True) (fun _ => False)
  | [], infos, _, hfrozen, _ => ⟨.refl infos, hfrozen, trivial⟩
  | edge :: edges, infos, added, hfrozen, htargets => by
    obtain ⟨target, htarget⟩ := htargets edge (List.mem_cons_self ..)
    have hpermit := ends_permitIf hfrozen test htarget
    rw [permitAll]
    cases hres : permitIf test infos edge with
    | error e => exact absurd (hpermit.of_error hres) id
    | ok r =>
      obtain ⟨infos', more⟩ := r
      obtain ⟨hsame, hfrozen'⟩ := hpermit.of_ok hres
      obtain ⟨h₁, h₂, h₃⟩ := ends_permitAll test edges (added + more) hfrozen' fun e he => by
        obtain ⟨info, hinfo⟩ := htargets e (List.mem_cons_of_mem _ he)
        exact (hsame.exists_after hinfo).imp fun _ h => h.1
      exact ⟨hsame.trans h₁, h₂, h₃⟩

/-- Every dependence leads to a module of the graph. -/
def Closed (infos : ModuleInfos) : Prop :=
  ∀ (X : ModuleId) info, infos[X]? = some info →
    ∀ dep ∈ info.requires, ∃ target, infos[dep.module]? = some target

theorem Closed.exists_target (h : infos.Closed) {edge : Edge} (hedge : edge ∈ infos.edges) :
    ∃ target, infos[edge.target]? = some target := by
  unfold edges at hedge
  obtain ⟨info, hinfo, hmem⟩ := List.mem_flatMap.1 hedge
  obtain ⟨dep, hdep, rfl⟩ := List.mem_map.1 hmem
  obtain ⟨X, hX⟩ := mem_treeMap_values.1 hinfo
  exact h X info hX dep hdep

/-- Both passes go through. -/
theorem ends_fixPermits (hfrozen : infos.Unfrozen) (hclosed : infos.Closed) :
    infos.SameButPermits infos.fixPermits.1 ∧ infos.fixPermits.1.Unfrozen ∧
      Ends infos.fixPermits.2 (fun _ => True) (fun _ => False) := by
  have hlocal := ends_permitAll (fun _ => true) (infos.edges.filter (·.isLocal)) 0 hfrozen
    fun edge hedge => hclosed.exists_target (List.mem_filter.1 hedge).1
  unfold fixPermits
  dsimp only
  generalize permitAll (fun _ => true) infos 0 (infos.edges.filter (·.isLocal)) = r at *
  obtain ⟨infos', result⟩ := r
  obtain ⟨hsame, hfrozen', hends⟩ := hlocal
  cases result with
  | error e => exact absurd hends id
  | ok added =>
    obtain ⟨h₁, h₂, h₃⟩ := ends_permitAll (fun info => !info.permits.isEmpty) infos.edges added
      hfrozen' fun edge hedge => by
        obtain ⟨target, htarget⟩ := hclosed.exists_target hedge
        exact (hsame.exists_after htarget).imp fun _ h => h.1
    exact ⟨hsame.trans h₁, h₂, h₃⟩

theorem sameButPermits_freeze (infos : ModuleInfos) : infos.SameButPermits infos.freeze := by
  intro X
  unfold freeze
  rw [Std.TreeMap.getElem?_map, Option.map_map]
  rfl

end ModuleInfos

/-! ## All modules -/

namespace BuildPlan

open EvidenceBase

/-- The finished modules of a graph, one for each requester. -/
structure FinishedAll (base : EvidenceBase) (policy : ExporterPolicy) (edges : EdgeMap)
    (infos : ModuleInfos) : Prop where
  covers : ∀ (X : ModuleId) deps, edges[X]? = some deps → ∃ info, infos[X]? = some info
  finished : ∀ (X : ModuleId) info, infos[X]? = some info →
    ∃ deps, edges[X]? = some deps ∧ base.Finished policy X deps info

theorem FinishedAll.of_sameButPermits {base : EvidenceBase} {policy : ExporterPolicy}
    {edges : EdgeMap} {infos infos' : ModuleInfos} (h : FinishedAll base policy edges infos)
    (hsame : infos.SameButPermits infos') : FinishedAll base policy edges infos' := by
  constructor
  · intro X deps hX
    obtain ⟨info, hinfo⟩ := h.covers X deps hX
    exact (hsame.exists_after hinfo).imp fun _ h => h.1
  · intro X info hX
    obtain ⟨before, hbefore, heq⟩ := hsame.exists_before hX
    obtain ⟨deps, hdeps, hfinished⟩ := h.finished X before hbefore
    exact ⟨deps, hdeps, hfinished.of_unpermitted heq.symm⟩

/-- The finished modules of the requesters that are done. -/
structure FinishedSome (base : EvidenceBase) (policy : ExporterPolicy)
    (done : List (ModuleId × Dependences)) (infos : ModuleInfos) : Prop where
  covers : ∀ X deps, (X, deps) ∈ done → ∃ info, infos[X]? = some info
  finished : ∀ (X : ModuleId) info, infos[X]? = some info →
    ∃ deps, (X, deps) ∈ done ∧ base.Finished policy X deps info
  unfrozen : infos.Unfrozen

theorem ends_finishInto {base : EvidenceBase} {policy : ExporterPolicy} (hi : base.table.Indexed)
    {done : List (ModuleId × Dependences)} {infos : ModuleInfos}
    (h : FinishedSome base policy done infos) {X : ModuleId} {deps : Dependences}
    (hdeps : base.Keyed X deps) (hnew : ∀ deps', (X, deps') ∉ done) :
    Ends (base.finishInto policy infos (X, deps)).result
      (FinishedSome base policy (done ++ [(X, deps)])) FinishError := by
  simp only [finishInto, Logged.result_bind]
  refine (ends_finish hi hdeps).bind fun info ⟨hinfo, hfrozen⟩ => ?_
  have hnot : infos.contains X = false := by
    rw [Bool.eq_false_iff]
    intro hcontains
    obtain ⟨info', hinfo'⟩ := treeMap_mem_iff.1 (Std.TreeMap.contains_iff_mem.1 hcontains)
    obtain ⟨deps', hmem, -⟩ := h.finished X info' hinfo'
    exact hnew deps' hmem
  rw [if_neg (by rw [hnot]; exact Bool.false_ne_true)]
  have hget (Y : ModuleId) : (Std.TreeMap.insert infos X info)[Y]? =
      if X = Y then some info else infos[Y]? := treeMap_getElem?_insert _ _ _ _
  constructor
  · intro Y deps' hY
    show ∃ info', (Std.TreeMap.insert infos X info)[Y]? = some info'
    rw [hget]
    split_ifs with hXY
    · exact ⟨info, rfl⟩
    · rcases List.mem_append.1 hY with hY | hY
      · exact h.covers Y deps' hY
      · rw [List.mem_singleton] at hY
        cases hY
        exact absurd rfl hXY
  · intro Y info' hY
    replace hY : (Std.TreeMap.insert infos X info)[Y]? = some info' := hY
    rw [hget] at hY
    split_ifs at hY with hXY
    · cases hY
      subst hXY
      exact ⟨deps, List.mem_append_right _ (List.mem_singleton.2 rfl), hinfo⟩
    · obtain ⟨deps', hmem, hfinished⟩ := h.finished Y info' hY
      exact ⟨deps', List.mem_append_left _ hmem, hfinished⟩
  · intro Y info' hY
    replace hY : (Std.TreeMap.insert infos X info)[Y]? = some info' := hY
    rw [hget] at hY
    split_ifs at hY
    · cases hY
      exact hfrozen
    · exact h.unfrozen Y info' hY

/-- The edges belong to the top-level modules, and are on others. -/
structure EdgesOf (base : EvidenceBase) (edges : EdgeMap) : Prop where
  covers : ∀ X, base.table.isTopLevel X → ∃ deps, edges[X]? = some deps
  topLevel : ∀ (X : ModuleId) deps, edges[X]? = some deps → base.table.isTopLevel X
  keyed : ∀ (X : ModuleId) deps, edges[X]? = some deps → base.Keyed X deps

/-- All modules are finished, or one of them cannot be. -/
theorem ends_finishAll (policy : ExporterPolicy) (collected : Collected)
    (hi : collected.base.table.Indexed) (hedges : EdgesOf collected.base collected.edges) :
    Ends (finishAll policy collected).result
      (FinishedAll collected.base policy collected.edges) FinishError := by
  simp only [finishAll, Logged.result_bind, Logged.result_foldlM]
  have hfold : Ends (collected.edges.toList.foldlM
      (fun infos entry => (collected.base.finishInto policy infos entry).result) {})
      (FinishedSome collected.base policy collected.edges.toList) FinishError := by
    refine Ends.foldlM_prefix (FinishedSome collected.base policy) [] collected.edges.toList {}
      ⟨by simp, by simp, fun X info hX => by simp at hX⟩
      fun before entry after hsplit infos h => ?_
    obtain ⟨X, deps⟩ := entry
    rw [List.nil_append] at hsplit
    have hX : collected.edges[X]? = some deps :=
      Std.TreeMap.mem_toList_iff_getElem?_eq_some.1 (by rw [hsplit]; simp)
    refine ends_finishInto hi h (hedges.keyed X deps hX) fun deps' hmem => ?_
    -- the keys of a map are listed once
    have hkeys := treeMap_keys_nodup collected.edges
    rw [← Std.TreeMap.map_fst_toList_eq_keys, hsplit, List.map_append, List.map_cons,
      List.nodup_append] at hkeys
    exact hkeys.2.2 X (List.mem_map.2 ⟨_, hmem, rfl⟩) X (List.mem_cons_self ..) rfl
  refine hfold.bind fun infos h => ?_
  have hall : FinishedAll collected.base policy collected.edges infos := by
    constructor
    · intro X deps hX
      exact h.covers X deps (Std.TreeMap.mem_toList_iff_getElem?_eq_some.2 hX)
    · intro X info hX
      obtain ⟨deps, hmem, hfinished⟩ := h.finished X info hX
      exact ⟨deps, Std.TreeMap.mem_toList_iff_getElem?_eq_some.1 hmem, hfinished⟩
  have hclosed : infos.Closed := by
    intro X info hX dep hdep
    obtain ⟨deps, hdeps, hfinished⟩ := hall.finished X info hX
    obtain ⟨-, htop, -⟩ := hfinished.target (hedges.keyed X deps hdeps) hdep
    obtain ⟨deps', hdeps'⟩ := hedges.covers _ htop
    exact hall.covers _ _ hdeps'
  obtain ⟨hsame, -, hends⟩ := ModuleInfos.ends_fixPermits h.unfrozen hclosed
  generalize infos.fixPermits = r at *
  obtain ⟨infos', result⟩ := r
  cases result with
  | error e => exact absurd hends id
  | ok added =>
    exact hall.of_sameButPermits (hsame.trans infos'.sameButPermits_freeze)

end BuildPlan

end ModuleGraph
