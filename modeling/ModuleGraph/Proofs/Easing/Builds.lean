import ModuleGraph.Platform
import ModuleGraph.Proofs.Easing.Modules
import ModuleGraph.Proofs.Stages

/-!
# Builds whose references become optional

Which references are optional is asked when dependences are collected, after everything has found
its owner. If more of them are, the dependences are eased (`Dependence.Eased`), and with them the
finished modules. The module graph loses edges, so whatever order it had still serves, and no cycle
can appear.

* `Outcome.Eased`: the outcome of a build, with dependences that became optional.
* `BuildPlan.eased_of_build`: a plain build succeeds again when its test for optional references is
  widened, and its outcome is eased.
* `Configuration.eased_of_buildWith`: further rules and marked references in a configuration.
-/

namespace ModuleGraph

/-! ## The graph of eased modules -/

theorem RequiresEased.exists_of_mem {l l' : List Dependence} (h : RequiresEased l l')
    {e : Dependence} (he : e ∈ l') : ∃ d ∈ l, d.Eased e := by
  induction h with
  | nil => cases he
  | cons hde _ ih =>
    rcases List.mem_cons.1 he with rfl | he
    · exact ⟨_, List.mem_cons_self, hde⟩
    · obtain ⟨d, hd, hde'⟩ := ih he
      exact ⟨d, List.mem_cons_of_mem _ hd, hde'⟩

namespace ModuleInfos.Eased

variable {infos infos' : ModuleInfos}

theorem exists_before (h : infos.Eased infos') {X : ModuleId} {info' : ModuleInfo}
    (hX : infos'[X]? = some info') : ∃ info, infos[X]? = some info ∧ info.Eased info' :=
  rel_exists (rel_flip (h X) fun _ _ hinfo => hinfo) hX

theorem numbered (h : infos.Eased infos') (hnum : Graph.Numbered infos) :
    Graph.Numbered infos' := by
  intro X info' hX
  obtain ⟨info, hinfo, heased⟩ := h.exists_before hX
  rw [heased.module_eq, hnum X info hinfo]

theorem closed (h : infos.Eased infos') (hclosed : infos.Closed) : infos'.Closed := by
  intro X info' hX dep' hdep'
  obtain ⟨info, hinfo, heased⟩ := h.exists_before hX
  obtain ⟨dep, hdep, hde⟩ := heased.requires.exists_of_mem hdep'
  obtain ⟨target, htarget⟩ := hclosed X info hinfo dep hdep
  rw [hde.module_eq]
  exact (rel_exists (h dep.module) htarget).imp fun _ h => h.1

/-- A dependence that is still not optional was not optional before. -/
theorem requires_subset (h : infos.Eased infos') (hnum : Graph.Numbered infos)
    (hclosed : infos.Closed) (X : ModuleId) :
    (Graph.ofInfos infos').requires X ⊆ (Graph.ofInfos infos).requires X := by
  intro t ht
  obtain ⟨info', hX, dep', hdep', hfirm', rfl⟩ :=
    (Graph.mem_requires_ofInfos (h.numbered hnum) (h.closed hclosed)).1 ht
  obtain ⟨info, hinfo, heased⟩ := h.exists_before hX
  obtain ⟨dep, hdep, hde⟩ := heased.requires.exists_of_mem hdep'
  have hfirm : dep.modifiers.isOptional = false := by
    rw [Bool.eq_false_iff] at hfirm' ⊢
    exact fun hoptional => hfirm' (hde.isOptional hoptional)
  exact (Graph.mem_requires_ofInfos hnum hclosed).2
    ⟨info, hinfo, dep, hdep, hfirm, hde.module_eq⟩

end ModuleInfos.Eased

/-! ## Resolution -/

/-- The second outcome has the same ownership, views, packages and split packages as the first one,
and the same modules with eased dependences. Its order may differ, since there is less to respect,
but the order of the first outcome serves the second one as well. -/
structure Outcome.Eased (a b : Outcome) : Prop where
  partition_eq : b.partition = a.partition
  surfaces_eq : b.surfaces = a.surfaces
  split_eq : b.split = a.split
  infos : a.infos.Eased b.infos
  order_perm : a.order.Perm b.order
  resolved : (Graph.ofInfos b.infos).Resolved a.order.reverse

namespace BuildPlan

variable {plan : BuildPlan} {classifier : Classifier} {policy : ExporterPolicy}
  {outcome : Outcome} {p : Partition}

theorem alike_collect_eased (hwiden : p.registry.Widens plan.classifier classifier) :
    Alike Collected.Eased (plan.collect p).result
      ((plan.withClassifier classifier).collect p).result := by
  simp only [collect, Logged.result_bind, Logged.result_emit, Logged.result_forM,
    Logged.result_foldlM, Logged.result_ofExcept, Logged.result_pure, Logged.result_liftM,
    result_reportSplit]
  refine Alike.bind_same _ fun _ => Alike.bind_same _ fun _ => ?_
  refine Alike.bind_same _ fun _ => Alike.bind_same _ fun surfaces => ?_
  refine (Alike.foldlM_same (Q := MapRel Dependences.Eased) _ .empty
    fun edges edges' id hedges _ => ?_).bind fun edges edges' hedges => ?_
  · exact (alike_dependencesOf _ hwiden id).bind fun _ _ hdeps => hedges.insert id hdeps
  · refine ⟨rfl, rfl, fun X => ?_⟩
    show Option.Rel _ (SplitPackages.promoteEdges _ edges).1[X]?
      (SplitPackages.promoteEdges _ edges').1[X]?
    rw [SplitPackages.getElem?_promoteEdges, SplitPackages.getElem?_promoteEdges]
    exact rel_map (hedges X) fun _ _ hdeps => SplitPackages.eased_promoted _ X hdeps

/-- A resolution that succeeds does so with a wider test for optional references too. -/
theorem eased_of_resolve (hi : p.table.Indexed) (hboot : policy.boot = none)
    {seeds : List ModuleId} (h : (plan.resolve p policy seeds).result = .ok outcome)
    (hwiden : outcome.partition.registry.Widens plan.classifier classifier) :
    ∃ outcome', ((plan.withClassifier classifier).resolve p policy seeds).result = .ok outcome' ∧
      outcome.Eased outcome' := by
  obtain ⟨hp, hresolution⟩ := (ends_resolve plan hi policy seeds).of_ok h
  rw [hp] at hwiden
  simp only [resolve, Logged.result_bind, Logged.result_liftM, Logged.result_emit,
    Logged.result_pure] at h
  obtain ⟨a, ha, h⟩ := exists_of_bind_ok h
  obtain ⟨infos, hinfos, h⟩ := exists_of_bind_ok h
  obtain ⟨order, horder, h⟩ := exists_of_bind_ok h
  cases h
  obtain ⟨b, hb, hab⟩ := (alike_collect_eased hwiden).exists_of_ok ha
  obtain ⟨infos', hinfos', heased⟩ := (hab.alike_finishAll hboot).exists_of_ok hinfos
  -- the graph of the second run has no edge that the first one lacks
  have hsub := heased.requires_subset hresolution.numbered hresolution.closed
  obtain ⟨rank, hrank⟩ :=
    (Graph.exists_loadOrder_iff hresolution.closed_ofInfos seeds).1 ⟨order, horder⟩
  obtain ⟨order', horder'⟩ := (hrank.of_requires_subset hsub).exists_loadOrder seeds
  have hrun : ((plan.withClassifier classifier).resolve p policy seeds).result =
      .ok ⟨p, b.base.surfaces, infos', order', b.split⟩ := by
    simp only [resolve, Logged.result_bind, Logged.result_liftM, Logged.result_emit,
      Logged.result_pure, hb]
    show (finishAll policy b).result >>= _ = _
    rw [hinfos']
    show (Graph.ofInfos infos').loadOrder seeds >>= _ = _
    rw [horder']
    rfl
  obtain ⟨-, hresolution'⟩ := (ends_resolve _ hi policy seeds).of_ok hrun
  refine ⟨_, hrun, rfl, ?_, hab.split_eq, heased, ?_, hresolution.resolved.of_requires_subset hsub⟩
  · exact congrArg (·.surfaces) hab.base_eq
  · exact hresolution.order_perm.trans hresolution'.order_perm.symm

/-! ## Whole builds -/

/-- The stages before the resolution do not ask which references are optional. -/
theorem exists_resolve_of_build {registry : Registry}
    (hbuild : (plan.build registry).result = .ok outcome) :
    ∃ q : Partition, q.table.Indexed ∧ ∀ classifier,
      ((plan.withClassifier classifier).build registry).result =
        ((plan.withClassifier classifier).resolve q {} []).result := by
  rw [result_build] at hbuild
  obtain ⟨q, hq, -⟩ := exists_of_bind_ok hbuild
  refine ⟨q, ((plan.ends_partitionOf registry).of_ok hq).indexed, fun classifier => ?_⟩
  have hsame : (plan.withClassifier classifier).partitionOf registry = .ok q := hq
  rw [result_build, hsame]
  rfl

/-- Whatever the configuration and the registry, if a plain build succeeds with one test for
optional references, it succeeds with every other one that calls optional what the first one does;
dependences may become optional by that, and nothing else about any module changes. -/
theorem eased_of_build (plan : BuildPlan) (classifier : Classifier) (registry : Registry)
    (outcome : Outcome)
    (hwiden : outcome.partition.registry.Widens plan.classifier classifier)
    (hbuild : (plan.build registry).result = .ok outcome) :
    ∃ outcome', ((plan.withClassifier classifier).build registry).result = .ok outcome' ∧
      outcome.Eased outcome' := by
  obtain ⟨q, hi, hstages⟩ := exists_resolve_of_build hbuild
  have hresolve : (plan.resolve q {} []).result = .ok outcome :=
    (hstages plan.classifier).symm.trans hbuild
  rw [hstages classifier]
  exact eased_of_resolve hi rfl hresolve hwiden

/-- The library becomes optional to the program of the sample when all references to it are. -/
theorem eased_sample :
    ∃ outcome outcome', (BuildPlan.sample.build .sample).result = .ok outcome ∧
      ((BuildPlan.sample.withClassifier fun _ target => target.name == "lib.Util").build
        .sample).result = .ok outcome' ∧
      (outcome.infos[0]?).map (·.requires.map (·.modifiers.isOptional)) = some [false] ∧
      (outcome'.infos[0]?).map (·.requires.map (·.modifiers.isOptional)) = some [true] ∧
      outcome.Eased outcome' := by
  have hrun : ∃ outcome, (BuildPlan.sample.build .sample).result = .ok outcome ∧
      (outcome.infos[0]?).map (·.requires.map (·.modifiers.isOptional)) = some [false] := by
    decide +kernel
  have hrun' : ∃ outcome', ((BuildPlan.sample.withClassifier
        fun _ target => target.name == "lib.Util").build .sample).result = .ok outcome' ∧
      (outcome'.infos[0]?).map (·.requires.map (·.modifiers.isOptional)) = some [true] := by
    decide +kernel
  obtain ⟨outcome, hbuild, hfirm⟩ := hrun
  obtain ⟨outcome', hbuild', hoptional⟩ := hrun'
  have hwiden : outcome.partition.registry.Widens BuildPlan.sample.classifier
      fun _ target => target.name == "lib.Util" := by
    intro c d source target _ _ hnever
    cases hnever
  obtain ⟨eased, heased, hsame⟩ := eased_of_build .sample _ .sample outcome hwiden hbuild
  rw [hbuild'] at heased
  cases heased
  exact ⟨outcome, outcome', hbuild, hbuild', hfirm, hoptional, hsame⟩

end BuildPlan

/-! ## Configurations -/

namespace OptionalRules

variable {rules rules' : OptionalRules} {decls decls' : List OptionalDeclaration}

/-- More rules and marked references call no reference required that was optional. -/
theorem isOptional_of_subset (hrules : rules.rules ⊆ rules'.rules)
    (hedges : rules.edges ⊆ rules'.edges) {source target : ClassEntry}
    (h : rules.isOptional source target) : rules'.isOptional source target := by
  unfold isOptional at *
  rw [Bool.or_eq_true, List.contains_iff_mem, List.any_eq_true] at *
  refine h.imp (fun hedge => hedges hedge) fun hrule => ?_
  obtain ⟨rule, hmem, hselects⟩ := hrule
  exact ⟨rule, hrules hmem, hselects⟩

theorem ofDeclarations_append (h : ofDeclarations decls = .ok rules)
    (h' : ofDeclarations decls' = .ok rules') :
    ofDeclarations (decls ++ decls') = .ok (rules.extend rules') := by
  unfold ofDeclarations at *
  rw [List.mapM_append]
  cases hread : decls.mapM readRule with
  | error fault =>
    rw [hread] at h
    cases h
  | ok read =>
    cases hread' : decls'.mapM readRule with
    | error fault =>
      rw [hread'] at h'
      cases h'
    | ok read' =>
      rw [hread] at h
      rw [hread'] at h'
      cases h
      cases h'
      rfl

end OptionalRules

namespace Configuration

variable {c : Configuration} {registry : Registry} {optional : OptionalRules} {merge : Bool}
  {outcome : Outcome}

theorem exists_of_buildWith (hbuild : (c.buildWith registry optional merge).result = .ok outcome) :
    ∃ specs rules, c.specs = .ok specs ∧ OptionalRules.ofDeclarations c.optional = .ok rules := by
  unfold buildWith BuildPlan.ofConfiguration at hbuild
  cases hrules : OptionalRules.ofDeclarations c.optional with
  | error fault =>
    rw [hrules] at hbuild
    cases hbuild
  | ok rules =>
    cases hspecs : c.specs with
    | error fault =>
      rw [hrules, hspecs] at hbuild
      cases hbuild
    | ok specs => exact ⟨specs, rules, rfl, rfl⟩

/-- The plan of a configuration with the given specifications, in which no reference is optional. -/
def planOf (c : Configuration) (specs : List ModuleSpec) (merge : Bool) : BuildPlan where
  specs
  options := { BuildOptions.ofSettings c.settings with merge }
  declared := ⟨c.dependencies⟩

/-- Without platform settings, a configuration that can be read gives a plain build. -/
theorem buildWith_eq (hplatform : c.platform = none) {specs : List ModuleSpec}
    (hspecs : c.specs = .ok specs) {rules : OptionalRules}
    (hrules : OptionalRules.ofDeclarations c.optional = .ok rules) :
    c.buildWith registry optional merge =
      ((c.planOf specs merge).withClassifier (rules.extend optional).isOptional).build
        registry := by
  unfold buildWith BuildPlan.ofConfiguration
  rw [hspecs, hrules, hplatform]
  rfl

/-- Without platform settings, a build that succeeds does so with further rules and marked
references too. -/
theorem eased_of_buildWith (hplatform : c.platform = none) {decls : List OptionalDeclaration}
    {declared : OptionalRules} (hdecls : OptionalRules.ofDeclarations decls = .ok declared)
    (more : OptionalRules)
    (hbuild : (c.buildWith registry optional merge).result = .ok outcome) :
    ∃ outcome', ({ c with optional := c.optional ++ decls }.buildWith registry
        (optional.extend more) merge).result = .ok outcome' ∧ outcome.Eased outcome' := by
  obtain ⟨specs, rules, hspecs, hrules⟩ := exists_of_buildWith hbuild
  rw [buildWith_eq hplatform hspecs hrules] at hbuild
  rw [buildWith_eq (c := { c with optional := c.optional ++ decls }) hplatform hspecs
    (OptionalRules.ofDeclarations_append hrules hdecls)]
  -- the plan does not depend on the declared rules, only its test does
  show ∃ outcome', (((c.planOf specs merge).withClassifier _).build registry).result = _ ∧ _
  obtain ⟨q, hi, hstages⟩ := BuildPlan.exists_resolve_of_build hbuild
  have happend {α : Type} (l₁ l₂ l₃ l₄ : List α) : l₁ ++ l₃ ⊆ (l₁ ++ l₂) ++ (l₃ ++ l₄) :=
    List.append_subset.2 ⟨List.subset_append_of_subset_left _ (List.subset_append_left ..),
      List.subset_append_of_subset_right _ (List.subset_append_left ..)⟩
  have hwiden : outcome.partition.registry.Widens (rules.extend optional).isOptional
      ((rules.extend declared).extend (optional.extend more)).isOptional :=
    fun _ _ _ _ _ _ h => OptionalRules.isOptional_of_subset (happend ..) (happend ..) h
  simp only [BuildPlan.withClassifier_withClassifier] at hstages
  rw [hstages] at hbuild ⊢
  have heased := BuildPlan.eased_of_resolve hi rfl hbuild hwiden
  rwa [BuildPlan.withClassifier_withClassifier] at heased

end Configuration

end ModuleGraph
