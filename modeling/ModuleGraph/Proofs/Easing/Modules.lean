import ModuleGraph.Proofs.Easing.Dependences
import ModuleGraph.Resolution.Build

/-!
# Finished modules whose dependences become optional

Whether a dependence is optional decides neither where it stands in a requires list nor to which
view it is bound nor whom its target permits; only a boot module drops its optional dependences. So
without a boot module, eased dependences give the same finished modules with eased requires lists
(`BuildPlan.alike_finishAll`).
-/

namespace ModuleGraph

/-! ## Requires lists -/

/-- The second list has the dependences of the first one, eased. -/
abbrev RequiresEased (l l' : List Dependence) : Prop := List.Forall₂ Dependence.Eased l l'

namespace RequiresEased

variable {l l' : List Dependence}

theorem dropRepeats (h : RequiresEased l l') :
    RequiresEased (ModuleGraph.dropRepeats l) (ModuleGraph.dropRepeats l') := by
  induction h with
  | nil => exact .nil
  | cons hde _ ih =>
    rw [ModuleGraph.dropRepeats, ModuleGraph.dropRepeats]
    generalize ModuleGraph.dropRepeats _ = kept at *
    generalize ModuleGraph.dropRepeats _ = kept' at *
    cases ih with
    | nil => exact .cons hde .nil
    | cons hde' hrest =>
      dsimp only
      rw [hde.module_eq, hde'.module_eq]
      split_ifs
      · exact .cons hde hrest
      · exact .cons hde (.cons hde' hrest)

/-- Sorting looks at modules and their names alone, so it rearranges both lists alike. -/
theorem mergeSort (h : RequiresEased l l') :
    RequiresEased (l.mergeSort Dependence.precedes) (l'.mergeSort Dependence.precedes) := by
  -- sort the pairs instead
  have hpairs : ∀ pair ∈ l.zip l', pair.1.Eased pair.2 :=
    fun pair hpair => (List.forall₂_iff_zip.1 h).2 hpair
  have hfst : (l.zip l').map Prod.fst = l := List.map_fst_zip (Nat.le_of_eq h.length_eq)
  have hsnd : (l.zip l').map Prod.snd = l' := List.map_snd_zip (Nat.le_of_eq h.length_eq.symm)
  have hsort : ((l.zip l').mergeSort fun p q => p.1.precedes q.1).map Prod.fst =
      l.mergeSort Dependence.precedes := by
    rw [List.map_mergeSort (s := Dependence.precedes) fun _ _ _ _ => rfl, hfst]
  have hsort' : ((l.zip l').mergeSort fun p q => p.1.precedes q.1).map Prod.snd =
      l'.mergeSort Dependence.precedes := by
    rw [List.map_mergeSort (s := Dependence.precedes) fun p hp q hq => ?_, hsnd]
    unfold Dependence.precedes
    rw [(hpairs p hp).moduleName_eq, (hpairs q hq).moduleName_eq, (hpairs p hp).module_eq,
      (hpairs q hq).module_eq]
  unfold RequiresEased
  rw [← hsort, ← hsort', List.forall₂_map_left_iff, List.forall₂_map_right_iff, List.forall₂_same]
  intro pair hpair
  exact hpairs pair (List.mem_mergeSort.1 hpair)

theorem sortRequires (h : RequiresEased l l') :
    RequiresEased (ModuleInfo.sortRequires l) (ModuleInfo.sortRequires l') :=
  h.mergeSort.dropRepeats

end RequiresEased

/-! ## Finished modules -/

namespace ModuleInfo

variable {info info' : ModuleInfo}

/-- The second module has the dependences of the first one, eased, and is the same otherwise. -/
structure Eased (info info' : ModuleInfo) : Prop where
  module_eq : info'.module = info.module
  name_eq : info'.name = info.name
  version_eq : info'.version = info.version
  requires : RequiresEased info.requires info'.requires
  permits_eq : info'.permits = info.permits
  views_eq : info'.views = info.views
  mainClass_eq : info'.mainClass = info.mainClass
  frozen_eq : info'.frozen = info.frozen

theorem Eased.alike_addPermit (h : info.Eased info') (permit : String) :
    Alike (fun r s => r.1.Eased s.1 ∧ s.2 = r.2) (info.addPermit permit)
      (info'.addPermit permit) := by
  unfold addPermit
  rw [h.permits_eq, h.frozen_eq]
  split_ifs
  · exact ⟨h, rfl⟩
  · exact .error
  · exact ⟨{ h with permits_eq := rfl, frozen_eq := rfl }, rfl⟩

end ModuleInfo

namespace EvidenceBase

variable {base : EvidenceBase} {policy : ExporterPolicy} {top : ModuleId}
  {kept kept' : Dependences} {d e : Dependence}

theorem eased_applyPolicy (base : EvidenceBase) (policy : ExporterPolicy) (top : ModuleId)
    (h : d.Eased e) :
    (base.applyPolicy policy top d).Eased (base.applyPolicy policy top e) := by
  unfold applyPolicy
  rw [h.isInternal_eq, h.isLocal_eq, h.targetsView_eq, h.module_eq]
  dsimp only
  split_ifs
  · exact h
  · exact h
  · exact { h with target_eq := rfl, module_eq := rfl, moduleName_eq := rfl, view_eq := rfl }

theorem alike_keep (hboot : policy.boot = none) (hkept : kept.Eased kept') (h : d.Eased e) :
    Alike Dependences.Eased (base.keep policy top kept d).result
      (base.keep policy top kept' e).result := by
  have hdrops : policy.dropsOptional top = false := by
    unfold ExporterPolicy.dropsOptional
    rw [hboot]
    rfl
  have hpolicy := eased_applyPolicy base policy top h
  simp only [keep, hdrops, Bool.and_false, Bool.false_eq_true, if_false, hpolicy.module_eq]
  split_ifs
  · exact hkept.alike_add hpolicy _
  · exact hkept

/-- A view is chosen without regard to optional dependences. -/
theorem alike_select (h : d.Eased e) (views : List View) (requester : String) (allow : Bool) :
    Alike Eq (View.select views d requester allow) (View.select views e requester allow) := by
  unfold View.select
  rw [h.targetsView_eq, h.target_eq, h.isInternal_eq, h.isLocal_eq]
  dsimp only
  split
  · rfl
  · exact .error

theorem alike_bind (h : d.Eased e) :
    Alike Dependence.Eased (base.bind top d) (base.bind top e) := by
  unfold EvidenceBase.bind
  rw [h.module_eq]
  refine (alike_select h _ _ _).bind fun view _ hview => ?_
  subst hview
  exact { h with module_eq := rfl, view_eq := rfl }

theorem alike_addPermits {info info' : ModuleInfo} (h : info.Eased info') (m : Module) :
    Alike ModuleInfo.Eased (base.addPermits info m) (base.addPermits info' m) := by
  unfold addPermits
  refine Alike.foldlM_same _ h fun info info' permit h _ => ?_
  refine Alike.bind_same _ fun group => ?_
  exact (h.alike_addPermit group).bind fun _ _ hrs => hrs.1

theorem alike_finish (hboot : policy.boot = none) {deps deps' : Dependences}
    (h : deps.Eased deps') :
    Alike ModuleInfo.Eased (base.finish policy top deps).result
      (base.finish policy top deps').result := by
  simp only [finish, Logged.result_bind, Logged.result_foldlM, Logged.result_ofExcept]
  refine (Alike.foldlM h.forall₂_values .empty fun _ _ _ _ hkept hde =>
    alike_keep hboot hkept hde).bind fun kept kept' hkept => ?_
  refine (Alike.mapM (MapRel.forall₂_values hkept) fun _ _ hde => alike_bind hde).bind
    fun bound bound' hbound => ?_
  refine Alike.foldlM_same _ ?_ fun _ _ m hinfo _ => alike_addPermits hinfo m
  exact ⟨rfl, rfl, rfl, RequiresEased.sortRequires hbound, rfl, rfl, rfl, rfl⟩

end EvidenceBase

/-! ## All modules -/

namespace ModuleInfos

variable {infos infos' : ModuleInfos}

/-- The second map has the modules of the first one, eased. -/
abbrev Eased (infos infos' : ModuleInfos) : Prop := MapRel ModuleInfo.Eased infos infos'

/-- The permits are made to agree with the same edges. -/
theorem Eased.edges_eq (h : infos.Eased infos') : infos'.edges = infos.edges := by
  have hedges : List.Forall₂ Eq infos.edges infos'.edges := by
    unfold edges
    refine List.rel_flatMap (MapRel.forall₂_values h) fun info info' hinfo => ?_
    refine List.rel_map (fun d e hde => ?_) hinfo.requires
    rw [hde.module_eq, hde.moduleName_eq, hde.isLocal_eq, hinfo.name_eq]
  rw [List.forall₂_eq_eq_eq] at hedges
  exact hedges.symm

variable {test : ModuleInfo → Bool}

theorem Eased.alike_permitIf (htest : ∀ info info', info.Eased info' → test info' = test info)
    (h : infos.Eased infos') (edge : Edge) :
    Alike (fun r s => r.1.Eased s.1 ∧ s.2 = r.2) (permitIf test infos edge)
      (permitIf test infos' edge) := by
  have hedge := h edge.target
  unfold permitIf
  generalize infos[edge.target]? = x at *
  generalize infos'[edge.target]? = y at *
  cases hedge with
  | none => exact .error
  | some hinfo =>
    dsimp only
    rw [htest _ _ hinfo]
    split_ifs
    · refine (hinfo.alike_addPermit _).bind fun r s hrs => ?_
      exact ⟨h.insert _ hrs.1, by rw [hrs.2]⟩
    · exact ⟨h, rfl⟩

theorem Eased.permitAll (test : ModuleInfo → Bool)
    (htest : ∀ info info', info.Eased info' → test info' = test info) :
    ∀ (edges : List Edge) {infos infos' : ModuleInfos} (added : Nat), infos.Eased infos' →
      (permitAll test infos added edges).1.Eased (permitAll test infos' added edges).1 ∧
        Alike Eq (permitAll test infos added edges).2 (permitAll test infos' added edges).2
  | [], _, _, _, h => ⟨h, rfl⟩
  | edge :: edges, infos, infos', added, h => by
    rw [ModuleInfos.permitAll, ModuleInfos.permitAll]
    obtain ⟨r, s, hr, hs, hrs, hmore⟩ | ⟨_, _, hr, hs⟩ := (h.alike_permitIf htest edge).ok_or_error
    · rw [hr, hs]
      dsimp only
      rw [hmore]
      exact Eased.permitAll test htest edges _ hrs
    · rw [hr, hs]
      exact ⟨h, .error⟩

theorem Eased.fixPermits (h : infos.Eased infos') :
    infos.fixPermits.1.Eased infos'.fixPermits.1 ∧
      Alike Eq infos.fixPermits.2 infos'.fixPermits.2 := by
  unfold ModuleInfos.fixPermits
  rw [h.edges_eq]
  have hlocal := Eased.permitAll (fun _ => true) (fun _ _ _ => rfl)
    (infos.edges.filter (·.isLocal)) 0 h
  dsimp only
  generalize ModuleInfos.permitAll (fun _ => true) infos 0 _ = r at *
  generalize ModuleInfos.permitAll (fun _ => true) infos' 0 _ = s at *
  obtain ⟨infos₁, x⟩ := r
  obtain ⟨infos₁', y⟩ := s
  obtain ⟨h₁, hxy⟩ := hlocal
  obtain ⟨added, added', rfl, rfl, heq⟩ | ⟨_, _, rfl, rfl⟩ := Alike.ok_or_error hxy
  · obtain rfl : added = added' := heq
    refine Eased.permitAll _ (fun info info' hinfo => ?_) _ _ h₁
    rw [hinfo.permits_eq]
  · exact ⟨h₁, .error⟩

theorem Eased.freeze (h : infos.Eased infos') : infos.freeze.Eased infos'.freeze :=
  h.map fun _ _ _ hinfo => { hinfo with frozen_eq := rfl }

end ModuleInfos

namespace EvidenceBase

variable {base : EvidenceBase} {policy : ExporterPolicy} {infos infos' : ModuleInfos}

theorem alike_finishInto (hboot : policy.boot = none) (h : infos.Eased infos')
    {entry entry' : ModuleId × Dependences} (hid : entry.1 = entry'.1)
    (hdeps : entry.2.Eased entry'.2) :
    Alike ModuleInfos.Eased (base.finishInto policy infos entry).result
      (base.finishInto policy infos' entry').result := by
  simp only [finishInto, Logged.result_bind, ← hid, h.contains_eq]
  refine (alike_finish hboot hdeps).bind fun info info' hinfo => ?_
  split_ifs
  · exact .error
  · exact h.insert _ hinfo

end EvidenceBase

namespace BuildPlan

variable {policy : ExporterPolicy} {a b : Collected}

/-- What was collected, with eased dependences. -/
structure Collected.Eased (a b : Collected) : Prop where
  base_eq : b.base = a.base
  split_eq : b.split = a.split
  edges : MapRel Dependences.Eased a.edges b.edges

theorem Collected.Eased.alike_finishAll (h : a.Eased b) (hboot : policy.boot = none) :
    Alike ModuleInfos.Eased (finishAll policy a).result (finishAll policy b).result := by
  simp only [finishAll, Logged.result_bind, Logged.result_foldlM, h.base_eq]
  refine (Alike.foldlM h.edges.forall₂_toList .empty fun _ _ _ _ hinfos hentry =>
    EvidenceBase.alike_finishInto hboot hinfos hentry.1 hentry.2).bind fun infos infos' hinfos => ?_
  obtain ⟨hfixed, hxy⟩ := ModuleInfos.Eased.fixPermits hinfos
  generalize infos.fixPermits = r at *
  generalize infos'.fixPermits = s at *
  obtain ⟨infos₁, x⟩ := r
  obtain ⟨infos₁', y⟩ := s
  obtain ⟨added, added', rfl, rfl, -⟩ | ⟨_, _, rfl, rfl⟩ := Alike.ok_or_error hxy
  · exact ModuleInfos.Eased.freeze hfixed
  · exact .error

end BuildPlan

end ModuleGraph
