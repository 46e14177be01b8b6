import ModuleGraph.Proofs.Dependences.Evidence
import ModuleGraph.Proofs.RelatedMaps
import ModuleGraph.Proofs.SplitPackages

/-!
# Dependences that become optional

A dependence is eased if it becomes optional and is the same otherwise. A merge is optional only if
both of its parts are, and no conflict is about optional dependences, so sums of eased evidence are
eased sums. A test that calls more references optional eases the evidence that references give, and
all other evidence stays as it is.

* `Dependence.Eased.alike_merge`: two dependences.
* `BuildPlan.alike_dependencesOf`: all dependences of a module.
-/

namespace ModuleGraph

namespace Dependence

variable {d e d' e' : Dependence}

/-- The second dependence is the first one, or the first one made optional. -/
structure Eased (d e : Dependence) : Prop where
  target_eq : e.target = d.target
  module_eq : e.module = d.module
  moduleName_eq : e.moduleName = d.moduleName
  isPublic_eq : e.modifiers.isPublic = d.modifiers.isPublic
  isLocal_eq : e.modifiers.isLocal = d.modifiers.isLocal
  isInternal_eq : e.isInternal = d.isInternal
  view_eq : e.view = d.view
  isOptional : d.modifiers.isOptional → e.modifiers.isOptional

namespace Eased

theorem refl (d : Dependence) : d.Eased d := by
  constructor <;> simp

theorem targetsView_eq (h : d.Eased e) : e.targetsView = d.targetsView := by
  unfold targetsView
  rw [h.target_eq, h.moduleName_eq]

theorem bringsView_eq (h : d.Eased e) (h' : d'.Eased e') : e.bringsView e' = d.bringsView d' := by
  unfold bringsView
  rw [h'.targetsView_eq, h.target_eq, h'.target_eq]

/-- A conflict is one of names, and the sum of eased dependences is eased. -/
theorem alike_merge (h : d.Eased e) (h' : d'.Eased e') (requester : String) :
    Alike (fun r s => r.1.Eased s.1) (d.merge requester d') (e.merge requester e') := by
  unfold merge
  rw [h.bringsView_eq h', h.targetsView_eq]
  split_ifs
  · exact .error
  · exact {
      target_eq := by rw [h.target_eq, h'.target_eq]
      module_eq := h.module_eq
      moduleName_eq := h.moduleName_eq
      isPublic_eq := by simp only [Modifiers.combine, h.isPublic_eq, h'.isPublic_eq]
      isLocal_eq := by simp only [Modifiers.combine, h.isLocal_eq, h'.isLocal_eq]
      isInternal_eq := by rw [h.isInternal_eq, h'.isInternal_eq]
      view_eq := h.view_eq
      isOptional := by
        simp only [Modifiers.combine, Bool.and_eq_true]
        exact And.imp h.isOptional h'.isOptional }

theorem promoteIf (h : d.Eased e) (condition : Prop) [Decidable condition] :
    (SplitPackages.promoteIf condition d).Eased (SplitPackages.promoteIf condition e) := by
  unfold SplitPackages.promoteIf
  split_ifs
  · exact { h with isLocal_eq := rfl }
  · exact h

end Eased

end Dependence

/-! ## Maps of dependences -/

namespace Dependences

variable {deps deps' : Dependences} {d e : Dependence}

/-- The second map has the dependences of the first one, eased. -/
abbrev Eased (deps deps' : Dependences) : Prop := MapRel Dependence.Eased deps deps'

theorem Eased.alike_add (h : deps.Eased deps') (hde : d.Eased e) (requester : String) :
    Alike Eased (deps.add requester d) (deps'.add requester e) := by
  have hD := h d.module
  unfold Dependences.add
  rw [hde.module_eq]
  generalize deps[d.module]? = x at *
  generalize deps'[d.module]? = y at *
  cases hD with
  | none => exact h.insert _ hde
  | some hold =>
    obtain ⟨r, s, hr, hs, hrs⟩ | ⟨_, _, hr, hs⟩ := (hold.alike_merge hde requester).ok_or_error
    · dsimp only
      rw [hr, hs]
      exact h.insert _ hrs
    · dsimp only
      rw [hr, hs]
      exact .error

end Dependences

theorem SplitPackages.eased_promoted (split : SplitPackages) (X : ModuleId)
    {deps deps' : Dependences} (h : deps.Eased deps') :
    (split.promoted X deps).Eased (split.promoted X deps') := by
  intro D
  rw [getElem?_promoted, getElem?_promoted]
  exact rel_map (h D) fun _ _ hde => hde.promoteIf _

/-! ## Evidence -/

/-- The plan with another test for optional references. -/
def BuildPlan.withClassifier (plan : BuildPlan) (classifier : Classifier) : BuildPlan :=
  { plan with classifier }

@[simp] theorem BuildPlan.withClassifier_withClassifier (plan : BuildPlan)
    (classifier classifier' : Classifier) :
    (plan.withClassifier classifier).withClassifier classifier' =
      plan.withClassifier classifier' := rfl

/-- Between classes of the registry, the second test calls every reference optional that the first
one does. -/
def Registry.Widens (registry : Registry) (narrow wide : Classifier) : Prop :=
  ∀ (c d : ClassId) (source target : ClassEntry), registry.classes[c]? = some source →
    registry.classes[d]? = some target → narrow source target → wide source target

namespace EvidenceBase

variable {base : EvidenceBase} {plan : BuildPlan} {classifier : Classifier} {top : ModuleId}
  {deps deps' : Dependences}

theorem eased_ofReference? {source target : ClassEntry}
    (hwiden : plan.classifier source target → classifier source target) :
    Option.Rel Dependence.Eased (base.ofReference? plan top source target)
      (base.ofReference? (plan.withClassifier classifier) top source target) := by
  unfold ofReference?
  cases target.owner with
  | none => exact .none
  | some owner =>
    dsimp only [Option.bind_some]
    split_ifs
    · exact .none
    · -- on a view or not, only the test sees the difference
      cases (View.forPackage? (base.surfaces.viewsOf (base.table.group owner))
          target.package).filter (·.kind == .named) with
      | none => exact .some { Dependence.Eased.refl _ with isOptional := hwiden }
      | some view => exact .some { Dependence.Eased.refl _ with isOptional := hwiden }

theorem alike_addRequired (h : deps.Eased deps') (context : String) (requirement : Requirement) :
    Alike Dependences.Eased (base.addRequired top context deps requirement).result
      (base.addRequired top context deps' requirement).result := by
  simp only [addRequired, Logged.result_bind, Logged.result_liftM]
  refine Alike.bind_same _ fun dep => ?_
  split_ifs
  · exact h
  · exact h.alike_add (.refl dep) _

theorem alike_addReferences (h : deps.Eased deps')
    (hwiden : base.registry.Widens plan.classifier classifier) (c : ClassId) :
    Alike Dependences.Eased (base.addReferences plan top deps c)
      (base.addReferences (plan.withClassifier classifier) top deps' c) := by
  unfold addReferences
  refine Alike.foldlM (R := Dependence.Eased) ?_ h fun _ _ _ _ hdeps hde => hdeps.alike_add hde _
  refine List.rel_filterMap (R := fun a b => a = b ∧ a ∈ base.referencePairs c) ?_
    (List.forall₂_same.2 fun pair hpair => ⟨rfl, hpair⟩)
  rintro ⟨source, target⟩ _ ⟨rfl, hpair⟩
  obtain ⟨hsource, d, -, htarget⟩ := mem_referencePairs.1 hpair
  exact eased_ofReference? (hwiden c d source target hsource htarget)

theorem alike_addMainClass (h : deps.Eased deps') (mainClass : String) :
    Alike Dependences.Eased (base.addMainClass top deps mainClass).result
      (base.addMainClass top deps' mainClass).result := by
  simp only [addMainClass]
  split
  · exact h
  · split_ifs
    · exact h
    · exact h.alike_add (.refl _) _

theorem alike_addDeclared (h : deps.Eased deps') (context : String) (edge : Requirement) :
    Alike Dependences.Eased (base.addDeclared top context deps edge).result
      (base.addDeclared top context deps' edge).result := by
  simp only [addDeclared]
  split_ifs
  · exact h
  · simp only [Logged.result_bind, Logged.result_liftM]
    refine Alike.bind_same _ fun dep => ?_
    split_ifs
    · exact h
    · exact h.alike_add (.refl dep) _

end EvidenceBase

/-- With a wider test for optional references, the dependences of a module are eased. -/
theorem BuildPlan.alike_dependencesOf {plan : BuildPlan} {classifier : Classifier}
    (base : EvidenceBase) (hwiden : base.registry.Widens plan.classifier classifier)
    (top : ModuleId) :
    Alike Dependences.Eased (plan.dependencesOf base top).result
      ((plan.withClassifier classifier).dependencesOf base top).result := by
  simp only [dependencesOf, Logged.result_bind, Logged.result_foldlM, Logged.result_ofExcept,
    Logged.result_emit, Logged.result_pure]
  refine Alike.bind (R := Dependences.Eased) ?required fun deps₁ deps₁' h₁ => ?_
  case required =>
    exact Alike.foldlM_same _ .empty fun deps deps' m h _ => Alike.foldlM_same _ h
      fun deps deps' requirement h _ => EvidenceBase.alike_addRequired h _ requirement
  refine Alike.bind (R := Dependences.Eased) ?referred fun deps₂ deps₂' h₂ => ?_
  case referred =>
    exact Alike.foldlM_same _ h₁ fun deps deps' c h _ =>
      EvidenceBase.alike_addReferences h hwiden c
  refine Alike.bind (R := Dependences.Eased) ?mainClass fun deps₃ deps₃' h₃ => ?_
  case mainClass =>
    exact Alike.foldlM_same _ h₂ fun deps deps' mainClass h _ =>
      EvidenceBase.alike_addMainClass h mainClass
  refine Alike.bind (R := Dependences.Eased) ?declared fun deps₄ deps₄' h₄ => h₄
  case declared =>
    exact Alike.foldlM_same _ h₃ fun deps deps' m h _ => Alike.foldlM_same _ h
      fun deps deps' edge h _ => EvidenceBase.alike_addDeclared h _ edge

end ModuleGraph
