import ModuleGraph.Proofs.Dependences.Evidence
import ModuleGraph.Proofs.Dependences.Exact
import ModuleGraph.Proofs.Renaming.Partitions

/-!
# Evidence up to the numbers of classes

Evidence mentions classes by what their entries say. References are gone through in the order of
numbers, so a renaming changes the order in which their evidence is added up, but neither the set of
it nor, therefore, the sums (`EvidenceBase.Renamed.alike_dependencesOf`). All other evidence is the
same and comes in the same order.
-/

namespace ModuleGraph

variable {σ : Equiv.Perm ClassId}

/-- Whether a reference is optional is decided by the names at its ends. -/
def BuildPlan.ByName (plan : BuildPlan) : Prop :=
  ∀ e f e' f' : ClassEntry, e'.name = e.name → f'.name = f.name →
    plan.classifier e' f' = plan.classifier e f

/-- The same ground for dependences, with the classes renumbered. -/
structure EvidenceBase.Renamed (σ : Equiv.Perm ClassId) (b b' : EvidenceBase) : Prop where
  table : b.table.Renamed σ b'.table
  registry : b.registry.Renamed σ b'.registry
  views_eq : b'.surfaces.views = b.surfaces.views
  owners_eq : b'.surfaces.owners = b.surfaces.owners

namespace EvidenceBase

/-- The dependences that the references of the classes of a module give rise to. -/
def referred (base : EvidenceBase) (plan : BuildPlan) (top : ModuleId) : List Dependence :=
  (base.table.classes top).flatMap fun c =>
    (base.referencePairs c).filterMap fun (source, target) =>
      base.ofReference? plan top source target

theorem mem_referred {base : EvidenceBase} {plan : BuildPlan} {top : ModuleId} {e : Dependence} :
    e ∈ base.referred plan top ↔
      ∃ c ∈ base.table.classes top, base.Refers plan c e ∧ e.module ≠ top := by
  unfold referred
  simp only [List.mem_flatMap, List.mem_filterMap, Prod.exists, mem_referencePairs,
    ofReference?_eq_some_iff]
  refine exists_congr fun c => and_congr_right fun _ => ?_
  constructor
  · rintro ⟨source, target, ⟨hs, d, hd, ht⟩, owner, ho, rfl, hne⟩
    exact ⟨⟨source, target, owner, d, hs, hd, ht, ho, rfl⟩, hne⟩
  · rintro ⟨⟨source, target, owner, d, hs, hd, ht, ho, rfl⟩, hne⟩
    exact ⟨source, target, ⟨hs, d, hd, ht⟩, owner, ho, rfl, hne⟩

/-- The references of all classes of a module are added one after the other. -/
theorem foldlM_addReferences (base : EvidenceBase) (plan : BuildPlan) (top : ModuleId)
    (deps : Dependences) :
    (base.table.classes top).foldlM (base.addReferences plan top) deps =
      (base.referred plan top).foldlM (·.add (base.table.name top) ·) deps := by
  unfold referred
  induction base.table.classes top generalizing deps with
  | nil => rfl
  | cons c l ih =>
    rw [List.foldlM_cons, List.flatMap_cons, List.foldlM_append]
    exact congrArg (_ >>= ·) (funext ih)

end EvidenceBase

namespace EvidenceBase.Renamed

open Dependences

variable {b b' : EvidenceBase} {plan : BuildPlan} {top : ModuleId} {deps deps' : Dependences}

theorem symm (h : b.Renamed σ b') : b'.Renamed σ.symm b :=
  ⟨h.table.symm, h.registry.symm, h.views_eq.symm, h.owners_eq.symm⟩

theorem viewsOf_eq (h : b.Renamed σ b') (id : ModuleId) :
    b'.surfaces.viewsOf id = b.surfaces.viewsOf id := by
  unfold Surfaces.viewsOf
  rw [h.views_eq]

theorem named_eq (h : b.Renamed σ b') (requirement : Requirement) (context : String) :
    b'.named requirement context = b.named requirement context := by
  have hresolve : b'.surfaces.resolve? b'.table requirement.name =
      b.surfaces.resolve? b.table requirement.name := by
    unfold Surfaces.resolve?
    simp only [h.table.find_eq, h.table.group_eq, h.owners_eq]
  unfold named
  simp only [hresolve, h.table.name_eq]

theorem ends_named_named (base : EvidenceBase) (requirement : Requirement) (context : String) :
    Ends (base.named requirement context) (Named base.table.name) fun _ => True := by
  unfold named
  cases base.surfaces.resolve? base.table requirement.name with
  | none => trivial
  | some target =>
    obtain ⟨D, view⟩ := target
    cases view <;> exact ⟨rfl, rfl⟩

/-! ## One piece of evidence -/

theorem alike_addRequired (h : b.Renamed σ b') (hdeps : Match b.table.name deps deps')
    (context : String) (requirement : Requirement) :
    Alike (Match b.table.name) (b.addRequired top context deps requirement).result
      (b'.addRequired top context deps' requirement).result := by
  simp only [addRequired, Logged.result_bind, Logged.result_liftM, h.named_eq, h.table.name_eq]
  have hnamed := ends_named_named b requirement context
  generalize b.named requirement context = x at *
  cases x with
  | error e => exact .error
  | ok dep =>
    show Alike _ (Logged.result _) (Logged.result _)
    split_ifs
    · exact hdeps
    · exact hdeps.alike_add _ hnamed

theorem alike_addMainClass (h : b.Renamed σ b') (hdeps : Match b.table.name deps deps')
    (mainClass : String) :
    Alike (Match b.table.name) (b.addMainClass top deps mainClass).result
      (b'.addMainClass top deps' mainClass).result := by
  have howner : (b'.registry.findClass mainClass).bind b'.registry.classOwner =
      (b.registry.findClass mainClass).bind b.registry.classOwner := by
    rw [h.registry.findClass]
    cases b.registry.findClass mainClass with
    | none => rfl
    | some c => exact h.registry.classOwner_eq c
  simp only [addMainClass, howner, h.table.name_eq, h.table.group_eq]
  split
  · exact hdeps
  · split_ifs
    · exact hdeps
    · exact hdeps.alike_add _ ⟨rfl, rfl⟩

theorem alike_addDeclared (h : b.Renamed σ b') (hdeps : Match b.table.name deps deps')
    (context : String) (edge : Requirement) :
    Alike (Match b.table.name) (b.addDeclared top context deps edge).result
      (b'.addDeclared top context deps' edge).result := by
  simp only [addDeclared, h.table.isBase_eq, h.table.name_eq]
  split_ifs
  · exact hdeps
  · simp only [Logged.result_bind, Logged.result_liftM, h.named_eq]
    have hnamed := ends_named_named b edge context
    generalize b.named edge context = x at *
    cases x with
    | error e => exact .error
    | ok dep =>
      show Alike _ (Logged.result _) (Logged.result _)
      split_ifs
      · exact hdeps
      · exact hdeps.alike_add _ hnamed

/-! ## References -/

theorem across_eq (h : b.Renamed σ b') (hplan : plan.ByName)
    {source target source' target' : ClassEntry} (hsource : source.Renamed σ source')
    (htarget : target.Renamed σ target') (group : ModuleId) :
    b'.across plan source' target' group = b.across plan source target group := by
  unfold across
  rw [h.viewsOf_eq, h.table.name_eq, htarget.package_eq,
    hplan source target source' target' hsource.name_eq htarget.name_eq]

theorem refers (h : b.Renamed σ b') (hplan : plan.ByName) {c : ClassId} {e : Dependence}
    (he : b.Refers plan c e) : b'.Refers plan (σ c) e := by
  obtain ⟨source, target, owner, d, hs, hd, ht, ho, rfl⟩ := he
  obtain ⟨source', hs', hsource⟩ := rel_exists (h.registry.classes c) hs
  obtain ⟨target', ht', htarget⟩ := rel_exists (h.registry.classes d) ht
  refine ⟨source', target', owner, σ d, hs', (hsource.mem_references d).1 hd, ht',
    htarget.owner_eq.trans ho, ?_⟩
  rw [h.table.group_eq, h.across_eq hplan hsource htarget]

theorem mem_referred (h : b.Renamed σ b') (hplan : plan.ByName) {e : Dependence}
    (he : e ∈ b.referred plan top) : e ∈ b'.referred plan top := by
  rw [EvidenceBase.mem_referred] at he ⊢
  obtain ⟨c, hc, hrefers, hne⟩ := he
  exact ⟨σ c, h.table.mem_classes.1 hc, h.refers hplan hrefers, hne⟩

theorem alike_addReferences (h : b.Renamed σ b') (hplan : plan.ByName)
    (hdeps : Match b.table.name deps deps') :
    Alike (Match b.table.name) ((b.table.classes top).foldlM (b.addReferences plan top) deps)
      ((b'.table.classes top).foldlM (b'.addReferences plan top) deps') := by
  rw [foldlM_addReferences, foldlM_addReferences, h.table.name_eq]
  refine alike_foldlM_add hdeps _ (fun e => ⟨h.mem_referred hplan, h.symm.mem_referred hplan⟩)
    fun e he => ?_
  obtain ⟨c, -, ⟨source, target, owner, d, -, -, -, -, rfl⟩, -⟩ := EvidenceBase.mem_referred.1 he
  exact ⟨rfl, rfl⟩

/-! ## All evidence -/

theorem alike_dependencesOf (h : b.Renamed σ b') (hplan : plan.ByName) (top : ModuleId) :
    Alike (Match b.table.name) (plan.dependencesOf b top).result
      (plan.dependencesOf b' top).result := by
  simp only [BuildPlan.dependencesOf, Logged.result_bind, Logged.result_foldlM,
    Logged.result_ofExcept, Logged.result_emit, Logged.result_pure]
  -- what the loops read of the members is the same
  rw [h.table.groupModules_congr (fun l => l.foldlM (fun deps m => m.requires.foldlM
      (fun deps r => (b'.addRequired top s!"requires of \"{m.name}\"" deps r).result) deps) {})
      (fun l => by rw [List.foldlM_map]; rfl),
    h.table.groupModules_congr (fun l => l.filterMap (·.spec.mainClass))
      (fun l => by rw [List.filterMap_map]; rfl)]
  refine Alike.bind (R := Match b.table.name) ?required fun deps₁ deps₁' h₁ => ?_
  case required =>
    exact Alike.foldlM_same _ match_empty fun deps deps' m hdeps _ => Alike.foldlM_same _ hdeps
      fun deps deps' r hdeps _ => h.alike_addRequired hdeps _ r
  refine (h.alike_addReferences hplan h₁).bind fun deps₂ deps₂' h₂ => ?_
  refine (Alike.foldlM_same _ h₂ fun deps deps' mainClass hdeps _ =>
    h.alike_addMainClass hdeps mainClass).bind fun deps₃ deps₃' h₃ => ?_
  rw [h.table.groupModules_congr (fun l => l.foldlM
      (fun deps m => (plan.declared.leaving m.name).foldlM
        (fun deps edge =>
          (b'.addDeclared top s!"dependency from \"{m.name}\"" deps edge).result) deps) deps₃')
      (fun l => by rw [List.foldlM_map]; rfl)]
  refine Alike.bind (R := Match b.table.name) ?declared fun _ _ h₄ => ?_
  case declared =>
    exact Alike.foldlM_same _ h₃ fun deps deps' m hdeps _ => Alike.foldlM_same _ hdeps
      fun deps deps' edge hdeps _ => h.alike_addDeclared hdeps _ edge
  exact h₄

end EvidenceBase.Renamed

end ModuleGraph
