import ModuleGraph.Proofs.Dependences.Summary
import ModuleGraph.Resolution.Evidence

/-!
# The evidence that is collected

`EvidenceBase.Evidence` lists the four kinds of evidence that a top-level module has for its
dependences, without saying when which piece is found. The dependences that are collected for the
module are the sum of all of it that leads to other modules (`BuildPlan.ends_dependencesOf`).
-/

namespace ModuleGraph

/-- The errors of collecting dependences. -/
inductive EvidenceError : BuildError → Prop where
  | unknownModule (name context : String) : EvidenceError (.unknownModule name context)
  | conflict {e : BuildError} (h : ConflictError e) : EvidenceError e

namespace EvidenceBase

variable {base : EvidenceBase} {plan : BuildPlan} {top : ModuleId} {deps : Dependences}
  {E : Dependence → Prop}

/-- The dependence on what a name leads to: on a module, or on a view of it. -/
def towards (base : EvidenceBase) (target : ModuleId × Option String) (modifiers : Modifiers) :
    Dependence where
  target := target.2.getD (base.table.name target.1)
  module := target.1
  moduleName := base.table.name target.1
  modifiers := modifiers

/-- The dependence that a reference into another group gives rise to. It is on a named view if one
exports the package. -/
def across (base : EvidenceBase) (plan : BuildPlan) (source target : ClassEntry)
    (group : ModuleId) : Dependence where
  target := ((View.forPackage? (base.surfaces.viewsOf group) target.package).filter
    (·.kind == .named)).elim (base.table.name group) (·.name)
  module := group
  moduleName := base.table.name group
  modifiers := { isOptional := plan.classifier source target }
  isInternal := !plan.options.exported.admits target.package

/-- What a requirement asks for. -/
def Asks (base : EvidenceBase) (requirement : Requirement) (dep : Dependence) : Prop :=
  ∃ target, base.surfaces.resolve? base.table requirement.name = some target ∧
    dep = base.towards target requirement.modifiers

/-- What a top-level module has for its dependences. -/
inductive Evidence (base : EvidenceBase) (plan : BuildPlan) (top : ModuleId) :
    Dependence → Prop where
  /-- A module of the group requires it. -/
  | required {m : Module} {requirement : Requirement} {dep : Dependence} :
      m ∈ base.table.groupModules top → requirement ∈ m.requires → base.Asks requirement dep →
        Evidence base plan top dep
  /-- A class of the module refers to an owned class. -/
  | referenced {c d : ClassId} {source target : ClassEntry} {owner : ModuleId} :
      c ∈ base.table.classes top → base.registry.classes[c]? = some source →
        d ∈ source.references → base.registry.classes[d]? = some target →
        target.owner = some owner →
        Evidence base plan top (base.across plan source target (base.table.group owner))
  /-- It owns the main class of a module of the group. -/
  | mainClass {m : Module} {name : String} {c : ClassId} {owner : ModuleId} :
      m ∈ base.table.groupModules top → m.spec.mainClass = some name →
        base.registry.findClass name = some c → base.registry.classOwner c = some owner →
        Evidence base plan top (base.towards (base.table.group owner, none) {})
  /-- An edge to it is declared; optional edges of a foundational module do not count. -/
  | declared {m : Module} {edge : Requirement} {dep : Dependence} :
      m ∈ base.table.groupModules top → edge ∈ plan.declared.leaving m.name →
        ¬(base.table.isBase top ∧ edge.modifiers.isOptional) → base.Asks edge dep →
        Evidence base plan top dep

theorem Evidence.moduleName_eq {dep : Dependence} (h : base.Evidence plan top dep) :
    dep.moduleName = base.table.name dep.module := by
  cases h with
  | required _ _ hasks =>
    obtain ⟨target, -, rfl⟩ := hasks
    rfl
  | referenced => rfl
  | mainClass => rfl
  | declared _ _ _ hasks =>
    obtain ⟨target, -, rfl⟩ := hasks
    rfl

/-! ## One piece of evidence -/

theorem ends_named (base : EvidenceBase) (requirement : Requirement) (context : String) :
    Ends (base.named requirement context)
      (fun dep => ∀ e, base.Asks requirement e ↔ e = dep) EvidenceError := by
  unfold named Asks
  cases base.surfaces.resolve? base.table requirement.name with
  | none => exact .unknownModule _ _
  | some target =>
    obtain ⟨D, view⟩ := target
    intro e
    simp only [Option.some.injEq, exists_eq_left']
    cases view <;> rfl

theorem ends_addOther (top : ModuleId) (h : deps.Summarizes E) (requester : String)
    (dep : Dependence) {P : Dependence → Prop} (hP : ∀ e, P e ↔ e = dep) :
    Ends (if dep.module = top then .ok deps else deps.add requester dep)
      (fun deps' => deps'.Summarizes fun e => E e ∨ (P e ∧ e.module ≠ top)) EvidenceError := by
  split_ifs with htop
  · refine h.congr fun e => ?_
    rw [hP]
    constructor
    · exact .inl
    · intro hor
      rcases hor with he | ⟨rfl, hne⟩
      · exact he
      · exact absurd htop hne
  · refine (h.ends_add requester dep).mono (fun deps' h' => h'.congr fun e => ?_) fun _ => .conflict
    rw [hP]
    constructor
    · intro hor
      rcases hor with he | rfl
      · exact .inl he
      · exact .inr ⟨rfl, htop⟩
    · intro hor
      rcases hor with he | ⟨rfl, -⟩
      · exact .inl he
      · exact .inr rfl

theorem ends_addRequired (h : deps.Summarizes E) (context : String) (requirement : Requirement) :
    Ends (base.addRequired top context deps requirement).result
      (fun deps' => deps'.Summarizes fun e => E e ∨ (base.Asks requirement e ∧ e.module ≠ top))
      EvidenceError := by
  simp only [addRequired, Logged.result_bind, Logged.result_liftM]
  refine (ends_named base requirement context).bind fun dep hdep => ?_
  have hadd := ends_addOther top h (base.table.name top) dep hdep
  split_ifs at hadd ⊢
  · exact hadd
  · exact hadd

/-- The pieces of evidence in one class. -/
def Refers (base : EvidenceBase) (plan : BuildPlan) (c : ClassId) (dep : Dependence) : Prop :=
  ∃ source target owner, ∃ d : ClassId, base.registry.classes[c]? = some source ∧
    d ∈ source.references ∧ base.registry.classes[d]? = some target ∧
    target.owner = some owner ∧ dep = base.across plan source target (base.table.group owner)

theorem ofReference?_eq_some_iff {source target : ClassEntry} {dep : Dependence} :
    base.ofReference? plan top source target = some dep ↔
      ∃ owner, target.owner = some owner ∧
        dep = base.across plan source target (base.table.group owner) ∧ dep.module ≠ top := by
  unfold ofReference?
  rw [Option.bind_eq_some_iff]
  refine exists_congr fun owner => and_congr_right fun _ => ?_
  dsimp only
  split_ifs with htop
  · constructor
    · intro hex
      cases hex
    · intro hex
      obtain ⟨rfl, hne⟩ := hex
      exact absurd htop hne
  · unfold across
    cases (View.forPackage? (base.surfaces.viewsOf (base.table.group owner))
        target.package).filter (·.kind == .named) with
    | none =>
      constructor
      · intro hex
        cases hex
        exact ⟨rfl, htop⟩
      · intro hex
        obtain ⟨rfl, -⟩ := hex
        rfl
    | some view =>
      constructor
      · intro hex
        cases hex
        exact ⟨rfl, htop⟩
      · intro hex
        obtain ⟨rfl, -⟩ := hex
        rfl

theorem mem_referencePairs {c : ClassId} {source target : ClassEntry} :
    (source, target) ∈ base.referencePairs c ↔ base.registry.classes[c]? = some source ∧
      ∃ d : ClassId, d ∈ source.references ∧ base.registry.classes[d]? = some target := by
  unfold referencePairs
  cases base.registry.classes[c]? with
  | none => simp
  | some entry =>
    simp only [List.mem_filterMap, Std.TreeSet.mem_toList, Option.map_eq_some_iff, Prod.mk.injEq,
      Option.some.injEq]
    constructor
    · intro hex
      obtain ⟨d, hd, target', htarget, rfl, rfl⟩ := hex
      exact ⟨rfl, d, hd, htarget⟩
    · intro hex
      obtain ⟨rfl, d, hd, htarget⟩ := hex
      exact ⟨d, hd, target, htarget, rfl, rfl⟩

theorem ends_addReferences (h : deps.Summarizes E) (c : ClassId) :
    Ends (base.addReferences plan top deps c)
      (fun deps' => deps'.Summarizes fun e => E e ∨ (base.Refers plan c e ∧ e.module ≠ top))
      EvidenceError := by
  unfold addReferences
  refine (h.ends_foldlM (fun dep e => e = dep) fun dep _ E deps h => h.ends_add _ dep).mono
    (fun deps' h' => h'.congr fun e => or_congr_right ?_) fun _ => .conflict
  simp only [List.mem_filterMap, Prod.exists, mem_referencePairs, ofReference?_eq_some_iff]
  constructor
  · intro hex
    obtain ⟨dep, ⟨source, target, ⟨hs, d, hd, ht⟩, owner, ho, hdep, hne⟩, rfl⟩ := hex
    exact ⟨⟨source, target, owner, d, hs, hd, ht, ho, hdep⟩, hne⟩
  · intro hex
    obtain ⟨⟨source, target, owner, d, hs, hd, ht, ho, hdep⟩, hne⟩ := hex
    exact ⟨e, ⟨source, target, ⟨hs, d, hd, ht⟩, owner, ho, hdep, hne⟩, rfl⟩

/-- The piece of evidence in a main class. -/
def Starts (base : EvidenceBase) (name : String) (dep : Dependence) : Prop :=
  ∃ c owner, base.registry.findClass name = some c ∧ base.registry.classOwner c = some owner ∧
    dep = base.towards (base.table.group owner, none) {}

theorem ends_addMainClass (h : deps.Summarizes E) (name : String) :
    Ends (base.addMainClass top deps name).result
      (fun deps' => deps'.Summarizes fun e => E e ∨ (base.Starts name e ∧ e.module ≠ top))
      EvidenceError := by
  unfold addMainClass Starts
  cases hc : base.registry.findClass name with
  | none =>
    refine h.congr fun e => ?_
    simp
  | some c =>
    simp only [Option.bind_some]
    cases ho : base.registry.classOwner c with
    | none =>
      refine h.congr fun e => ?_
      simp [ho]
    | some owner =>
      have hadd := ends_addOther top h (base.table.name top)
        (base.towards (base.table.group owner, none) {}) fun _ => Iff.rfl
      simp only [Option.some.injEq, exists_and_left, exists_eq_left', ho]
      split_ifs with htop
      · rw [if_pos (by exact htop)] at hadd
        exact hadd
      · rw [if_neg (by exact htop)] at hadd
        exact hadd

theorem ends_addDeclared (h : deps.Summarizes E) (context : String) (edge : Requirement) :
    Ends (base.addDeclared top context deps edge).result
      (fun deps' => deps'.Summarizes fun e => E e ∨
        ((¬(base.table.isBase top ∧ edge.modifiers.isOptional) ∧ base.Asks edge e) ∧
          e.module ≠ top))
      EvidenceError := by
  unfold addDeclared
  dsimp only
  split_ifs with hbase
  · rw [Bool.and_eq_true] at hbase
    refine h.congr fun e => ?_
    simp [hbase]
  · rw [Bool.and_eq_true] at hbase
    simp only [Logged.result_bind, Logged.result_liftM]
    refine (ends_named base edge context).bind fun dep hdep => ?_
    have hadd := ends_addOther top h (base.table.name top) dep hdep
    simp only [hbase, not_false_eq_true, true_and]
    split_ifs at hadd ⊢
    · exact hadd
    · exact hadd

/-! ## All evidence -/

/-- The evidence that leads to other modules, in the order in which it is collected. -/
theorem evidence_iff {e : Dependence} : base.Evidence plan top e ∧ e.module ≠ top ↔
    (((∃ m ∈ base.table.groupModules top, ∃ r ∈ m.requires, base.Asks r e ∧ e.module ≠ top) ∨
      ∃ c ∈ base.table.classes top, base.Refers plan c e ∧ e.module ≠ top) ∨
      ∃ name ∈ (base.table.groupModules top).filterMap (·.spec.mainClass),
        base.Starts name e ∧ e.module ≠ top) ∨
      ∃ m ∈ base.table.groupModules top, ∃ edge ∈ plan.declared.leaving m.name,
        (¬(base.table.isBase top ∧ edge.modifiers.isOptional) ∧ base.Asks edge e) ∧
          e.module ≠ top := by
  simp only [List.mem_filterMap]
  constructor
  · intro hex
    obtain ⟨he, hne⟩ := hex
    cases he with
    | required hm hr hasks => exact .inl (.inl (.inl ⟨_, hm, _, hr, hasks, hne⟩))
    | referenced hc hs hd ht ho =>
      exact .inl (.inl (.inr ⟨_, hc, ⟨_, _, _, _, hs, hd, ht, ho, rfl⟩, hne⟩))
    | mainClass hm hmain hc ho =>
      exact .inl (.inr ⟨_, ⟨_, hm, hmain⟩, ⟨_, _, hc, ho, rfl⟩, hne⟩)
    | declared hm hedge hbase hasks => exact .inr ⟨_, hm, _, hedge, ⟨hbase, hasks⟩, hne⟩
  · intro hor
    rcases hor with ((⟨m, hm, r, hr, hasks, hne⟩ | ⟨c, hc, hrefers, hne⟩) |
      ⟨name, hname, hstarts, hne⟩) | ⟨m, hm, edge, hedge, ⟨hbase, hasks⟩, hne⟩
    · exact ⟨.required hm hr hasks, hne⟩
    · obtain ⟨source, target, owner, d, hs, hd, ht, ho, rfl⟩ := hrefers
      exact ⟨.referenced hc hs hd ht ho, hne⟩
    · obtain ⟨m, hm, hmain⟩ := hname
      obtain ⟨c, owner, hc, ho, rfl⟩ := hstarts
      exact ⟨.mainClass hm hmain hc ho, hne⟩
    · exact ⟨.declared hm hedge hbase hasks, hne⟩

end EvidenceBase

open EvidenceBase in
/-- The dependences of a top-level module are the sum of the evidence that leads to other
modules. -/
theorem BuildPlan.ends_dependencesOf (plan : BuildPlan) (base : EvidenceBase) (top : ModuleId) :
    Ends (plan.dependencesOf base top).result
      (fun deps => deps.Summarizes fun e => base.Evidence plan top e ∧ e.module ≠ top)
      EvidenceError := by
  simp only [dependencesOf, Logged.result_bind, Logged.result_foldlM, Logged.result_ofExcept,
    Logged.result_emit, Logged.result_pure]
  refine (Dependences.Summarizes.empty.ends_foldlM
    (fun m e => ∃ r ∈ m.requires, base.Asks r e ∧ e.module ≠ top) fun m _ E deps h =>
      h.ends_foldlM _ fun requirement _ E deps h => ends_addRequired h _ requirement).bind
    fun deps h => ?_
  refine (h.ends_foldlM (fun c e => base.Refers plan c e ∧ e.module ≠ top)
    fun c _ E deps h => ends_addReferences h c).bind fun deps h => ?_
  refine (h.ends_foldlM (fun name e => base.Starts name e ∧ e.module ≠ top)
    fun name _ E deps h => ends_addMainClass h name).bind fun deps h => ?_
  refine (h.ends_foldlM
    (fun m e => ∃ edge ∈ plan.declared.leaving m.name,
      (¬(base.table.isBase top ∧ edge.modifiers.isOptional) ∧ base.Asks edge e) ∧ e.module ≠ top)
    fun m _ E deps h => h.ends_foldlM _ fun edge _ E deps h => ends_addDeclared h _ edge).bind
    fun deps h => ?_
  refine h.congr fun e => ?_
  rw [evidence_iff]
  simp only [false_or]

end ModuleGraph
