import ModuleGraph.Proofs.Dependences.Exact
import ModuleGraph.Proofs.Renaming.Evidence
import ModuleGraph.Proofs.Requires

/-!
# Evidence without conflicts

Collecting the dependences of a module succeeds only if no two pieces of evidence ask for different
views of one module, and then settles which view each dependence asks for. Evidence with such a
conflict is an error, whatever else there is (`BuildPlan.ends_dependencesOf_settle`). In a plain
build nothing that follows changes what a dependence asks for: an entry of a requires list asks for
the view that some evidence asks for, and for the module itself if none does
(`BuildPlan.Reconciled.settled_and_bound`).

`Dependences.Adds` says that a computation adds evidence to whatever has been added before; such
computations can be put in sequence.
-/

namespace ModuleGraph

namespace Dependences

variable {name : ModuleId → String} {requester : String} {P Q E E' : Dependence → Prop}
  {f g : Dependences → Except BuildError Dependences} {α : Type}

/-! ## Adding evidence -/

theorem Compatible.of_subset (h : Compatible E') (hE : ∀ e, E e → E' e) : Compatible E :=
  fun e e' he he' => h e e' (hE e he) (hE e' he')

/-- How the adding of evidence for a requester fails: over a name that is not known, or over two
pieces of it that ask for different views of one module. -/
inductive AddingError (requester : String) (E : Dependence → Prop) : BuildError → Prop where
  | unknownModule (name context : String) : AddingError requester E (.unknownModule name context)
  | conflict (existing incoming : String) (h : ¬Compatible E) :
      AddingError requester E (.conflictingDependence requester existing incoming)

theorem AddingError.mono {error : BuildError} (h : AddingError requester E error)
    (hE : ∀ e, E e → E' e) : AddingError requester E' error := by
  cases h with
  | unknownModule => exact .unknownModule _ _
  | conflict existing incoming h => exact .conflict _ _ fun h' => h (h'.of_subset hE)

/-- The computation adds evidence of a requester, under the names of modules, to whatever has been
added before. -/
structure Adds (name : ModuleId → String) (requester : String)
    (f : Dependences → Except BuildError Dependences) (P : Dependence → Prop) : Prop where
  named : ∀ e, P e → Named name e
  ends : ∀ {deps : Dependences} {E : Dependence → Prop}, deps.Settle E →
    (∀ e, E e → Named name e) →
    Ends (f deps) (fun deps' => deps'.Settle fun e => E e ∨ P e)
      (AddingError requester fun e => E e ∨ P e)

theorem Adds.congr (h : Adds name requester f P) (hPQ : ∀ e, P e ↔ Q e) :
    Adds name requester f Q := by
  have heq : P = Q := by
    funext e
    exact propext (hPQ e)
  exact heq ▸ h

theorem adds_nothing : Adds name requester .ok fun _ => False where
  named e he := he.elim
  ends h _ := h.congr fun e => by simp

theorem adds_unknown (hP : ∀ e, P e → Named name e) (module context : String) :
    Adds name requester (fun _ => .error (.unknownModule module context)) P where
  named := hP
  ends _ _ := .unknownModule _ _

theorem adds_add {dep : Dependence} (hdep : Named name dep) :
    Adds name requester (·.add requester dep) fun e => e = dep where
  named e he := he ▸ hdep
  ends {deps E} h hE := by
    have hends := h.ends_add hE requester hdep
    cases hadd : deps.add requester dep with
    | ok deps' => exact hends.of_ok hadd
    | error error =>
      have hconflict := hends.of_error hadd
      unfold Dependences.add at hadd
      cases hget : deps[dep.module]? with
      | none =>
        rw [hget] at hadd
        cases hadd
      | some existing =>
        rw [hget] at hadd
        dsimp only at hadd
        unfold Dependence.merge at hadd
        split_ifs at hadd
        cases hadd
        exact .conflict _ _ hconflict

theorem Adds.bind (hf : Adds name requester f P) (hg : Adds name requester g Q) :
    Adds name requester (fun deps => f deps >>= g) fun e => P e ∨ Q e where
  named e := fun he => he.elim (hf.named e) (hg.named e)
  ends {deps E} h hE := by
    have hor (e : Dependence) : (E e ∨ P e) ∨ Q e ↔ E e ∨ P e ∨ Q e := or_assoc
    refine ((hf.ends h hE).mono (fun _ h => h) fun error herror => ?_).bind fun deps' h' => ?_
    · exact herror.mono fun e he => (hor e).1 (.inl he)
    · refine (hg.ends h' fun e he => he.elim (hE e) (hf.named e)).mono
        (fun deps'' h'' => h''.congr hor) fun error herror => ?_
      exact herror.mono fun e => (hor e).1

/-- A loop adds the evidence of its steps. -/
theorem Adds.foldlM {step : Dependences → α → Except BuildError Dependences}
    {P : α → Dependence → Prop} {l : List α}
    (h : ∀ a ∈ l, Adds name requester (step · a) (P a)) :
    Adds name requester (fun deps => l.foldlM step deps) fun e => ∃ a ∈ l, P a e := by
  induction l with
  | nil => exact adds_nothing.congr fun e => by simp
  | cons a l ih =>
    refine ((h a List.mem_cons_self).bind
      (ih fun b hb => h b (List.mem_cons_of_mem _ hb))).congr fun e => ?_
    simp

/-- A piece of evidence is added unless it leads to the requester itself. -/
theorem adds_other (top : ModuleId) {dep : Dependence} (hdep : Named name dep)
    (hP : ∀ e, P e ↔ e = dep) :
    Adds name requester (fun deps => if dep.module = top then .ok deps else
      deps.add requester dep) fun e => P e ∧ e.module ≠ top := by
  by_cases htop : dep.module = top
  · simp only [htop, if_true]
    refine adds_nothing.congr fun e => ⟨False.elim, ?_⟩
    rintro ⟨he, hne⟩
    rw [(hP e).1 he] at hne
    exact hne htop
  · simp only [htop, if_false]
    refine (adds_add hdep).congr fun e => ?_
    rw [hP]
    constructor
    · rintro rfl
      exact ⟨rfl, htop⟩
    · exact And.left

/-- What is added to nothing. -/
theorem Adds.ends_empty (h : Adds name requester f P) :
    Ends (f {}) (fun deps => deps.Settle P) (AddingError requester P) := by
  have hempty : Settle {} fun _ => False := by
    constructor
    · exact False.elim
    · intro D d hd
      simp at hd
  refine (h.ends hempty fun e he => he.elim).mono
    (fun deps hdeps => hdeps.congr fun e => by simp) fun error herror => ?_
  exact herror.mono fun e he => he.elim False.elim id

end Dependences

/-! ## The four kinds of evidence -/

namespace EvidenceBase

open Dependences

variable {base : EvidenceBase} {plan : BuildPlan} {top : ModuleId} {dep : Dependence}

theorem Asks.named {requirement : Requirement} (h : base.Asks requirement dep) :
    Named base.table.name dep := by
  obtain ⟨target, -, rfl⟩ := h
  exact ⟨rfl, rfl⟩

theorem Refers.named {c : ClassId} (h : base.Refers plan c dep) : Named base.table.name dep := by
  obtain ⟨source, target, owner, d, -, -, -, -, rfl⟩ := h
  exact ⟨rfl, rfl⟩

theorem Starts.named {mainClass : String} (h : base.Starts mainClass dep) :
    Named base.table.name dep := by
  obtain ⟨c, owner, -, -, rfl⟩ := h
  exact ⟨rfl, rfl⟩

/-- What a requirement asks for is added once it is known. -/
theorem adds_named (base : EvidenceBase) (top : ModuleId) (requirement : Requirement)
    (context : String) :
    Adds base.table.name (base.table.name top)
      (fun deps => base.named requirement context >>= fun dep =>
        if dep.module = top then .ok deps else deps.add (base.table.name top) dep)
      fun e => base.Asks requirement e ∧ e.module ≠ top := by
  have hnamed := ends_named base requirement context
  cases h : base.named requirement context with
  | error error =>
    have herror : ∃ module context, error = .unknownModule module context := by
      unfold EvidenceBase.named at h
      split at h
      · cases h
        exact ⟨_, _, rfl⟩
      · cases h
    obtain ⟨module, context, rfl⟩ := herror
    exact adds_unknown (fun e he => he.1.named) _ _
  | ok dep =>
    have hasks := hnamed.of_ok h
    exact adds_other top ((hasks dep).2 rfl).named hasks

theorem adds_addRequired (base : EvidenceBase) (top : ModuleId) (context : String)
    (requirement : Requirement) :
    Adds base.table.name (base.table.name top)
      (fun deps => (base.addRequired top context deps requirement).result)
      fun e => base.Asks requirement e ∧ e.module ≠ top := by
  have heq : (fun deps => (base.addRequired top context deps requirement).result) = fun deps =>
      base.named requirement context >>= fun dep =>
        if dep.module = top then .ok deps else deps.add (base.table.name top) dep := by
    funext deps
    simp only [addRequired, Logged.result_bind, Logged.result_liftM]
    refine congrArg _ (funext fun dep => ?_)
    split_ifs <;> rfl
  rw [heq]
  exact adds_named base top requirement context

theorem adds_addReferences (base : EvidenceBase) (plan : BuildPlan) (top : ModuleId) :
    Adds base.table.name (base.table.name top)
      (fun deps => (base.table.classes top).foldlM (base.addReferences plan top) deps)
      fun e => ∃ c ∈ base.table.classes top, base.Refers plan c e ∧ e.module ≠ top := by
  have heq : (fun deps => (base.table.classes top).foldlM (base.addReferences plan top) deps) =
      fun deps => (base.referred plan top).foldlM (·.add (base.table.name top) ·) deps := by
    funext deps
    exact foldlM_addReferences base plan top deps
  rw [heq]
  refine (Adds.foldlM (P := fun dep e => e = dep) fun dep hdep => ?_).congr fun e => ?_
  · obtain ⟨c, -, hrefers, -⟩ := mem_referred.1 hdep
    exact adds_add hrefers.named
  · simp only [exists_eq_right', mem_referred]

theorem adds_addMainClass (base : EvidenceBase) (top : ModuleId) (mainClass : String) :
    Adds base.table.name (base.table.name top)
      (fun deps => (base.addMainClass top deps mainClass).result)
      fun e => base.Starts mainClass e ∧ e.module ≠ top := by
  unfold addMainClass Starts
  cases hc : base.registry.findClass mainClass with
  | none => exact adds_nothing.congr fun e => by simp
  | some c =>
    simp only [Option.bind_some]
    cases ho : base.registry.classOwner c with
    | none => exact adds_nothing.congr fun e => by simp [ho]
    | some owner =>
      have hnamed : Named base.table.name (base.towards (base.table.group owner, none) {}) :=
        Starts.named ⟨c, owner, hc, ho, rfl⟩
      have hadds : Adds base.table.name (base.table.name top) _ _ :=
        adds_other top hnamed fun e => Iff.rfl
      simp only [Option.some.injEq, exists_and_left, exists_eq_left', ho]
      have heq : (fun deps => (if base.table.group owner = top then
            (return deps : Logged BuildError Dependences)
          else deps.add (base.table.name top)
            (.onModule (base.table.group owner) (base.table.name (base.table.group owner))
              {})).result) =
          fun deps => if base.table.group owner = top then .ok deps else
            deps.add (base.table.name top)
              (base.towards (base.table.group owner, none) {}) := by
        funext deps
        split_ifs <;> rfl
      rw [heq]
      exact hadds

theorem adds_addDeclared (base : EvidenceBase) (top : ModuleId) (context : String)
    (edge : Requirement) :
    Adds base.table.name (base.table.name top)
      (fun deps => (base.addDeclared top context deps edge).result)
      fun e => (¬(base.table.isBase top ∧ edge.modifiers.isOptional) ∧ base.Asks edge e) ∧
        e.module ≠ top := by
  by_cases hbase : base.table.isBase top ∧ edge.modifiers.isOptional
  · have heq : (fun deps => (base.addDeclared top context deps edge).result) = .ok := by
      funext deps
      simp only [addDeclared, hbase, Bool.and_self, if_true]
      rfl
    rw [heq]
    exact adds_nothing.congr fun e => by simp [hbase]
  · have heq : (fun deps => (base.addDeclared top context deps edge).result) = fun deps =>
        base.named edge context >>= fun dep =>
          if dep.module = top then .ok deps else deps.add (base.table.name top) dep := by
      funext deps
      simp only [addDeclared, Bool.and_eq_true, hbase, if_false, Logged.result_bind,
        Logged.result_liftM]
      refine congrArg _ (funext fun dep => ?_)
      split_ifs <;> rfl
    rw [heq]
    exact (adds_named base top edge context).congr fun e => by simp only [hbase, not_false_eq_true,
      true_and]

end EvidenceBase

/-! ## All evidence -/

open EvidenceBase Dependences in
/-- The dependences of a top-level module are the only sums that its evidence can have, or there is
a conflict in the evidence, or a name in it is not known. -/
theorem BuildPlan.ends_dependencesOf_settle (plan : BuildPlan) (base : EvidenceBase)
    (top : ModuleId) :
    Ends (plan.dependencesOf base top).result
      (fun deps => deps.Settle fun e => base.Evidence plan top e ∧ e.module ≠ top)
      (AddingError (base.table.name top) fun e => base.Evidence plan top e ∧ e.module ≠ top) := by
  simp only [dependencesOf, Logged.result_bind, Logged.result_foldlM, Logged.result_ofExcept,
    Logged.result_emit, Logged.result_pure]
  have hrequired := Adds.foldlM (l := base.table.groupModules top) fun m _ =>
    Adds.foldlM (l := m.requires) fun requirement _ =>
      adds_addRequired base top s!"requires of \"{m.name}\"" requirement
  have hstarts := Adds.foldlM (l := (base.table.groupModules top).filterMap (·.spec.mainClass))
    fun name _ => adds_addMainClass base top name
  have hdeclared := Adds.foldlM (l := base.table.groupModules top) fun m _ =>
    Adds.foldlM (l := plan.declared.leaving m.name) fun edge _ =>
      adds_addDeclared base top s!"dependency from \"{m.name}\"" edge
  have hall := ((hrequired.bind (adds_addReferences base plan top)).bind hstarts).bind hdeclared
  have hends := (hall.congr fun e => evidence_iff.symm).ends_empty
  have hends' := hends.bind (f := fun deps => Except.ok () >>= fun _ => Except.ok deps)
    fun deps h => h
  simp only [bind_assoc] at hends'
  exact hends'

namespace EvidenceBase

variable {base : EvidenceBase} {plan : BuildPlan} {X D : ModuleId} {deps : Dependences}
  {dep e : Dependence} {info : ModuleInfo} {split : SplitPackages}

/-- Some evidence of a module asks for a view of another one by its name. -/
def Seeks (base : EvidenceBase) (plan : BuildPlan) (X D : ModuleId) (name : String) : Prop :=
  ∃ e, base.Evidence plan X e ∧ e.module = D ∧ e.targetsView ∧ e.target = name

/-- The dependence is on a module of its name, asks for the view that the evidence asks for, and is
internal if a reference intrudes. -/
structure Settled (base : EvidenceBase) (plan : BuildPlan) (X D : ModuleId) (dep : Dependence) :
    Prop where
  module_eq : dep.module = D
  seeks_iff : ∀ name, base.Seeks plan X D name ↔ dep.targetsView ∧ dep.target = name
  isInternal : dep.isInternal ↔ base.Intrudes plan X D

end EvidenceBase

namespace BuildPlan

open EvidenceBase Dependences

variable {base : EvidenceBase} {plan : BuildPlan} {X D : ModuleId} {deps : Dependences}
  {dep e : Dependence} {info : ModuleInfo} {split : SplitPackages}

/-- The dependences of a requester: the only sums that its evidence can have, with the edges to its
partners made local. -/
def Reconciled (plan : BuildPlan) (base : EvidenceBase) (split : SplitPackages) (X : ModuleId)
    (deps : Dependences) : Prop :=
  ∃ raw : Dependences,
    raw.Settle (fun e => base.Evidence plan X e ∧ e.module ≠ X) ∧
    ∀ D : ModuleId, deps[D]? = raw[D]?.map (SplitPackages.promoteIf (D ∈ split.partners X))

namespace Reconciled

theorem gathered (h : plan.Reconciled base split X deps) : plan.Gathered base split X deps := by
  obtain ⟨raw, hraw, hget⟩ := h
  exact ⟨raw, ⟨hraw.covers, fun hd => (hraw.settles hd).1, fun hd => (hraw.settles hd).2.toSums⟩,
    hget⟩

/-- No two views of one module are asked for. -/
theorem eq_of_seeks (h : plan.Reconciled base split X deps) (hne : D ≠ X) {name name' : String}
    (hseeks : base.Seeks plan X D name) (hseeks' : base.Seeks plan X D name') : name = name' := by
  obtain ⟨raw, hraw, -⟩ := h
  obtain ⟨e, he, rfl, hview, rfl⟩ := hseeks
  obtain ⟨e', he', hmodule, hview', rfl⟩ := hseeks'
  exact hraw.compatible e e' ⟨he, hne⟩ ⟨he', hmodule ▸ hne⟩ hmodule.symm hview hview'

/-- Every collected dependence is settled. -/
theorem settled (h : plan.Reconciled base split X deps) (hdep : deps[D]? = some dep) :
    base.Settled plan X D dep := by
  have hweighs := h.gathered.weighs hdep
  obtain ⟨hmodule, hname, hne⟩ := h.gathered.keyed D dep hdep
  obtain ⟨raw, hraw, hget⟩ := h
  rw [hget, Option.map_eq_some_iff] at hdep
  obtain ⟨r, hr, rfl⟩ := hdep
  obtain ⟨hrmodule, hsettles⟩ := hraw.settles hr
  -- promotion leaves the name alone
  have htarget : (SplitPackages.promoteIf (D ∈ split.partners X) r).target = r.target := by
    unfold SplitPackages.promoteIf
    split_ifs <;> rfl
  refine ⟨hmodule, fun name => ?_, hweighs.isInternal⟩
  rw [Dependence.targetsView_iff, htarget, hname]
  constructor
  · rintro ⟨e, he, heD, hview, rfl⟩
    have heq := hsettles.targets ⟨⟨he, heD ▸ hne⟩, heD⟩ hview
    rw [Dependence.targetsView_iff, he.moduleName_eq, heD] at hview
    rw [← heq]
    exact ⟨hview, rfl⟩
  · rintro ⟨hview, rfl⟩
    obtain ⟨e, ⟨⟨he, -⟩, heD⟩, heq⟩ := hsettles.targeted
    refine ⟨e, he, heD, ?_, heq⟩
    rwa [Dependence.targetsView_iff, heq, he.moduleName_eq, heD]

/-- Without a policy, every entry of a requires list is settled, and has been bound to a view. -/
theorem settled_and_bound (h : plan.Reconciled base split X deps)
    (hfinished : base.Finished {} X deps info) (hdep : dep ∈ info.requires) :
    base.Settled plan X dep.module dep ∧ ∃ d w,
      View.select (base.surfaces.viewsOf dep.module) d (base.table.name X)
        ((base.table.get? dep.module).any (·.spec.allowLocalDefault)) = .ok w ∧
      dep = { d with view := some w.name } := by
  obtain ⟨kept, hkept, -, hmem⟩ := hfinished.kept
  obtain ⟨D, d, hd, w, hselect, rfl⟩ := (hmem dep).1 hdep
  obtain ⟨e, he, -, hsum⟩ := h.gathered.keyed.sums_of_kept hkept hd
  have hsettled := h.settled he
  have hmodule : d.module = D := hkept.module_eq hd
  obtain ⟨_, rfl, htarget⟩ := hsum.targeted
  obtain ⟨_, rfl, hname⟩ := hsum.named
  refine ⟨⟨rfl, fun name => ?_, ?_⟩, d, w, hselect, rfl⟩
  · show base.Seeks plan X d.module name ↔ d.targetsView ∧ d.target = name
    rw [hmodule, hsettled.seeks_iff, Dependence.targetsView_iff, Dependence.targetsView_iff,
      htarget, hname]
  · show d.isInternal ↔ base.Intrudes plan X d.module
    rw [hsum.isInternal_eq, hmodule, hsettled.isInternal]

end Reconciled

/-! ## Stages -/

variable {p : Partition}

/-- The surfaces of the top-level modules of a partition. -/
def surfacesOf (plan : BuildPlan) (p : Partition) : Except BuildError Surfaces :=
  p.table.topLevel.foldlM (Surfaces.addViews p.table) (.ofPackages (plan.topPackages p))

/-- The edges hold what has been collected for their requesters. -/
theorem ends_collectEdges_results (plan : BuildPlan) (base : EvidenceBase) (tops : List ModuleId) :
    Ends (tops.foldlM
        (fun (edges : EdgeMap) id => do
          let deps ← (plan.dependencesOf base id).result
          return edges.insert id deps)
        {})
      (fun edges => ∀ (X : ModuleId) deps, edges[X]? = some deps →
        (plan.dependencesOf base X).result = .ok deps) EvidenceError := by
  refine Ends.foldlM (fun edges : EdgeMap => ∀ (X : ModuleId) deps, edges[X]? = some deps →
    (plan.dependencesOf base X).result = .ok deps) (by simp) fun edges h id _ => ?_
  cases hdeps : (plan.dependencesOf base id).result with
  | error e => exact (plan.ends_dependencesOf base id).of_error hdeps
  | ok deps =>
    intro X deps' hX
    replace hX : (Std.TreeMap.insert edges id deps)[X]? = some deps' := hX
    rw [treeMap_getElem?_insert] at hX
    split_ifs at hX with hid
    · cases hX
      exact hid ▸ hdeps
    · exact h X deps' hX

/-- What is collected is reconciled, or the surfaces cannot be made, or some evidence cannot be
added up. -/
theorem ends_collect_reconciled (plan : BuildPlan) (p : Partition) :
    Ends (plan.collect p).result
      (fun collected => plan.surfacesOf p = .ok collected.base.surfaces ∧
        ∀ (X : ModuleId) deps, collected.edges[X]? = some deps →
          plan.Reconciled collected.base collected.split X deps)
      (fun e => plan.surfacesOf p = .error e ∨ EvidenceError e) := by
  simp only [collect, Logged.result_bind, Logged.result_emit, Logged.result_forM,
    Logged.result_foldlM, Logged.result_ofExcept, Logged.result_pure, Logged.result_liftM,
    result_reportSplit]
  refine .ok_bind (.ok_bind ?_)
  refine Ends.bind (Ends.forM fun source _ => ?_) fun _ _ => ?_
  · unfold ModuleTable.require
    cases p.table.find source with
    | none => exact .inr (.unknownModule _ _)
    | some id => exact trivial
  · show Ends (plan.surfacesOf p >>= _) _ _
    cases hsurfaces : plan.surfacesOf p with
    | error e => exact .inl rfl
    | ok surfaces =>
      refine .ok_bind (((ends_collectEdges_results plan ⟨p.table, p.registry, surfaces⟩
        p.table.topLevel).mono (fun _ h => h) fun _ => .inr).bind fun edges h => ⟨rfl, ?_⟩)
      intro X deps hX
      replace hX : (SplitPackages.promoteEdges _ edges).1[X]? = some deps := hX
      rw [SplitPackages.getElem?_promoteEdges, Option.map_eq_some_iff] at hX
      obtain ⟨raw, hraw, rfl⟩ := hX
      exact ⟨raw, (ends_dependencesOf_settle plan _ X).of_ok (h X raw hraw),
        fun D => SplitPackages.getElem?_promoted _ X raw D⟩

/-- The modules are finished from reconciled dependences, each top-level one. -/
structure Concludes (plan : BuildPlan) (p : Partition) (surfaces : Surfaces) (infos : ModuleInfos) :
    Prop where
  surfaces_eq : plan.surfacesOf p = .ok surfaces
  finished : ∀ X ∈ p.table.topLevel, ∃ info, infos[X]? = some info ∧ ∃ split deps,
    plan.Reconciled ⟨p.table, p.registry, surfaces⟩ split X deps ∧
    EvidenceBase.Finished ⟨p.table, p.registry, surfaces⟩ {} X deps info

/-- A resolution concludes with all modules, or the surfaces cannot be made, or some module cannot
be finished; whatever else fails, fails after that. -/
theorem ends_resolve_concludes (plan : BuildPlan) {p : Partition} (hi : p.table.Indexed)
    (seeds : List ModuleId) :
    Ends (plan.resolve p {} seeds).result
      (fun outcome => plan.Concludes p outcome.surfaces outcome.infos)
      (fun e => plan.surfacesOf p = .error e ∨ FinishError e ∨
        ∃ surfaces infos, plan.Concludes p surfaces infos) := by
  have hevidence {e : BuildError} (h : EvidenceError e) : FinishError e := by
    cases h with
    | unknownModule => exact .unknownModule _ _
    | conflict h => exact .conflict h
  simp only [resolve, Logged.result_bind, Logged.result_liftM, Logged.result_emit,
    Logged.result_pure]
  cases hcollect : (plan.collect p).result with
  | error e =>
    refine ((plan.ends_collect_reconciled p).of_error hcollect).imp_right fun h => ?_
    exact .inl (hevidence h)
  | ok collected =>
    obtain ⟨hsurfaces, hreconciled⟩ := (plan.ends_collect_reconciled p).of_ok hcollect
    have hcollected := (plan.ends_collect p).of_ok hcollect
    have hbase : collected.base = ⟨p.table, p.registry, collected.base.surfaces⟩ := by
      rw [← hcollected.table_eq, ← hcollected.registry_eq]
    have hfinish := ends_finishAll {} collected (hcollected.table_eq ▸ hi) hcollected.edges
    refine .ok_bind ((hfinish.mono (fun _ h => h) fun _ h => .inr (.inl h)).bind fun infos h => ?_)
    have hconcludes : plan.Concludes p collected.base.surfaces infos := by
      refine ⟨hsurfaces, fun X hX => ?_⟩
      rw [← hcollected.table_eq, mem_topLevel] at hX
      obtain ⟨deps, hdeps⟩ := hcollected.edges.covers X hX
      obtain ⟨info, hinfo⟩ := h.covers X deps hdeps
      obtain ⟨deps', hdeps', hfinished⟩ := h.finished X info hinfo
      rw [← hbase]
      exact ⟨info, hinfo, collected.split, deps', hreconciled X deps' hdeps', hfinished⟩
    refine ((Ends.self _).mono (fun _ h => h) fun _ _ => ?_).bind fun order _ => ?_
    · exact .inr (.inr ⟨_, _, hconcludes⟩)
    · exact .ok_bind hconcludes

end BuildPlan

end ModuleGraph
