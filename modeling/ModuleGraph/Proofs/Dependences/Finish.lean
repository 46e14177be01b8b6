import ModuleGraph.Proofs.Dependences.Sorting
import ModuleGraph.Proofs.Dependences.Summary
import ModuleGraph.Proofs.Table
import ModuleGraph.Resolution.Finish

/-!
# Finished modules

What a finished module requires, in terms of the dependences that were collected for it. The kept
dependences are the sums of those that the policy leaves (`EvidenceBase.ends_keepAll`); each of them
is bound to a view and stands in the requires list once, the names strictly increasing
(`EvidenceBase.Finished`).
-/

namespace ModuleGraph

/-- The errors of finishing a module. -/
inductive FinishError : BuildError → Prop where
  | unknownModule (name context : String) : FinishError (.unknownModule name context)
  | viewNotFound (name dependence : String) : FinishError (.viewNotFound name dependence)
  | conflict {e : BuildError} (h : ConflictError e) : FinishError e

/-- The module without permits, which are settled last. -/
def ModuleInfo.unpermitted (info : ModuleInfo) : ModuleInfo :=
  { info with permits := {}, frozen := false }

theorem ModuleInfo.ends_addPermit {info : ModuleInfo} (hfrozen : info.frozen = false)
    (permit : String) :
    Ends (info.addPermit permit)
      (fun r => r.1.unpermitted = info.unpermitted ∧ r.1.frozen = false) (fun _ => False) := by
  unfold addPermit
  split_ifs with hold hfix
  · exact ⟨rfl, hfrozen⟩
  · rw [hfrozen] at hfix
    cases hfix
  · exact ⟨rfl, hfrozen⟩

namespace EvidenceBase

variable {base : EvidenceBase} {policy : ExporterPolicy} {top : ModuleId} {deps kept : Dependences}
  {info : ModuleInfo}

/-! ## What is kept -/

/-- The dependences are on other modules, and bear their names. -/
def Keyed (base : EvidenceBase) (top : ModuleId) (deps : Dependences) : Prop :=
  ∀ (D : ModuleId) d, deps[D]? = some d →
    d.module = D ∧ d.moduleName = base.table.name D ∧ D ≠ top

/-- What the policy leaves of some dependences. -/
def Leaves (base : EvidenceBase) (policy : ExporterPolicy) (top : ModuleId) (deps : Dependences)
    (e : Dependence) : Prop :=
  ∃ (D : ModuleId) (dep : Dependence), deps[D]? = some dep ∧
    ¬(dep.modifiers.isOptional ∧ policy.dropsOptional top) ∧
    e = base.applyPolicy policy top dep ∧ base.table.isTopLevel e.module

theorem ends_keep {E : Dependence → Prop} (h : kept.Summarizes E) (dep : Dependence) :
    Ends (base.keep policy top kept dep).result
      (fun kept' => kept'.Summarizes fun e => E e ∨
        (¬(dep.modifiers.isOptional ∧ policy.dropsOptional top) ∧
          e = base.applyPolicy policy top dep ∧ base.table.isTopLevel e.module))
      ConflictError := by
  unfold keep
  dsimp only
  split_ifs with hdrop htop
  · rw [Bool.and_eq_true] at hdrop
    refine h.congr fun e => ?_
    simp [hdrop]
  · rw [Bool.and_eq_true] at hdrop
    refine (h.ends_add _ _).weaken fun kept' h' => h'.congr fun e => or_congr_right ?_
    constructor
    · intro he
      subst he
      exact ⟨hdrop, rfl, htop⟩
    · intro he
      exact he.2.1
  · refine h.congr fun e => ?_
    constructor
    · exact .inl
    · intro he
      rcases he with he | ⟨-, rfl, he⟩
      · exact he
      · exact absurd he htop

/-- The kept dependences are the sums of what the policy leaves. -/
theorem ends_keepAll (base : EvidenceBase) (policy : ExporterPolicy) (top : ModuleId)
    (deps : Dependences) :
    Ends (deps.values.foldlM (fun kept dep => (base.keep policy top kept dep).result) {})
      (fun kept => kept.Summarizes (base.Leaves policy top deps)) ConflictError := by
  refine (Dependences.Summarizes.empty.ends_foldlM _ fun dep _ E kept h =>
    ends_keep h dep).weaken fun kept h => h.congr fun e => ?_
  simp only [false_or, mem_treeMap_values, Leaves]
  constructor
  · intro he
    obtain ⟨dep, ⟨D, hD⟩, he⟩ := he
    exact ⟨D, dep, hD, he⟩
  · intro he
    obtain ⟨D, dep, hD, he⟩ := he
    exact ⟨dep, ⟨D, hD⟩, he⟩

/-- The policy sends nobody to itself. -/
theorem exporter_ne {target requester : ModuleId} (h : target ≠ requester) :
    policy.exporter target requester ≠ requester := by
  unfold ExporterPolicy.exporter
  split_ifs
  · exact h
  · split
    · split_ifs with heq
      · exact h
      · exact heq
    · exact h

/-- What the policy leaves is on other modules and bears their names. -/
theorem Keyed.of_leaves (h : base.Keyed top deps) {e : Dependence}
    (he : base.Leaves policy top deps e) :
    e.moduleName = base.table.name e.module ∧ e.module ≠ top ∧ base.table.isTopLevel e.module := by
  obtain ⟨D, dep, hD, -, rfl, htop⟩ := he
  obtain ⟨hmodule, hname, hne⟩ := h D dep hD
  refine ⟨?_, ?_, htop⟩
  · unfold applyPolicy
    dsimp only
    split_ifs
    · rw [hname, hmodule]
    · rw [hname, hmodule]
    · rfl
  · unfold applyPolicy
    dsimp only
    split_ifs
    · rwa [hmodule]
    · rwa [hmodule]
    · exact exporter_ne (hmodule ▸ hne)

theorem Keyed.of_summary (h : base.Keyed top deps)
    (hkept : kept.Summarizes (base.Leaves policy top deps)) :
    base.Keyed top kept ∧ ∀ (D : ModuleId) d, kept[D]? = some d → base.table.isTopLevel D := by
  have hall (D : ModuleId) (d : Dependence) (hd : kept[D]? = some d) :
      d.moduleName = base.table.name D ∧ D ≠ top ∧ base.table.isTopLevel D := by
    obtain ⟨e, ⟨he, rfl⟩, hname⟩ := (hkept.sums hd).named
    rw [← hname]
    exact h.of_leaves he
  constructor
  · intro D d hd
    exact ⟨hkept.module_eq hd, (hall D d hd).1, (hall D d hd).2.1⟩
  · intro D d hd
    exact (hall D d hd).2.2

/-! ## Binding -/

/-- The second dependence is the first one, bound to a view of its module. -/
def Binds (base : EvidenceBase) (top : ModuleId) (dep bound : Dependence) : Prop :=
  ∃ view, View.select (base.surfaces.viewsOf dep.module) dep (base.table.name top)
      ((base.table.get? dep.module).any (·.spec.allowLocalDefault)) = .ok view ∧
    bound = { dep with view := some view.name }

theorem ends_bind (base : EvidenceBase) (top : ModuleId) (dep : Dependence) :
    Ends (base.bind top dep) (base.Binds top dep) FinishError := by
  have hselect (views : List View) (requester : String) (allow : Bool) :
      Ends (View.select views dep requester allow)
        (fun view => View.select views dep requester allow = .ok view) FinishError := by
    unfold View.select
    dsimp only
    split
    · rfl
    · exact .viewNotFound _ _
  unfold EvidenceBase.bind
  exact (hselect _ _ _).bind fun view hview => ⟨view, hview, rfl⟩

/-! ## Finishing -/

/-- What a finished module tells of the dependences collected for it. -/
structure Finished (base : EvidenceBase) (policy : ExporterPolicy) (top : ModuleId)
    (deps : Dependences) (info : ModuleInfo) : Prop where
  module_eq : info.module = top
  name_eq : info.name = base.table.name top
  kept : ∃ kept : Dependences, kept.Summarizes (base.Leaves policy top deps) ∧
    (∀ (D : ModuleId) dep, kept[D]? = some dep → ∃ bound, base.Binds top dep bound) ∧
    ∀ bound, bound ∈ info.requires ↔
      ∃ (D : ModuleId) (dep : Dependence), kept[D]? = some dep ∧ base.Binds top dep bound
  increasing : info.requires.Pairwise fun d e => d.moduleName < e.moduleName

theorem Finished.of_unpermitted {info' : ModuleInfo} (h : base.Finished policy top deps info)
    (heq : info'.unpermitted = info.unpermitted) : base.Finished policy top deps info' := by
  have hmodule : info'.module = info.module := congrArg (·.module) heq
  have hname : info'.name = info.name := congrArg (·.name) heq
  have hrequires : info'.requires = info.requires := congrArg (·.requires) heq
  constructor
  · rw [hmodule, h.module_eq]
  · rw [hname, h.name_eq]
  · rw [hrequires]
    exact h.kept
  · rw [hrequires]
    exact h.increasing

/-- A finished module requires other modules of the graph, under their names. -/
theorem Finished.target (h : base.Finished policy top deps info) (hdeps : base.Keyed top deps)
    {dep : Dependence} (hdep : dep ∈ info.requires) :
    dep.module ≠ top ∧ base.table.isTopLevel dep.module ∧
      dep.moduleName = base.table.name dep.module := by
  obtain ⟨kept, hkept, -, hmem⟩ := h.kept
  obtain ⟨hkeyed, htop⟩ := hdeps.of_summary hkept
  obtain ⟨D, d, hd, view, -, rfl⟩ := (hmem dep).1 hdep
  obtain ⟨hmodule, hname, hne⟩ := hkeyed D d hd
  have hD := htop D d hd
  subst hmodule
  exact ⟨hne, hD, hname⟩

theorem ends_addPermits (base : EvidenceBase) (m : Module) (hfrozen : info.frozen = false) :
    Ends (base.addPermits info m)
      (fun info' => info'.unpermitted = info.unpermitted ∧ info'.frozen = false) FinishError := by
  unfold addPermits
  refine Ends.foldlM (fun info' : ModuleInfo =>
    info'.unpermitted = info.unpermitted ∧ info'.frozen = false) ⟨rfl, hfrozen⟩
    fun info' ⟨hsame, hfrozen'⟩ permit _ => ?_
  have hgroup (context : String) :
      Ends (base.table.requireGroup permit context) (fun _ => True) FinishError := by
    unfold ModuleTable.requireGroup ModuleTable.require
    cases base.table.find permit with
    | none => exact .unknownModule _ _
    | some id => exact trivial
  refine (hgroup _).bind fun group _ => ?_
  refine ((ModuleInfo.ends_addPermit hfrozen' group).mono (fun _ h => h)
    fun _ => False.elim).bind fun r hr => ?_
  exact ⟨hr.1.trans hsame, hr.2⟩

/-- A bound list, entry by entry. -/
theorem mem_bound_iff {deps bound : List Dependence} (h : List.Forall₂ (base.Binds top) deps bound)
    {b : Dependence} : b ∈ bound ↔ ∃ dep ∈ deps, base.Binds top dep b := by
  induction h with
  | nil => simp
  | cons hbinds _ ih =>
    rename_i dep b' deps bound _
    rw [List.mem_cons, List.exists_mem_cons_iff, ih]
    refine or_congr_left ?_
    constructor
    · intro heq
      rw [heq]
      exact hbinds
    · intro hb
      obtain ⟨view, hview, rfl⟩ := hbinds
      obtain ⟨view', hview', rfl⟩ := hb
      rw [hview] at hview'
      cases hview'
      rfl

/-- Every dependence of a bound list has been bound. -/
theorem exists_bound {deps bound : List Dependence} (h : List.Forall₂ (base.Binds top) deps bound)
    {dep : Dependence} (hdep : dep ∈ deps) : ∃ b, base.Binds top dep b := by
  induction h with
  | nil => cases hdep
  | cons hbinds _ ih =>
    rcases List.mem_cons.1 hdep with rfl | hdep
    · exact ⟨_, hbinds⟩
    · exact ih hdep

/-- Bound dependences keep the modules and the names. -/
theorem map_bound {α : Type} {part : Dependence → α}
    (hpart : ∀ d view, part { d with view } = part d) {deps bound : List Dependence}
    (h : List.Forall₂ (base.Binds top) deps bound) :
    bound.map part = deps.map part := by
  induction h with
  | nil => rfl
  | cons hbinds _ ih =>
    obtain ⟨view, -, rfl⟩ := hbinds
    rw [List.map_cons, List.map_cons, ih, hpart]

/-- The kept dependences have names that tell them apart. -/
theorem Keyed.pairwise_values (hi : base.table.Indexed) (h : base.Keyed top kept)
    (htop : ∀ (D : ModuleId) d, kept[D]? = some d → base.table.isTopLevel D) :
    (kept.values.map (·.moduleName)).Nodup := by
  have hvalues : kept.values.map (·.moduleName) = kept.keys.map base.table.name := by
    rw [treeMap_values_eq, ← Std.TreeMap.map_fst_toList_eq_keys, List.map_map, List.map_map]
    refine List.map_congr_left fun entry hentry => ?_
    obtain ⟨D, d⟩ := entry
    exact (h D d (Std.TreeMap.mem_toList_iff_getElem?_eq_some.1 hentry)).2.1
  rw [hvalues]
  refine (treeMap_keys_nodup kept).map_on fun D hD D' hD' hname => ?_
  have hget {D : ModuleId} (hD : D ∈ kept.keys) : ∃ m, base.table.get? D = some m := by
    obtain ⟨d, hd⟩ := treeMap_mem_iff.1 (Std.TreeMap.mem_keys.1 hD)
    exact ModuleTable.exists_get? (ModuleTable.lt_size_of_isTopLevel (htop D d hd))
  obtain ⟨m, hm⟩ := hget hD
  obtain ⟨m', hm'⟩ := hget hD'
  rw [ModuleTable.name_of_get? hm, ModuleTable.name_of_get? hm'] at hname
  exact hi.id_eq_of_name_eq hm hm' hname

theorem ends_finish (hi : base.table.Indexed) (hdeps : base.Keyed top deps) :
    Ends (base.finish policy top deps).result
      (fun info => base.Finished policy top deps info ∧ info.frozen = false) FinishError := by
  simp only [finish, Logged.result_bind, Logged.result_foldlM, Logged.result_ofExcept]
  refine ((ends_keepAll base policy top deps).mono (fun _ h => h) fun _ => .conflict).bind
    fun kept hkept => ?_
  refine (Ends.mapM fun dep _ => ends_bind base top dep).bind fun bound hbound => ?_
  generalize hinfo : ({ ModuleInfo.new top _ _ bound with
    views := _, mainClass := _ } : ModuleInfo) = info
  have hsorted : info.requires = ModuleInfo.sortRequires bound := by subst hinfo; rfl
  obtain ⟨hkeyed, htop⟩ := hdeps.of_summary hkept
  have hnames : bound.Pairwise fun d e => d.moduleName ≠ e.moduleName := by
    have hnodup := hkeyed.pairwise_values hi htop
    rw [← map_bound (fun _ _ => by rfl) hbound] at hnodup
    exact List.pairwise_map.1 hnodup
  have hmem (b : Dependence) : b ∈ bound ↔ ∃ (D : ModuleId) (dep : Dependence),
      kept[D]? = some dep ∧ base.Binds top dep b := by
    rw [mem_bound_iff hbound]
    simp only [mem_treeMap_values]
    constructor
    · intro h
      obtain ⟨dep, ⟨D, hD⟩, hb⟩ := h
      exact ⟨D, dep, hD, hb⟩
    · intro h
      obtain ⟨D, dep, hD, hb⟩ := h
      exact ⟨dep, ⟨D, hD⟩, hb⟩
  have hsame : ∀ d ∈ bound, ∀ e ∈ bound, d.module = e.module → d.moduleName = e.moduleName := by
    have hname {b : Dependence} (hb : b ∈ bound) : b.moduleName = base.table.name b.module := by
      obtain ⟨D, dep, hD, view, -, rfl⟩ := (hmem b).1 hb
      obtain ⟨hmodule, hname, -⟩ := hkeyed D dep hD
      show dep.moduleName = base.table.name dep.module
      rw [hname, hmodule]
    intro d hd e he heq
    rw [hname hd, hname he, heq]
  have hfinished : base.Finished policy top deps info := by
    refine ⟨by subst hinfo; rfl, by subst hinfo; rfl, ⟨kept, hkept, ?_, fun b => ?_⟩, ?_⟩
    · intro D dep hD
      exact exists_bound hbound (mem_treeMap_values.2 ⟨D, hD⟩)
    · rw [hsorted, ModuleInfo.mem_sortRequires hnames hsame]
      exact hmem b
    · rw [hsorted]
      exact ModuleInfo.pairwise_sortRequires hnames hsame
  refine (Ends.foldlM (fun info' : ModuleInfo =>
    info'.unpermitted = info.unpermitted ∧ info'.frozen = false)
    ⟨rfl, by subst hinfo; rfl⟩ fun info' ⟨heq, hfrozen⟩ m _ => ?_).weaken fun info' h => ?_
  · exact (ends_addPermits base m hfrozen).weaken fun info'' h => ⟨h.1.trans heq, h.2⟩
  · exact ⟨hfinished.of_unpermitted h.1, h.2⟩

end EvidenceBase

end ModuleGraph
