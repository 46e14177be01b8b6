import ModuleGraph.Proofs.Dependences.Summary
import ModuleGraph.Proofs.Alike

/-!
# Dependences depend on the set of evidence

A sum of evidence leaves open which of several names it has. With no two views of one module among
the evidence it does not: the sum asks for the view if some evidence does, and for the module if
none does (`Dependence.Settles.unique`). Two different views are a conflict, whichever comes first.
So adding up a list of dependences succeeds or fails, and ends in the same dependences, whatever the
order of the list and the repetitions in it (`Dependences.alike_foldlM_add`).
-/

namespace ModuleGraph

namespace Dependence

variable {d d' dep merged : Dependence} {P Q : Dependence → Prop} {changed : Bool}

/-- The dependence is the only sum that the evidence can have. -/
structure Settles (d : Dependence) (P : Dependence → Prop) : Prop extends d.Sums P where
  unbound : d.view = none
  names : ∀ {e}, P e → e.moduleName = d.moduleName
  targets : ∀ {e}, P e → e.targetsView → e.target = d.target

theorem targetsView_iff {e : Dependence} : e.targetsView ↔ e.target ≠ e.moduleName := bne_iff_ne

theorem Settles.congr (h : d.Settles P) (hPQ : ∀ e, P e ↔ Q e) : d.Settles Q := by
  have heq : P = Q := by
    funext e
    exact propext (hPQ e)
  exact heq ▸ h

theorem settles_self (hview : d.view = none) : d.Settles fun e => e = d where
  toSums := d.sums_self
  unbound := hview
  names he := by rw [he]
  targets he _ := by rw [he]

theorem Settles.unique (h : d.Settles P) (h' : d'.Settles P) : d' = d := by
  obtain ⟨e, he, hname⟩ := h.named
  have hmodule : d'.module = d.module := by rw [← h.module_eq he, ← h'.module_eq he]
  have hmoduleName : d'.moduleName = d.moduleName := by rw [← h.names he, ← h'.names he]
  have htarget : d'.target = d.target := by
    obtain ⟨f, hf, hft⟩ := h.targeted
    obtain ⟨f', hf', hft'⟩ := h'.targeted
    by_cases hview : f.targetsView
    · rw [← hft, ← h'.targets hf hview]
    · by_cases hview' : f'.targetsView
      · rw [← hft', ← h.targets hf' hview']
      · -- nobody asks for a view, so both sums ask for the module
        rw [targetsView_iff, not_not] at hview hview'
        rw [← hft, ← hft', hview, hview', h.names hf, h.names hf']
  have hmodifiers : d'.modifiers = d.modifiers := by
    have hpublic := h'.isPublic.trans h.isPublic.symm
    have hoptional := h'.isOptional.trans h.isOptional.symm
    have hlocal := h'.isLocal.trans h.isLocal.symm
    rw [Bool.coe_iff_coe] at hpublic hoptional hlocal
    cases hd : d'.modifiers
    cases he : d.modifiers
    simp_all
  have hinternal : d'.isInternal = d.isInternal :=
    Bool.coe_iff_coe.1 (h'.isInternal.trans h.isInternal.symm)
  have hview : d'.view = d.view := h'.unbound.trans h.unbound.symm
  cases d
  cases d'
  simp_all

theorem Settles.merge (h : d.Settles P) (hmodule : dep.module = d.module)
    (hname : dep.moduleName = d.moduleName) {requester : String}
    (hmerge : d.merge requester dep = .ok (merged, changed)) :
    merged.Settles fun e => P e ∨ e = dep := by
  have hsums := h.toSums.merge hmodule hmerge
  unfold Dependence.merge at hmerge
  split_ifs at hmerge with hconflict
  cases hmerge
  refine ⟨hsums, h.unbound, ?names, ?targets⟩
  case names =>
    rintro e (he | rfl)
    · exact h.names he
    · exact hname
  case targets =>
    rintro e (he | rfl) hview
    · -- the sum asks for this view already, so no other one can be brought
      have htarget := h.targets he hview
      have hview' : d.targetsView := by
        rw [targetsView_iff] at hview ⊢
        rwa [← htarget, ← h.names he]
      rw [hview', Bool.and_true] at hconflict
      rw [if_neg hconflict]
      exact htarget
    · unfold bringsView
      by_cases hsame : d.target = e.target
      · simp [hsame]
      · simp [hsame, hview]

/-- A conflict is one between two pieces of evidence. -/
theorem Settles.exists_conflict (h : d.Settles P) {requester : String} {error : BuildError}
    (hmerge : d.merge requester dep = .error error) :
    ∃ e, P e ∧ e.targetsView ∧ dep.targetsView ∧ e.target ≠ dep.target := by
  unfold Dependence.merge at hmerge
  split_ifs at hmerge with hconflict
  simp only [bringsView, Bool.and_eq_true, bne_iff_ne] at hconflict
  obtain ⟨⟨hdep, hne⟩, hview⟩ := hconflict
  obtain ⟨e, he, htarget⟩ := h.targeted
  refine ⟨e, he, ?_, hdep, by rwa [htarget]⟩
  rw [targetsView_iff] at hview ⊢
  rwa [htarget, h.names he]

end Dependence

namespace Dependences

variable {deps deps' : Dependences} {E : Dependence → Prop} {name : ModuleId → String}

/-- A dependence that is not bound yet and bears the name of its module. -/
def Named (name : ModuleId → String) (e : Dependence) : Prop :=
  e.view = none ∧ e.moduleName = name e.module

/-- The dependences are the only sums that the evidence can have. -/
structure Settle (deps : Dependences) (E : Dependence → Prop) : Prop where
  covers : ∀ {e}, E e → ∃ d, deps[e.module]? = some d
  settles : ∀ {D : ModuleId} {d}, deps[D]? = some d →
    d.module = D ∧ d.Settles fun e => E e ∧ e.module = D

/-- No two pieces of evidence ask for different views of one module. -/
def Compatible (E : Dependence → Prop) : Prop :=
  ∀ e e', E e → E e' → e.module = e'.module → e.targetsView → e'.targetsView → e.target = e'.target

theorem Settle.compatible (h : deps.Settle E) : Compatible E := by
  intro e e' he he' hmodule hview hview'
  obtain ⟨d, hd⟩ := h.covers he
  obtain ⟨-, hsettles⟩ := h.settles hd
  rw [hsettles.targets ⟨he, rfl⟩ hview, hsettles.targets ⟨he', hmodule.symm⟩ hview']

theorem Settle.congr {E' : Dependence → Prop} (h : deps.Settle E) (hE : ∀ e, E e ↔ E' e) :
    deps.Settle E' := by
  have heq : E = E' := by
    funext e
    exact propext (hE e)
  exact heq ▸ h

theorem Settle.equiv (h : deps.Settle E) (h' : deps'.Settle E) : Std.TreeMap.Equiv deps deps' := by
  refine .of_forall_constGet?_eq fun D => ?_
  have hback {a b : Dependences} (ha : a.Settle E) (hb : b.Settle E) {d : Dependence}
      (hd : a[D]? = some d) : b[D]? = some d := by
    obtain ⟨hmodule, hsettles⟩ := ha.settles hd
    obtain ⟨e, ⟨he, heD⟩, -⟩ := hsettles.named
    obtain ⟨d', hd'⟩ := hb.covers he
    rw [heD] at hd'
    rw [hd', hsettles.unique (hb.settles hd').2]
  cases hd : deps[D]? with
  | some d => exact (hback h h' hd).symm
  | none =>
    cases hd' : deps'[D]? with
    | some d' => rw [hback h' h hd'] at hd; cases hd
    | none => rfl

/-- An entry is replaced by the only sum of its evidence and one more piece. -/
theorem Settle.insert (h : deps.Settle E) {dep sum : Dependence} (hmodule : sum.module = dep.module)
    (hsum : sum.Settles fun e => (E e ∧ e.module = dep.module) ∨ e = dep) :
    Settle (deps.insert dep.module sum) fun e => E e ∨ e = dep := by
  refine ⟨covers_insert h.covers, fun {D d} hd => ?_⟩
  replace hd : (Std.TreeMap.insert deps dep.module sum)[D]? = some d := hd
  rw [treeMap_getElem?_insert] at hd
  split_ifs at hd with hD
  · cases hd
    subst hD
    exact ⟨hmodule, hsum.congr fun e => evidence_at.symm⟩
  · obtain ⟨hmodule', hsettles⟩ := h.settles hd
    exact ⟨hmodule', hsettles.congr fun e => (evidence_of_ne hD).symm⟩

/-- One more piece of evidence. -/
theorem Settle.ends_add (h : deps.Settle E) (hE : ∀ e, E e → Named name e) (requester : String)
    {dep : Dependence} (hdep : Named name dep) :
    Ends (deps.add requester dep) (fun deps' => Settle deps' fun e => E e ∨ e = dep)
      fun _ => ¬Compatible fun e => E e ∨ e = dep := by
  unfold Dependences.add
  cases hd : deps[dep.module]? with
  | none =>
    exact h.insert rfl
      ((Dependence.settles_self hdep.1).congr fun e => evidence_of_none h.covers hd)
  | some existing =>
    obtain ⟨hmodule, hsettles⟩ := h.settles hd
    obtain ⟨e, ⟨he, heD⟩, hname⟩ := hsettles.named
    have hsame : dep.moduleName = existing.moduleName := by
      rw [← hname, (hE e he).2, heD, hdep.2]
    dsimp only
    cases hmerge : existing.merge requester dep with
    | error error =>
      intro hcompatible
      obtain ⟨e, ⟨he, heD⟩, hview, hview', hne⟩ := hsettles.exists_conflict hmerge
      exact hne (hcompatible e dep (.inl he) (.inr rfl) heD hview hview')
    | ok result =>
      obtain ⟨merged, changed⟩ := result
      exact h.insert ((Dependence.merge_module hmerge).trans hmodule)
        (hsettles.merge hmodule.symm hsame hmerge)

/-- A list of pieces of evidence. -/
theorem Settle.ends_foldlM (h : deps.Settle E) (hE : ∀ e, E e → Named name e) (requester : String)
    {l : List Dependence} (hl : ∀ e ∈ l, Named name e) :
    Ends (l.foldlM (·.add requester ·) deps) (fun deps' => Settle deps' fun e => E e ∨ e ∈ l)
      fun _ => ¬Compatible fun e => E e ∨ e ∈ l := by
  induction l generalizing deps E with
  | nil => exact h.congr fun e => by simp
  | cons dep l ih =>
    have hmem (e : Dependence) : E e ∨ e ∈ dep :: l ↔ (E e ∨ e = dep) ∨ e ∈ l := by
      rw [List.mem_cons, or_assoc]
    rw [List.foldlM_cons]
    refine ((h.ends_add hE requester (hl dep List.mem_cons_self)).mono (fun _ h' => h')
      fun _ hconflict hcompatible => hconflict ?_).bind fun deps' h' => ?_
    · exact fun e e' he he' => hcompatible e e' ((hmem e).2 (.inl he)) ((hmem e').2 (.inl he'))
    · refine (ih h' ?_ fun e he => hl e (List.mem_cons_of_mem _ he)).mono
        (fun deps'' h'' => h''.congr fun e => (hmem e).symm) fun _ hconflict hcompatible => ?_
      · rintro e (he | rfl)
        · exact hE e he
        · exact hl e List.mem_cons_self
      · exact hconflict fun e e' he he' => hcompatible e e' ((hmem e).2 he) ((hmem e').2 he')

/-! ## Two maps -/

/-- The same dependences, not bound yet and with the names of their modules. -/
structure Match (name : ModuleId → String) (deps deps' : Dependences) : Prop where
  keyed : ∀ (D : ModuleId) d, deps[D]? = some d → d.module = D ∧ Named name d
  equiv : Std.TreeMap.Equiv deps deps'

theorem match_empty : Match name {} {} where
  keyed := by simp
  equiv := .rfl

/-- Dependences are the sums of themselves. -/
theorem Match.settle (h : Match name deps deps') :
    deps.Settle (fun e => ∃ D : ModuleId, deps[D]? = some e) ∧
      deps'.Settle (fun e => ∃ D : ModuleId, deps[D]? = some e) ∧
      ∀ e, (∃ D : ModuleId, deps[D]? = some e) → Named name e := by
  have hsettle : deps.Settle (fun e => ∃ D : ModuleId, deps[D]? = some e) := by
    constructor
    · rintro e ⟨D, hD⟩
      rw [(h.keyed D e hD).1]
      exact ⟨e, hD⟩
    · intro D d hd
      refine ⟨(h.keyed D d hd).1, (Dependence.settles_self (h.keyed D d hd).2.1).congr fun e => ?_⟩
      constructor
      · rintro rfl
        exact ⟨⟨D, hd⟩, (h.keyed D e hd).1⟩
      · rintro ⟨⟨D', hD'⟩, heD⟩
        rw [(h.keyed D' e hD').1] at heD
        subst heD
        rw [hd] at hD'
        exact (Option.some.inj hD').symm
  have hget (D : ModuleId) : deps'[D]? = deps[D]? := h.equiv.getElem?_eq.symm
  refine ⟨hsettle, ⟨fun he => ?_, fun {D d} hd => ?_⟩, fun e ⟨D, hD⟩ => (h.keyed D e hD).2⟩
  · rw [hget]
    exact hsettle.covers he
  · rw [hget] at hd
    exact hsettle.settles hd

/-- Lists with the same members add up to the same dependences, or both have a conflict. -/
theorem alike_foldlM_add (h : Match name deps deps') (requester : String) {l l' : List Dependence}
    (hl : ∀ e, e ∈ l ↔ e ∈ l') (hnamed : ∀ e ∈ l, Named name e) :
    Alike (Match name) (l.foldlM (·.add requester ·) deps)
      (l'.foldlM (·.add requester ·) deps') := by
  obtain ⟨hsettle, hsettle', hE⟩ := h.settle
  have hx := hsettle.ends_foldlM hE requester hnamed
  have hy := hsettle'.ends_foldlM hE requester (l := l') fun e he => hnamed e ((hl e).2 he)
  simp only [← hl] at hy
  generalize l.foldlM (·.add requester ·) deps = x at *
  generalize l'.foldlM (·.add requester ·) deps' = y at *
  cases x with
  | error e =>
    cases y with
    | error e' => exact .error
    | ok b => exact absurd (Settle.compatible hy) hx
  | ok a =>
    cases y with
    | error e' => exact absurd (Settle.compatible hx) hy
    | ok b =>
      refine ⟨fun D d hd => ?_, Settle.equiv hx hy⟩
      obtain ⟨hmodule, hsettles⟩ := Settle.settles hx hd
      obtain ⟨e, ⟨he, heD⟩, hname⟩ := hsettles.named
      have hnamed' : Named name e := he.elim (hE e) (hnamed e)
      exact ⟨hmodule, hsettles.unbound, by rw [← hname, hnamed'.2, heD, hmodule]⟩

theorem Match.alike_add (h : Match name deps deps') (requester : String) {dep : Dependence}
    (hdep : Named name dep) :
    Alike (Match name) (deps.add requester dep) (deps'.add requester dep) := by
  have hfold : Alike (Match name) ([dep].foldlM (·.add requester ·) deps)
      ([dep].foldlM (·.add requester ·) deps') :=
    alike_foldlM_add h requester (fun _ => Iff.rfl) fun e he => List.mem_singleton.1 he ▸ hdep
  simpa using hfold

end Dependences

end ModuleGraph
