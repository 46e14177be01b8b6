import ModuleGraph.Proofs.Dependences.Exact

/-!
# What dependences on one module add up to

A list of dependences on one module is added to a map that has none on it. What the map has then is
the sum of the list (`Dependence.Totals`): optional if all of them are, public, local and internal
if one of them is, and asking for a view if one of them does.

**Theorem (`Dependences.totals_of_foldlM`).** Adding fails exactly if two of the dependences ask for
different views, and else it ends in the sum of the list. So neither their order matters nor how
often they are repeated.

The invariant along the list is that the map has the sum of what has been added
(`Dependences.Gains`). A merge may also be seen as a sequence of changes in place, each of which
tells whether it has changed anything (`Dependence.mergeInPlace`): one that fails has changed
nothing, and one that succeeds has made a change exactly if it says so.
-/

namespace ModuleGraph

namespace Modifiers

variable (m n : Modifiers)

/-- Not optional any more, unless the other modifiers are. -/
def demand : Modifiers :=
  if n.isOptional then m else { m with isOptional := false }

/-- Also public and local if the other modifiers are. -/
def widen : Modifiers :=
  { m with
    isPublic := m.isPublic || n.isPublic
    isLocal := m.isLocal || n.isLocal }

theorem widen_demand : (m.demand n).widen n = m.combine n := by
  unfold demand
  split_ifs with hoptional <;> simp [widen, combine, hoptional]

theorem demand_bne : (m.demand n != m) = (!n.isOptional && m.isOptional) := by
  obtain ⟨p, o, l⟩ := m
  unfold demand
  cases n.isOptional <;> cases o <;> simp

theorem widen_bne :
    (m.widen n != m) = (n.isPublic && !m.isPublic || n.isLocal && !m.isLocal) := by
  obtain ⟨p, o, l⟩ := m
  unfold widen
  revert p o l
  cases n.isPublic <;> cases n.isLocal <;> decide

/-- Being optional plays no part in what is widened. -/
theorem combine_bne_demand :
    (m.combine n != m.demand n) = (n.isPublic && !m.isPublic || n.isLocal && !m.isLocal) := by
  rw [← widen_demand, widen_bne]
  unfold demand
  split_ifs <;> rfl

/-- A combination is another set of modifiers if one of its two steps makes a difference. -/
theorem combine_bne :
    (m.combine n != m) = (!n.isOptional && m.isOptional || n.isPublic && !m.isPublic ||
      n.isLocal && !m.isLocal) := by
  obtain ⟨p, o, l⟩ := m
  obtain ⟨p', o', l'⟩ := n
  revert p o l p' o' l'
  decide

end Modifiers

namespace Dependence

variable {dep other merged : Dependence} {requester : String} {changed : Bool} {e : BuildError}

/-! ## One merge -/

/-- A merge reports a change exactly if there is one. -/
theorem merge_changed_iff (h : dep.merge requester other = .ok (merged, changed)) :
    changed = true ↔ merged ≠ dep := by
  unfold merge at h
  split_ifs at h
  cases h
  -- each part of the report says whether one field is another one than before
  have htarget : (if dep.bringsView other then other.target else dep.target) = dep.target ↔
      dep.bringsView other = false := by
    cases hbrings : dep.bringsView other
    · simp
    · simp only [bringsView, Bool.and_eq_true, bne_iff_ne] at hbrings
      simp [hbrings.2.symm]
  have hmodifiers : dep.modifiers.combine other.modifiers = dep.modifiers ↔
      (!other.modifiers.isOptional && dep.modifiers.isOptional ||
        other.modifiers.isPublic && !dep.modifiers.isPublic ||
        other.modifiers.isLocal && !dep.modifiers.isLocal) = false := by
    rw [← Modifiers.combine_bne, bne_eq_false_iff_eq]
  have hinternal : (dep.isInternal || other.isInternal) = dep.isInternal ↔
      (other.isInternal && !dep.isInternal) = false := by
    cases dep.isInternal <;> simp
  have hsame : ({ dep with
      target := if dep.bringsView other then other.target else dep.target
      modifiers := dep.modifiers.combine other.modifiers
      isInternal := dep.isInternal || other.isInternal } : Dependence) = dep ↔
        (if dep.bringsView other then other.target else dep.target) = dep.target ∧
        dep.modifiers.combine other.modifiers = dep.modifiers ∧
        (dep.isInternal || other.isInternal) = dep.isInternal := by
    cases dep
    simp
  rw [ne_eq, hsame, htarget, hmodifiers, hinternal]
  simp only [← Bool.or_eq_false_iff, Bool.not_eq_false, Bool.or_assoc]

/-- Asks for the view that the other dependence asks for, in place. -/
def retarget (requester : String) (other : Dependence) : EStateM BuildError Dependence Bool := do
  let dep ← get
  if dep.bringsView other then
    if dep.targetsView then
      throw (.conflictingDependence requester dep.text other.text)
    set { dep with target := other.target }
    return true
  else
    return false

/-- Changes the modifiers in place, and tells whether they were others before. -/
def revise (f : Modifiers → Modifiers) : EStateM BuildError Dependence Bool :=
  modifyGet fun dep => (f dep.modifiers != dep.modifiers, { dep with modifiers := f dep.modifiers })

/-- Becomes internal in place, if the other dependence is. -/
def intrude (other : Dependence) : EStateM BuildError Dependence Bool :=
  modifyGet fun dep => (other.isInternal && !dep.isInternal,
    { dep with isInternal := dep.isInternal || other.isInternal })

/-- The merge as a sequence of changes in place. A conflict is found before anything is changed. -/
def mergeInPlace (requester : String) (other : Dependence) :
    EStateM BuildError Dependence Bool := do
  let upgraded ← retarget requester other
  let cleared ← revise (·.demand other.modifiers)
  let widened ← revise (·.widen other.modifiers)
  let internalized ← intrude other
  return upgraded || cleared || widened || internalized

theorem run_retarget (requester : String) (dep other : Dependence) :
    (retarget requester other).run dep =
      if dep.bringsView other && dep.targetsView then
        .error (.conflictingDependence requester dep.text other.text) dep
      else
        .ok (dep.bringsView other)
          { dep with target := if dep.bringsView other then other.target else dep.target } := by
  unfold retarget
  cases hbrings : dep.bringsView other
  · simp [hbrings]
  · cases hview : dep.targetsView
    · simp only [EStateM.run_bind, EStateM.run_get, hbrings, hview, if_true, Bool.and_false,
        Bool.false_eq_true, if_false]
      rfl
    · simp [hbrings, hview]

theorem run_mergeInPlace (requester : String) (dep other : Dependence) :
    (mergeInPlace requester other).run dep =
      match dep.merge requester other with
      | .ok (merged, changed) => .ok changed merged
      | .error e => .error e dep := by
  unfold mergeInPlace merge
  rw [EStateM.run_bind, run_retarget]
  by_cases hconflict : dep.bringsView other && dep.targetsView
  · rw [if_pos hconflict, if_pos hconflict]
  · rw [if_neg hconflict, if_neg hconflict]
    simp only [revise, intrude, EStateM.run_bind, EStateM.run_modifyGet, EStateM.run_pure,
      Modifiers.widen_demand, Modifiers.combine_bne_demand, Modifiers.demand_bne, Bool.or_assoc]

/-! ## The sum of a list -/

/-- The dependence is on the module, under a name of it, and not bound to a view yet. -/
structure IsOn (d : Dependence) (M : ModuleId) (name : String) : Prop where
  module_eq : d.module = M
  moduleName_eq : d.moduleName = name
  unbound : d.view = none

/-- Two of the dependences ask for different views. -/
def Divided (l : List Dependence) : Prop :=
  ∃ d ∈ l, ∃ e ∈ l, d.targetsView ∧ e.targetsView ∧ d.target ≠ e.target

instance (l : List Dependence) : Decidable (Divided l) :=
  inferInstanceAs
    (Decidable (∃ d ∈ l, ∃ e ∈ l, d.targetsView ∧ e.targetsView ∧ d.target ≠ e.target))

/-- The dependence is what a list adds up to. -/
structure Totals (d : Dependence) (l : List Dependence) : Prop where
  isOptional : d.modifiers.isOptional ↔ ∀ e ∈ l, e.modifiers.isOptional
  isPublic : d.modifiers.isPublic ↔ ∃ e ∈ l, e.modifiers.isPublic
  isLocal : d.modifiers.isLocal ↔ ∃ e ∈ l, e.modifiers.isLocal
  isInternal : d.isInternal ↔ ∃ e ∈ l, e.isInternal
  target_of_view : ∀ e ∈ l, e.targetsView → d.target = e.target
  target_of_plain : (∀ e ∈ l, ¬e.targetsView) → d.target = d.moduleName

variable {d : Dependence} {l : List Dependence} {M : ModuleId} {name : String}

theorem Settles.totals (h : d.Settles (· ∈ l)) : d.Totals l where
  isOptional := h.isOptional
  isPublic := h.isPublic
  isLocal := h.isLocal
  isInternal := h.isInternal
  target_of_view e he hview := (h.targets he hview).symm
  target_of_plain hplain := by
    obtain ⟨e, he, htarget⟩ := h.targeted
    have hname := hplain e he
    rw [targetsView_iff, not_not] at hname
    rw [← htarget, hname, h.names he]

theorem Settles.isOn (h : d.Settles (· ∈ l)) (hl : ∀ e ∈ l, e.IsOn M name) : d.IsOn M name := by
  obtain ⟨e, he, hname⟩ := h.named
  exact ⟨by rw [← h.module_eq he, (hl e he).module_eq], by rw [← hname, (hl e he).moduleName_eq],
    h.unbound⟩

theorem Settles.not_divided (h : d.Settles (· ∈ l)) : ¬Divided l := by
  rintro ⟨e, he, f, hf, hview, hview', hne⟩
  exact hne (by rw [h.targets he hview, h.targets hf hview'])

end Dependence

namespace Dependences

open Dependence

variable {deps : Dependences} {l : List Dependence} {first : Dependence} {M : ModuleId}
  {name : String}

/-- The map has the sum of the list at the module, and is otherwise as it was. -/
structure Gains (deps deps' : Dependences) (M : ModuleId) (l : List Dependence) : Prop where
  exists_settles : ∃ d, deps'[M]? = some d ∧ d.Settles (· ∈ l)
  other : ∀ D : ModuleId, D ≠ M → deps'[D]? = deps[D]?

theorem Gains.insert {deps' : Dependences} {before l : List Dependence}
    (h : deps.Gains deps' M before) {sum : Dependence} (hsum : sum.Settles (· ∈ l)) :
    deps.Gains (deps'.insert M sum) M l where
  exists_settles := by
    refine ⟨sum, ?_, hsum⟩
    rw [treeMap_getElem?_insert, if_pos rfl]
  other D hD := by
    rw [treeMap_getElem?_insert, if_neg hD.symm, h.other D hD]

/-- One more dependence is merged into the sum, or it asks for another view than one of those that
are in it. -/
theorem Gains.ends_add {deps' : Dependences} {before : List Dependence}
    (h : deps.Gains deps' M before) (hbefore : ∀ e ∈ before, e.IsOn M name) {dep : Dependence}
    (hdep : dep.IsOn M name) (requester : String) :
    Ends (deps'.add requester dep) (fun deps'' => deps.Gains deps'' M (before ++ [dep]))
      fun error => (∃ existing incoming,
        error = .conflictingDependence requester existing incoming) ∧
        Divided (before ++ [dep]) := by
  obtain ⟨d, hd, hsettles⟩ := h.exists_settles
  have hon := hsettles.isOn hbefore
  have hadd : deps'.add requester dep =
      (d.merge requester dep).map fun (merged, _) => deps'.insert M merged := by
    unfold add
    rw [hdep.module_eq, hd]
    dsimp only
    cases d.merge requester dep <;> rfl
  rw [hadd]
  cases hmerge : d.merge requester dep with
  | error error =>
    obtain ⟨e, he, hview, hview', hne⟩ := hsettles.exists_conflict hmerge
    refine ⟨?_, e, by simp [he], dep, by simp, hview, hview', hne⟩
    unfold merge at hmerge
    split_ifs at hmerge
    cases hmerge
    exact ⟨_, _, rfl⟩
  | ok result =>
    obtain ⟨merged, changed⟩ := result
    have hsum := hsettles.merge (hdep.module_eq.trans hon.module_eq.symm)
      (hdep.moduleName_eq.trans hon.moduleName_eq.symm) hmerge
    exact h.insert (hsum.congr fun e => by simp)

/-- The first dependence is put in, and the others are merged into it one by one. -/
theorem ends_foldlM_gains (hfree : deps[M]? = none) (hne : l ≠ []) (hl : ∀ e ∈ l, e.IsOn M name)
    (requester : String) :
    Ends (l.foldlM (·.add requester ·) deps) (fun deps' => deps.Gains deps' M l)
      fun error => (∃ existing incoming,
        error = .conflictingDependence requester existing incoming) ∧ Divided l := by
  obtain ⟨first, rest, rfl⟩ := List.exists_cons_of_ne_nil hne
  have hfirst := hl first List.mem_cons_self
  have hstart : deps.Gains (deps.insert M first) M [first] := by
    refine ⟨⟨first, ?_, (settles_self hfirst.unbound).congr fun e => by simp⟩, fun D hD => ?_⟩
    · rw [treeMap_getElem?_insert, if_pos rfl]
    · rw [treeMap_getElem?_insert, if_neg hD.symm]
  have hadd : deps.add requester first = .ok (deps.insert M first) := by
    unfold add
    rw [hfirst.module_eq, hfree]
  rw [List.foldlM_cons, hadd]
  apply Ends.foldlM_prefix (fun before deps' => deps.Gains deps' M before) [first] rest _ hstart
  intro before dep after heq deps' h
  -- two dependences that are divided among the first ones are so in the whole list
  have hsub (e : Dependence) (he : e ∈ before ++ [dep]) : e ∈ first :: rest := by
    show e ∈ [first] ++ rest
    rw [heq, List.append_cons]
    exact List.mem_append_left _ he
  have hstep := h.ends_add (fun e he => hl e (hsub e (by simp [he]))) (hl dep (hsub dep (by simp)))
    requester
  refine hstep.mono (fun _ h' => h') fun error herror => ⟨herror.1, ?_⟩
  obtain ⟨d, hd, e, he, hdivided⟩ := herror.2
  exact ⟨d, hsub d hd, e, hsub e he, hdivided⟩

theorem Gains.equiv {deps' deps'' : Dependences} {l' : List Dependence} (h : deps.Gains deps' M l)
    (h' : deps.Gains deps'' M l') (hsame : ∀ e, e ∈ l' ↔ e ∈ l) :
    Std.TreeMap.Equiv deps' deps'' := by
  refine .of_forall_constGet?_eq fun D => ?_
  obtain ⟨d, hd, hsettles⟩ := h.exists_settles
  obtain ⟨d', hd', hsettles'⟩ := h'.exists_settles
  by_cases hD : D = M
  · rw [hD]
    exact hd.trans (by rw [(hsettles'.congr hsame).unique hsettles]; exact hd'.symm)
  · exact (h.other D hD).trans (h'.other D hD).symm

theorem exists_gains (hfree : deps[M]? = none) (hne : l ≠ []) (hl : ∀ e ∈ l, e.IsOn M name)
    (requester : String) (hdivided : ¬Divided l) :
    ∃ deps', l.foldlM (add · requester ·) deps = .ok deps' ∧ deps.Gains deps' M l := by
  have hends := ends_foldlM_gains hfree hne hl requester
  cases hfold : l.foldlM (add · requester ·) deps with
  | error error => exact absurd (hends.of_error hfold).2 hdivided
  | ok deps' => exact ⟨deps', rfl, hends.of_ok hfold⟩

theorem conflict_iff_divided (hfree : deps[M]? = none) (hne : l ≠ [])
    (hl : ∀ e ∈ l, e.IsOn M name) (requester : String) :
    (∃ existing incoming, l.foldlM (add · requester ·) deps =
      .error (.conflictingDependence requester existing incoming)) ↔ Divided l := by
  have hends := ends_foldlM_gains hfree hne hl requester
  constructor
  · intro h
    obtain ⟨existing, incoming, herror⟩ := h
    exact (hends.of_error herror).2
  · intro hdivided
    cases hfold : l.foldlM (add · requester ·) deps with
    | error error =>
      obtain ⟨⟨existing, incoming, rfl⟩, -⟩ := hends.of_error hfold
      exact ⟨existing, incoming, rfl⟩
    | ok deps' =>
      obtain ⟨d, -, hsettles⟩ := (hends.of_ok hfold).exists_settles
      exact absurd hdivided hsettles.not_divided

/-- Neither the order of a list matters nor how often its members are repeated. -/
theorem alike_foldlM_of_mem_iff (hfree : deps[M]? = none) (hne : l ≠ [])
    (hl : ∀ e ∈ l, e.IsOn M name) (requester : String) {l' : List Dependence}
    (hsame : ∀ e, e ∈ l' ↔ e ∈ l) :
    Alike Std.TreeMap.Equiv (l.foldlM (add · requester ·) deps)
      (l'.foldlM (add · requester ·) deps) := by
  have hl' (e : Dependence) (he : e ∈ l') : e.IsOn M name := hl e ((hsame e).1 he)
  have hne' : l' ≠ [] := by
    obtain ⟨e, he⟩ := List.exists_mem_of_ne_nil l hne
    exact List.ne_nil_of_mem ((hsame e).2 he)
  have hcongr : Divided l' ↔ Divided l := by simp only [Divided, hsame]
  by_cases hdivided : Divided l
  · obtain ⟨_, _, hfold⟩ := (conflict_iff_divided hfree hne hl requester).2 hdivided
    obtain ⟨_, _, hfold'⟩ :=
      (conflict_iff_divided hfree hne' hl' requester).2 (hcongr.2 hdivided)
    rw [hfold, hfold']
    exact .error
  · obtain ⟨_, hfold, hgains⟩ := exists_gains hfree hne hl requester hdivided
    obtain ⟨_, hfold', hgains'⟩ :=
      exists_gains hfree hne' hl' requester (mt hcongr.1 hdivided)
    rw [hfold, hfold']
    exact hgains.equiv hgains' hsame

theorem totals_of_foldlM (hfree : deps[M]? = none) (hne : l ≠ []) (hl : ∀ e ∈ l, e.IsOn M name)
    (requester : String) :
    ((∃ existing incoming, l.foldlM (add · requester ·) deps =
        .error (.conflictingDependence requester existing incoming)) ↔ Divided l) ∧
      (¬Divided l → ∃ deps' d, l.foldlM (add · requester ·) deps = .ok deps' ∧
        deps'[M]? = some d ∧ d.IsOn M name ∧ d.Totals l ∧
        ∀ D : ModuleId, D ≠ M → deps'[D]? = deps[D]?) ∧
      (∀ l' : List Dependence, (∀ e, e ∈ l' ↔ e ∈ l) → Alike Std.TreeMap.Equiv
        (l.foldlM (add · requester ·) deps) (l'.foldlM (add · requester ·) deps)) ∧
      ∀ dep other : Dependence, match dep.merge requester other with
        | .ok (merged, changed) =>
          (mergeInPlace requester other).run dep = .ok changed merged ∧
            (changed = true ↔ merged ≠ dep)
        | .error error => (mergeInPlace requester other).run dep = .error error dep := by
  refine ⟨conflict_iff_divided hfree hne hl requester, fun hdivided => ?_,
    fun l' => alike_foldlM_of_mem_iff hfree hne hl requester, fun dep other => ?_⟩
  · obtain ⟨deps', hfold, hgains⟩ := exists_gains hfree hne hl requester hdivided
    obtain ⟨d, hd, hsettles⟩ := hgains.exists_settles
    exact ⟨deps', d, hfold, hd, hsettles.isOn hl, hsettles.totals, hgains.other⟩
  · have hrun := run_mergeInPlace requester dep other
    cases hmerge : dep.merge requester other with
    | error error => rwa [hmerge] at hrun
    | ok result =>
      rw [hmerge] at hrun
      exact ⟨hrun, merge_changed_iff hmerge⟩

/-- A dependence that is not optional, between two optional ones on a view. -/
def viewed : List Dependence :=
  [(onModule 1 "bar" { isOptional := true }).withTarget "bar.api", onModule 1 "bar" {},
    (onModule 1 "bar" { isPublic := true, isOptional := true }).withTarget "bar.api"]

theorem totals_viewed :
    viewed ≠ [] ∧ (∀ e ∈ viewed, e.IsOn 1 "bar") ∧ ¬Divided viewed ∧
      (∃ deps' d, viewed.foldlM (add · "foo" ·) {} = .ok deps' ∧ deps'[(1 : ModuleId)]? = some d ∧
        d.target = "bar.api" ∧ d.modifiers.isOptional = false ∧ d.modifiers.isPublic = true) ∧
      Alike Std.TreeMap.Equiv (viewed.foldlM (add · "foo" ·) {})
        ((viewed ++ viewed.reverse).foldlM (add · "foo" ·) {}) := by
  have hon : ∀ e ∈ viewed, e.IsOn 1 "bar" := by
    intro e he
    simp only [viewed, List.mem_cons, List.not_mem_nil, or_false] at he
    rcases he with rfl | rfl | rfl <;> exact ⟨rfl, rfl, rfl⟩
  have hdivided : ¬Divided viewed := by decide +kernel
  have hne : viewed ≠ [] := List.cons_ne_nil _ _
  have hfree : ({} : Dependences)[(1 : ModuleId)]? = none := rfl
  obtain ⟨-, htotals, halike, -⟩ := totals_of_foldlM (l := viewed) hfree hne hon "foo"
  obtain ⟨deps', d, hfold, hd, -, htotals, -⟩ := htotals hdivided
  refine ⟨hne, hon, hdivided, ⟨deps', d, hfold, hd, ?_, ?_, ?_⟩, ?_⟩
  · exact htotals.target_of_view _ List.mem_cons_self (by decide +kernel)
  · rw [← Bool.not_eq_true, htotals.isOptional]
    decide +kernel
  · rw [htotals.isPublic]
    decide +kernel
  · apply halike
    simp

end Dependences
end ModuleGraph
