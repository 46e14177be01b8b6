import ModuleGraph.Dependence
import ModuleGraph.Proofs.Ends
import ModuleGraph.Proofs.TreeMap

/-!
# What a set of dependences amounts to

A dependence is the sum of evidence (`Dependence.Sums`) if it is optional exactly if all of the
evidence is, and public, local or internal exactly if some of it is. `Dependence.merge` adds one
more piece. `Dependences.Summarizes deps E` says that `deps` holds one such sum for each module that
evidence in `E` leads to; in which order the evidence came does not show.

* `Dependences.Summarizes.ends_add`: one more piece of evidence.
* `Dependences.Summarizes.ends_foldlM`: a loop in which every step adds what there is for it.
-/

namespace ModuleGraph

/-- An error between two names for one module. -/
inductive ConflictError : BuildError → Prop where
  | conflictingDependence (name existing incoming : String) :
      ConflictError (.conflictingDependence name existing incoming)

namespace Dependence

variable {d dep merged : Dependence} {P Q : Dependence → Prop} {changed : Bool}

/-- The dependence is the sum of the evidence that satisfies `P`. -/
structure Sums (d : Dependence) (P : Dependence → Prop) : Prop where
  module_eq : ∀ {e}, P e → e.module = d.module
  named : ∃ e, P e ∧ e.moduleName = d.moduleName
  targeted : ∃ e, P e ∧ e.target = d.target
  isOptional : d.modifiers.isOptional ↔ ∀ e, P e → e.modifiers.isOptional
  isPublic : d.modifiers.isPublic ↔ ∃ e, P e ∧ e.modifiers.isPublic
  isLocal : d.modifiers.isLocal ↔ ∃ e, P e ∧ e.modifiers.isLocal
  isInternal : d.isInternal ↔ ∃ e, P e ∧ e.isInternal

theorem sums_self (d : Dependence) : d.Sums fun e => e = d := by
  constructor <;> simp

/-- The sum of one dependence. -/
theorem Sums.modifiers_eq (h : d.Sums fun e => e = dep) : d.modifiers = dep.modifiers := by
  have hpublic := h.isPublic
  have hoptional := h.isOptional
  have hlocal := h.isLocal
  simp only [exists_eq_left, forall_eq, Bool.coe_iff_coe] at hpublic hoptional hlocal
  cases hd : d.modifiers
  cases he : dep.modifiers
  simp_all

theorem Sums.isInternal_eq (h : d.Sums fun e => e = dep) : d.isInternal = dep.isInternal := by
  have hinternal := h.isInternal
  simp only [exists_eq_left, Bool.coe_iff_coe] at hinternal
  exact hinternal

theorem Sums.congr (h : d.Sums P) (hPQ : ∀ e, P e ↔ Q e) : d.Sums Q := by
  have heq : P = Q := by
    funext e
    exact propext (hPQ e)
  exact heq ▸ h

/-- A merge adds one piece of evidence for the same module. -/
theorem Sums.merge (h : d.Sums P) (hmodule : dep.module = d.module) {requester : String}
    (hmerge : d.merge requester dep = .ok (merged, changed)) :
    merged.Sums fun e => P e ∨ e = dep := by
  unfold Dependence.merge at hmerge
  split_ifs at hmerge
  cases hmerge
  constructor
  case module_eq =>
    intro e hor
    rcases hor with he | rfl
    · exact h.module_eq he
    · exact hmodule
  case named =>
    obtain ⟨e, he, hname⟩ := h.named
    exact ⟨e, .inl he, hname⟩
  case targeted =>
    dsimp only
    split_ifs
    · exact ⟨dep, .inr rfl, rfl⟩
    · obtain ⟨e, he, htarget⟩ := h.targeted
      exact ⟨e, .inl he, htarget⟩
  case isOptional =>
    simp only [Modifiers.combine, Bool.and_eq_true, h.isOptional, or_imp, forall_and, forall_eq]
  case isPublic =>
    simp only [Modifiers.combine, Bool.or_eq_true, h.isPublic, or_and_right, exists_or,
      exists_eq_left]
  case isLocal =>
    simp only [Modifiers.combine, Bool.or_eq_true, h.isLocal, or_and_right, exists_or,
      exists_eq_left]
  case isInternal =>
    simp only [Bool.or_eq_true, h.isInternal, or_and_right, exists_or, exists_eq_left]

theorem merge_module {requester : String}
    (hmerge : d.merge requester dep = .ok (merged, changed)) : merged.module = d.module := by
  unfold Dependence.merge at hmerge
  split_ifs at hmerge
  cases hmerge
  rfl

theorem merge_error {requester : String} {e : BuildError}
    (hmerge : d.merge requester dep = .error e) : ConflictError e := by
  unfold Dependence.merge at hmerge
  split_ifs at hmerge
  cases hmerge
  exact .conflictingDependence _ _ _

end Dependence

namespace Dependences

/-! ## The evidence for one module, with one more piece -/

section Evidence

variable {deps : Dependences} {E : Dependence → Prop} {dep e : Dependence} {D : ModuleId}

theorem evidence_at :
    (E e ∨ e = dep) ∧ e.module = dep.module ↔ (E e ∧ e.module = dep.module) ∨ e = dep := by
  rw [or_and_right]
  refine or_congr_right ⟨And.left, ?_⟩
  rintro rfl
  exact ⟨rfl, rfl⟩

theorem evidence_of_ne (hD : dep.module ≠ D) :
    (E e ∨ e = dep) ∧ e.module = D ↔ E e ∧ e.module = D := by
  refine ⟨?_, fun ⟨he, hm⟩ => ⟨.inl he, hm⟩⟩
  rintro ⟨he | rfl, hm⟩
  · exact ⟨he, hm⟩
  · exact absurd hm hD

/-- Of a module without an entry there is no evidence yet. -/
theorem evidence_of_none (hcovers : ∀ {e}, E e → ∃ d, deps[e.module]? = some d)
    (hnone : deps[dep.module]? = none) : e = dep ↔ (E e ∧ e.module = dep.module) ∨ e = dep := by
  refine ⟨.inr, ?_⟩
  rintro (⟨he, hm⟩ | rfl)
  · obtain ⟨d, hd⟩ := hcovers he
    rw [hm, hnone] at hd
    cases hd
  · rfl

/-- An entry put in for one more piece of evidence leaves no evidence without an entry. -/
theorem covers_insert (hcovers : ∀ {e}, E e → ∃ d, deps[e.module]? = some d) {sum : Dependence}
    (he : E e ∨ e = dep) : ∃ d, (Std.TreeMap.insert deps dep.module sum)[e.module]? = some d := by
  rw [treeMap_getElem?_insert]
  split_ifs with hD
  · exact ⟨sum, rfl⟩
  · rcases he with he | rfl
    · exact hcovers he
    · exact absurd rfl hD

end Evidence

/-- The dependences are the sums of the evidence, module by module. -/
structure Summarizes (deps : Dependences) (E : Dependence → Prop) : Prop where
  covers : ∀ {e}, E e → ∃ d, deps[e.module]? = some d
  module_eq : ∀ {D : ModuleId} {d}, deps[D]? = some d → d.module = D
  sums : ∀ {D : ModuleId} {d}, deps[D]? = some d → d.Sums fun e => E e ∧ e.module = D

namespace Summarizes

variable {deps : Dependences} {E E' : Dependence → Prop} {D : ModuleId} {α : Type}

theorem congr (h : deps.Summarizes E) (hE : ∀ e, E e ↔ E' e) : deps.Summarizes E' := by
  have heq : E = E' := by
    funext e
    exact propext (hE e)
  exact heq ▸ h

theorem empty : Summarizes {} fun _ => False := by
  constructor <;> simp

theorem exists_iff (h : deps.Summarizes E) :
    (∃ d, deps[D]? = some d) ↔ ∃ e, E e ∧ e.module = D := by
  constructor
  · intro hex
    obtain ⟨d, hd⟩ := hex
    obtain ⟨e, he, -⟩ := (h.sums hd).named
    exact ⟨e, he⟩
  · intro hex
    obtain ⟨e, he, rfl⟩ := hex
    exact h.covers he

/-- An entry is replaced by the sum of its evidence and one more piece. -/
theorem insert (h : deps.Summarizes E) {dep sum : Dependence} (hmodule : sum.module = dep.module)
    (hsum : sum.Sums fun e => (E e ∧ e.module = dep.module) ∨ e = dep) :
    Summarizes (deps.insert dep.module sum) fun e => E e ∨ e = dep := by
  have hget (D : ModuleId) : (Std.TreeMap.insert deps dep.module sum)[D]? =
      if dep.module = D then some sum else deps[D]? := treeMap_getElem?_insert _ _ _ _
  refine ⟨covers_insert h.covers, fun {D d} hd => ?_, fun {D d} hd => ?_⟩
  · rw [hget] at hd
    split_ifs at hd with hD
    · cases hd
      exact hmodule.trans hD
    · exact h.module_eq hd
  · rw [hget] at hd
    split_ifs at hd with hD
    · cases hd
      subst hD
      exact hsum.congr fun e => evidence_at.symm
    · exact (h.sums hd).congr fun e => (evidence_of_ne hD).symm

/-- One more piece of evidence either adds up or is in conflict with another name. -/
theorem ends_add (h : deps.Summarizes E) (requester : String) (dep : Dependence) :
    Ends (deps.add requester dep) (fun deps' => Summarizes deps' fun e => E e ∨ e = dep)
      ConflictError := by
  unfold Dependences.add
  cases hd : deps[dep.module]? with
  | none =>
    exact h.insert rfl (dep.sums_self.congr fun e => evidence_of_none h.covers hd)
  | some existing =>
    have hmodule := h.module_eq hd
    dsimp only
    cases hmerge : existing.merge requester dep with
    | error e => exact Dependence.merge_error hmerge
    | ok result =>
      obtain ⟨merged, changed⟩ := result
      exact h.insert ((Dependence.merge_module hmerge).trans hmodule)
        ((h.sums hd).merge hmodule.symm hmerge)

/-- A loop adds up the evidence of its steps, if every step does so with any evidence before it. -/
theorem ends_foldlM (P : α → Dependence → Prop) (h : deps.Summarizes E)
    {f : Dependences → α → Except BuildError Dependences} {bad : BuildError → Prop} {l : List α}
    (hstep : ∀ a ∈ l, ∀ {E : Dependence → Prop} {deps : Dependences}, deps.Summarizes E →
      Ends (f deps a) (fun deps' => Summarizes deps' fun e => E e ∨ P a e) bad) :
    Ends (l.foldlM f deps) (fun deps' => Summarizes deps' fun e => E e ∨ ∃ a ∈ l, P a e) bad := by
  induction l generalizing deps E with
  | nil => exact h.congr fun e => by simp
  | cons a l ih =>
    rw [List.foldlM_cons]
    refine (hstep a (by simp) h).bind fun deps' h' => ?_
    refine (ih h' fun b hb => hstep b (by simp [hb])).weaken fun deps'' h'' => h''.congr fun e => ?_
    simp only [List.mem_cons, exists_eq_or_imp, or_assoc]

end Summarizes

end Dependences

end ModuleGraph
