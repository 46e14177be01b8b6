import Mathlib.Data.String.Basic
import ModuleGraph.ModuleInfo

/-!
# Requires lists

A requires list is a rearrangement of the dependences that it is made from, with names that strictly
increase, if these lead to modules of different names (`ModuleInfo.pairwise_sortRequires`).
-/

namespace ModuleGraph

namespace Dependence

variable {d e f : Dependence}

theorem precedes_iff :
    d.precedes e ↔ d.moduleName < e.moduleName ∨
      (d.moduleName = e.moduleName ∧ d.module ≤ e.module) := by
  simp [precedes]

theorem precedes_trans (hde : d.precedes e) (hef : e.precedes f) : d.precedes f := by
  rw [precedes_iff] at *
  rcases hde with hlt | ⟨heq, hle⟩
  · rcases hef with hlt' | ⟨heq', -⟩
    · exact .inl (lt_trans hlt hlt')
    · exact .inl (heq' ▸ hlt)
  · rcases hef with hlt' | ⟨heq', hle'⟩
    · exact .inl (heq ▸ hlt')
    · exact .inr ⟨heq.trans heq', hle.trans hle'⟩

theorem precedes_total (d e : Dependence) : (d.precedes e || e.precedes d) = true := by
  rw [Bool.or_eq_true, precedes_iff, precedes_iff]
  rcases lt_trichotomy d.moduleName e.moduleName with hlt | heq | hlt
  · exact .inl (.inl hlt)
  · rcases Nat.le_total d.module e.module with hle | hle
    · exact .inl (.inr ⟨heq, hle⟩)
    · exact .inr (.inr ⟨heq.symm, hle⟩)
  · exact .inr (.inl hlt)

end Dependence

/-- No two neighbours lead to one module if no two dependences do. -/
theorem dropRepeats_eq_self {deps : List Dependence}
    (h : deps.Pairwise fun d e => d.module ≠ e.module) : dropRepeats deps = deps := by
  induction deps with
  | nil => rfl
  | cons d rest ih =>
    obtain ⟨hd, hrest⟩ := List.pairwise_cons.1 h
    rw [dropRepeats, ih hrest]
    cases rest with
    | nil => rfl
    | cons e rest =>
      have hne : d.module ≠ e.module := hd e (List.mem_cons_self ..)
      simp [hne]

namespace ModuleInfo

variable {deps : List Dependence}

theorem sortRequires_eq (h : deps.Pairwise fun d e => d.moduleName ≠ e.moduleName)
    (hmodule : ∀ d ∈ deps, ∀ e ∈ deps, d.module = e.module → d.moduleName = e.moduleName) :
    sortRequires deps = deps.mergeSort Dependence.precedes := by
  have hperm := List.mergeSort_perm deps Dependence.precedes
  have hnames : (deps.mergeSort Dependence.precedes).Pairwise
      fun d e => d.moduleName ≠ e.moduleName :=
    hperm.symm.pairwise h fun hne => hne.symm
  apply dropRepeats_eq_self
  refine hnames.imp_of_mem fun {d e} hd he hne heq => hne ?_
  exact hmodule d (hperm.mem_iff.1 hd) e (hperm.mem_iff.1 he) heq

theorem mem_sortRequires (h : deps.Pairwise fun d e => d.moduleName ≠ e.moduleName)
    (hmodule : ∀ d ∈ deps, ∀ e ∈ deps, d.module = e.module → d.moduleName = e.moduleName)
    {d : Dependence} : d ∈ sortRequires deps ↔ d ∈ deps := by
  rw [sortRequires_eq h hmodule]
  exact List.mem_mergeSort

/-- Sorting puts different names into strictly increasing order. -/
theorem pairwise_sortRequires (h : deps.Pairwise fun d e => d.moduleName ≠ e.moduleName)
    (hmodule : ∀ d ∈ deps, ∀ e ∈ deps, d.module = e.module → d.moduleName = e.moduleName) :
    (sortRequires deps).Pairwise fun d e => d.moduleName < e.moduleName := by
  rw [sortRequires_eq h hmodule]
  have hsorted : (deps.mergeSort Dependence.precedes).Pairwise fun d e => d.precedes e :=
    @List.pairwise_mergeSort Dependence Dependence.precedes
      (fun _ _ _ hde hef => Dependence.precedes_trans hde hef) Dependence.precedes_total deps
  have hnames : (deps.mergeSort Dependence.precedes).Pairwise
      fun d e => d.moduleName ≠ e.moduleName :=
    (List.mergeSort_perm deps Dependence.precedes).symm.pairwise h fun hne => hne.symm
  refine (hsorted.and hnames).imp fun {d e} hde => ?_
  rcases Dependence.precedes_iff.1 hde.1 with hlt | ⟨heq, -⟩
  · exact hlt
  · exact absurd heq hde.2

end ModuleInfo

end ModuleGraph
