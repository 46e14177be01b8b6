import ModuleGraph.Proofs.Packages
import ModuleGraph.Proofs.Renaming.Partitions
import ModuleGraph.Proofs.SplitPackages
import ModuleGraph.Resolution.Surface

/-!
# Packages and views up to the numbers of classes

A package summary counts classes one after the other, and it does not matter in which order
(`Packages.equiv_summarize`). So modules have the same package summaries whatever the numbers of
classes are, and with them the same views and split packages.
-/

namespace ModuleGraph

variable {σ : Equiv.Perm ClassId}

/-! ## Summaries -/

namespace PackageSummary

theorem addClass_comm (s : PackageSummary) (e f : ClassEntry) :
    addClass f (addClass e s) = addClass e (addClass f s) := by
  unfold addClass
  simp only [Nat.add_right_comm]

/-- Counting depends on neither the order nor the numbers in the entries. -/
theorem foldl_addClass_eq {l l' : List ClassEntry}
    (h : (l.map ClassEntry.bare).Perm (l'.map ClassEntry.bare)) (s : PackageSummary) :
    l'.foldl (fun s e => s.addClass e) s = l.foldl (fun s e => s.addClass e) s := by
  have hbare (l : List ClassEntry) :
      l.foldl (fun s e => s.addClass e) s =
        (l.map ClassEntry.bare).foldl (fun s e => s.addClass e) s := by
    rw [List.foldl_map]
    rfl
  rw [hbare l, hbare l']
  exact h.symm.foldl_eq' (f := fun s e => addClass e s) (fun e _ f _ s => addClass_comm s e f) s

end PackageSummary

namespace Packages

variable {r s : Registry} {classes classes' : List ClassId}

theorem perm_classesIn (h : r.Renamed σ s) (hperm : (classes.map σ).Perm classes')
    (name : String) :
    ((classesIn r classes name).map ClassEntry.bare).Perm
      ((classesIn s classes' name).map ClassEntry.bare) := by
  have hentries : (classes.map σ).filterMap (fun c => (s.classes[c]?).map ClassEntry.bare) =
      classes.filterMap fun c => (r.classes[c]?).map ClassEntry.bare := by
    rw [List.filterMap_map]
    refine congrArg (List.filterMap · classes) (funext fun c => ?_)
    have hc := h.classes c
    show (s.classes[σ c]?).map _ = _
    generalize r.classes[c]? = x at *
    generalize s.classes[σ c]? = y at *
    cases hc with
    | some hef => exact congrArg some hef.bare_eq
    | none => rfl
  have hin (t : Registry) (l : List ClassId) : (classesIn t l name).map ClassEntry.bare =
      (l.filterMap fun c => (t.classes[c]?).map ClassEntry.bare).filter (·.package == name) := by
    unfold classesIn
    rw [← List.map_filterMap, List.filter_map]
    rfl
  rw [hin, hin, ← hentries]
  exact (hperm.filterMap _).filter _

/-- Summaries depend on neither the order of classes nor their numbers. -/
theorem equiv_summarize (h : r.Renamed σ s) (hperm : (classes.map σ).Perm classes')
    (resources : List ResourceId) (exported : ExportedPackages) :
    Std.TreeMap.Equiv (summarize r classes resources exported)
      (summarize s classes' resources exported) := by
  refine .of_forall_constGet?_eq fun name => ?_
  have hclasses := perm_classesIn h hperm name
  have hresources : resourcesIn s resources name = resourcesIn r resources name := by
    unfold resourcesIn
    simp only [h.resources]
  have hempty : classesIn s classes' name = [] ↔ classesIn r classes name = [] := by
    rw [← List.length_eq_zero_iff, ← List.length_eq_zero_iff]
    simpa using congrArg (· = 0) hclasses.length_eq.symm
  have htotal : total s classes' resources name = total r classes resources name := by
    unfold total
    rw [hresources, PackageSummary.foldl_addClass_eq hclasses]
  rw [getElem?_summarize, getElem?_summarize, htotal, hresources]
  simp only [hempty]

end Packages

theorem Partition.Renamed.equiv_packagesOf {p q : Partition} (h : p.Renamed σ q)
    (exported : ExportedPackages) (id : ModuleId) :
    Std.TreeMap.Equiv (p.table.packagesOf p.registry exported id)
      (q.table.packagesOf q.registry exported id) := by
  have hid := h.table.modules id
  unfold ModuleTable.packagesOf
  generalize p.table.get? id = x at *
  generalize q.table.get? id = y at *
  cases hid with
  | none => exact .rfl
  | some hmn =>
    rename_i m n
    dsimp only
    rw [hmn.resources_eq]
    exact Packages.equiv_summarize h.registry hmn.perm_classes _ _

/-! ## Split packages -/

theorem SplitPackages.detect_eq (tops : List ModuleId) {f g : ModuleId → Packages}
    (h : ∀ id, Std.TreeMap.Equiv (f id) (g id)) :
    detect (tops.map fun id => (id, g id)) = detect (tops.map fun id => (id, f id)) := by
  unfold detect holders
  rw [List.foldl_map, List.foldl_map]
  simp only [(h _).values_eq]

/-! ## Views -/

namespace ModuleTable.Renamed

variable {t u : ModuleTable}

theorem requireGroup_eq (h : t.Renamed σ u) (name context : String) :
    u.requireGroup name context = t.requireGroup name context := by
  unfold requireGroup
  simp only [h.require_eq, h.name_eq, h.group_eq]

theorem viewsOf_eq (h : t.Renamed σ u) {packages packages' : Packages}
    (hp : Std.TreeMap.Equiv packages packages') (top : ModuleId) :
    u.viewsOf packages' top = t.viewsOf packages top := by
  have hresolve : u.resolveView = t.resolveView := by
    funext view
    unfold resolveView
    simp only [h.requireGroup_eq]
  have hdeclared : (u.groupModules top).flatMap (·.spec.views) =
      (t.groupModules top).flatMap (·.spec.views) :=
    h.groupModules_congr (List.flatMap (·.spec.views)) (fun l => by rw [List.flatMap_map]; rfl) top
  have hmain : u.mainClass? top = t.mainClass? top :=
    h.groupModules_congr (List.findSome? (·.spec.mainClass))
      (fun l => by rw [List.findSome?_map]; rfl) top
  have hinternal : (u.get? top).any (·.spec.internalView) =
      (t.get? top).any (·.spec.internalView) :=
    h.any_eq (·.spec.internalView) (fun _ => rfl) top
  have hviews (name : String) (mainClass : Option String) (internalView : Bool)
      (declared : List ViewSpec) :
      View.forModule name mainClass internalView declared packages' =
        View.forModule name mainClass internalView declared packages := by
    unfold View.forModule View.ofModule View.internalOf View.packagesWhere
    rw [hp.values_eq]
  unfold viewsOf
  simp only [hresolve, hdeclared, hmain, hinternal, h.name_eq, hviews]

end ModuleTable.Renamed

namespace Surfaces

/-- The same views, and packages with the same entries. -/
structure Same (a b : Surfaces) : Prop where
  views_eq : b.views = a.views
  owners_eq : b.owners = a.owners
  packages : ∀ id, Std.TreeMap.Equiv (a.packages.getD id {}) (b.packages.getD id {})

variable {t u : ModuleTable} {a b : Surfaces}

theorem alike_addViews (h : t.Renamed σ u) (hab : a.Same b) (top : ModuleId) :
    Alike Same (a.addViews t top) (b.addViews u top) := by
  have hclaim : claimName u top = claimName t top := by
    funext owners view
    unfold claimName
    simp only [h.find_eq, h.group_eq, h.name_eq]
  unfold addViews
  rw [h.viewsOf_eq (hab.packages top), hclaim, hab.owners_eq, hab.views_eq]
  refine Alike.bind_same _ fun views => Alike.bind_same _ fun owners => ?_
  exact ⟨rfl, rfl, hab.packages⟩

theorem getD_ofPackages {tops : List ModuleId} (htops : tops.Nodup) (f : ModuleId → Packages)
    (id : ModuleId) : (ofPackages (tops.map fun id => (id, f id))).packages.getD id {} =
      if id ∈ tops then f id else {} := by
  unfold ofPackages
  dsimp only
  rw [Std.TreeMap.getD_eq_getD_getElem?]
  split_ifs with hid
  · have hdistinct : (tops.map fun id => (id, f id)).Pairwise
        fun a b => ¬compare a.1 b.1 = .eq := by
      rw [List.pairwise_map]
      exact htops.imp fun hne heq => hne (Std.LawfulEqCmp.eq_of_compare heq)
    rw [Std.TreeMap.getElem?_ofList_of_mem (Std.ReflCmp.compare_self) hdistinct
      (List.mem_map_of_mem hid)]
    rfl
  · rw [Std.TreeMap.getElem?_ofList_of_contains_eq_false]
    · rfl
    · simpa using hid

theorem same_ofPackages {tops : List ModuleId} (htops : tops.Nodup) {f g : ModuleId → Packages}
    (h : ∀ id, Std.TreeMap.Equiv (f id) (g id)) :
    Same (ofPackages (tops.map fun id => (id, f id)))
      (ofPackages (tops.map fun id => (id, g id))) where
  views_eq := rfl
  owners_eq := rfl
  packages id := by
    rw [getD_ofPackages htops, getD_ofPackages htops]
    split_ifs
    · exact h id
    · exact .rfl

end Surfaces

end ModuleGraph
