import ModuleGraph.Proofs.ClassList
import ModuleGraph.Proofs.Renaming.Builder

/-!
# The order of lines in a class list

Classes are numbered in the order in which the lines of a class list first name them, and these
numbers decide the order in which every pass goes through them. Nothing else depends on the order of
the lines, but for those of resources and providers: registries that know the same are the same up
to a renaming (`Registry.Knows.exists_renamed`), and so are all that follows from them
(`ClassList.alike_of_perm`).
-/

namespace ModuleGraph

/-! ## Renamings between registries -/

namespace Registry

/-- The number under which another registry has a class; numbers of no class stay. -/
def counterpart (r s : Registry) (c : ClassId) : ClassId :=
  (r.classes[c]?).elim c fun entry => (s.findClass entry.name).getD c

namespace Knows

variable {N : Set String} {D : Set (String × Bool × Nat)} {E : Set (String × String)}
  {r s : Registry} {c : ClassId} {e : ClassEntry}

theorem exists_counterpart (hr : r.Knows N D E) (hs : s.Knows N D E) (hc : r.classes[c]? = some e) :
    ∃ f, s.classes[r.counterpart s c]? = some f ∧ f.name = e.name ∧
      s.findClass e.name = some (r.counterpart s c) := by
  obtain ⟨d, f, hd, hname⟩ := (hs.mem_names e.name).1 (hr.mem_of_getElem? hc)
  have hfind : s.findClass e.name = some d := hs.findClass_eq_some_iff.2 ⟨f, hd, hname⟩
  have hcounterpart : r.counterpart s c = d := by
    unfold counterpart
    rw [hc, Option.elim_some, hfind, Option.getD_some]
  rw [hcounterpart]
  exact ⟨f, hd, hname, hfind⟩

theorem size_le (hr : r.Knows N D E) (hs : s.Knows N D E) : r.classes.size ≤ s.classes.size := by
  have hentry {c : ClassId} (hc : c ∈ Finset.range r.classes.size) :
      ∃ e, r.classes[c]? = some e := ⟨_, Array.getElem?_eq_getElem (Finset.mem_range.1 hc)⟩
  have hcard := Finset.card_le_card_of_injOn (s := Finset.range r.classes.size)
    (t := Finset.range s.classes.size) (r.counterpart s) ?maps ?injective
  · simpa using hcard
  case maps =>
    intro c hc
    obtain ⟨e, he⟩ := hentry hc
    obtain ⟨f, hf, -⟩ := hr.exists_counterpart hs he
    exact Finset.mem_range.2 (Array.getElem?_eq_some_iff.1 hf).1
  case injective =>
    intro c hc d hd heq
    obtain ⟨e, he⟩ := hentry hc
    obtain ⟨e', he'⟩ := hentry hd
    obtain ⟨f, hf, hname, -⟩ := hr.exists_counterpart hs he
    obtain ⟨f', hf', hname', -⟩ := hr.exists_counterpart hs he'
    rw [heq, hf'] at hf
    cases hf
    exact hr.eq_of_name_eq he he' (hname.symm.trans hname')

theorem counterpart_of_none (hc : r.classes[c]? = none) : r.counterpart s c = c := by
  unfold counterpart
  rw [hc, Option.elim_none]

theorem counterpart_counterpart (hr : r.Knows N D E) (hs : s.Knows N D E) (c : ClassId) :
    s.counterpart r (r.counterpart s c) = c := by
  cases hc : r.classes[c]? with
  | some e =>
    obtain ⟨f, hf, hname, -⟩ := hr.exists_counterpart hs hc
    obtain ⟨e', he', hname', -⟩ := hs.exists_counterpart hr hf
    exact hr.eq_of_name_eq he' hc (hname'.trans hname)
  | none =>
    rw [counterpart_of_none hc, counterpart_of_none]
    rw [Array.getElem?_eq_none_iff] at hc ⊢
    exact (hs.size_le hr).trans hc

/-- What is at a number has the same name in both registries. -/
theorem rel_counterpart (hr : r.Knows N D E) (hs : s.Knows N D E) (c : ClassId) :
    Option.Rel (fun e f => f.name = e.name) r.classes[c]? s.classes[r.counterpart s c]? := by
  cases hc : r.classes[c]? with
  | none =>
    have hnone : s.classes[c]? = none := by
      rw [Array.getElem?_eq_none_iff] at hc ⊢
      exact (hs.size_le hr).trans hc
    rw [counterpart_of_none hc, hnone]
    exact .none
  | some e =>
    obtain ⟨f, hf, hname, -⟩ := hr.exists_counterpart hs hc
    rw [hf]
    exact .some hname

/-- Registries that know the same classes and have the same resources are the same up to the numbers
of classes. -/
theorem exists_renamed (hr : r.Knows N D E) (hs : s.Knows N D E)
    (hresources : s.resources = r.resources) : ∃ σ, r.Renamed σ s := by
  let σ : Equiv.Perm ClassId := ⟨r.counterpart s, s.counterpart r,
    hr.counterpart_counterpart hs, hs.counterpart_counterpart hr⟩
  have hnames (c : ClassId) :
      Option.Rel (fun e f : ClassEntry => f.name = e.name) r.classes[c]? s.classes[σ c]? :=
    hr.rel_counterpart hs c
  refine ⟨σ, fun c => ?classes, fun name => ?findClass, fun i => by rw [hresources]⟩
  case classes =>
    have hc := hnames c
    cases he : r.classes[c]? with
    | none =>
      cases hf : s.classes[σ c]? with
      | none => exact .none
      | some f => rw [he, hf] at hc; cases hc
    | some e =>
      obtain ⟨f, hf, hname⟩ := rel_exists hc he
      rw [hf]
      refine .some ⟨(hr.follows c e he).bare_eq (hs.follows _ f hf) hname, fun d => ?_⟩
      rw [hr.mem_references c e he, hs.mem_references _ f hf]
      exact rel_exists_iff (hnames d) fun target target' htarget => by rw [hname, htarget]
  case findClass =>
    cases hfind : r.findClass name with
    | none =>
      refine Option.eq_none_iff_forall_ne_some.2 fun c hc => ?_
      obtain ⟨f, hf, hname⟩ := hs.findClass_eq_some_iff.1 hc
      obtain ⟨d, e, he, hname'⟩ := (hr.mem_names f.name).1 (hs.mem_of_getElem? hf)
      rw [hr.findClass_eq_some_iff.2 ⟨e, he, hname'.trans hname⟩] at hfind
      cases hfind
    | some c =>
      obtain ⟨e, he, hname⟩ := hr.findClass_eq_some_iff.1 hfind
      obtain ⟨f, -, -, hc⟩ := hr.exists_counterpart hs he
      rw [hname] at hc
      exact hc

end Knows

end Registry

/-! ## Entries in another order -/

namespace ClassList

variable {entries entries' : List Entry}

theorem Describes.of_perm {r : Registry} (h : Describes entries r) (hperm : entries.Perm entries') :
    Describes entries' r := by
  have hnames : names entries' = names entries :=
    Set.ext fun name => ((hperm.flatMap_right Entry.names).mem_iff).symm
  have hdefinitions : definitions entries' = definitions entries :=
    Set.ext fun d => hperm.mem_iff.symm
  have hreferences : references entries' = references entries :=
    Set.ext fun d => exists_congr fun isOptional => hperm.mem_iff.symm
  unfold Describes
  rw [hnames, hdefinitions, hreferences]
  exact h

theorem Acceptable.of_perm (h : Acceptable entries) (hperm : entries.Perm entries')
    (hfiles : entries.filter Entry.isFile = entries'.filter Entry.isFile) :
    Acceptable entries' := by
  refine ⟨(hperm.filterMap _).nodup h.1, ?_⟩
  rw [← hfiles]
  exact h.2

theorem Entered.exists_renamed {r s : Registry} (h : Entered entries r) (h' : Entered entries' s)
    (hperm : entries.Perm entries')
    (hfiles : entries.filter Entry.isFile = entries'.filter Entry.isFile) :
    ∃ σ, r.Renamed σ s := by
  have heq : r.files = s.files := by
    have hrun := h.files
    rw [hfiles, h'.files] at hrun
    exact (Except.ok.inj hrun).symm
  exact Registry.Knows.exists_renamed (h.describes.of_perm hperm) h'.describes
    (congrArg (·.resources) heq.symm)

/-! ## Lines in another order -/

variable {text text' : String}

theorem filter_isFile_entriesOf (text : String) :
    (entriesOf text).filter Entry.isFile =
      ((contentLines text).filter saysFile).filterMap Entry.ofLine? := by
  unfold entriesOf
  rw [List.filter_filterMap, List.filterMap_filter]
  refine congrArg (List.filterMap · _) (funext fun cs => ?_)
  unfold saysFile
  cases Entry.ofLine? cs with
  | none => simp
  | some entry => cases hfile : entry.isFile <;> simp [hfile]

/-- Class lists with the same lines, those of resources in the same order, are read alike. -/
theorem alike_read (hperm : (contentLines text).Perm (contentLines text'))
    (hfiles : (contentLines text).filter saysFile = (contentLines text').filter saysFile) :
    Alike
      (fun list list' => (∃ σ, (read {} text).1.Renamed σ (read {} text').1) ∧
        list.optionalEdges.Perm list'.optionalEdges)
      (read {} text).2 (read {} text').2 := by
  have hentries : (entriesOf text).Perm (entriesOf text') := hperm.filterMap _
  have hentryFiles : (entriesOf text).filter Entry.isFile =
      (entriesOf text').filter Entry.isFile := by
    rw [filter_isFile_entriesOf, filter_isFile_entriesOf, hfiles]
  refine Alike.of_ok_iff ?_ fun list list' hlist hlist' => ?_
  · rw [exists_read_iff, exists_read_iff]
    refine and_congr (forall_congr' fun cs => by rw [hperm.mem_iff]) ⟨fun h => ?_, fun h => ?_⟩
    · exact h.of_perm hentries hentryFiles
    · exact h.of_perm hentries.symm hentryFiles.symm
  · obtain ⟨-, hrun, rfl⟩ := (ends_read text).of_ok hlist
    obtain ⟨-, hrun', rfl⟩ := (ends_read text').of_ok hlist'
    have hentered := (ends_enterAll _).of_ok hrun
    have hentered' := (ends_enterAll _).of_ok hrun'
    refine ⟨hentered.exists_renamed hentered' hentries hentryFiles, ?_⟩
    rw [Entry.optionalEdges_foldl_count, Entry.optionalEdges_foldl_count]
    exact hentries.filterMap _

end ClassList

/-! ## Builds -/

theorem OptionalRules.isOptional_congr {a b : OptionalRules} (hrules : a.rules = b.rules)
    (hedges : ∀ e, e ∈ a.edges ↔ e ∈ b.edges) : a.isOptional = b.isOptional := by
  funext source target
  have hcontains : a.edges.contains (source.name, target.name) =
      b.edges.contains (source.name, target.name) := by
    rw [Bool.eq_iff_iff, List.contains_iff_mem, List.contains_iff_mem]
    exact hedges (source.name, target.name)
  unfold isOptional
  rw [hrules, hcontains]

theorem BuildPlan.byName_of_classifier_eq {plan : BuildPlan} {rules : OptionalRules}
    (h : plan.classifier = rules.isOptional) : plan.ByName := by
  intro e f e' f' he hf
  rw [h]
  unfold OptionalRules.isOptional
  rw [he, hf]

/-- Builds that a configuration describes go alike for registries that are the same up to a
renaming, if the same references are marked as optional. -/
theorem Configuration.alike_buildWith (c : Configuration) {r s : Registry}
    {σ : Equiv.Perm ClassId} (h : r.Renamed σ s) {a b : OptionalRules} (hrules : a.rules = b.rules)
    (hedges : ∀ e, e ∈ a.edges ↔ e ∈ b.edges) (merge : Bool) :
    Alike (Outcome.Renamed σ) (c.buildWith r a merge).result (c.buildWith s b merge).result := by
  have hclassifier (rules : OptionalRules) :
      (rules.extend b).isOptional = (rules.extend a).isOptional :=
    (OptionalRules.isOptional_congr (congrArg (rules.rules ++ ·) hrules) fun e => by
      unfold OptionalRules.extend
      rw [List.mem_append, List.mem_append, hedges]).symm
  unfold buildWith
  split
  case h_1 => exact .error
  case h_2 => exact .error
  case h_3 rules plan _ _ =>
    dsimp only
    rw [hclassifier]
    cases c.platform with
    | none => exact (Builder.plain _).alike_build (BuildPlan.byName_of_classifier_eq rfl) h
    | some settings =>
      exact (Builder.platform (.new _ settings)).alike_build
        (BuildPlan.byName_of_classifier_eq rfl) h

/-- A program and the library that it uses. -/
def Configuration.twoModules : Configuration where
  modules := [{ name := "a", roots := ["a.*"] }, { name := "b", roots := ["b.*"] }]

namespace ClassList

/-- A configuration is built alike from two class lists with the same lines in any order, if only
those of resources and providers keep theirs: either neither list can be read; or both can, and
either neither build succeeds, or both do and agree. -/
theorem alike_of_perm (c : Configuration) (rules : OptionalRules) (merge : Bool)
    (text text' : String) (hperm : (contentLines text).Perm (contentLines text'))
    (hfiles : (contentLines text).filter saysFile = (contentLines text').filter saysFile) :
    Alike
      (fun list list' =>
        Alike Outcome.Agrees
          (c.buildWith (read {} text).1 (rules.withEdges list.optionalEdges) merge).result
          (c.buildWith (read {} text').1 (rules.withEdges list'.optionalEdges) merge).result)
      (read {} text).2 (read {} text').2 := by
  refine (alike_read hperm hfiles).weaken fun list list' ⟨⟨σ, hσ⟩, hedges⟩ => ?_
  have hrules : (rules.withEdges list.optionalEdges).rules =
      (rules.withEdges list'.optionalEdges).rules := rfl
  refine (c.alike_buildWith hσ hrules (fun e => ?_) merge).weaken fun _ _ hab => hab.agrees
  unfold OptionalRules.withEdges OptionalRules.extend
  rw [List.mem_append, List.mem_append, hedges.mem_iff]

/-- The program comes first. -/
def programFirst : String :=
  "class a.A\nresource b/r 1\n[optional] a.A -> b.B\nclass b.B\n"

/-- The same lines in another order and with other ends. -/
def libraryFirst : String :=
  "class b.B\r\nresource b/r 1\r\nclass a.A\r\n[optional] a.A -> b.B"

/-- The classes have other numbers, but the builds agree. -/
theorem alike_libraryFirst :
    (contentLines programFirst).Perm (contentLines libraryFirst) ∧
      (contentLines programFirst).filter saysFile = (contentLines libraryFirst).filter saysFile ∧
      ∃ list list' outcome outcome',
        (read {} programFirst).2 = .ok list ∧ (read {} libraryFirst).2 = .ok list' ∧
        (read {} programFirst).1.findClass "a.A" = some 0 ∧
        (read {} libraryFirst).1.findClass "a.A" = some 1 ∧
        (Configuration.twoModules.buildWith (read {} programFirst).1
          (OptionalRules.withEdges {} list.optionalEdges) true).result = .ok outcome ∧
        (Configuration.twoModules.buildWith (read {} libraryFirst).1
          (OptionalRules.withEdges {} list'.optionalEdges) true).result = .ok outcome' ∧
        outcome.orderedNames = ["a", "b"] ∧ outcome.Agrees outcome' := by
  have hperm : (contentLines programFirst).Perm (contentLines libraryFirst) := by decide +kernel
  have hfiles : (contentLines programFirst).filter saysFile =
      (contentLines libraryFirst).filter saysFile := by decide +kernel
  have hread : ∃ list, (read {} programFirst).2 = .ok list ∧
      (read {} programFirst).1.findClass "a.A" = some 0 ∧
      ∃ outcome, (Configuration.twoModules.buildWith (read {} programFirst).1
        (OptionalRules.withEdges {} list.optionalEdges) true).result = .ok outcome ∧
        outcome.orderedNames = ["a", "b"] := by decide +kernel
  have hread' : ∃ list, (read {} libraryFirst).2 = .ok list ∧
      (read {} libraryFirst).1.findClass "a.A" = some 1 := by decide +kernel
  obtain ⟨list, hlist, hfirst, outcome, hbuild, horder⟩ := hread
  obtain ⟨list', hlist', hsecond⟩ := hread'
  have hreads := alike_of_perm .twoModules {} true programFirst libraryFirst hperm hfiles
  have hbuilds := Alike.of_ok hreads hlist hlist'
  obtain ⟨outcome', hbuild'⟩ := hbuilds.exists_ok_iff.1 ⟨outcome, hbuild⟩
  exact ⟨hperm, hfiles, list, list', outcome, outcome', hlist, hlist', hfirst, hsecond, hbuild,
    hbuild', horder, hbuilds.of_ok hbuild hbuild'⟩

end ClassList

end ModuleGraph
