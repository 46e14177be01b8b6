import ModuleGraph.Proofs.FileActions
import ModuleGraph.Proofs.ModuleNames

/-!
# The files of a report

All files of a report have different names: an ending tells the list files of a module from those of
other modules and from the two files of the report (`eq_of_append_ending`). A directory has the bare
name of its module, and that may be the name of a file. If it is, the report cannot be written
(`BuildReport.Clashes`).

* `BuildReport.pairwise_layout`: where two steps can meet.
* `BuildReport.written_iff`: a report of modules with different proper names is written into an
  empty directory exactly if no module has the name of a file. Then the directory holds the layout
  of the report and nothing else.
* `BuildReport.not_written_resources`: two modules of proper names that get into each other's way.
-/

namespace ModuleGraph

/-! ## The layout of a report -/

/-- The endings of the list files of a module. -/
def listEndings : List String :=
  [".classlist", ".resources", ".unresolved"]

/-- The files of a report that belong to no module. -/
def reportFiles : List String :=
  ["modules.list", "split-packages.txt"]

/-- Where the entries for a module stand below the directory, and what they are. -/
def ModuleReport.layout (r : ModuleReport) : List (List String × FileEntry) :=
  [([r.name ++ ".classlist"], .file (unlines r.classes)),
    ([r.name ++ ".resources"], .file (unlines r.resources)),
    ([r.name ++ ".unresolved"],
      .file (unlines (r.unresolved.map fun u => u.source ++ " -> " ++ u.target))),
    ([r.name], .directory),
    ([r.name, "module-info.java"], .file r.descriptor)]

namespace BuildReport

/-- Where the entries of a report stand below the directory, and what they are. -/
def layout (report : BuildReport) : List (List String × FileEntry) :=
  [(["modules.list"], .file (unlines report.order))] ++
    report.modules.flatMap ModuleReport.layout ++
    [(["split-packages.txt"], .file (unlines (report.splitPackages.map SplitReport.line)))]

/-- The names of the files that stand in the directory itself. -/
def fileNames (report : BuildReport) : List String :=
  reportFiles ++ report.modules.flatMap fun r => listEndings.map (r.name ++ ·)

/-- A module has the name of a file that stands beside its directory. -/
def Clashes (report : BuildReport) : Prop :=
  ∃ r ∈ report.modules, r.name ∈ report.fileNames

instance (report : BuildReport) : Decidable report.Clashes :=
  inferInstanceAs (Decidable (∃ r ∈ report.modules, _))

/-- The places of the files that are written, in order. -/
def written (report : BuildReport) : List (List String) :=
  report.actions.filterMap fun
    | .write path _ => some (Path.names path)
    | .makeDirectory _ => none

end BuildReport

/-! ## Names with an ending -/

variable {m n e e' f : String}

/-- Texts that end in both endings have one of the two within the other. -/
theorem suffix_or_suffix_of_append_eq (h : m ++ e = n ++ e') :
    e.toList <:+ e'.toList ∨ e'.toList <:+ e.toList := by
  have hlists : m.toList ++ e.toList = n.toList ++ e'.toList := by
    rw [← String.toList_append, h, String.toList_append]
  exact List.suffix_or_suffix_of_suffix (List.suffix_append _ _)
    (hlists ▸ List.suffix_append n.toList e'.toList)

/-- The name of a list file tells the module and the ending. -/
theorem eq_of_append_ending (he : e ∈ listEndings) (he' : e' ∈ listEndings)
    (h : m ++ e = n ++ e') : m = n ∧ e = e' := by
  have hapart : ∀ e ∈ listEndings, ∀ e' ∈ listEndings,
      e.toList <:+ e'.toList ∨ e'.toList <:+ e.toList → e = e' := by decide
  obtain rfl := hapart e he e' he' (suffix_or_suffix_of_append_eq h)
  exact ⟨(String.append_left_inj e).1 h, rfl⟩

/-- No list file has the name of a file of the report. -/
theorem append_ending_ne (he : e ∈ listEndings) (hf : f ∈ reportFiles) : m ++ e ≠ f := by
  have hapart : ∀ e ∈ listEndings, ∀ f ∈ reportFiles, ¬e.toList <:+ f.toList := by decide
  rintro rfl
  refine hapart e he _ hf ?_
  rw [String.toList_append]
  exact List.suffix_append _ _

theorem append_ending_ne_self (he : e ∈ listEndings) : n ++ e ≠ n := by
  have hpos : ∀ e ∈ listEndings, 0 < e.toList.length := by decide
  intro h
  have hlength := congrArg (·.toList.length) h
  simp only [String.toList_append, List.length_append] at hlength
  have hending := hpos e he
  omega

/-! ## Where two steps can meet -/

/-- Two entries have different places, or there is a clash between a directory and a file. -/
def Apart (clash : Prop) (p q : List String × FileEntry) : Prop :=
  p.1 = q.1 → (p.2 = .directory ↔ q.2 ≠ .directory) ∧ clash

theorem Apart.symm {clash : Prop} {p q : List String × FileEntry} (h : Apart clash p q) :
    Apart clash q p := by
  intro heq
  obtain ⟨hkinds, hclash⟩ := h heq.symm
  exact ⟨by tauto, hclash⟩

/-- What stands where for a module. -/
theorem ModuleReport.mem_layout {r : ModuleReport} {p : List String × FileEntry}
    (hp : p ∈ r.layout) :
    (∃ e ∈ listEndings, p.1 = [r.name ++ e] ∧ p.2 ≠ .directory) ∨
      (p.1 = [r.name] ∧ p.2 = .directory) ∨
      (p.1 = [r.name, "module-info.java"] ∧ p.2 ≠ .directory) := by
  simp only [layout, List.mem_cons, List.not_mem_nil, or_false] at hp
  rcases hp with rfl | rfl | rfl | rfl | rfl
  · exact .inl ⟨".classlist", by decide, rfl, nofun⟩
  · exact .inl ⟨".resources", by decide, rfl, nofun⟩
  · exact .inl ⟨".unresolved", by decide, rfl, nofun⟩
  · exact .inr (.inl ⟨rfl, rfl⟩)
  · exact .inr (.inr ⟨rfl, nofun⟩)

namespace BuildReport

variable {report : BuildReport} {r r' : ModuleReport} {p q : List String × FileEntry}

theorem clashes_of_ending (hr : r ∈ report.modules) (hr' : r' ∈ report.modules)
    (he : e ∈ listEndings) (h : r'.name = r.name ++ e) : report.Clashes := by
  refine ⟨r', hr', List.mem_append_right _ ?_⟩
  exact List.mem_flatMap.2 ⟨r, hr, List.mem_map.2 ⟨e, he, h.symm⟩⟩

/-- Modules of different names meet only where the one has the name of a list file of the other. -/
theorem apart_of_ne (hr : r ∈ report.modules) (hr' : r' ∈ report.modules)
    (hne : r.name ≠ r'.name) (hp : p ∈ r.layout) (hq : q ∈ r'.layout) :
    Apart report.Clashes p q := by
  intro heq
  rcases r.mem_layout hp with ⟨e, he, hplace, hkind⟩ | ⟨hplace, hkind⟩ | ⟨hplace, hkind⟩ <;>
  rcases r'.mem_layout hq with
    ⟨e', he', hplace', hkind'⟩ | ⟨hplace', hkind'⟩ | ⟨hplace', hkind'⟩ <;>
  rw [hplace, hplace'] at heq <;>
  simp only [List.cons.injEq, and_true, reduceCtorEq, and_false] at heq
  · exact absurd (eq_of_append_ending he he' heq).1 hne
  · exact ⟨by simp [hkind, hkind'], clashes_of_ending hr hr' he heq.symm⟩
  · exact ⟨by simp [hkind, hkind'], clashes_of_ending hr' hr he' heq⟩
  · exact absurd heq hne
  · exact absurd heq hne

/-- The file of the report meets a module only if that has its name. -/
theorem apart_of_reportFile (hf : f ∈ reportFiles) (text : String) (hr : r ∈ report.modules)
    (hp : p ∈ r.layout) : Apart report.Clashes ([f], .file text) p := by
  intro heq
  rcases r.mem_layout hp with ⟨e, he, hplace, hkind⟩ | ⟨hplace, hkind⟩ | ⟨hplace, hkind⟩ <;>
  rw [hplace] at heq <;>
  simp only [List.cons.injEq, and_true, reduceCtorEq, and_false] at heq
  · exact absurd heq.symm (append_ending_ne he hf)
  · exact ⟨by simp [hkind], r, hr, List.mem_append_left _ (heq ▸ hf)⟩

/-- The entries for one module have different places. -/
theorem pairwise_layout_module (clash : Prop) (r : ModuleReport) :
    r.layout.Pairwise (Apart clash) := by
  have hfile {e e' : String} (he : e ∈ listEndings) (he' : e' ∈ listEndings) (hne : e ≠ e') :
      r.name ++ e ≠ r.name ++ e' := fun heq => hne (eq_of_append_ending he he' heq).2
  have hplaces : (r.layout.map (·.1)).Nodup := by
    have hself {e : String} (he : e ∈ listEndings) := append_ending_ne_self (n := r.name) he
    simp only [ModuleReport.layout, List.map_cons, List.map_nil, List.nodup_cons, List.mem_cons,
      List.cons.injEq, and_true, reduceCtorEq, and_false, List.not_mem_nil, or_false, not_or,
      not_false_eq_true, List.nodup_nil]
    exact ⟨⟨hfile (by decide) (by decide) (by decide), hfile (by decide) (by decide) (by decide),
      hself (by decide)⟩, ⟨hfile (by decide) (by decide) (by decide), hself (by decide)⟩,
      hself (by decide)⟩
  exact (List.pairwise_map.1 hplaces).imp fun hne heq => absurd heq hne

/-- The entries of a report have different places, but where there is a clash. -/
theorem pairwise_layout (hnodup : (report.modules.map (·.name)).Nodup) :
    report.layout.Pairwise (Apart report.Clashes) := by
  have hmodules : (report.modules.flatMap ModuleReport.layout).Pairwise (Apart report.Clashes) := by
    refine List.pairwise_flatMap.2 ⟨fun r _ => pairwise_layout_module _ r, ?_⟩
    refine (List.pairwise_map.1 hnodup).imp_of_mem fun hr hr' hne p hp q hq => ?_
    exact apart_of_ne hr hr' hne hp hq
  unfold layout
  rw [List.append_assoc, List.singleton_append, List.pairwise_cons, List.pairwise_append]
  refine ⟨fun p hp => ?_, hmodules, List.pairwise_singleton _ _, fun p hp q hq => ?_⟩
  · rcases List.mem_append.1 hp with hp | hp
    · obtain ⟨r, hr, hp⟩ := List.mem_flatMap.1 hp
      exact apart_of_reportFile (by decide) _ hr hp
    · rw [List.mem_singleton.1 hp]
      intro heq
      have hne : ["modules.list"] ≠ ["split-packages.txt"] := by decide
      exact absurd heq hne
  · obtain ⟨r, hr, hp⟩ := List.mem_flatMap.1 hp
    rw [List.mem_singleton.1 hq]
    have hf : "split-packages.txt" ∈ reportFiles := by decide
    exact (apart_of_reportFile hf _ hr hp).symm

end BuildReport

/-! ## The steps of a report -/

theorem names_append {name : String} (h : isModuleName name) (ending : String)
    (hending : '/' ∉ ending.toList) : Path.names (name ++ ending) = [name ++ ending] := by
  obtain ⟨c, cs, hlist, hdot, hslash⟩ := exists_head_append h hending
  rw [Path.names, Path.steps_of_segment hlist hdot hslash]
  rfl

theorem names_of_isModuleName {name : String} (h : isModuleName name) :
    Path.names name = [name] := by
  have happend := names_append h "" (by decide)
  rwa [String.append_empty] at happend

theorem endsInSlash_of_not_mem {path : String} (h : '/' ∉ path.toList) :
    Path.endsInSlash path = false := by
  rw [Path.endsInSlash, beq_eq_false_iff_ne]
  exact fun hlast => h (List.mem_of_getLast? hlast)

namespace ModuleReport

variable {r : ModuleReport}

theorem names_moduleInfo (h : isModuleName r.name) :
    Path.names (Path.join r.name "module-info.java") = [r.name, "module-info.java"] := by
  have hne : r.name ≠ "" := by
    obtain ⟨c, cs, hlist, -⟩ := exists_head_of_isModuleName h
    intro hempty
    rw [hempty] at hlist
    cases hlist
  rw [Path.names_join (by decide) hne, names_of_isModuleName h]
  rfl

/-- The steps for a module make its layout. -/
theorem map_actions (h : isModuleName r.name) :
    r.actions.map (fun action => (action.names, action.entry)) = r.layout := by
  simp only [actions, layout, List.map_cons, List.map_nil, FileAction.names, FileAction.path,
    FileAction.entry, names_append h ".classlist" (by decide),
    names_append h ".resources" (by decide), names_append h ".unresolved" (by decide),
    names_of_isModuleName h, names_moduleInfo h]

/-- The descriptor goes into the directory that has been made for the module. -/
theorem grounded (made : List (List String)) (h : isModuleName r.name) :
    FileAction.Grounded made r.actions := by
  have hbare := names_of_isModuleName h
  refine ⟨?_, ?_, ?_, ?_, ?_, trivial⟩
  · exact FileAction.parent_of_names_eq (names_append h ".classlist" (by decide))
  · exact FileAction.parent_of_names_eq (names_append h ".resources" (by decide))
  · exact FileAction.parent_of_names_eq (names_append h ".unresolved" (by decide))
  · exact FileAction.parent_of_names_eq hbare
  · intro k hpos hk
    have hinfo := names_moduleInfo h
    simp only [FileAction.names, FileAction.path, hinfo] at hk ⊢
    have hone : k = 1 := by
      simp only [List.length_cons, List.length_nil] at hk
      omega
    subst hone
    exact List.mem_append_left _ (List.mem_singleton.2 hbare.symm)

theorem not_slash (h : isModuleName r.name) :
    ∀ action ∈ r.actions, Path.endsInSlash action.path = false := by
  have hname := not_slash_of_isModuleName h
  have hending {ending : String} (hslash : '/' ∉ ending.toList) :
      Path.endsInSlash (r.name ++ ending) = false := by
    obtain ⟨_, _, -, -, hnone⟩ := exists_head_append h hslash
    exact endsInSlash_of_not_mem hnone
  intro action haction
  simp only [actions, List.mem_cons, List.not_mem_nil, or_false] at haction
  rcases haction with rfl | rfl | rfl | rfl | rfl
  · exact hending (by decide)
  · exact hending (by decide)
  · exact hending (by decide)
  · exact endsInSlash_of_not_mem hname
  · exact Path.endsInSlash_join (by decide)

end ModuleReport

/-- The file system refuses no step by itself: the path has no fault, and its names are not too
long. -/
def FileAction.Admitted (directory : String) (action : FileAction) : Prop :=
  Path.fault? (Path.join directory action.path) = none ∧
    ∀ name ∈ action.names, name.utf8ByteSize ≤ FileTree.nameLimit

instance (directory : String) (action : FileAction) : Decidable (action.Admitted directory) :=
  inferInstanceAs (Decidable (_ ∧ _))

namespace BuildReport

variable {report : BuildReport}

/-- The steps for a report make its layout. -/
theorem map_actions (h : ∀ r ∈ report.modules, isModuleName r.name) :
    report.actions.map (fun action => (action.names, action.entry)) = report.layout := by
  have horder : Path.names "modules.list" = ["modules.list"] := by decide
  have hsplit : Path.names "split-packages.txt" = ["split-packages.txt"] := by decide
  have hmodules : (report.modules.flatMap ModuleReport.actions).map
      (fun action => (action.names, action.entry)) =
        report.modules.flatMap ModuleReport.layout := by
    rw [List.map_flatMap]
    exact List.flatMap_congr fun r hr => ModuleReport.map_actions (h r hr)
  unfold actions layout
  rw [List.map_append, List.map_append, hmodules]
  simp only [List.map_cons, List.map_nil, FileAction.names, FileAction.path, FileAction.entry,
    horder, hsplit]

theorem grounded (h : ∀ r ∈ report.modules, isModuleName r.name) :
    FileAction.Grounded [] report.actions := by
  have horder : Path.names "modules.list" = ["modules.list"] := by decide
  have hsplit : Path.names "split-packages.txt" = ["split-packages.txt"] := by decide
  refine .append (.append ⟨FileAction.parent_of_names_eq horder, trivial⟩ ?_)
    ⟨FileAction.parent_of_names_eq hsplit, trivial⟩
  exact FileAction.grounded_flatMap fun r hr => ModuleReport.grounded [] (h r hr)

theorem not_slash (h : ∀ r ∈ report.modules, isModuleName r.name) :
    ∀ action ∈ report.actions, Path.endsInSlash action.path = false := by
  have horder : Path.endsInSlash "modules.list" = false := by decide
  have hsplit : Path.endsInSlash "split-packages.txt" = false := by decide
  intro action haction
  rw [actions, List.mem_append, List.mem_append, List.mem_singleton, List.mem_singleton] at haction
  rcases haction with (rfl | hmodule) | rfl
  · exact horder
  · obtain ⟨r, hr, haction⟩ := List.mem_flatMap.1 hmodule
    exact ModuleReport.not_slash (h r hr) action haction
  · exact hsplit

theorem fits {directory : String} (h : ∀ r ∈ report.modules, isModuleName r.name)
    (hadmitted : ∀ action ∈ report.actions, action.Admitted directory) :
    ∀ action ∈ report.actions, FileTree.Fits directory action.path := fun action haction =>
  ⟨descends h action haction, not_slash h action haction, (hadmitted action haction).1,
    (hadmitted action haction).2⟩

/-- Without a clash, all steps have different places. -/
theorem nodup_names (h : ∀ r ∈ report.modules, isModuleName r.name)
    (hnodup : (report.modules.map (·.name)).Nodup) (hclash : ¬report.Clashes) :
    (report.actions.map (·.names)).Nodup := by
  have hpairwise := pairwise_layout hnodup
  rw [← map_actions h, List.pairwise_map] at hpairwise
  refine List.pairwise_map.2 (hpairwise.imp fun hapart heq => ?_)
  exact hclash (hapart heq).2

/-- No file is written twice. -/
theorem nodup_written (h : ∀ r ∈ report.modules, isModuleName r.name)
    (hnodup : (report.modules.map (·.name)).Nodup) : report.written.Nodup := by
  have hpairwise := pairwise_layout hnodup
  rw [← map_actions h, List.pairwise_map] at hpairwise
  refine List.pairwise_filterMap.2 (hpairwise.imp fun {action action'} hapart => ?_)
  intro place hplace place' hplace' heq
  cases action with
  | makeDirectory path => cases hplace
  | write path text =>
    cases action' with
    | makeDirectory path' => cases hplace'
    | write path' text' =>
      cases hplace
      cases hplace'
      have hkinds := (hapart heq).1
      simp [FileAction.entry] at hkinds

/-- All files that are to stand in the directory itself are written. -/
theorem exists_write_of_mem (hf : f ∈ report.fileNames) :
    ∃ text, .write f text ∈ report.actions := by
  rcases List.mem_append.1 hf with hf | hf
  · simp only [reportFiles, List.mem_cons, List.not_mem_nil, or_false] at hf
    rcases hf with rfl | rfl
    · exact ⟨_, List.mem_append_left _ List.mem_cons_self⟩
    · exact ⟨_, List.mem_append_right _ List.mem_cons_self⟩
  · obtain ⟨r, hr, hf⟩ := List.mem_flatMap.1 hf
    obtain ⟨text, hwrite⟩ : ∃ text, .write f text ∈ r.actions := by
      simp only [listEndings, List.map_cons, List.map_nil, List.mem_cons, List.not_mem_nil,
        or_false] at hf
      rcases hf with rfl | rfl | rfl <;> simp [ModuleReport.actions]
    refine ⟨text, List.mem_append_left _ (List.mem_append_right _ ?_)⟩
    exact List.mem_flatMap.2 ⟨r, hr, hwrite⟩

variable {tree tree' : FileTree} {directory : String} {here : Location}

/-- With a clash, a directory is made where a file is written. -/
theorem not_performAll_of_clashes (h : ∀ r ∈ report.modules, isModuleName r.name)
    (hopens : tree.Opens directory here)
    (hadmitted : ∀ action ∈ report.actions, action.Admitted directory) (hclash : report.Clashes) :
    (FileTree.system.performAll directory report.actions).run tree ≠ (.ok (), tree') := by
  obtain ⟨r, hr, hname⟩ := hclash
  obtain ⟨text, hwrite⟩ := exists_write_of_mem hname
  have hdirectory : FileAction.makeDirectory r.name ∈ report.actions := by
    refine List.mem_append_left _ (List.mem_append_right _ ?_)
    exact List.mem_flatMap.2 ⟨r, hr, by simp [ModuleReport.actions]⟩
  exact FileTree.not_performAll_of_clash (fits h hadmitted) (grounded h) hopens hdirectory hwrite
    rfl

/-- The directory holds the layout of the report, and outside of it nothing has changed. -/
structure Written (report : BuildReport) (here : Location) (tree tree' : FileTree) : Prop where
  entryAt_iff : ∀ names, names ≠ [] → ∀ entry,
    tree'.entryAt (here ++ names) = some entry ↔ (names, entry) ∈ report.layout
  outside : ∀ l, (∀ names, names ≠ [] → l ≠ here ++ names) → tree'.entryAt l = tree.entryAt l

/-- Without a clash, the report is written. -/
theorem exists_written (h : ∀ r ∈ report.modules, isModuleName r.name)
    (hnodup : (report.modules.map (·.name)).Nodup) (hopens : tree.Opens directory here)
    (hempty : ∀ names, names ≠ [] → tree.entryAt (here ++ names) = none)
    (hadmitted : ∀ action ∈ report.actions, action.Admitted directory)
    (hclash : ¬report.Clashes) :
    ∃ tree', (FileTree.system.performAll directory report.actions).run tree = (.ok (), tree') ∧
      report.Written here tree tree' := by
  have hfits := fits h hadmitted
  have hproper (action : FileAction) (haction : action ∈ report.actions) : action.names ≠ [] :=
    (hfits action haction).names_ne_nil
  obtain ⟨tree', hrun, hfills⟩ := FileTree.fills_of_fresh hfits (grounded h)
    (nodup_names h hnodup hclash) hopens nofun fun action haction =>
      hempty _ (hproper action haction)
  refine ⟨tree', hrun, fun names hnames entry => ⟨fun hentry => ?_, fun hentry => ?_⟩, ?_⟩
  · -- what stands below the directory is the place of a step
    have hplace : ∃ action ∈ report.actions, action.names = names := by
      by_contra hnone
      rw [hfills.other, hempty names hnames] at hentry
      · cases hentry
      · intro action haction heq
        exact hnone ⟨action, haction, (List.append_cancel_left heq).symm⟩
    obtain ⟨action, haction, rfl⟩ := hplace
    rw [hfills.entry action haction, Option.some.injEq] at hentry
    rw [← map_actions h]
    exact List.mem_map.2 ⟨action, haction, by rw [hentry]⟩
  · rw [← map_actions h] at hentry
    obtain ⟨action, haction, heq⟩ := List.mem_map.1 hentry
    obtain ⟨rfl, rfl⟩ := Prod.mk.inj heq
    exact hfills.entry action haction
  · intro l hl
    exact hfills.other l fun action haction => hl _ (hproper action haction)

/-- Modules with different proper names are reported into an empty directory, and the file system
refuses no step by itself. No file is written twice. The report is written exactly if no module has
the name of a file that stands beside its directory; then the directory holds the layout of the
report and nothing else. -/
theorem written_iff (report : BuildReport) (tree : FileTree) (directory : String) (here : Location)
    (hnames : ∀ r ∈ report.modules, isModuleName r.name)
    (hnodup : (report.modules.map (·.name)).Nodup) (hopens : tree.Opens directory here)
    (hempty : ∀ names, names ≠ [] → tree.entryAt (here ++ names) = none)
    (hadmitted : ∀ action ∈ report.actions, action.Admitted directory) :
    report.written.Nodup ∧
      ((∃ tree', (FileTree.system.performAll directory report.actions).run tree =
          (.ok (), tree') ∧ report.Written here tree tree') ↔ ¬report.Clashes) ∧
      (report.Clashes → ∃ e tree', (FileTree.system.performAll directory report.actions).run tree =
        (.error e, tree')) := by
  refine ⟨nodup_written hnames hnodup, ⟨?_, ?_⟩, ?_⟩
  · rintro ⟨tree', hrun, -⟩ hclash
    exact not_performAll_of_clashes hnames hopens hadmitted hclash hrun
  · exact exists_written hnames hnodup hopens hempty hadmitted
  · intro hclash
    have hfails (tree' : FileTree) :
        (FileTree.system.performAll directory report.actions).run tree ≠ (.ok (), tree') :=
      not_performAll_of_clashes hnames hopens hadmitted hclash
    rcases hrun : (FileTree.system.performAll directory report.actions).run tree with ⟨e | _, tree'⟩
    · exact ⟨e, tree', rfl⟩
    · exact absurd hrun (hfails tree')

/-- The report of a program and of another module that has its name with an ending. -/
def program (ending : String) : BuildReport where
  order := ["app", "app" ++ ending]
  modules := [{ name := "app", version := "1.0", classes := ["app.Main"] },
    { name := "app" ++ ending, version := "1.0" }]
  splitPackages := []

/-- A tree with an empty directory. -/
def emptyOut : FileTree :=
  ({} : FileTree).put ["out"] .directory

theorem opens_emptyOut : emptyOut.Opens "out" ["out"] :=
  ⟨by decide +kernel, by decide +kernel⟩

theorem entryAt_emptyOut (names : List String) (hnames : names ≠ []) :
    emptyOut.entryAt (["out"] ++ names) = none := by
  rw [emptyOut, FileTree.entryAt_put _ (by decide), if_neg]
  · simp [FileTree.entryAt]
  · intro heq
    rw [List.singleton_append, List.cons.injEq] at heq
    exact hnames heq.2.symm

/-- A module whose name has none of the endings of list files gets into nobody's way. -/
theorem written_data :
    ∃ tree', (FileTree.system.performAll "out" (program ".data").actions).run emptyOut =
        (.ok (), tree') ∧ (program ".data").Written ["out"] emptyOut tree' := by
  have hnames : ∀ r ∈ (program ".data").modules, isModuleName r.name := by decide +kernel
  have hnodup : ((program ".data").modules.map (·.name)).Nodup := by decide +kernel
  have hadmitted : ∀ action ∈ (program ".data").actions, action.Admitted "out" := by
    decide +kernel
  have hclash : ¬(program ".data").Clashes := by decide +kernel
  obtain ⟨-, hiff, -⟩ := written_iff (program ".data") emptyOut "out" ["out"] hnames hnodup
    opens_emptyOut entryAt_emptyOut hadmitted
  exact hiff.2 hclash

/-- The directory of the second module is to stand where the first one has its list of resources. -/
theorem not_written_resources :
    ¬∀ (report : BuildReport) (tree : FileTree) (directory : String) (here : Location),
      (∀ r ∈ report.modules, isModuleName r.name) → (report.modules.map (·.name)).Nodup →
      tree.Opens directory here → (∀ names, names ≠ [] → tree.entryAt (here ++ names) = none) →
      (∀ action ∈ report.actions, action.Admitted directory) →
      ((FileTree.system.performAll directory report.actions).run tree).1 = .ok () := by
  intro hall
  have hnames : ∀ r ∈ (program ".resources").modules, isModuleName r.name := by decide +kernel
  have hnodup : ((program ".resources").modules.map (·.name)).Nodup := by decide +kernel
  have hadmitted : ∀ action ∈ (program ".resources").actions, action.Admitted "out" := by
    decide +kernel
  have hfails : ((FileTree.system.performAll "out" (program ".resources").actions).run
      emptyOut).1 = .error .alreadyExists := by
    decide +kernel
  have hpromised := hall (program ".resources") emptyOut "out" ["out"] hnames hnodup opens_emptyOut
    entryAt_emptyOut hadmitted
  exact nomatch hfails.symm.trans hpromised

end BuildReport

end ModuleGraph
