import ModuleGraph.Proofs.Paths
import ModuleGraph.Proofs.TreeMap

/-!
# Steps in a directory

A step of a report gives one place below the directory an entry (`FileTree.run_perform`). It fails
if the place holds something of the other kind: a file is not written over a directory, and a
directory is not made over a file. So a run of steps never changes what kind of thing a place holds.

* `FileTree.fills_of_fresh`: a run succeeds if all its steps have different places that hold nothing
  yet. It leaves what the steps say, and nothing else.
* `FileTree.not_performAll_of_clash`: it fails if one of its steps makes a directory where another
  one writes a file, whichever comes first.
-/

namespace ModuleGraph

namespace Path

variable {directory path : String}

/-- The name that a step goes to. -/
def Step.name? : Step → Option String
  | .into name => some name
  | .stay => none
  | .up => none

/-- The names along a path. -/
def names (path : String) : List String :=
  (steps path).filterMap Step.name?

theorem Descends.steps_eq (h : Descends path) : steps path = (names path).map .into := by
  have hall := h.into
  unfold names
  generalize steps path = all at hall
  induction all with
  | nil => rfl
  | cons step rest ih =>
    obtain ⟨name, rfl⟩ := hall step List.mem_cons_self
    exact congrArg (Step.into name :: ·) (ih fun s hs => hall s (List.mem_cons_of_mem _ hs))

theorem names_join (hrelative : isAbsolute path = false) (hne : directory ≠ "") :
    names (join directory path) = names directory ++ names path := by
  unfold names
  rw [steps_join hrelative hne, List.filterMap_append]

theorem endsInSlash_join (hne : path ≠ "") :
    endsInSlash (join directory path) = endsInSlash path := by
  have hlist : path.toList ≠ [] := by simpa using hne
  unfold join endsInSlash
  split_ifs
  · rfl
  · rw [String.toList_append, List.getLast?_append_of_ne_nil _ hlist]
  · rw [String.toList_append, List.getLast?_append_of_ne_nil _ hlist]

theorem exists_steps_join (directory : String) (hrelative : isAbsolute path = false) :
    ∃ lead, steps (join directory path) = lead ++ steps path := by
  by_cases hne : directory = ""
  · exact ⟨[], by simp [join, hne]⟩
  · exact ⟨_, steps_join hrelative hne⟩

/-- A path that goes to a name stands at the head of the paths above it. -/
theorem exists_upward_eq {name : String} (h : .into name ∈ steps path) :
    ∃ above, upward path = path :: above := by
  obtain ⟨segment, hsegment, hstep⟩ := List.mem_filterMap.1 h
  have hproper : segment ≠ [] ∧ segment ≠ ['.'] := by
    constructor
    · rintro rfl
      exact nomatch hstep
    · rintro rfl
      exact nomatch hstep
  have hmem : segment ∈ segments path := by
    unfold segments
    cases hsplit : Text.splitWhen (· == '/') path.toList with
    | nil =>
      rw [hsplit] at hsegment
      cases hsegment
    | cons first rest =>
      rw [hsplit, List.mem_cons] at hsegment
      simp only [List.mem_append, List.mem_filter]
      rcases hsegment with rfl | hrest
      · exact .inl ⟨List.mem_singleton.2 rfl, by simpa using hproper.1⟩
      · exact .inr ⟨hrest, by simpa using hproper⟩
  unfold upward
  dsimp only
  rw [if_neg (List.ne_nil_of_mem hmem)]
  exact ⟨_, rfl⟩

end Path

namespace FileTree

variable {tree tree' tree'' : FileTree} {here there location : Location} {entry : FileEntry}

theorem entryAt_put (tree : FileTree) (hlocation : location ≠ []) (entry : FileEntry) :
    (tree.put location entry).entryAt there =
      if location = there then some entry else tree.entryAt there := by
  unfold entryAt put
  rw [treeMap_getElem?_insert]
  split_ifs <;> simp_all

theorem checkDirectory_eq_ok : tree.checkDirectory here = .ok () ↔
    tree.entryAt here = some .directory := by
  unfold checkDirectory
  split <;> simp_all

/-- The place holds something of the kind of an entry: a directory, or a file with any text. -/
def Bears (tree : FileTree) (location : Location) : FileEntry → Prop
  | .directory => tree.entryAt location = some .directory
  | .file _ => ∃ text, tree.entryAt location = some (.file text)

theorem bears_of_entryAt (h : tree.entryAt location = some entry) : tree.Bears location entry := by
  cases entry with
  | directory => exact h
  | file text => exact ⟨text, h⟩

/-- No place holds both a directory and a file. -/
theorem not_bears_file (h : tree.Bears location .directory) (text : String) :
    ¬tree.Bears location (.file text) := by
  rintro ⟨text', hfile⟩
  exact nomatch h.symm.trans hfile

/-- Whatever the one tree holds, the other one holds something of its kind in the same place. -/
structure Keeps (tree tree' : FileTree) : Prop where
  home_eq : tree'.home = tree.home
  bears : ∀ {l entry}, tree.Bears l entry → tree'.Bears l entry

theorem Keeps.refl (tree : FileTree) : tree.Keeps tree :=
  ⟨rfl, id⟩

theorem Keeps.trans (h : tree.Keeps tree') (h' : tree'.Keeps tree'') : tree.Keeps tree'' :=
  ⟨h'.home_eq.trans h.home_eq, fun hl => h'.bears (h.bears hl)⟩

theorem Keeps.directory (h : tree.Keeps tree') (hl : tree.entryAt location = some .directory) :
    tree'.entryAt location = some .directory :=
  h.bears (show tree.Bears location .directory from hl)

/-- What a place gets is of the kind that the place has, if it has one. -/
theorem keeps_put (hlocation : location ≠ [])
    (h : ∀ old, tree.entryAt location = some old → tree.Bears location entry) :
    tree.Keeps (tree.put location entry) := by
  refine ⟨rfl, fun {l old} hold => ?_⟩
  by_cases heq : location = l
  · subst heq
    have hself : (tree.put location entry).entryAt location = some entry := by
      rw [entryAt_put tree hlocation, if_pos rfl]
    cases old with
    | directory =>
      have hkind := h _ hold
      cases entry with
      | directory => exact hself
      | file text => exact absurd hkind (not_bears_file hold text)
    | file text =>
      obtain ⟨text', hold⟩ := hold
      have hkind := h _ hold
      cases entry with
      | directory => exact absurd ⟨text', hold⟩ (not_bears_file hkind text)
      | file text => exact ⟨text, hself⟩
  · have hother : (tree.put location entry).entryAt l = tree.entryAt l := by
      rw [entryAt_put tree hlocation, if_neg heq]
    cases old with
    | directory => exact hother.trans hold
    | file text =>
      obtain ⟨text', hold⟩ := hold
      exact ⟨text', hother.trans hold⟩

/-- A path goes through directories only. -/
theorem walk_of_keeps (hk : tree.Keeps tree') {steps : List Path.Step}
    (h : tree.walk here steps = .ok there) : tree'.walk here steps = .ok there := by
  induction steps generalizing here with
  | nil => exact h
  | cons step steps ih =>
    obtain ⟨_, hdirectory, h⟩ := exists_of_bind_ok h
    obtain ⟨next, hstep, h⟩ := exists_of_bind_ok h
    have hhere := checkDirectory_eq_ok.2 (hk.directory (checkDirectory_eq_ok.1 hdirectory))
    rw [walk, hhere, ok_bind, hstep, ok_bind]
    exact ih h

/-! ## What a place holds -/

/-- Gives a place an entry. The place keeps its kind: no file takes the place of a directory, and no
directory that of a file. -/
def settle (tree : FileTree) (location : Location) (entry : FileEntry) :
    Except FileError FileTree :=
  match tree.entryAt location, entry with
  | some .directory, .file _ => .error .isADirectory
  | some .directory, .directory => .ok tree
  | some (.file _), .directory => .error .alreadyExists
  | _, entry => .ok (tree.put location entry)

theorem settle_of_none (h : tree.entryAt location = none) (entry : FileEntry) :
    tree.settle location entry = .ok (tree.put location entry) := by
  unfold settle
  rw [h]

/-- What comes of a step that succeeds. -/
structure Settles (tree tree' : FileTree) (location : Location) (entry : FileEntry) : Prop where
  keeps : tree.Keeps tree'
  self : tree'.entryAt location = some entry
  other : ∀ l, l ≠ location → tree'.entryAt l = tree.entryAt l

theorem settles_of_settle (hlocation : location ≠ []) (h : tree.settle location entry = .ok tree') :
    tree.Settles tree' location entry := by
  have hput (hkind : ∀ old, tree.entryAt location = some old → tree.Bears location entry) :
      tree.Settles (tree.put location entry) location entry := by
    refine ⟨keeps_put hlocation hkind, ?_, fun l hl => ?_⟩
    · rw [entryAt_put tree hlocation, if_pos rfl]
    · rw [entryAt_put tree hlocation, if_neg hl.symm]
  unfold settle at h
  cases hold : tree.entryAt location with
  | none =>
    rw [hold] at h
    cases h
    exact hput fun old hsome => nomatch hold.symm.trans hsome
  | some old =>
    rw [hold] at h
    cases old with
    | file old =>
      cases entry with
      | file text =>
        cases h
        exact hput fun _ _ => ⟨old, hold⟩
      | directory => cases h
    | directory =>
      cases entry with
      | file text => cases h
      | directory =>
        cases h
        exact ⟨.refl tree, hold, fun _ _ => rfl⟩

/-! ## Paths that are joined to a directory -/

/-- The path of a directory leads to a place, which holds a directory. -/
structure Opens (tree : FileTree) (directory : String) (here : Location) : Prop where
  place : tree.placeOf directory = .ok here
  isDirectory : tree.entryAt here = some .directory

variable {directory path : String} {names : List String}

theorem Opens.of_keeps (h : tree.Opens directory here) (hk : tree.Keeps tree') :
    tree'.Opens directory here := by
  refine ⟨?_, hk.directory h.isDirectory⟩
  have hplace := h.place
  unfold placeOf at hplace ⊢
  by_cases hne : directory = ""
  · rw [if_pos hne] at hplace ⊢
    rw [hk.home_eq, hplace]
  · rw [if_neg hne] at hplace ⊢
    obtain ⟨_, hcheck, hwalk⟩ := exists_of_bind_ok hplace
    have hstart : tree'.start directory = tree.start directory := by
      unfold start
      rw [hk.home_eq]
    rw [locate, hcheck, ok_bind, hstart]
    exact walk_of_keeps hk hwalk

/-- The names lead through directories. -/
def Grounds (tree : FileTree) (here : Location) (names : List String) : Prop :=
  ∀ k < names.length, tree.entryAt (here ++ names.take k) = some .directory

/-- Names that lead through directories lead to the place below. -/
theorem walk_into (h : tree.Grounds here names)
    (hsize : ∀ name ∈ names, name.utf8ByteSize ≤ nameLimit) :
    tree.walk here (names.map .into) = .ok (here ++ names) := by
  induction names generalizing here with
  | nil => rw [List.map_nil, walk, List.append_nil]
  | cons name names ih =>
    have hhere : tree.checkDirectory here = .ok () := by
      have hfirst := h 0 (Nat.succ_pos _)
      rw [List.take_zero, List.append_nil] at hfirst
      exact checkDirectory_eq_ok.2 hfirst
    have hname : ¬nameLimit < name.utf8ByteSize := Nat.not_lt.2 (hsize name List.mem_cons_self)
    have hrest : tree.Grounds (here ++ [name]) names := by
      intro k hk
      have hnext := h (k + 1) (Nat.succ_lt_succ hk)
      rwa [List.take_succ_cons, List.append_cons] at hnext
    rw [List.map_cons, walk, hhere, ok_bind, stepFrom, if_neg hname, ok_bind,
      ih hrest fun n hn => hsize n (List.mem_cons_of_mem _ hn), List.append_assoc,
      List.singleton_append]

/-- A path joined to a directory first leads to the place of the directory. -/
theorem exists_lead (hplace : tree.placeOf directory = .ok here)
    (hrelative : Path.isAbsolute path = false) :
    ∃ lead, Path.steps (Path.join directory path) = lead ++ Path.steps path ∧
      tree.walk (tree.start (Path.join directory path)) lead = .ok here := by
  unfold placeOf at hplace
  by_cases hne : directory = ""
  · rw [if_pos hne] at hplace
    cases hplace
    have hjoin : Path.join directory path = path := by simp [Path.join, hne]
    rw [hjoin, start, hrelative]
    exact ⟨[], rfl, rfl⟩
  · rw [if_neg hne] at hplace
    obtain ⟨_, -, hwalk⟩ := exists_of_bind_ok hplace
    obtain ⟨rest, hrest⟩ := Path.exists_join_eq_append hrelative hne
    have hstart : tree.start (Path.join directory path) = tree.start directory := by
      rw [start, start, hrest, Path.isAbsolute_append hne]
    exact ⟨_, Path.steps_join hrelative hne, hstart ▸ hwalk⟩

/-! ## Steps -/

/-- The path leads down from the directory, to something that need not be a directory, and it leads
somewhere whatever files there are. -/
structure Fits (directory path : String) : Prop extends Path.Descends path where
  not_slash : Path.endsInSlash path = false
  fault : Path.fault? (Path.join directory path) = none
  size : ∀ name ∈ Path.names path, name.utf8ByteSize ≤ nameLimit

theorem Fits.names_ne_nil (h : Fits directory path) : Path.names path ≠ [] := by
  intro hnil
  refine h.ne_nil ?_
  rw [h.toDescends.steps_eq, hnil, List.map_nil]

theorem Fits.locate_eq (h : Fits directory path) (hplace : tree.placeOf directory = .ok here)
    (hgrounds : tree.Grounds here (Path.names path)) :
    tree.locate (Path.join directory path) = .ok (here ++ Path.names path) := by
  obtain ⟨lead, hsteps, hlead⟩ := exists_lead hplace h.relative
  rw [locate, checkPath, h.fault, ok_bind, hsteps, walk_append, hlead, ok_bind,
    h.toDescends.steps_eq]
  exact walk_into hgrounds h.size

theorem Fits.write_eq (h : Fits directory path) (hplace : tree.placeOf directory = .ok here)
    (hgrounds : tree.Grounds here (Path.names path)) (text : String) :
    tree.write (Path.join directory path) text =
      tree.settle (here ++ Path.names path) (.file text) := by
  have hslash : Path.endsInSlash (Path.join directory path) = false := by
    rw [Path.endsInSlash_join h.toDescends.ne_empty, h.not_slash]
  unfold write settle
  rw [h.locate_eq hplace hgrounds, hslash]
  dsimp only
  cases tree.entryAt (here ++ Path.names path) with
  | none => rfl
  | some old => cases old <;> rfl

theorem Fits.isDirectory_eq (h : Fits directory path) (hplace : tree.placeOf directory = .ok here)
    (hgrounds : tree.Grounds here (Path.names path)) :
    tree.isDirectory (Path.join directory path) =
      (tree.entryAt (here ++ Path.names path) == some .directory) := by
  unfold isDirectory
  rw [h.locate_eq hplace hgrounds]

/-- A new directory needs a place that holds nothing. -/
theorem Fits.makeDirectory_eq (h : Fits directory path)
    (hplace : tree.placeOf directory = .ok here)
    (hgrounds : tree.Grounds here (Path.names path)) :
    tree.makeDirectory (Path.join directory path) =
      if (tree.entryAt (here ++ Path.names path)).isSome then .error .alreadyExists
      else .ok (tree.put (here ++ Path.names path) .directory) := by
  obtain ⟨lead, hsteps, hlead⟩ := exists_lead hplace h.relative
  obtain ⟨above, name, hnames⟩ := (List.eq_nil_or_concat' (Path.names path)).resolve_left
    h.names_ne_nil
  rw [h.toDescends.steps_eq] at hsteps
  rw [hnames] at hsteps hgrounds ⊢
  -- the directory that the new one lies in
  have habove : tree.Grounds here above := by
    intro k hk
    have hdirectory := hgrounds k (by rw [List.length_append]; omega)
    rwa [List.take_append_of_le_length (Nat.le_of_lt hk)] at hdirectory
  have hcheck : tree.checkDirectory (here ++ above) = .ok () := by
    have hdirectory := hgrounds above.length (by simp)
    rw [List.take_left' rfl] at hdirectory
    exact checkDirectory_eq_ok.2 hdirectory
  have hsize : ∀ n ∈ above ++ [name], n.utf8ByteSize ≤ nameLimit := hnames ▸ h.size
  have hwalk := walk_into habove fun n hn => hsize n (List.mem_append_left _ hn)
  have hname : ¬nameLimit < name.utf8ByteSize :=
    Nat.not_lt.2 (hsize name (List.mem_append_right _ (List.mem_singleton.2 rfl)))
  rw [List.map_append, ← List.append_assoc, List.map_singleton] at hsteps
  unfold makeDirectory
  rw [checkPath, h.fault, ok_bind, hsteps]
  dsimp only
  rw [List.dropLast_concat, List.getLast?_concat, walk_append, hlead, ok_bind, hwalk, ok_bind,
    hcheck, ok_bind]
  dsimp only
  rw [stepFrom, if_neg hname, ok_bind, List.append_assoc]

end FileTree

/-! ## The steps of a report -/

namespace FileAction

/-- What a step puts in its place. -/
def entry : FileAction → FileEntry
  | makeDirectory _ => .directory
  | write _ text => .file text

/-- The names that lead to the place of a step, from the directory on. -/
def names (action : FileAction) : List String :=
  Path.names action.path

/-- The directories that a step makes. -/
def made : FileAction → List (List String)
  | makeDirectory path => [Path.names path]
  | write _ _ => []

/-- The steps go to places in directories that have been made before them. -/
def Grounded (made : List (List String)) : List FileAction → Prop
  | [] => True
  | action :: rest =>
    (∀ k, 0 < k → k < action.names.length → action.names.take k ∈ made) ∧
      Grounded (action.made ++ made) rest

variable {made made' : List (List String)} {actions actions' : List FileAction}

/-- A step in the directory itself needs nothing that has been made before. -/
theorem parent_of_names_eq {action : FileAction} {name : String} (h : action.names = [name]) :
    ∀ k, 0 < k → k < action.names.length → action.names.take k ∈ made := by
  intro k hpos hk
  rw [h, List.length_singleton] at hk
  omega

theorem Grounded.mono (h : Grounded made actions) (hsub : made ⊆ made') :
    Grounded made' actions := by
  induction actions generalizing made made' with
  | nil => trivial
  | cons action rest ih =>
    have hmore : action.made ++ made ⊆ action.made ++ made' :=
      List.append_subset_of_subset_of_subset (List.subset_append_left _ _)
        (List.subset_append_of_subset_right _ hsub)
    exact ⟨fun k hpos hk => hsub (h.1 k hpos hk), ih h.2 hmore⟩

theorem Grounded.append (h : Grounded made actions) (h' : Grounded made actions') :
    Grounded made (actions ++ actions') := by
  induction actions generalizing made with
  | nil => exact h'
  | cons action rest ih => exact ⟨h.1, ih h.2 (h'.mono (List.subset_append_right _ _))⟩

theorem grounded_flatMap {α : Type} {items : List α} {f : α → List FileAction}
    (h : ∀ a ∈ items, Grounded made (f a)) : Grounded made (items.flatMap f) := by
  induction items with
  | nil => trivial
  | cons a rest ih =>
    rw [List.flatMap_cons]
    exact (h a List.mem_cons_self).append (ih fun b hb => h b (List.mem_cons_of_mem _ hb))

end FileAction

namespace FileTree

variable {tree tree' : FileTree} {here : Location} {directory path : String} {action : FileAction}

/-- Effects on a tree run one after the other. -/
theorem run_bind {α β : Type} (x : StateM FileTree α) (f : α → StateM FileTree β)
    (tree : FileTree) : (x >>= f).run tree = (f (x.run tree).1).run (x.run tree).2 :=
  rfl

theorem run_commit (change : FileTree → Except FileError FileTree) (tree : FileTree) :
    (commit change).run tree =
      match change tree with
      | .ok changed => (.ok (), changed)
      | .error e => (.error e, tree) :=
  rfl

/-- A directory that is there is as good as a new one. -/
theorem run_ensureDirectory (h : Fits directory path) (hplace : tree.placeOf directory = .ok here)
    (hgrounds : tree.Grounds here (Path.names path)) :
    (FileTree.system.ensureDirectory (Path.join directory path)).run tree =
      (commit (·.settle (here ++ Path.names path) .directory)).run tree := by
  have hmake : (FileTree.system.makeDirectory (Path.join directory path)).run tree =
      (commit (·.makeDirectory (Path.join directory path))).run tree := rfl
  have hfound : (FileTree.system.isDirectory (Path.join directory path)).run tree =
      (tree.isDirectory (Path.join directory path), tree) := rfl
  unfold FileSystem.ensureDirectory
  rw [run_bind, hmake, run_commit, run_commit, h.makeDirectory_eq hplace hgrounds]
  unfold settle
  cases hold : tree.entryAt (here ++ Path.names path) with
  | none => rfl
  | some old =>
    rw [Option.isSome_some, if_pos rfl]
    dsimp only
    rw [run_bind, hfound, h.isDirectory_eq hplace hgrounds, hold]
    cases old <;> rfl

theorem Fits.exists_upward_eq (h : Fits directory path) :
    ∃ above, Path.upward (Path.join directory path) = Path.join directory path :: above := by
  obtain ⟨lead, hsteps⟩ := Path.exists_steps_join directory h.relative
  obtain ⟨step, hstep⟩ := List.exists_mem_of_ne_nil _ h.ne_nil
  obtain ⟨name, rfl⟩ := h.into step hstep
  exact Path.exists_upward_eq (hsteps ▸ List.mem_append_right lead hstep)

/-- A step of a report gives its place an entry. -/
theorem run_perform (h : Fits directory action.path) (hplace : tree.placeOf directory = .ok here)
    (hgrounds : tree.Grounds here action.names) :
    (FileTree.system.perform directory action).run tree =
      (commit (·.settle (here ++ action.names) action.entry)).run tree := by
  cases action with
  | write path text =>
    replace h : Fits directory path := h
    show (commit (·.write (Path.join directory path) text)).run tree =
      (commit (·.settle (here ++ Path.names path) (.file text))).run tree
    rw [run_commit, run_commit, h.write_eq hplace hgrounds text]
  | makeDirectory path =>
    replace h : Fits directory path := h
    show (FileTree.system.makeUpward (Path.upward (Path.join directory path))).run tree =
      (commit (·.settle (here ++ Path.names path) .directory)).run tree
    obtain ⟨above, habove⟩ := h.exists_upward_eq
    rw [habove, FileSystem.makeUpward, run_bind, run_ensureDirectory h hplace hgrounds, run_commit]
    -- all directories above are there
    unfold settle
    cases tree.entryAt (here ++ Path.names path) with
    | none => rfl
    | some old => cases old <;> rfl

/-! ## Runs -/

theorem run_performAll_cons (tree : FileTree) (action : FileAction) (rest : List FileAction) :
    (FileTree.system.performAll directory (action :: rest)).run tree =
      match (FileTree.system.perform directory action).run tree with
      | (.ok (), tree') => (FileTree.system.performAll directory rest).run tree'
      | (.error e, tree') => (.error e, tree') := by
  rw [FileSystem.performAll, run_bind]
  rcases (FileTree.system.perform directory action).run tree with ⟨_ | _, _⟩ <;> rfl

/-- A step that succeeds has given its place its entry. -/
theorem settles_of_perform (h : Fits directory action.path) (hopens : tree.Opens directory here)
    (hgrounds : tree.Grounds here action.names)
    (hrun : (FileTree.system.perform directory action).run tree = (.ok (), tree')) :
    tree.Settles tree' (here ++ action.names) action.entry := by
  rw [run_perform h hopens.place hgrounds, run_commit] at hrun
  split at hrun
  case h_1 changed hsettle =>
    cases hrun
    exact settles_of_settle (List.append_ne_nil_of_right_ne_nil _ h.names_ne_nil) hsettle
  case h_2 => cases hrun

/-- What a run leaves that had nothing in its way. -/
structure Fills (tree tree' : FileTree) (here : Location) (actions : List FileAction) : Prop where
  entry : ∀ action ∈ actions, tree'.entryAt (here ++ action.names) = some action.entry
  other : ∀ l, (∀ action ∈ actions, l ≠ here ++ action.names) → tree'.entryAt l = tree.entryAt l

variable {actions : List FileAction} {made : List (List String)}

/-- A step below directories that have been made. -/
theorem Opens.grounds (hopens : tree.Opens directory here)
    (hmade : ∀ names ∈ made, tree.entryAt (here ++ names) = some .directory)
    (hgrounded : ∀ k, 0 < k → k < action.names.length → action.names.take k ∈ made) :
    tree.Grounds here action.names := by
  intro k hk
  rcases Nat.eq_zero_or_pos k with rfl | hpos
  · rw [List.take_zero, List.append_nil]
    exact hopens.isDirectory
  · exact hmade _ (hgrounded k hpos hk)

/-- What has been made before a step and by it. -/
theorem Settles.isDirectory_made {action : FileAction}
    (h : tree.Settles tree' (here ++ action.names) action.entry)
    (hmade : ∀ names ∈ made, tree.entryAt (here ++ names) = some .directory) :
    ∀ names ∈ action.made ++ made, tree'.entryAt (here ++ names) = some .directory := by
  intro names hnames
  rcases List.mem_append.1 hnames with hnew | hold
  · cases action with
    | makeDirectory path =>
      rw [List.mem_singleton.1 hnew]
      exact h.self
    | write path text => cases hnew
  · exact h.keeps.directory (hmade names hold)

/-- A run succeeds if no two of its steps have the same place, and nothing is there. -/
theorem fills_of_fresh (hfits : ∀ action ∈ actions, Fits directory action.path)
    (hgrounded : FileAction.Grounded made actions) (hnodup : (actions.map (·.names)).Nodup)
    (hopens : tree.Opens directory here)
    (hmade : ∀ names ∈ made, tree.entryAt (here ++ names) = some .directory)
    (hfresh : ∀ action ∈ actions, tree.entryAt (here ++ action.names) = none) :
    ∃ tree', (FileTree.system.performAll directory actions).run tree = (.ok (), tree') ∧
      tree.Fills tree' here actions := by
  induction actions generalizing tree made with
  | nil => exact ⟨tree, rfl, nofun, fun _ _ => rfl⟩
  | cons action rest ih =>
    have hgrounds := hopens.grounds hmade hgrounded.1
    have hrun := run_perform (hfits action List.mem_cons_self) hopens.place hgrounds
    rw [run_commit, settle_of_none (hfresh action List.mem_cons_self)] at hrun
    have hsettles := settles_of_perform (hfits action List.mem_cons_self) hopens hgrounds hrun
    rw [List.map_cons, List.nodup_cons] at hnodup
    have hother (b : FileAction) (hb : b ∈ rest) : here ++ b.names ≠ here ++ action.names :=
      fun heq => hnodup.1 (List.append_cancel_left heq ▸ List.mem_map_of_mem hb)
    have hrestFresh (b : FileAction) (hb : b ∈ rest) :
        (tree.put (here ++ action.names) action.entry).entryAt (here ++ b.names) = none := by
      rw [hsettles.other _ (hother b hb)]
      exact hfresh b (List.mem_cons_of_mem _ hb)
    obtain ⟨final, hrest, hfinal⟩ := ih (fun b hb => hfits b (List.mem_cons_of_mem _ hb))
      hgrounded.2 hnodup.2 (hopens.of_keeps hsettles.keeps) (hsettles.isDirectory_made hmade)
      hrestFresh
    refine ⟨final, ?_, fun b hb => ?_, fun l hl => ?_⟩
    · rw [run_performAll_cons, hrun]
      exact hrest
    · rcases List.mem_cons.1 hb with rfl | hb
      · rw [hfinal.other _ fun b hb heq => hother b hb heq.symm, hsettles.self]
      · exact hfinal.entry b hb
    · rw [hfinal.other l fun b hb => hl b (List.mem_cons_of_mem _ hb),
        hsettles.other l (hl action List.mem_cons_self)]

/-- After a run that succeeds, every place has the kind of every step that it was for. -/
theorem bears_of_performAll (hfits : ∀ action ∈ actions, Fits directory action.path)
    (hgrounded : FileAction.Grounded made actions) (hopens : tree.Opens directory here)
    (hmade : ∀ names ∈ made, tree.entryAt (here ++ names) = some .directory)
    (hrun : (FileTree.system.performAll directory actions).run tree = (.ok (), tree')) :
    tree.Keeps tree' ∧
      ∀ action ∈ actions, tree'.Bears (here ++ action.names) action.entry := by
  induction actions generalizing tree made with
  | nil =>
    cases hrun
    exact ⟨.refl _, nofun⟩
  | cons action rest ih =>
    have hgrounds := hopens.grounds hmade hgrounded.1
    rw [run_performAll_cons] at hrun
    split at hrun
    case h_1 next hstep =>
      have hsettles := settles_of_perform (hfits action List.mem_cons_self) hopens hgrounds hstep
      obtain ⟨hkeeps, hbears⟩ := ih (fun b hb => hfits b (List.mem_cons_of_mem _ hb)) hgrounded.2
        (hopens.of_keeps hsettles.keeps) (hsettles.isDirectory_made hmade) hrun
      refine ⟨hsettles.keeps.trans hkeeps, fun b hb => ?_⟩
      rcases List.mem_cons.1 hb with rfl | hb
      · exact hkeeps.bears (bears_of_entryAt hsettles.self)
      · exact hbears b hb
    case h_2 => cases hrun

/-- A run fails if two of its steps want different things of one place. -/
theorem not_performAll_of_clash (hfits : ∀ action ∈ actions, Fits directory action.path)
    (hgrounded : FileAction.Grounded [] actions) (hopens : tree.Opens directory here)
    {path path' text : String}
    (hdirectory : .makeDirectory path ∈ actions) (hfile : .write path' text ∈ actions)
    (hclash : Path.names path = Path.names path') :
    (FileTree.system.performAll directory actions).run tree ≠ (.ok (), tree') := by
  intro hrun
  obtain ⟨-, hbears⟩ := bears_of_performAll hfits hgrounded hopens nofun hrun
  have hplace := hbears _ hfile
  rw [FileAction.names, FileAction.path, ← hclash] at hplace
  exact not_bears_file (hbears _ hdirectory) text hplace

end FileTree

end ModuleGraph
