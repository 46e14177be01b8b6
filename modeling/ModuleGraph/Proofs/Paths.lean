import ModuleGraph.FileSystem
import ModuleGraph.Proofs.Ends

/-!
# Paths below a directory

A step of a report goes along a path that is joined to a directory. The joined path is followed from
the place of the directory (`FileTree.exists_of_locate_join`). So it leads below the directory if it
is relative and all its segments are names (`Path.Descends`), whatever files there are
(`FileAction.confined`). Of a path that is one segment, the first character tells: it is neither a
slash nor a dot (`Path.descends_of_segment`).
-/

namespace ModuleGraph

/-! ## Paths -/

namespace Path

variable {directory path : String}

/-- The path is relative, and it has segments, each of which is a name. -/
structure Descends (path : String) : Prop where
  relative : isAbsolute path = false
  into : ∀ step ∈ steps path, ∃ name, step = .into name
  ne_nil : steps path ≠ []

theorem Descends.ne_empty (h : Descends path) : path ≠ "" := by
  rintro rfl
  exact h.ne_nil rfl

/-- Both parts of a text have the steps that the whole has, if a slash parts them. -/
theorem filterMap_splitWhen_slash (as bs : List Char) :
    (Text.splitWhen (· == '/') (as ++ '/' :: bs)).filterMap Step.ofSegment =
      (Text.splitWhen (· == '/') as).filterMap Step.ofSegment ++
        (Text.splitWhen (· == '/') bs).filterMap Step.ofSegment := by
  rw [Text.splitWhen_append_cons (by decide), List.filterMap_append]

/-- A slash at the end of a directory, or one that is put there, parts it from the path. -/
theorem steps_join (hrelative : isAbsolute path = false) (hne : directory ≠ "") :
    steps (join directory path) = steps directory ++ steps path := by
  unfold join
  rw [hrelative, Bool.false_or, if_neg (by simpa using hne)]
  unfold steps
  split_ifs with hends
  · obtain ⟨before, hbefore⟩ := List.getLast?_eq_some_iff.1 (eq_of_beq hends)
    have hdirectory := filterMap_splitWhen_slash before []
    rw [String.toList_append, hbefore, List.append_assoc, List.singleton_append,
      filterMap_splitWhen_slash, hdirectory]
    simp [Step.ofSegment]
  · rw [String.append_assoc, String.toList_append, String.toList_append,
      ← filterMap_splitWhen_slash]
    rfl

/-- A joined path begins with the directory. -/
theorem exists_join_eq_append (hrelative : isAbsolute path = false) (hne : directory ≠ "") :
    ∃ rest, join directory path = directory ++ rest := by
  unfold join
  rw [hrelative, Bool.false_or, if_neg (by simpa using hne)]
  split_ifs
  · exact ⟨path, rfl⟩
  · exact ⟨"/" ++ path, String.append_assoc ..⟩

theorem isAbsolute_append {rest : String} (hne : directory ≠ "") :
    isAbsolute (directory ++ rest) = isAbsolute directory := by
  have hcons : directory.toList ≠ [] := by simpa using hne
  obtain ⟨c, cs, hlist⟩ := List.exists_cons_of_ne_nil hcons
  simp [isAbsolute, hlist]

theorem Descends.join (h : Descends directory) (hpath : Descends path) :
    Descends (join directory path) where
  relative := by
    obtain ⟨rest, hrest⟩ := exists_join_eq_append hpath.relative h.ne_empty
    rw [hrest, isAbsolute_append h.ne_empty, h.relative]
  into step hstep := by
    rw [steps_join hpath.relative h.ne_empty] at hstep
    exact (List.mem_append.1 hstep).elim (h.into step) (hpath.into step)
  ne_nil := by
    rw [steps_join hpath.relative h.ne_empty]
    exact List.append_ne_nil_of_left_ne_nil h.ne_nil _

/-- A text without slashes that does not begin with a dot is one name. -/
theorem steps_of_segment {c : Char} {cs : List Char} (hpath : path.toList = c :: cs)
    (hdot : c ≠ '.') (hslash : '/' ∉ path.toList) : steps path = [.into path] := by
  have hsplit : Text.splitWhen (· == '/') path.toList = [path.toList] :=
    Text.splitWhen_of_forall fun a ha => beq_eq_false_iff_ne.2 fun h => hslash (h ▸ ha)
  have hsegment : Step.ofSegment path.toList = some (.into path) := by
    conv_rhs => rw [← String.ofList_toList (s := path)]
    rw [hpath]
    simp [Step.ofSegment, hdot]
  rw [steps, hsplit, List.filterMap_cons_some hsegment, List.filterMap_nil]

theorem descends_of_segment {c : Char} {cs : List Char} (hpath : path.toList = c :: cs)
    (hdot : c ≠ '.') (hslash : '/' ∉ path.toList) : Descends path := by
  have hsteps := steps_of_segment hpath hdot hslash
  refine ⟨?_, ?_, ?_⟩
  · have hc : c ≠ '/' := fun h => hslash (by rw [hpath, h]; exact List.mem_cons_self)
    simp [isAbsolute, hpath, hc]
  · rw [hsteps]
    exact fun step hstep => ⟨_, List.mem_singleton.1 hstep⟩
  · rw [hsteps]
    exact List.cons_ne_nil _ _

theorem fault?_eq_none_iff :
    fault? path = none ↔ '\x00' ∉ path.toList ∧ path ≠ "" ∧ path.utf8ByteSize ≤ limit := by
  unfold fault?
  split_ifs <;> simp_all

/-- If a text is a path, so is its beginning. -/
theorem fault?_eq_none_of_append {rest : String} (hne : directory ≠ "")
    (h : fault? (directory ++ rest) = none) : fault? directory = none := by
  obtain ⟨hnul, -, hsize⟩ := fault?_eq_none_iff.1 h
  rw [String.toList_append, List.mem_append, not_or] at hnul
  rw [String.utf8ByteSize_append] at hsize
  exact fault?_eq_none_iff.2 ⟨hnul.1, hne, Nat.le_of_add_right_le hsize⟩

end Path

/-! ## Places -/

namespace FileTree

variable {tree : FileTree} {here target : Location} {directory path : String}

theorem walk_append (tree : FileTree) (first rest : List Path.Step) (here : Location) :
    tree.walk here (first ++ rest) =
      tree.walk here first >>= fun there => tree.walk there rest := by
  induction first generalizing here with
  | nil => rfl
  | cons step first ih =>
    simp only [List.cons_append, walk, bind_assoc, ih]

/-- Names lead to places below. -/
theorem exists_of_walk_into {steps : List Path.Step}
    (hinto : ∀ step ∈ steps, ∃ name, step = .into name) (h : tree.walk here steps = .ok target) :
    ∃ names, names.length = steps.length ∧ target = here ++ names := by
  induction steps generalizing here with
  | nil =>
    cases h
    exact ⟨[], rfl, (List.append_nil _).symm⟩
  | cons step rest ih =>
    obtain ⟨name, rfl⟩ := hinto step List.mem_cons_self
    unfold walk at h
    obtain ⟨_, -, h⟩ := exists_of_bind_ok h
    obtain ⟨next, hnext, h⟩ := exists_of_bind_ok h
    obtain ⟨names, hlength, rfl⟩ := ih (fun s hs => hinto s (List.mem_cons_of_mem _ hs)) h
    simp only [stepFrom] at hnext
    split_ifs at hnext
    cases hnext
    exact ⟨name :: names, congrArg (· + 1) hlength, by simp⟩

/-- The place that paths joined to a directory start from. The empty path stands for the working
directory. -/
def placeOf (tree : FileTree) (directory : String) : Except FileError Location :=
  if directory = "" then .ok tree.home else tree.locate directory

/-- A path joined to a directory is followed from the place of the directory. -/
theorem exists_of_locate_join (hrelative : Path.isAbsolute path = false)
    (h : tree.locate (Path.join directory path) = .ok target) :
    ∃ here, tree.placeOf directory = .ok here ∧ tree.walk here (Path.steps path) = .ok target := by
  unfold locate at h
  obtain ⟨_, hcheck, h⟩ := exists_of_bind_ok h
  unfold placeOf
  by_cases hne : directory = ""
  · rw [if_pos hne]
    have hjoin : Path.join directory path = path := by simp [Path.join, hne]
    rw [hjoin, start, hrelative] at h
    exact ⟨tree.home, rfl, h⟩
  · rw [if_neg hne]
    rw [Path.steps_join hrelative hne, walk_append] at h
    obtain ⟨rest, hrest⟩ := Path.exists_join_eq_append hrelative hne
    rw [hrest, start, Path.isAbsolute_append hne] at h
    obtain ⟨here, hhere, h⟩ := exists_of_bind_ok h
    refine ⟨here, ?_, h⟩
    have hfault : Path.fault? (directory ++ rest) = none := by
      rw [hrest, checkPath] at hcheck
      split at hcheck
      · cases hcheck
      · assumption
    unfold locate checkPath
    rw [Path.fault?_eq_none_of_append hne hfault]
    exact hhere

end FileTree

namespace FileAction

/-- The path of a step, relative to the directory. -/
def path : FileAction → String
  | makeDirectory path => path
  | write path _ => path

/-- In every tree and every directory, the step concerns a place below the directory, if it concerns
any. -/
def Confined (action : FileAction) : Prop :=
  ∀ (tree : FileTree) (directory : String) (target : Location),
    tree.locate (Path.join directory action.path) = .ok target →
    ∃ here names, tree.placeOf directory = .ok here ∧ names ≠ [] ∧ target = here ++ names

theorem confined {action : FileAction} (h : Path.Descends action.path) : action.Confined := by
  intro tree directory target htarget
  obtain ⟨here, hhere, hwalk⟩ := FileTree.exists_of_locate_join h.relative htarget
  obtain ⟨names, hlength, rfl⟩ := FileTree.exists_of_walk_into h.into hwalk
  refine ⟨here, names, hhere, ?_, rfl⟩
  rintro rfl
  exact h.ne_nil (List.eq_nil_of_length_eq_zero hlength.symm)

end FileAction

end ModuleGraph
