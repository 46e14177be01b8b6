import Mathlib.Data.List.Induction
import Mathlib.Data.List.TakeWhile
import ModuleGraph.Proofs.Ends
import ModuleGraph.Report.Descriptor
import ModuleGraph.ServiceDescriptor

/-!
# Reading service descriptors

Of a line there is left what stands before a comment, without the blanks at its ends. A line is
legal (`ServiceDescriptor.Legal`) if that is nothing or an identifier.

**Theorem (`ServiceDescriptor.verdict_of_parse`).** A file is accepted exactly if all of its lines
are legal. Then it lists the providers of its lines, each of them where it occurs first; otherwise
the first line that is not legal is the fault. A descriptor of a path, however it came about, is
read back from its providers.

What the providers are is said of any names that are kept without repetitions: the lines of a file
add the names that they list at the end (`ServiceDescriptor.reads_lines`). Providers are read back
since an identifier holds nothing that a reader cuts off (`plain_of_isQualifiedIdentifier`): no
letter and no numeral is a blank.
-/

namespace ModuleGraph

/-! ## Keeping the first of each -/

theorem eraseDups_concat (names : List String) (name : String) :
    (names ++ [name]).eraseDups =
      if name ∈ names then names.eraseDups else names.eraseDups ++ [name] := by
  rw [List.eraseDups_append]
  split_ifs with hmem
  · simp [List.removeAll, hmem]
  · simp [List.removeAll, hmem, List.eraseDups_cons]

theorem eraseDups_eraseDups (names : List String) :
    names.eraseDups.eraseDups = names.eraseDups := by
  induction names using List.reverseRecOn with
  | nil => rfl
  | append_singleton names name ih =>
    rw [eraseDups_concat]
    split_ifs with hmem
    · exact ih
    · rw [eraseDups_concat, if_neg (by simpa using hmem), ih]

theorem nodup_eraseDups (names : List String) : names.eraseDups.Nodup := by
  induction names using List.reverseRecOn with
  | nil => exact List.nodup_nil
  | append_singleton names name ih =>
    rw [eraseDups_concat]
    split_ifs with hmem
    · exact ih
    · have hnew : ∀ a ∈ names.eraseDups, ∀ b ∈ [name], a ≠ b := by
        intro a ha b hb
        rw [List.mem_singleton.1 hb]
        exact ne_of_mem_of_not_mem (List.mem_eraseDups.1 ha) hmem
      exact List.nodup_append.2 ⟨ih, List.pairwise_singleton _ _, hnew⟩

/-! ## Identifiers -/

namespace Text

/-- The code points of the blanks. -/
def blanks : List Nat :=
  List.range' 0x9 5 ++ [0x20, 0x85, 0xA0, 0x1680] ++ List.range' 0x2000 11 ++
    [0x2028, 0x2029, 0x202F, 0x205F, 0x3000]

theorem isBlank_iff_mem_blanks (c : Char) : isBlank c ↔ c.toNat ∈ blanks := by
  simp only [isBlank, blanks, Bool.or_eq_true, Bool.and_eq_true, decide_eq_true_eq, beq_iff_eq,
    List.mem_append, List.mem_range'_1, List.mem_cons, List.not_mem_nil, or_false]
  omega

/-- No letter and no numeral is blank. -/
theorem isAlphanumeric_of_isBlank {c : Char} (h : isBlank c) : isAlphanumeric c = false := by
  have hall : ∀ n ∈ blanks, isAlphanumeric (Char.ofNat n) = false := by decide +kernel
  have hc := hall c.toNat ((isBlank_iff_mem_blanks c).1 h)
  rwa [Char.ofNat_toNat] at hc

end Text

namespace ServiceDescriptor

variable {d : ServiceDescriptor} {cs line : List Char} {path name : String} {n : Nat}
  {names : List String}

/-- What may stand in an identifier is neither a blank nor the mark of a comment. -/
theorem plain_of_isIdentifierChar {c : Char} (h : isIdentifierChar c || c == '.') :
    Text.isBlank c = false ∧ c ≠ '#' := by
  constructor
  · by_contra hblank
    rw [Bool.not_eq_false] at hblank
    simp only [isIdentifierChar, Text.isAlphanumeric_of_isBlank hblank, Bool.false_or,
      Bool.or_eq_true, beq_iff_eq] at h
    rcases h with (rfl | rfl) | rfl <;> exact absurd hblank (by decide)
  · rintro rfl
    revert h
    decide

theorem plain_of_isQualifiedIdentifier (h : isQualifiedIdentifier cs) :
    ∀ c ∈ cs, Text.isBlank c = false ∧ c ≠ '#' := by
  cases cs with
  | nil => simp
  | cons first rest =>
    simp only [isQualifiedIdentifier, Bool.and_eq_true, List.all_eq_true] at h
    intro c hc
    apply plain_of_isIdentifierChar
    rcases List.mem_cons.1 hc with rfl | hc
    · have hfirst := h.1
      simp only [Bool.or_eq_true] at hfirst
      simp only [isIdentifierChar, Text.isAlphanumeric, Bool.or_eq_true]
      tauto
    · exact h.2 c hc

theorem ne_nil_of_isQualifiedIdentifier (h : isQualifiedIdentifier cs) : cs ≠ [] := by
  rintro rfl
  cases h

/-- A line that is an identifier is read as it stands. -/
theorem content_of_isQualifiedIdentifier (h : isQualifiedIdentifier cs) : content cs = cs := by
  have hplain := plain_of_isQualifiedIdentifier h
  have hcomment : cs.takeWhile (· != '#') = cs := by
    apply List.takeWhile_eq_self_iff.2
    intro c hc
    simpa using (hplain c hc).2
  rw [content, hcomment]
  apply Text.trim_eq_self
  · intro c hc
    exact (hplain c (List.mem_of_mem_head? hc)).1
  · intro c hc
    exact (hplain c (List.mem_of_mem_getLast? hc)).1

/-! ## Reading -/

/-- A provider is added at the end if it is new, and refused if it is no identifier. -/
theorem reads_provider (hnames : d.providers = names.eraseDups) (path : String) (n : Nat)
    (name : String) :
    Ends (d.addProviderAt path n name)
      (fun d' => isQualifiedIdentifier name.toList ∧
        d' = { d with providers := (names ++ [name]).eraseDups })
      fun e => isQualifiedIdentifier name.toList = false ∧ e = .illegalProvider path n name := by
  unfold addProviderAt
  rw [eraseDups_concat, ← hnames]
  have hmem : d.providers.contains name ↔ name ∈ names := by simp [hnames]
  cases hlegal : isQualifiedIdentifier name.toList
  · exact ⟨rfl, rfl⟩
  · simp only [hmem, Bool.not_true, Bool.false_eq_true, if_false]
    split_ifs <;> exact ⟨trivial, rfl⟩

@[simp]
theorem providers_ofPath (path : String) : (ofPath path).providers = [] := by
  unfold ofPath
  split <;> rfl

/-- A line may stand in a descriptor file: nothing is left of it, or an identifier. -/
def Legal (line : List Char) : Prop :=
  content line ≠ [] → isQualifiedIdentifier (content line)

/-- What is wrong with a line that may not. -/
def fault (path : String) (n : Nat) (line : List Char) : ServiceError :=
  if ' ' ∈ content line ∨ '\t' ∈ content line then .illegalSyntax path n
  else .illegalProvider path n (.ofList (content line))

/-- What is left of lines, without those of which nothing is left. -/
def listed (lines : List (List Char)) : List String :=
  ((lines.map content).filter (!·.isEmpty)).map .ofList

theorem listed_cons (line : List Char) (lines : List (List Char)) :
    listed (line :: lines) =
      (if content line = [] then [] else [.ofList (content line)]) ++ listed lines := by
  unfold listed
  by_cases hempty : content line = [] <;> simp [hempty]

theorem reads_line (hnames : d.providers = names.eraseDups) (path : String) (n : Nat)
    (line : List Char) :
    Ends (readLine path n d line)
      (fun d' => Legal line ∧ d' = { d with providers := (names ++ listed [line]).eraseDups })
      fun e => ¬Legal line ∧ e = fault path n line := by
  have hblank (hlegal : isQualifiedIdentifier (content line)) :
      ¬(' ' ∈ content line ∨ '\t' ∈ content line) := by
    have hplain := plain_of_isQualifiedIdentifier hlegal
    rintro (hmem | hmem) <;> exact absurd (hplain _ hmem).1 (by decide)
  have hprovider := reads_provider hnames path n (.ofList (content line))
  rw [String.toList_ofList] at hprovider
  unfold readLine Legal fault
  rw [listed_cons]
  by_cases hempty : content line = []
  · simp [hempty, listed, ← hnames]
  · by_cases hsyntax : ' ' ∈ content line ∨ '\t' ∈ content line
    · have hillegal : isQualifiedIdentifier (content line) = false := by
        rw [← Bool.not_eq_true]
        exact fun hlegal => hblank hlegal hsyntax
      simp [hempty, hsyntax, hillegal]
    · simpa [hempty, hsyntax, listed] using hprovider

/-- The first line that is not legal ends the reading. -/
theorem reads_lines (hnames : d.providers = names.eraseDups) (path : String) (n : Nat)
    (lines : List (List Char)) :
    Ends (readLines path n d lines)
      (fun d' => (∀ line ∈ lines, Legal line) ∧
        d' = { d with providers := (names ++ listed lines).eraseDups })
      fun e => ∃ before line after, lines = before ++ line :: after ∧
        (∀ line ∈ before, Legal line) ∧ ¬Legal line ∧ e = fault path (n + before.length) line := by
  induction lines generalizing d names n with
  | nil => simp [readLines, listed, ← hnames]
  | cons line lines ih =>
    have hline := reads_line hnames path n line
    unfold readLines
    cases hread : readLine path n d line with
    | error e =>
      obtain ⟨hillegal, hfault⟩ := hline.of_error hread
      exact ⟨[], line, lines, rfl, by simp, hillegal, hfault⟩
    | ok next =>
      obtain ⟨hlegal, hnext⟩ := hline.of_ok hread
      have hnames' : next.providers = (names ++ listed [line]).eraseDups := by rw [hnext]
      apply (ih hnames' (n + 1)).mono
      · intro d' h
        obtain ⟨hrest, hd'⟩ := h
        refine ⟨List.forall_mem_cons.2 ⟨hlegal, hrest⟩, ?_⟩
        rw [hd', hnext, listed_cons line lines, listed_cons line []]
        simp [listed]
      · intro e h
        obtain ⟨before, bad, after, hlines, hbefore, hbad, he⟩ := h
        refine ⟨line :: before, bad, after, by rw [hlines, List.cons_append],
          List.forall_mem_cons.2 ⟨hlegal, hbefore⟩, hbad, ?_⟩
        rw [he, List.length_cons]
        congr 1
        omega

/-- The descriptors of a path: that of a file or an empty one, and those with more providers. -/
inductive Obtained (path : String) : ServiceDescriptor → Prop where
  | empty : Obtained path (ofPath path)
  | read {contents : String} {d : ServiceDescriptor} (h : parse path contents = .ok d) :
    Obtained path d
  | extended {d d' : ServiceDescriptor} (hd : Obtained path d) {other name : String}
    (h : d.addProvider other name = .ok d') : Obtained path d'

theorem reads_file (path contents : String) :
    Ends (parse path contents)
      (fun d => (∀ line ∈ Text.lines contents.toList, Legal line) ∧
        d = { ofPath path with providers := (listed (Text.lines contents.toList)).eraseDups })
      fun e => ∃ before line after, Text.lines contents.toList = before ++ line :: after ∧
        (∀ line ∈ before, Legal line) ∧ ¬Legal line ∧ e = fault path (before.length + 1) line := by
  have hnames : (ofPath path).providers = [].eraseDups := by
    rw [providers_ofPath, List.eraseDups_nil]
  apply (reads_lines hnames path 1 (Text.lines contents.toList)).mono
  · simp
  · simp only [Nat.add_comm]
    exact fun _ h => h

theorem parse_of_legal (path : String) {contents : String}
    (h : ∀ line ∈ Text.lines contents.toList, Legal line) :
    parse path contents = .ok { ofPath path with
      providers := (listed (Text.lines contents.toList)).eraseDups } := by
  have hends := reads_file path contents
  cases hparse : parse path contents with
  | ok d => rw [(hends.of_ok hparse).2]
  | error e =>
    obtain ⟨before, line, after, hsplit, -, hbad, -⟩ := hends.of_error hparse
    exact absurd (h line (by simp [hsplit])) hbad

theorem listed_append (before after : List (List Char)) :
    listed (before ++ after) = listed before ++ listed after := by
  simp [listed]

/-- Providers that are written line by line are what the lines list. -/
theorem listed_of_legal {providers : List String}
    (h : ∀ p ∈ providers, isQualifiedIdentifier p.toList) :
    listed (providers.map String.toList) = providers := by
  induction providers with
  | nil => rfl
  | cons p providers ih =>
    have hp := h p List.mem_cons_self
    rw [List.map_cons, listed_cons, content_of_isQualifiedIdentifier hp,
      if_neg (ne_nil_of_isQualifiedIdentifier hp),
      ih fun q hq => h q (List.mem_cons_of_mem _ hq), String.ofList_toList]
    rfl

theorem legal_of_mem_listed {lines : List (List Char)} (h : ∀ line ∈ lines, Legal line)
    {p : String} (hp : p ∈ listed lines) : isQualifiedIdentifier p.toList := by
  simp only [listed, List.mem_map, List.mem_filter] at hp
  obtain ⟨cs, ⟨⟨line, hline, rfl⟩, hne⟩, rfl⟩ := hp
  rw [String.toList_ofList]
  exact h line hline (by simpa using hne)

/-- A descriptor of a path has the service of the path, and identifiers as providers, each of them
once. -/
theorem Obtained.exists_names (h : Obtained path d) :
    ∃ names : List String, (∀ p ∈ names, isQualifiedIdentifier p.toList) ∧
      d = { ofPath path with providers := names.eraseDups } := by
  induction h with
  | empty => exact ⟨[], by simp, by rw [List.eraseDups_nil, ← providers_ofPath path]⟩
  | read hparse =>
    obtain ⟨hlegal, hd⟩ := (reads_file path _).of_ok hparse
    exact ⟨_, fun p => legal_of_mem_listed hlegal, hd⟩
  | @extended d d' _ other name hadd ih =>
    obtain ⟨names, hnames, rfl⟩ := ih
    obtain ⟨hlegal, hd'⟩ := (reads_provider rfl other 0 name).of_ok hadd
    refine ⟨names ++ [name], ?_, hd'⟩
    simpa [or_imp, forall_and] using ⟨hnames, hlegal⟩

/-- The providers of a descriptor, written line by line, are read back. -/
theorem Obtained.parse_unlines (h : Obtained path d) :
    ServiceDescriptor.parse path (unlines d.providers) = .ok d := by
  obtain ⟨names, hnames, rfl⟩ := h.exists_names
  have hproviders (p : String) (hp : p ∈ names.eraseDups) : isQualifiedIdentifier p.toList :=
    hnames p (by simpa using hp)
  have hlines : Text.lines (unlines names.eraseDups).toList =
      names.eraseDups.map String.toList ++ [[]] := by
    apply lines_unlines
    intro p hp hmem
    exact absurd (plain_of_isQualifiedIdentifier (hproviders p hp) _ hmem).1 (by decide)
  have hlegal : ∀ line ∈ Text.lines (unlines names.eraseDups).toList, Legal line := by
    rw [hlines]
    intro line hline
    simp only [List.mem_append, List.mem_map, List.mem_singleton] at hline
    rcases hline with ⟨p, hp, rfl⟩ | rfl
    · rw [Legal, content_of_isQualifiedIdentifier (hproviders p hp)]
      exact fun _ => hproviders p hp
    · simp [Legal, content, Text.trim]
  rw [parse_of_legal path hlegal, hlines, listed_append, listed_of_legal hproviders]
  simp [listed, content, Text.trim, eraseDups_eraseDups]

theorem verdict_of_parse (path contents : String) :
    ((∃ d, parse path contents = .ok d) ↔ ∀ line ∈ Text.lines contents.toList, Legal line) ∧
      (∀ d, parse path contents = .ok d → d = { ofPath path with
        providers := (listed (Text.lines contents.toList)).eraseDups }) ∧
      (∀ e, parse path contents = .error e → ∃ before line after,
        Text.lines contents.toList = before ++ line :: after ∧ (∀ line ∈ before, Legal line) ∧
        ¬Legal line ∧ e = fault path (before.length + 1) line) ∧
      ∀ d, Obtained path d → parse path (unlines d.providers) = .ok d := by
  have hends := reads_file path contents
  refine ⟨⟨?_, ?_⟩, fun d hd => (hends.of_ok hd).2, fun e he => hends.of_error he,
    fun d hd => hd.parse_unlines⟩
  · intro h
    obtain ⟨d, hd⟩ := h
    exact (hends.of_ok hd).1
  · intro hlegal
    exact ⟨_, parse_of_legal path hlegal⟩

/-- A file with a comment, an empty line and a repetition, and one more provider. -/
theorem verdict_of_parse_spi :
    ∃ d d', parse "META-INF/services/com.foo.Spi" "# x\n a.B # c\n\na.C\na.B" = .ok d ∧
      d.addProvider "by hand" "a.D" = .ok d' ∧ d'.providers = ["a.B", "a.C", "a.D"] ∧
      parse "META-INF/services/com.foo.Spi" "a.B\na.C\na.D\n" = .ok d' := by
  have hparse : parse "META-INF/services/com.foo.Spi" "# x\n a.B # c\n\na.C\na.B" =
      .ok ⟨"com.foo.Spi", ["a.B", "a.C"]⟩ := by
    decide +kernel
  have hadd : addProvider ⟨"com.foo.Spi", ["a.B", "a.C"]⟩ "by hand" "a.D" =
      .ok ⟨"com.foo.Spi", ["a.B", "a.C", "a.D"]⟩ := by
    decide +kernel
  have hlines : unlines ["a.B", "a.C", "a.D"] = "a.B\na.C\na.D\n" := by
    decide +kernel
  obtain ⟨-, -, -, hback⟩ :=
    verdict_of_parse "META-INF/services/com.foo.Spi" "# x\n a.B # c\n\na.C\na.B"
  have hread := hback _ (.extended (.read hparse) hadd)
  rw [hlines] at hread
  exact ⟨_, _, hparse, hadd, rfl, hread⟩

end ServiceDescriptor

end ModuleGraph
