import Mathlib.Data.List.Basic
import ModuleGraph.Pattern.Reading

/-!
# What patterns accept and select

A pattern is written in one of five forms (`PatternForm`), told by the stars at the end. It is
compiled to a pattern that compares packages and simple names, and some of that byte by byte: a name
is taken to be equal to a package, a dot and a simple name if it has as many bytes, begins with the
one and ends with the other (`Pattern.selects?_exact`). It is cut only behind what it is known to
begin with, so never within a character (`fromByte?_append`).

What a form stands for is stated over the parts of a name: the package and the simple name of a
class (`QualifiedName.Parts`), the directory and the file name of a resource.

* `Pattern.parse_eq_ok_iff`: what a text is compiled to.
* `Pattern.forms_of_parse`: a text is accepted exactly if it has one of the forms, and the pattern
  selects what the form stands for.
-/

namespace ModuleGraph

variable {m n p s t : String}

/-! ## Comparing bytes -/

theorem hasStart_iff_append : hasStart t s ↔ ∃ rest, t = s ++ rest := by
  rw [hasStart_iff]
  constructor
  · rintro ⟨rest, hrest⟩
    refine ⟨.ofList rest, String.toList_injective ?_⟩
    rw [hrest, String.toList_append, String.toList_ofList]
  · rintro ⟨rest, rfl⟩
    exact ⟨rest.toList, String.toList_append⟩

theorem hasEnd_iff_append : hasEnd t s ↔ ∃ rest, t = rest ++ s := by
  rw [hasEnd_iff]
  constructor
  · rintro ⟨rest, hrest⟩
    refine ⟨.ofList rest, String.toList_injective ?_⟩
    rw [hrest, String.toList_append, String.toList_ofList]
  · rintro ⟨rest, rfl⟩
    exact ⟨rest.toList, String.toList_append⟩

/-- A text is cut behind what it begins with, which is not within a character. -/
theorem fromByte?_append (s rest : String) : fromByte? (s ++ rest) s.utf8ByteSize = some rest := by
  rw [fromByte?, String.toList_append, Text.utf8ByteSize_eq, Text.dropBytes?_append,
    Option.map_some, String.ofList_toList]

/-- Two beginnings of a text that have the same number of bytes are the same. -/
theorem eq_of_append_eq_append {rest rest' : String} (h : s ++ rest = t ++ rest')
    (hsize : s.utf8ByteSize = t.utf8ByteSize) : s = t ∧ rest = rest' := by
  have hlists : s.toList ++ rest.toList = t.toList ++ rest'.toList := by
    rw [← String.toList_append, h, String.toList_append]
  rw [Text.utf8ByteSize_eq, Text.utf8ByteSize_eq] at hsize
  obtain ⟨hstart, hrest⟩ := Text.eq_of_append_eq hlists hsize
  exact ⟨String.toList_injective hstart, String.toList_injective hrest⟩

namespace Pattern

/-- The number of bytes, a beginning and an end together stand for equality. -/
theorem selects?_exact (full : String) (name : QualifiedName) :
    (exact full).selects? name = some (full == name.joined) := by
  by_cases hpackage : name.package = ""
  · simp only [selects?, QualifiedName.joined, if_pos hpackage]
  · simp only [selects?, QualifiedName.joined, if_neg hpackage]
    split_ifs with hcondition
    · rw [Bool.and_eq_true, beq_iff_eq] at hcondition
      obtain ⟨hsize, hstart⟩ := hcondition
      obtain ⟨rest, rfl⟩ := hasStart_iff_append.1 hstart
      rw [fromByte?_append, Option.map_some, Option.some.injEq, Bool.eq_iff_iff, Bool.and_eq_true,
        beq_iff_eq, String.append_assoc, String.append_right_inj]
      constructor
      · rintro ⟨hdot, hend⟩
        obtain ⟨after, rfl⟩ := hasStart_iff_append.1 hdot
        obtain ⟨before, hbefore⟩ := hasEnd_iff_append.1 hend
        -- what precedes the simple name has as many bytes as the package and the dot
        have hdotted : before.utf8ByteSize = (name.package ++ ".").utf8ByteSize := by
          have hbytes := congrArg String.utf8ByteSize hbefore
          simp only [String.utf8ByteSize_append] at hbytes hsize ⊢
          have hone : ".".utf8ByteSize = 1 := by decide
          omega
        rw [← String.append_assoc] at hbefore
        rw [(eq_of_append_eq_append hbefore hdotted.symm).2]
      · rintro rfl
        exact ⟨hasStart_iff_append.2 ⟨_, rfl⟩,
          hasEnd_iff_append.2 ⟨name.package ++ ".", String.append_assoc.symm⟩⟩
    · rw [Option.some.injEq, eq_comm, beq_eq_false_iff_ne]
      rintro rfl
      refine hcondition ?_
      rw [Bool.and_eq_true, beq_iff_eq, String.utf8ByteSize_append, String.utf8ByteSize_append]
      exact ⟨rfl, hasStart_iff_append.2 ⟨_, String.append_assoc⟩⟩

theorem selects?_subtree (p : String) (name : QualifiedName) :
    (subtree p).selects? name = some (name.package == p || hasStart name.package (p ++ ".")) := by
  simp only [selects?]
  split_ifs with hsame hstart
  · rw [hsame, Bool.true_or]
  · obtain ⟨rest, hrest⟩ := hasStart_iff_append.1 hstart
    rw [Bool.not_eq_true] at hsame
    rw [hsame, hrest, fromByte?_append, Option.map_some, Bool.false_or, Option.some.injEq,
      Bool.eq_iff_iff, hasStart_iff_append, hasStart_iff_append]
    simp only [String.append_assoc, String.append_right_inj]
  · rw [Bool.not_eq_true] at hsame
    rw [hsame, Bool.false_or, Option.some.injEq, eq_comm, Bool.eq_false_iff]
    intro hdot
    obtain ⟨rest, hrest⟩ := hasStart_iff_append.1 hdot
    exact hstart (hasStart_iff_append.2 ⟨_, hrest.trans String.append_assoc⟩)

end Pattern

/-! ## The parts of a name -/

namespace QualifiedName

/-- What the parts of a class name are: the last dot stands between them, and a name without dots
lies in the nameless package. -/
inductive Parts : String → QualifiedName → Prop where
  | dotted {package simple : String} (h : '.' ∉ simple.toList) :
      Parts (package ++ "." ++ simple) ⟨package, simple⟩
  | bare {simple : String} (h : '.' ∉ simple.toList) : Parts simple ⟨"", simple⟩

/-- A name has no dot, or it is made up of its parts. -/
theorem ofClass_cases (m : String) :
    ('.' ∉ m.toList ∧ ofClass m = ⟨"", m⟩) ∨
      ∃ p rest, m = p ++ "." ++ rest ∧ '.' ∉ rest.toList ∧ ofClass m = ⟨p, rest⟩ := by
  cases hcut : Text.cutLast '.' m.toList with
  | none =>
    have hnone := Text.cutLast_eq_none_iff.1 hcut
    exact .inl ⟨hnone, ofClass_of_not_mem hnone⟩
  | some parts =>
    obtain ⟨before, after⟩ := parts
    obtain ⟨hlist, hafter⟩ := Text.eq_append_of_cutLast hcut
    have hm : m = .ofList before ++ "." ++ .ofList after := by
      apply String.toList_injective
      simp [hlist]
    have hdot : '.' ∉ (String.ofList after).toList := by rwa [String.toList_ofList]
    refine .inr ⟨_, _, hm, hdot, ?_⟩
    conv_lhs => rw [hm]
    exact ofClass_append hdot

/-- A class name is taken apart into its parts. -/
theorem parts_iff {r : QualifiedName} : Parts m r ↔ r = ofClass m := by
  constructor
  · intro h
    cases h with
    | dotted h => exact (ofClass_append h).symm
    | bare h => exact (ofClass_of_not_mem h).symm
  · rintro rfl
    rcases ofClass_cases m with ⟨hdot, hparts⟩ | ⟨p, rest, hm, hdot, hparts⟩
    · rw [hparts]
      exact .bare hdot
    · rw [hparts, hm]
      exact .dotted hdot

theorem Parts.eq {r r' : QualifiedName} (h : Parts m r) (h' : Parts m r') : r = r' :=
  (parts_iff.1 h).trans (parts_iff.1 h').symm

end QualifiedName

/-! ## Forms -/

/-- The forms that a pattern may be written in. -/
inductive PatternForm where
  | everything
  | below (package : String)
  | within (package : String)
  | starting (head : String)
  | exact (name : String)

/-- A text with at least one character and no star. -/
structure IsStem (s : String) : Prop where
  ne_empty : s ≠ ""
  no_star : '*' ∉ s.toList

namespace PatternForm

/-- The texts that are written in the form. -/
def Writes : PatternForm → String → Prop
  | everything, t => t = "*" ∨ t = "**"
  | below p, t => IsStem p ∧ t = p ++ ".**"
  | within p, t => IsStem p ∧ t = p ++ ".*"
  | starting h, t => IsStem h ∧ ¬hasEnd h "." ∧ t = h ++ "*"
  | exact n, t => IsStem n ∧ t = n

/-- The form is that of a text, once the text has been trimmed and slashes are read as dots. Nothing
but blanks may be trimmed away, and none may be left. -/
structure Spells (form : PatternForm) (s : String) : Prop where
  ne_nil : Text.trim s.toList ≠ []
  no_blank : ∀ c ∈ Text.trim s.toList, ¬Text.isBlank c
  writes : form.Writes (.ofList (QualifiedName.dotted (Text.trim s.toList)))

/-- The classes that the form stands for. -/
def MatchesClass : PatternForm → String → Prop
  | everything, _ => True
  | below p, m => ∃ rest, m = p ++ "." ++ rest
  | within p, m => ∃ rest, m = p ++ "." ++ rest ∧ '.' ∉ rest.toList
  | starting h, m => ∃ package stem rest, QualifiedName.Parts h ⟨package, stem⟩ ∧
      QualifiedName.Parts m ⟨package, stem ++ rest⟩
  | exact n, m => ∃ r, QualifiedName.Parts m r ∧ n = r.joined

/-- The resources that the form stands for, by the package that their directory denotes and their
file name. -/
def MatchesResource : PatternForm → QualifiedName → Prop
  | everything, _ => True
  | below p, r => r.package = p ∨ ∃ rest, r.package = p ++ "." ++ rest
  | within p, r => r.package = p
  | starting h, r => ∃ stem rest, QualifiedName.Parts h ⟨r.package, stem⟩ ∧ r.simple = stem ++ rest
  | exact n, r => n = r.joined

/-- What a text of the form is compiled to. -/
def pattern : PatternForm → Pattern
  | everything => .all
  | below p => .subtree p
  | within p => .package p
  | starting h => .starting (QualifiedName.ofClass h).package (QualifiedName.ofClass h).simple
  | exact n => .exact n

/-- A compiled pattern always has an answer. -/
theorem selects?_pattern (form : PatternForm) (r : QualifiedName) :
    ∃ b, form.pattern.selects? r = some b ∧ (b ↔ form.MatchesResource r) := by
  cases form with
  | everything => exact ⟨true, rfl, iff_of_true rfl trivial⟩
  | below p =>
    refine ⟨_, Pattern.selects?_subtree p r, ?_⟩
    rw [Bool.or_eq_true, beq_iff_eq, hasStart_iff_append]
    rfl
  | within p => exact ⟨_, rfl, beq_iff_eq⟩
  | starting h =>
    refine ⟨_, rfl, ?_⟩
    rw [Bool.and_eq_true, beq_iff_eq, hasStart_iff_append]
    simp only [MatchesResource, QualifiedName.parts_iff]
    constructor
    · rintro ⟨hpackage, rest, hsimple⟩
      exact ⟨_, rest, by rw [hpackage], hsimple⟩
    · rintro ⟨stem, rest, hparts, hsimple⟩
      rw [← hparts]
      exact ⟨rfl, rest, hsimple⟩
  | exact n => exact ⟨_, Pattern.selects?_exact n r, beq_iff_eq⟩

end PatternForm

/-- In a package with a name, and below it, are the names that begin with it and a dot. -/
theorem QualifiedName.package_below_iff (hp : p ≠ "") :
    ((ofClass m).package = p ∨ ∃ rest, (ofClass m).package = p ++ "." ++ rest) ↔
      ∃ rest, m = p ++ "." ++ rest := by
  constructor
  · rcases ofClass_cases m with ⟨-, hparts⟩ | ⟨q, simple, rfl, -, hparts⟩
    · rw [hparts]
      rintro (hempty | ⟨rest, hempty⟩)
      · exact absurd hempty.symm hp
      · simp at hempty
    · rw [hparts]
      rintro (rfl | ⟨rest, rfl⟩)
      · exact ⟨simple, rfl⟩
      · exact ⟨rest ++ "." ++ simple, by simp only [String.append_assoc]⟩
  · rintro ⟨rest, rfl⟩
    rcases ofClass_cases rest with ⟨hdot, -⟩ | ⟨q, simple, rfl, hdot, -⟩
    · rw [ofClass_append hdot]
      exact .inl rfl
    · have hassoc : p ++ "." ++ (q ++ "." ++ simple) = (p ++ "." ++ q) ++ "." ++ simple := by
        simp only [String.append_assoc]
      rw [hassoc, ofClass_append hdot]
      exact .inr ⟨q, rfl⟩

/-- Directly in a package with a name are the names that have one more part. -/
theorem QualifiedName.package_eq_iff (hp : p ≠ "") :
    (ofClass m).package = p ↔ ∃ rest, m = p ++ "." ++ rest ∧ '.' ∉ rest.toList := by
  constructor
  · rcases ofClass_cases m with ⟨-, hparts⟩ | ⟨q, simple, rfl, hdot, hparts⟩
    · rw [hparts]
      exact fun hempty => absurd hempty.symm hp
    · rw [hparts]
      rintro rfl
      exact ⟨simple, rfl, hdot⟩
  · rintro ⟨rest, rfl, hdot⟩
    rw [ofClass_append hdot]

/-- What a form says of the parts of a class name, it says of the name. -/
theorem PatternForm.matchesResource_ofClass {form : PatternForm} (h : form.Writes t) (m : String) :
    form.MatchesResource (.ofClass m) ↔ form.MatchesClass m := by
  cases form with
  | everything => exact Iff.rfl
  | below p => exact QualifiedName.package_below_iff h.1.ne_empty
  | within p => exact QualifiedName.package_eq_iff h.1.ne_empty
  | starting h =>
    simp only [MatchesResource, MatchesClass, QualifiedName.parts_iff]
    constructor
    · rintro ⟨stem, rest, hparts, hsimple⟩
      exact ⟨_, stem, rest, hparts, by rw [← hsimple]⟩
    · rintro ⟨package, stem, rest, hparts, hm⟩
      rw [← hm]
      exact ⟨stem, rest, hparts, rfl⟩
  | exact n =>
    simp only [MatchesResource, MatchesClass, QualifiedName.parts_iff, exists_eq_left]

/-! ## Reading -/

namespace Pattern

variable {cs stem ending : List Char} {pattern : Pattern}

theorem isStem_iff : isStem cs ↔ IsStem (.ofList cs) := by
  unfold isStem
  constructor
  · intro hstem
    simp only [Bool.and_eq_true, Bool.not_eq_true', List.isEmpty_eq_false_iff] at hstem
    refine ⟨?_, ?_⟩
    · simpa using hstem.1
    · simpa using hstem.2
  · rintro ⟨hne, hstar⟩
    simp only [Bool.and_eq_true, Bool.not_eq_true', List.isEmpty_eq_false_iff]
    exact ⟨by simpa using hne, by simpa using hstar⟩

theorem stripEnd?_append (stem ending : List Char) :
    Text.stripEnd? ending (stem ++ ending) = some stem :=
  Text.stripEnd?_eq_some_iff.2 rfl

theorem stripEnd?_eq_none_iff :
    Text.stripEnd? ending cs = none ↔ ∀ stem, cs ≠ stem ++ ending := by
  simp [Option.eq_none_iff_forall_ne_some, Text.stripEnd?_eq_some_iff]

/-- The stars at the end tell the form. -/
theorem exists_form_of_ofDotted? (h : ofDotted? cs = some pattern) :
    ∃ form : PatternForm, form.Writes (.ofList cs) ∧ form.pattern = pattern := by
  unfold ofDotted? at h
  by_cases hall : cs = ['*'] ∨ cs = ['*', '*']
  · rw [if_pos hall] at h
    cases h
    refine ⟨.everything, ?_, rfl⟩
    rcases hall with rfl | rfl
    · exact .inl rfl
    · exact .inr rfl
  rw [if_neg hall] at h
  split at h
  case h_1 stem hstrip =>
    split_ifs at h with hstem
    cases h
    rw [Text.stripEnd?_eq_some_iff.1 hstrip, String.ofList_append]
    exact ⟨.below _, ⟨isStem_iff.1 hstem, rfl⟩, rfl⟩
  case h_2 hbelow =>
    split at h
    case h_1 stem hstrip =>
      split_ifs at h with hstem
      cases h
      rw [Text.stripEnd?_eq_some_iff.1 hstrip, String.ofList_append]
      exact ⟨.within _, ⟨isStem_iff.1 hstem, rfl⟩, rfl⟩
    case h_2 hwithin =>
      split at h
      case h_1 stem hstrip =>
        split_ifs at h with hstar
        cases h
        obtain rfl := Text.stripEnd?_eq_some_iff.1 hstrip
        have hstem : IsStem (.ofList stem) := by
          refine ⟨?_, ?_⟩
          · rintro hempty
            obtain rfl : stem = [] := by simpa using hempty
            exact hall (.inl rfl)
          · simpa using hstar
        have hdot : ¬hasEnd (.ofList stem) "." := by
          intro hend
          obtain ⟨rest, hrest⟩ := hasEnd_iff.1 hend
          refine stripEnd?_eq_none_iff.1 hwithin rest ?_
          rw [← String.toList_ofList (l := stem), hrest, List.append_assoc]
          rfl
        rw [String.ofList_append]
        exact ⟨.starting _, ⟨hstem, hdot, rfl⟩, rfl⟩
      case h_2 =>
        split_ifs at h with hstem
        cases h
        exact ⟨.exact _, ⟨isStem_iff.1 hstem, rfl⟩, rfl⟩

/-- A text that begins with a stem is more than stars. -/
theorem not_all_of_stem (h : IsStem p) (rest : List Char) :
    ¬(p.toList ++ rest = ['*'] ∨ p.toList ++ rest = ['*', '*']) := by
  obtain ⟨c, cs, hlist⟩ := List.exists_cons_of_ne_nil (mt String.toList_eq_nil_iff.1 h.ne_empty)
  have hstar : c ≠ '*' := by
    rintro rfl
    exact h.no_star (hlist ▸ List.mem_cons_self)
  rw [hlist, List.cons_append]
  rintro (heq | heq)
  · exact hstar (List.cons.inj heq).1
  · exact hstar (List.cons.inj heq).1

theorem ofDotted?_below (h : IsStem p) :
    ofDotted? (p.toList ++ ['.', '*', '*']) = some (subtree p) := by
  have hstem : isStem p.toList := isStem_iff.2 (by rwa [String.ofList_toList])
  rw [ofDotted?, if_neg (not_all_of_stem h _), stripEnd?_append]
  dsimp only
  rw [if_pos hstem, String.ofList_toList]

theorem ofDotted?_within (h : IsStem p) :
    ofDotted? (p.toList ++ ['.', '*']) = some (package p) := by
  have hstem : isStem p.toList := isStem_iff.2 (by rwa [String.ofList_toList])
  have hbelow : Text.stripEnd? ['.', '*', '*'] (p.toList ++ ['.', '*']) = none := by
    -- the last character but one is a dot
    refine stripEnd?_eq_none_iff.2 fun stem heq => ?_
    have hdot := congrArg (fun cs => cs.reverse.tail.head?) heq
    simp at hdot
  rw [ofDotted?, if_neg (not_all_of_stem h _), hbelow]
  dsimp only
  rw [stripEnd?_append]
  dsimp only
  rw [if_pos hstem, String.ofList_toList]

theorem ofDotted?_starting (h : IsStem p) (hdot : ¬hasEnd p ".") :
    ofDotted? (p.toList ++ ['*']) =
      some (starting (QualifiedName.ofClass p).package (QualifiedName.ofClass p).simple) := by
  have hbelow : Text.stripEnd? ['.', '*', '*'] (p.toList ++ ['*']) = none := by
    refine stripEnd?_eq_none_iff.2 fun stem heq => h.no_star ?_
    have hlist : p.toList ++ ['*'] = (stem ++ ['.', '*']) ++ ['*'] := by
      rw [heq, List.append_assoc]
      rfl
    rw [List.append_cancel_right hlist]
    simp
  have hwithin : Text.stripEnd? ['.', '*'] (p.toList ++ ['*']) = none := by
    refine stripEnd?_eq_none_iff.2 fun stem heq => hdot (hasEnd_iff.2 ⟨stem, ?_⟩)
    have hlist : p.toList ++ ['*'] = (stem ++ ['.']) ++ ['*'] := by
      rw [heq, List.append_assoc]
      rfl
    exact List.append_cancel_right hlist
  rw [ofDotted?, if_neg (not_all_of_stem h _), hbelow]
  dsimp only
  rw [hwithin]
  dsimp only
  rw [stripEnd?_append]
  dsimp only
  rw [if_neg (by simpa using h.no_star), String.ofList_toList]

theorem ofDotted?_exact (h : IsStem n) : ofDotted? n.toList = some (exact n) := by
  have hstem : isStem n.toList := isStem_iff.2 (by rwa [String.ofList_toList])
  have hstrip {ending : List Char} (hstar : '*' ∈ ending) :
      Text.stripEnd? ending n.toList = none := by
    refine stripEnd?_eq_none_iff.2 fun stem heq => h.no_star ?_
    rw [heq]
    exact List.mem_append_right _ hstar
  have hall := not_all_of_stem h []
  rw [List.append_nil] at hall
  rw [ofDotted?, if_neg hall, hstrip (by decide)]
  dsimp only
  rw [hstrip (by decide)]
  dsimp only
  rw [hstrip (by decide)]
  dsimp only
  rw [if_pos hstem, String.ofList_toList]

/-- A text of a form is compiled to the pattern of the form. -/
theorem ofDotted?_of_writes {form : PatternForm} (h : form.Writes (.ofList cs)) :
    ofDotted? cs = some form.pattern := by
  have hlist {t : String} (ht : String.ofList cs = t) : cs = t.toList := by
    rw [← ht, String.toList_ofList]
  cases form with
  | everything =>
    rcases h with h | h
    · rw [hlist h]
      rfl
    · rw [hlist h]
      rfl
  | below p =>
    rw [hlist h.2, String.toList_append]
    exact ofDotted?_below h.1
  | within p =>
    rw [hlist h.2, String.toList_append]
    exact ofDotted?_within h.1
  | starting head =>
    rw [hlist h.2.2, String.toList_append]
    exact ofDotted?_starting h.1 h.2.1
  | exact n =>
    rw [hlist h.2]
    exact ofDotted?_exact h.1

/-- A text is read as the pattern of the form that it is written in. -/
theorem parse_eq_ok_iff {s : String} :
    parse s = .ok pattern ↔ ∃ form : PatternForm, form.Spells s ∧ form.pattern = pattern := by
  unfold parse
  constructor
  · intro h
    dsimp only at h
    split_ifs at h with hempty hblank
    split at h
    case h_1 found hfound =>
      cases h
      obtain ⟨form, hwrites, rfl⟩ := exists_form_of_ofDotted? hfound
      exact ⟨form, ⟨by simpa using hempty, by simpa using hblank, hwrites⟩, rfl⟩
    case h_2 => cases h
  · rintro ⟨form, h, rfl⟩
    have hempty : ¬(Text.trim s.toList).isEmpty := by simpa using h.ne_nil
    have hblank : ¬(Text.trim s.toList).any Text.isBlank := by simpa using h.no_blank
    dsimp only
    rw [if_neg hempty, if_neg hblank, ofDotted?_of_writes h.writes]

/-- A text is a pattern exactly if it is written in one of the forms, and then it selects the
classes and resources that the form stands for. No name is cut within a character. -/
theorem forms_of_parse (s : String) :
    ((∃ pattern, parse s = .ok pattern) ↔ ∃ form : PatternForm, form.Spells s) ∧
      ∀ (form : PatternForm) (pattern : Pattern), form.Spells s → parse s = .ok pattern →
        (∀ name, (pattern.selects? name).isSome) ∧
        (∀ m, pattern.selectsClass m ↔ form.MatchesClass m) ∧
        ∀ directory file : String, '/' ∉ file.toList →
          (pattern.selectsResource (directory ++ "/" ++ file) ↔
            form.MatchesResource ⟨.ofList (QualifiedName.dotted directory.toList), file⟩) ∧
          (pattern.selectsResource file ↔ form.MatchesResource ⟨"", file⟩) := by
  refine ⟨⟨?_, ?_⟩, fun form pattern hspells hparse => ?_⟩
  · rintro ⟨pattern, hparse⟩
    obtain ⟨form, hspells, -⟩ := parse_eq_ok_iff.1 hparse
    exact ⟨form, hspells⟩
  · rintro ⟨form, hspells⟩
    exact ⟨form.pattern, parse_eq_ok_iff.2 ⟨form, hspells, rfl⟩⟩
  · have hcompiled := parse_eq_ok_iff.2 ⟨form, hspells, rfl⟩
    cases hcompiled.symm.trans hparse
    have hselects (r : QualifiedName) :
        (form.pattern.selects? r).isSome ∧ (form.pattern.selects r ↔ form.MatchesResource r) := by
      obtain ⟨b, hb, hiff⟩ := form.selects?_pattern r
      rw [selects, hb]
      exact ⟨rfl, hiff⟩
    refine ⟨fun r => (hselects r).1, fun m => ?_, fun directory file hfile => ⟨?_, ?_⟩⟩
    · rw [← PatternForm.matchesResource_ofClass hspells.writes m]
      exact (hselects _).2
    · rw [selectsResource, QualifiedName.ofPath_append hfile]
      exact (hselects _).2
    · rw [selectsResource, QualifiedName.ofPath_of_not_mem hfile]
      exact (hselects _).2

/-- A text with a slash and an umlaut, and blanks around it. -/
theorem forms_of_parse_umlaut :
    ∃ pattern, parse " com/foo.Bä* " = .ok pattern ∧
      (PatternForm.starting "com.foo.Bä").Spells " com/foo.Bä* " ∧
      pattern.selectsClass "com.foo.Bäcker" ∧ ¬pattern.selectsClass "com.foo.bar.Bäcker" ∧
      pattern.selectsResource "com/foo/Bäcker.txt" ∧
      ¬pattern.selectsResource "com/foo/bar/Bäcker.txt" ∧
      ¬pattern.selectsResource "Bäcker.txt" := by
  have hspells : (PatternForm.starting "com.foo.Bä").Spells " com/foo.Bä* " := by
    have hblank : (Text.trim " com/foo.Bä* ".toList).all (!Text.isBlank ·) := by decide +kernel
    have hwrites : String.ofList (QualifiedName.dotted (Text.trim " com/foo.Bä* ".toList)) =
        "com.foo.Bä" ++ "*" := by
      decide +kernel
    refine ⟨by decide +kernel, fun c hc => ?_, ⟨by decide, by decide⟩, by decide +kernel, hwrites⟩
    simpa using List.all_eq_true.1 hblank c hc
  obtain ⟨haccepted, hforms⟩ := forms_of_parse " com/foo.Bä* "
  obtain ⟨pattern, hparse⟩ := haccepted.2 ⟨_, hspells⟩
  obtain ⟨-, hclass, hresource⟩ := hforms _ pattern hspells hparse
  have hhead : QualifiedName.Parts "com.foo.Bä" ⟨"com.foo", "Bä"⟩ :=
    show QualifiedName.Parts ("com.foo" ++ "." ++ "Bä") _ from .dotted (by decide)
  have hpackage {package stem : String} (h : QualifiedName.Parts "com.foo.Bä" ⟨package, stem⟩) :
      package = "com.foo" :=
    congrArg QualifiedName.package (h.eq hhead)
  refine ⟨pattern, hparse, hspells, ?_, ?_, ?_, ?_, ?_⟩
  · refine (hclass ("com.foo" ++ "." ++ ("Bä" ++ "cker"))).2 ?_
    exact ⟨"com.foo", "Bä", "cker", hhead, .dotted (by decide)⟩
  · intro hselects
    obtain ⟨package, stem, rest, hstem, hparts⟩ :=
      (hclass ("com.foo.bar" ++ "." ++ "Bäcker")).1 hselects
    have hsame : package = "com.foo.bar" :=
      congrArg QualifiedName.package (hparts.eq (.dotted (by decide)))
    exact absurd ((hpackage hstem).symm.trans hsame) (by decide)
  · refine (hresource "com/foo" "Bäcker.txt" (by decide)).1.2 ?_
    exact ⟨"Bä", "cker.txt", hhead, rfl⟩
  · intro hselects
    obtain ⟨stem, -, hstem, -⟩ := (hresource "com/foo/bar" "Bäcker.txt" (by decide)).1.1 hselects
    exact absurd (hpackage hstem) (by decide +kernel)
  · intro hselects
    obtain ⟨stem, -, hstem, -⟩ := (hresource "" "Bäcker.txt" (by decide)).2.1 hselects
    exact absurd (hpackage hstem) (by decide)

end Pattern

end ModuleGraph
