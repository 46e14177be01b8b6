import ModuleGraph.Proofs.Patterns

/-!
# Patterns are read back from their texts

**Theorem (`Pattern.rereads_of_parse`).** A pattern that was read from a text is read again from the
text that it is written as. So patterns that were read are told apart by their texts, and a text
that was written stays as it is.

A pattern is written in the form that it was read in (`PatternForm.writes_text`). Only a name that
selected classes start with may lose a dot: one in front that is its last one, as what is before it
is the nameless package, and that needs no dot (`PatternForm.written`).
-/

namespace ModuleGraph

variable {m s t : String} {cs : List Char} {form : PatternForm} {pattern : Pattern}

namespace QualifiedName

theorem dotted_eq_self (h : '/' ∉ cs) : dotted cs = cs := by
  have hmap : cs.map (fun c => if c = '/' then '.' else c) = cs.map id := by
    apply List.map_congr_left
    intro c hc
    have hslash : c ≠ '/' := fun heq => h (heq ▸ hc)
    simp [hslash]
  rw [dotted, hmap, List.map_id]

theorem not_slash_mem_dotted (cs : List Char) : '/' ∉ dotted cs := by
  simp only [dotted, List.mem_map, not_exists, not_and]
  intro c _
  by_cases hslash : c = '/' <;> simp [hslash]

/-- A name is joined again from its parts, but for a dot that stands before it. -/
theorem joined_ofClass (m : String) :
    (ofClass m).joined = m ∨ m = "." ++ (ofClass m).joined := by
  rcases ofClass_cases m with ⟨-, hparts⟩ | ⟨p, rest, hm, -, hparts⟩
  · left
    rw [hparts]
    rfl
  · rw [hparts, hm]
    by_cases hp : p = ""
    · right
      simp [joined, hp]
    · left
      simp [joined, hp]

/-- A name that is joined from its parts has the same parts. -/
theorem ofClass_joined (m : String) : ofClass (ofClass m).joined = ofClass m := by
  rcases ofClass_cases m with ⟨hdot, hparts⟩ | ⟨p, rest, -, hdot, hparts⟩
  · rw [hparts]
    exact ofClass_of_not_mem hdot
  · rw [hparts]
    by_cases hp : p = ""
    · simp [joined, hp, ofClass_of_not_mem hdot]
    · simp [joined, hp, ofClass_append hdot]

end QualifiedName

namespace PatternForm

/-- The form in which a pattern is written. -/
def written : PatternForm → PatternForm
  | starting h => starting (QualifiedName.ofClass h).joined
  | form => form

theorem pattern_written (form : PatternForm) : form.written.pattern = form.pattern := by
  cases form with
  | starting h => simp [written, pattern, QualifiedName.ofClass_joined]
  | _ => rfl

theorem written_starting (h : IsStem s) (hdot : ¬hasEnd s ".") :
    IsStem (QualifiedName.ofClass s).joined ∧ ¬hasEnd (QualifiedName.ofClass s).joined "." := by
  rcases QualifiedName.joined_ofClass s with hsame | hsame
  · rw [hsame]
    exact ⟨h, hdot⟩
  · -- with a dot in front, what is left of the name is still a stem
    generalize (QualifiedName.ofClass s).joined = n at hsame
    subst hsame
    refine ⟨⟨?_, ?_⟩, ?_⟩
    · rintro rfl
      exact hdot (by decide)
    · intro hstar
      apply h.no_star
      simp [hstar]
    · intro hend
      obtain ⟨rest, rfl⟩ := hasEnd_iff_append.1 hend
      exact hdot (hasEnd_iff_append.2 ⟨"." ++ rest, by rw [String.append_assoc]⟩)

/-- The text of a pattern is written in its form. -/
theorem writes_text (h : form.Writes t) : form.written.Writes form.pattern.text := by
  cases form with
  | everything => exact .inr rfl
  | below p => exact ⟨h.1, rfl⟩
  | within p => exact ⟨h.1, rfl⟩
  | starting head =>
    obtain ⟨hstem, hdot⟩ := written_starting h.1 h.2.1
    exact ⟨hstem, hdot, rfl⟩
  | exact n => exact ⟨h.1, rfl⟩

/-- The text of a pattern has no other characters than the text it was read from. -/
theorem mem_of_mem_text (h : form.Writes t) {c : Char} (hc : c ∈ form.pattern.text.toList) :
    c ∈ t.toList := by
  cases form with
  | everything =>
    have hstar : c = '*' := by simpa [pattern, Pattern.text] using hc
    rcases h with rfl | rfl <;> simp [hstar]
  | below p => rwa [h.2]
  | within p => rwa [h.2]
  | starting head =>
    rw [h.2.2]
    rcases QualifiedName.joined_ofClass head with hsame | hsame
    · rwa [← hsame]
    · rw [hsame, String.append_assoc, String.toList_append]
      exact List.mem_append_right _ hc
  | exact n => rwa [h.2]

theorem Writes.ne_empty (h : form.Writes t) : t ≠ "" := by
  cases form with
  | everything => rcases h with rfl | rfl <;> simp
  | below p => simp [h.2]
  | within p => simp [h.2]
  | starting head => simp [h.2.2]
  | exact n => rw [h.2]; exact h.1.ne_empty

/-- So nothing has to be trimmed off it, and it has no slashes. -/
theorem Spells.text (h : form.Spells s) : form.written.Spells form.pattern.text := by
  have hwrites := writes_text h.writes
  have hchars (c : Char) (hc : c ∈ form.pattern.text.toList) :
      c ∈ QualifiedName.dotted (Text.trim s.toList) := by
    simpa using mem_of_mem_text h.writes hc
  have hblank (c : Char) (hc : c ∈ form.pattern.text.toList) : Text.isBlank c = false := by
    obtain ⟨d, hd, rfl⟩ := List.mem_map.1 (hchars c hc)
    have hd' := h.no_blank d hd
    by_cases hslash : d = '/'
    · rw [if_pos hslash]
      rfl
    · rw [if_neg hslash]
      simpa using hd'
  have hslash : '/' ∉ form.pattern.text.toList := fun hc =>
    QualifiedName.not_slash_mem_dotted _ (hchars _ hc)
  have htrim : Text.trim form.pattern.text.toList = form.pattern.text.toList :=
    Text.trim_eq_self (fun c hc => hblank c (List.mem_of_mem_head? hc))
      fun c hc => hblank c (List.mem_of_mem_getLast? hc)
  refine ⟨?_, ?_, ?_⟩
  · rw [htrim]
    simpa using hwrites.ne_empty
  · rw [htrim]
    intro c hc
    simp [hblank c hc]
  · rw [htrim, QualifiedName.dotted_eq_self hslash, String.ofList_toList]
    exact hwrites

end PatternForm

namespace Pattern

theorem rereads_of_parse (h : parse s = .ok pattern) :
    parse pattern.text = .ok pattern ∧
      (∀ other, parse pattern.text = .ok other → other.text = pattern.text) ∧
      ∀ t other, parse t = .ok other → other.text = pattern.text → other = pattern := by
  have hreads {s : String} {pattern : Pattern} (h : parse s = .ok pattern) :
      parse pattern.text = .ok pattern := by
    obtain ⟨form, hspells, rfl⟩ := parse_eq_ok_iff.1 h
    exact parse_eq_ok_iff.2 ⟨form.written, hspells.text, form.pattern_written⟩
  have hunique {other : Pattern} (hother : parse pattern.text = .ok other) : other = pattern := by
    cases (hreads h).symm.trans hother
    rfl
  refine ⟨hreads h, fun other hother => ?_, fun t other hother htext => ?_⟩
  · rw [hunique hother]
  · apply hunique
    rw [← htext]
    exact hreads hother

/-- A slash and a dot before the name do not come back. -/
theorem rereads_of_parse_leading :
    parse " /Bä* " = .ok (starting "" "Bä") ∧ (starting "" "Bä").text = "Bä*" ∧
      parse (starting "" "Bä").text = .ok (starting "" "Bä") := by
  have hparse : parse " /Bä* " = .ok (starting "" "Bä") := by
    decide +kernel
  exact ⟨hparse, rfl, (rereads_of_parse hparse).1⟩

end Pattern

end ModuleGraph
