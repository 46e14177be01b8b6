/-!
# Splitting a sequence

* `splitWhen p` cuts a list at every element that satisfies `p` and drops those elements.
* `cutLast a` cuts a list at the last occurrence of `a`.

**Statements.** `splitWhen` always returns at least one piece, none of its pieces holds a
separator (`not_mem_of_mem_splitWhen`), all other elements stand in one (`exists_piece_of_mem`), and
a list is split by splitting what stands before and after a separator (`splitWhen_append_cons`).
`cutLast` loses nothing but the one separator (`eq_append_of_cutLast`), after which the separator
does not occur again, and it cuts wherever that is so (`cutLast_append_cons`).
-/

namespace ModuleGraph.Text

/-- One step of `splitWhen`, read from the right: the piece under way and the finished ones. -/
def splitStep (p : α → Bool) (a : α) (state : List α × List (List α)) :
    List α × List (List α) :=
  if p a then ([], state.1 :: state.2) else (a :: state.1, state.2)

/-- The pieces between the elements that satisfy `p`; a list without any is one piece. -/
def splitWhen (p : α → Bool) (as : List α) : List (List α) :=
  let state := as.foldr (splitStep p) ([], [])
  state.1 :: state.2

@[simp]
theorem splitWhen_nil (p : α → Bool) : splitWhen p [] = [[]] := rfl

theorem splitWhen_cons_pos {p : α → Bool} {a : α} (h : p a = true) (as : List α) :
    splitWhen p (a :: as) = [] :: splitWhen p as := by
  simp [splitWhen, splitStep, h]

theorem splitWhen_cons_neg {p : α → Bool} {a : α} (h : p a = false) (as : List α) :
    ∃ piece rest, splitWhen p as = piece :: rest ∧
      splitWhen p (a :: as) = (a :: piece) :: rest :=
  ⟨_, _, rfl, by simp [splitWhen, splitStep, h]⟩

/-- No piece holds a separator. -/
theorem not_mem_of_mem_splitWhen {p : α → Bool} {as piece : List α}
    (h : piece ∈ splitWhen p as) {a : α} (ha : a ∈ piece) : p a = false := by
  induction as generalizing piece with
  | nil => simp_all
  | cons b bs ih =>
    cases hb : p b with
    | true =>
      rw [splitWhen_cons_pos hb] at h
      rcases List.mem_cons.1 h with rfl | h
      · cases ha
      · exact ih h ha
    | false =>
      obtain ⟨first, rest, hs, hc⟩ := splitWhen_cons_neg hb bs
      rw [hc] at h
      rcases List.mem_cons.1 h with rfl | h
      · rcases List.mem_cons.1 ha with rfl | ha
        · exact hb
        · exact ih (by simp [hs]) ha
      · exact ih (by simp [hs, h]) ha

/-- Every element but the separators stands in a piece. -/
theorem exists_piece_of_mem {p : α → Bool} {as : List α} {a : α} (ha : a ∈ as)
    (hp : p a = false) : ∃ piece ∈ splitWhen p as, a ∈ piece := by
  induction as with
  | nil => cases ha
  | cons b bs ih =>
    cases hb : p b with
    | true =>
      rw [splitWhen_cons_pos hb]
      rcases List.mem_cons.1 ha with rfl | ha
      · rw [hp] at hb
        cases hb
      · obtain ⟨piece, hpiece, hmem⟩ := ih ha
        exact ⟨piece, List.mem_cons_of_mem _ hpiece, hmem⟩
    | false =>
      obtain ⟨first, rest, hs, hc⟩ := splitWhen_cons_neg hb bs
      rw [hc]
      rcases List.mem_cons.1 ha with rfl | ha
      · exact ⟨_, List.mem_cons_self, List.mem_cons_self⟩
      · obtain ⟨piece, hpiece, hmem⟩ := ih ha
        rw [hs] at hpiece
        rcases List.mem_cons.1 hpiece with rfl | hrest
        · exact ⟨_, List.mem_cons_self, List.mem_cons_of_mem _ hmem⟩
        · exact ⟨piece, List.mem_cons_of_mem _ hrest, hmem⟩

/-- A list without separators is one piece. -/
theorem splitWhen_of_forall {p : α → Bool} {as : List α} (h : ∀ a ∈ as, p a = false) :
    splitWhen p as = [as] := by
  induction as with
  | nil => rfl
  | cons a as ih =>
    obtain ⟨piece, rest, hs, hc⟩ := splitWhen_cons_neg (h a List.mem_cons_self) as
    rw [ih fun b hb => h b (List.mem_cons_of_mem _ hb)] at hs
    cases hs
    exact hc

/-- A separator parts the pieces before it from those after it. -/
theorem splitWhen_append_cons {p : α → Bool} {b : α} (hb : p b = true) (as bs : List α) :
    splitWhen p (as ++ b :: bs) = splitWhen p as ++ splitWhen p bs := by
  induction as with
  | nil => exact splitWhen_cons_pos hb bs
  | cons a as ih =>
    cases ha : p a with
    | true => rw [List.cons_append, splitWhen_cons_pos ha, splitWhen_cons_pos ha, ih]; rfl
    | false =>
      obtain ⟨piece, rest, hs, hc⟩ := splitWhen_cons_neg ha (as ++ b :: bs)
      obtain ⟨piece', rest', hs', hc'⟩ := splitWhen_cons_neg ha as
      rw [ih, hs'] at hs
      cases hs
      rw [List.cons_append, hc, hc']
      rfl

/-- What stands before and after the last occurrence of `sep`, if there is one. -/
def cutLast [DecidableEq α] (sep : α) : List α → Option (List α × List α)
  | [] => none
  | a :: as =>
    match cutLast sep as with
    | some (before, after) => some (a :: before, after)
    | none => if a = sep then some ([], as) else none

theorem cutLast_eq_none_iff [DecidableEq α] {sep : α} {as : List α} :
    cutLast sep as = none ↔ sep ∉ as := by
  induction as with
  | nil => simp [cutLast]
  | cons a as ih =>
    simp only [cutLast, List.mem_cons, not_or]
    cases h : cutLast sep as with
    | some parts =>
      have : ¬ (sep ∉ as) := fun hn => by simp [ih.2 hn] at h
      simp [this]
    | none =>
      have hn := ih.1 h
      by_cases ha : a = sep
      · simp [ha]
      · simp [ha, hn, Ne.symm ha]

theorem cutLast_append_cons [DecidableEq α] {sep : α} {before after : List α} (h : sep ∉ after) :
    cutLast sep (before ++ sep :: after) = some (before, after) := by
  induction before with
  | nil => simp [cutLast, cutLast_eq_none_iff.2 h]
  | cons a before ih => simp [cutLast, ih]

/-- The parts and the separator make up the list, and the second part is free of separators. -/
theorem eq_append_of_cutLast [DecidableEq α] {sep : α} {as before after : List α}
    (h : cutLast sep as = some (before, after)) :
    as = before ++ sep :: after ∧ sep ∉ after := by
  induction as generalizing before after with
  | nil => simp [cutLast] at h
  | cons a as ih =>
    simp only [cutLast] at h
    cases hc : cutLast sep as with
    | some parts =>
      obtain ⟨b, c⟩ := parts
      rw [hc] at h
      simp only [Option.some.injEq, Prod.mk.injEq] at h
      obtain ⟨rfl, rfl⟩ := h
      obtain ⟨he, hn⟩ := ih hc
      exact ⟨by simp [he], hn⟩
    | none =>
      rw [hc] at h
      by_cases ha : a = sep
      · simp only [ha, if_true, Option.some.injEq, Prod.mk.injEq] at h
        obtain ⟨rfl, rfl⟩ := h
        exact ⟨by simp [ha], cutLast_eq_none_iff.1 hc⟩
      · simp [ha] at h

end ModuleGraph.Text
