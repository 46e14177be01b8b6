import ModuleGraph.Text.Split

/-!
# Blank characters

`isBlank` is the White_Space property of Unicode. `trim` drops blanks at both ends of a text,
`words` cuts a text at its runs of blanks, and `lines` cuts it at its line feeds.

**Statements.** A word is not empty and holds no blank (`ne_nil_of_mem_words`,
`not_isBlank_of_mem_words`), and a trimmed text neither starts nor ends with one. A text without
blanks is one word (`words_of_forall`), and one that neither starts nor ends with a blank is trimmed
already (`trim_eq_self`).
-/

namespace ModuleGraph.Text

/-- The characters with the White_Space property. -/
def isBlank (c : Char) : Bool :=
  let n := c.toNat
  (0x9 ≤ n && n ≤ 0xD) || n == 0x20 || n == 0x85 || n == 0xA0 || n == 0x1680 ||
    (0x2000 ≤ n && n ≤ 0x200A) || n == 0x2028 || n == 0x2029 || n == 0x202F || n == 0x205F ||
    n == 0x3000

/-- Without the blanks at both ends. -/
def trim (cs : List Char) : List Char :=
  ((cs.dropWhile isBlank).reverse.dropWhile isBlank).reverse

/-- The maximal runs of characters that are not blank. -/
def words (cs : List Char) : List (List Char) :=
  (splitWhen isBlank cs).filter (!·.isEmpty)

/-- The pieces between line feeds. A text that ends with a line feed has an empty last piece. -/
def lines (cs : List Char) : List (List Char) :=
  splitWhen (· == '\n') cs

theorem ne_nil_of_mem_words {cs w : List Char} (h : w ∈ words cs) : w ≠ [] := by
  have := (List.mem_filter.1 h).2
  rintro rfl
  simp at this

theorem not_isBlank_of_mem_words {cs w : List Char} (h : w ∈ words cs) {c : Char}
    (hc : c ∈ w) : isBlank c = false :=
  not_mem_of_mem_splitWhen (List.mem_filter.1 h).1 hc

theorem words_append_cons {b : Char} (hb : isBlank b) (as bs : List Char) :
    words (as ++ b :: bs) = words as ++ words bs := by
  rw [words, splitWhen_append_cons hb, List.filter_append]
  rfl

theorem words_of_forall {cs : List Char} (hne : cs ≠ []) (h : ∀ c ∈ cs, isBlank c = false) :
    words cs = [cs] := by
  simp [words, splitWhen_of_forall h, hne]

/-- The first character of a trimmed text is not blank. -/
theorem isBlank_head?_trim {cs : List Char} {c : Char} (h : (trim cs).head? = some c) :
    isBlank c = false := by
  unfold trim at h
  rw [List.head?_reverse] at h
  generalize hd : cs.dropWhile isBlank = ds at h
  have hfirst : ∀ d ∈ ds.head?, isBlank d = false := by
    intro d hdm
    have := List.head?_dropWhile_not isBlank cs
    rw [hd] at this
    cases ds with
    | nil => simp at hdm
    | cons e es =>
      simp only [List.head?_cons, Option.mem_def, Option.some.injEq] at hdm
      subst hdm
      simpa using this
  cases ds with
  | nil => simp at h
  | cons e es =>
    have he := hfirst e (by simp)
    have hlast : ((e :: es).reverse.dropWhile isBlank).getLast? = some e := by
      rw [List.reverse_cons]
      have key : ∀ l : List Char, ((l ++ [e]).dropWhile isBlank).getLast? = some e := by
        intro l
        induction l with
        | nil => simp [he]
        | cons x xs ih =>
          by_cases hx : isBlank x = true
          · simpa [List.dropWhile, hx] using ih
          · rw [List.cons_append, List.dropWhile_cons_of_neg hx, ← List.cons_append,
              List.getLast?_concat]
      exact key _
    rw [hlast] at h
    simpa using (Option.some.inj h) ▸ he

/-- The last character of a trimmed text is not blank. -/
theorem isBlank_getLast?_trim {cs : List Char} {c : Char} (h : (trim cs).getLast? = some c) :
    isBlank c = false := by
  unfold trim at h
  rw [List.getLast?_reverse] at h
  have := List.head?_dropWhile_not isBlank (cs.dropWhile isBlank).reverse
  rw [h] at this
  simpa using this

theorem trim_eq_self {cs : List Char} (hfirst : ∀ c, cs.head? = some c → isBlank c = false)
    (hlast : ∀ c, cs.getLast? = some c → isBlank c = false) : trim cs = cs := by
  have hdrop (l : List Char) (hl : ∀ c, l.head? = some c → isBlank c = false) :
      l.dropWhile isBlank = l := by
    cases l with
    | nil => rfl
    | cons c l => simp [hl c rfl]
  rw [trim, hdrop cs hfirst, hdrop cs.reverse (by simpa using hlast), List.reverse_reverse]

end ModuleGraph.Text
