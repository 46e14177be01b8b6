import Mathlib.Data.List.Basic
import ModuleGraph.Document.Toml.Writing

/-!
# Strings are read as they were written

Whatever its style, the written form of a string is read as that string, and the reader stops right
behind it (`string_stringChars`). After three closing quotes the reader looks for more of them, so
what follows must not begin with a quote or an apostrophe (`Unquoted`).

Between quotes every character is escaped on its own (`basicString_escape`,
`multilineBasic_escape`). Over several lines up to two quotes in a row stand for themselves: the
reader takes them one by one unless the closing quotes follow at once (`multilineBasic_escapeAll`).
-/

namespace ModuleGraph.Document.Toml

variable {acc cs rest : List Char} {c q : Char}

/-- What follows begins neither with a quote nor with an apostrophe. -/
structure Unquoted (rest : List Char) : Prop where
  quote : rest.head? ≠ some '"'
  apostrophe : rest.head? ≠ some '\''

/-! ## Single characters -/

/-- The code of a control character denotes that character. -/
theorem scalar?_code (h : c.toNat < 0x20 ∨ c.toNat = 0x7F) :
    scalar? ['0', '0', upperHexDigit (c.toNat / 16), upperHexDigit (c.toNat % 16)] = some c := by
  have hall : ∀ n < 128, scalar? ['0', '0', upperHexDigit (n / 16), upperHexDigit (n % 16)] =
      some (Char.ofNat n) := by
    decide +kernel
  have hlt : c.toNat < 128 := by omega
  rw [hall c.toNat hlt, Char.ofNat_toNat]

/-- A character that needs no escape stands for itself. -/
theorem isBasicChar_of_not_coded (hquote : c ≠ '"') (hslash : c ≠ '\\')
    (hcode : ¬(c.toNat < 0x20 || c.toNat == 0x7F) = true) : isBasicChar c = true := by
  simp only [Bool.or_eq_true, decide_eq_true_eq, beq_iff_eq, not_or] at hcode
  simp [isBasicChar, isCommentChar, hquote, hslash, hcode.2, Nat.le_of_not_lt hcode.1]

theorem basicString_plain (hquote : c ≠ '"') (hslash : c ≠ '\\') (hc : isBasicChar c = true) :
    basicString acc (c :: rest) = basicString (c :: acc) rest := by
  rw [basicString, if_pos hc] <;> simp [hquote, hslash]

theorem multilineBasic_plain (hquote : c ≠ '"') (hslash : c ≠ '\\') (hbreak : c ≠ '\n')
    (hreturn : c ≠ '\r') (hc : isBasicChar c = true) :
    multilineBasic false acc (c :: rest) = multilineBasic false (c :: acc) rest := by
  rw [multilineBasic, Bool.false_and, if_neg Bool.false_ne_true, if_pos hc] <;>
    simp [hquote, hslash, hbreak, hreturn]

theorem basicString_escape (hc : c ≠ '"') :
    basicString acc (escape false c ++ rest) = basicString (c :: acc) rest := by
  unfold escape
  split
  · simp [basicString, escaped?]
  · simp [basicString, escaped?]
  · simp [basicString, escaped?]
  · simp [basicString, escaped?]
  · simp [basicString, escaped?]
  · simp [basicString, escaped?]
  · rename_i hslash
    split_ifs with hcode
    · have hcode' : c.toNat < 0x20 ∨ c.toNat = 0x7F := by simpa using hcode
      simp [basicString, scalar?_code hcode']
    · exact basicString_plain hc hslash (isBasicChar_of_not_coded hc hslash hcode)

theorem multilineBasic_escape (hc : c ≠ '"') :
    multilineBasic false acc (escape true c ++ rest) = multilineBasic false (c :: acc) rest := by
  unfold escape
  split
  · simp [multilineBasic, escaped?]
  · simp [multilineBasic, escaped?]
  · simp [multilineBasic]
  · simp [multilineBasic, escaped?]
  · simp [multilineBasic, escaped?]
  · simp [multilineBasic, escaped?]
  · rename_i hbreak _ hreturn hslash
    split_ifs with hcode
    · have hcode' : c.toNat < 0x20 ∨ c.toNat = 0x7F := by simpa using hcode
      simp [multilineBasic, scalar?_code hcode']
    · exact multilineBasic_plain hc hslash hbreak hreturn
        (isBasicChar_of_not_coded hc hslash hcode)

/-- The written form of a character begins with a quote or a carriage return for none but the quote,
and with a line feed for none but the line feed. -/
theorem head?_escape (multiline : Bool) (hquote : c ≠ '"') (rest : List Char) :
    (escape multiline c ++ rest).head? ≠ some '"' ∧
      (escape multiline c ++ rest).head? ≠ some '\r' ∧
      (c ≠ '\n' → (escape multiline c ++ rest).head? ≠ some '\n') := by
  unfold escape
  split
  · simp
  · simp
  · cases multiline <;> simp
  · simp
  · simp
  · simp
  · rename_i hreturn _
    split_ifs
    · simp
    · simpa using ⟨hquote, hreturn⟩

/-! ## Strings on one line -/

theorem head?_escapeAll {multiline : Bool} {allowed run : Nat} (hcs : cs ≠ [])
    (hquote : allowed ≤ run ∨ cs.head? ≠ some '"') (rest : List Char) :
    (escapeAll multiline allowed run cs ++ rest).head? ≠ some '"' := by
  cases cs with
  | nil => exact absurd rfl hcs
  | cons c cs =>
    rw [escapeAll]
    by_cases hc : c = '"'
    · have hrun : ¬run < allowed := by
        rcases hquote with hle | hne
        · exact Nat.not_lt_of_le hle
        · exact absurd (by rw [hc]; rfl) hne
      simp [hc, hrun]
    · rw [if_neg hc, List.append_assoc]
      exact (head?_escape multiline hc _).1

/-- Between quotes, all quotes are escaped. -/
theorem basicString_escapeAll (cs acc rest : List Char) :
    basicString acc (escapeAll false 0 0 cs ++ '"' :: rest) =
      .ok (collected (cs.reverse ++ acc), rest) := by
  induction cs generalizing acc with
  | nil => simp [escapeAll, basicString]
  | cons c cs ih =>
    rw [escapeAll]
    by_cases hc : c = '"'
    · simp [hc, basicString, escaped?, ih]
    · rw [if_neg hc, List.append_assoc, basicString_escape hc, ih]
      simp

theorem literalString_append (hcs : ∀ c ∈ cs, isLiteralChar c = true) :
    literalString acc (cs ++ '\'' :: rest) = .ok (collected (cs.reverse ++ acc), rest) := by
  induction cs generalizing acc with
  | nil => simp [literalString]
  | cons c cs ih =>
    have hc := hcs c List.mem_cons_self
    have hne : c ≠ '\'' := by
      rintro rfl
      exact absurd hc (by decide)
    rw [List.cons_append, literalString, if_pos hc,
      ih fun d hd => hcs d (List.mem_cons_of_mem _ hd)]
    · simp
    · exact hne

/-! ## Strings on several lines -/

/-- Nothing but the closing quotes is taken. -/
theorem closeWith_of_head (h : rest.head? ≠ some q) :
    closeWith q acc rest = .ok (collected acc, rest) := by
  match rest with
  | [] => rfl
  | [c] => simp_all [closeWith]
  | c :: d :: rest => simp_all [closeWith]

theorem closeWith_one (h : rest.head? ≠ some q) :
    closeWith q acc (q :: rest) = .ok (collected (q :: acc), rest) := by
  cases rest with
  | nil => simp [closeWith]
  | cons c rest =>
    have hne : c ≠ q := by simpa using h
    simp [closeWith, hne]

theorem closeWith_two (q : Char) (acc rest : List Char) :
    closeWith q acc (q :: q :: rest) = .ok (collected (q :: q :: acc), rest) := by
  simp [closeWith]

/-- A quote stands for itself unless two more follow. -/
theorem multilineBasic_quote (h : ∀ t, rest ≠ '"' :: '"' :: t) :
    multilineBasic false acc ('"' :: rest) = multilineBasic false ('"' :: acc) rest := by
  rw [multilineBasic]
  exact fun t ht => h t ht

theorem multilineLiteral_quote (h : ∀ t, rest ≠ '\'' :: '\'' :: t) :
    multilineLiteral acc ('\'' :: rest) = multilineLiteral ('\'' :: acc) rest := by
  rw [multilineLiteral]
  exact fun t ht => h t ht

/-- After a quote that stands for itself, two more follow only if the string ends. -/
theorem not_twoQuotes_escapeAll {run : Nat} (hcs : cs ≠ []) (hlast : run = 0 → cs ≠ ['"'])
    (rest t : List Char) : escapeAll true 2 (run + 1) cs ++ rest ≠ '"' :: '"' :: t := by
  intro heq
  by_cases hquote : 2 ≤ run + 1 ∨ cs.head? ≠ some '"'
  · exact head?_escapeAll hcs hquote rest (by rw [heq]; rfl)
  · obtain ⟨hrun, hhead⟩ := not_or.1 hquote
    have hzero : run = 0 := by omega
    subst hzero
    cases cs with
    | nil => exact hcs rfl
    | cons c cs =>
      have hc : c = '"' := by simpa using hhead
      subst hc
      have hne : cs ≠ [] := fun hnil => hlast rfl (by rw [hnil])
      rw [escapeAll, if_pos rfl, if_pos (by decide), List.cons_append, List.cons.injEq] at heq
      exact head?_escapeAll hne (.inl (Nat.le_refl 2)) rest (by rw [heq.2]; rfl)

/-- Up to two quotes in a row are read one by one, unless the closing quotes follow: then all of
them are read at once. -/
theorem multilineBasic_escapeAll (hrest : rest.head? ≠ some '"') (run : Nat) (cs acc : List Char) :
    multilineBasic false acc (escapeAll true 2 run cs ++ '"' :: '"' :: '"' :: rest) =
      .ok (collected (cs.reverse ++ acc), rest) := by
  induction cs generalizing run acc with
  | nil => simp [escapeAll, multilineBasic, closeWith_of_head hrest]
  | cons c cs ih =>
    rw [escapeAll]
    by_cases hc : c = '"'
    · subst hc
      by_cases hrun : run < 2
      · rw [if_pos rfl, if_pos hrun, List.cons_append]
        by_cases hcs : cs = []
        · simp [hcs, escapeAll, multilineBasic, closeWith_one hrest]
        · by_cases hlast : run = 0 ∧ cs = ['"']
          · simp [hlast.1, hlast.2, escapeAll, multilineBasic, closeWith_two]
          · have hnext := not_twoQuotes_escapeAll hcs (fun h h' => hlast ⟨h, h'⟩)
            rw [multilineBasic_quote (hnext _), ih]
            simp
      · simp [hrun, multilineBasic, escaped?, ih]
    · rw [if_neg hc, List.append_assoc, multilineBasic_escape hc, ih]
      simp

theorem le_longestRun (c : Char) (cs : List Char) (current : Nat) :
    current ≤ longestRun c current cs := by
  induction cs generalizing current with
  | nil => exact Nat.le_refl _
  | cons d cs ih =>
    rw [longestRun]
    split_ifs
    · exact Nat.le_of_succ_le (ih (current + 1))
    · exact Nat.le_max_left ..

theorem longestRun_mono (c : Char) (cs : List Char) {m n : Nat} (h : m ≤ n) :
    longestRun c m cs ≤ longestRun c n cs := by
  induction cs generalizing m n with
  | nil => exact h
  | cons d cs ih =>
    rw [longestRun, longestRun]
    split_ifs
    · exact ih (Nat.succ_le_succ h)
    · omega

theorem longestRun_tail_le (c d : Char) (cs : List Char) :
    longestRun c 0 cs ≤ longestRun c 0 (d :: cs) := by
  rw [longestRun]
  split_ifs
  · exact longestRun_mono c cs (Nat.zero_le 1)
  · exact Nat.le_max_right ..

/-- Where no more than two apostrophes stand in a row, two follow on one only if the string ends. -/
theorem not_twoApostrophes_append (hrun : longestRun '\'' 0 ('\'' :: cs) ≤ 2) (hcs : cs ≠ [])
    (hlast : cs ≠ ['\'']) (rest t : List Char) :
    cs ++ '\'' :: '\'' :: '\'' :: rest ≠ '\'' :: '\'' :: t := by
  match cs with
  | [] => exact absurd rfl hcs
  | [c] =>
    intro heq
    simp only [List.cons_append, List.nil_append, List.cons.injEq] at heq
    exact hlast (by rw [heq.1])
  | c :: d :: cs =>
    intro heq
    simp only [List.cons_append, List.cons.injEq] at heq
    obtain ⟨rfl, rfl, -⟩ := heq
    have hle := le_longestRun '\'' cs 3
    simp only [longestRun, if_pos, Nat.zero_add, Nat.reduceAdd] at hrun
    omega

theorem multilineLiteral_append (hrest : rest.head? ≠ some '\'') (cs acc : List Char)
    (hcs : ∀ c ∈ cs, c = '\n' ∨ isCommentChar c = true) (hrun : longestRun '\'' 0 cs ≤ 2) :
    multilineLiteral acc (cs ++ '\'' :: '\'' :: '\'' :: rest) =
      .ok (collected (cs.reverse ++ acc), rest) := by
  induction cs generalizing acc with
  | nil => simp [multilineLiteral, closeWith_of_head hrest]
  | cons c cs ih =>
    have ih' (acc : List Char) := ih acc (fun d hd => hcs d (List.mem_cons_of_mem _ hd))
      (Nat.le_trans (longestRun_tail_le '\'' c cs) hrun)
    rw [List.cons_append]
    by_cases hc : c = '\''
    · subst hc
      by_cases hnil : cs = []
      · simp [hnil, multilineLiteral, closeWith_one hrest]
      · by_cases hlast : cs = ['\'']
        · simp [hlast, multilineLiteral, closeWith_two]
        · rw [multilineLiteral_quote (not_twoApostrophes_append hrun hnil hlast rest), ih']
          simp
    · rcases hcs c List.mem_cons_self with rfl | hcomment
      · simp [multilineLiteral, ih']
      · have hliteral : isLiteralChar c = true := by simp [isLiteralChar, hcomment, hc]
        have hreturn : c ≠ '\r' := by
          rintro rfl
          exact absurd hcomment (by decide)
        have hbreak : c ≠ '\n' := by
          rintro rfl
          exact absurd hcomment (by decide)
        rw [multilineLiteral, if_pos hliteral, ih']
        · simp
        · simp [hc]
        · simp [hc]
        · exact hbreak
        · simp [hreturn]

/-! ## All styles -/

theorem skipLineBreak_of_head (hbreak : cs.head? ≠ some '\n') (hreturn : cs.head? ≠ some '\r') :
    skipLineBreak cs = cs := by
  cases cs with
  | nil => rfl
  | cons c cs =>
    unfold skipLineBreak
    split
    · simp_all
    · simp_all
    · rfl

/-- The line break that is written first is dropped again, and nothing else is. -/
theorem skipLineBreak_leadingBreak (hreturn : rest.head? ≠ some '\r')
    (hbreak : '\n' ∉ cs → rest.head? ≠ some '\n') :
    skipLineBreak (leadingBreak cs ++ rest) = rest := by
  unfold leadingBreak
  split_ifs with hcs
  · rfl
  · exact skipLineBreak_of_head (hbreak (by simpa using hcs)) hreturn

/-- Between three quotes, a text begins with a line feed only if the string has one. -/
theorem head?_writtenBasic (cs rest : List Char) :
    (escapeAll true 2 0 cs ++ '"' :: rest).head? ≠ some '\r' ∧
      ('\n' ∉ cs → (escapeAll true 2 0 cs ++ '"' :: rest).head? ≠ some '\n') := by
  cases cs with
  | nil => simp [escapeAll]
  | cons c cs =>
    rw [escapeAll]
    by_cases hc : c = '"'
    · simp [hc]
    · rw [if_neg hc, List.append_assoc]
      obtain ⟨-, hreturn, hbreak⟩ := head?_escape true hc (escapeAll true 2 0 cs ++ '"' :: rest)
      exact ⟨hreturn, fun hmem => hbreak (by rintro rfl; simp at hmem)⟩

/-- What the writer takes for a plain character may stand in a comment or is a line feed. -/
theorem isCommentChar_of_not_needsCode (hc : needsCode c = false) :
    c = '\n' ∨ isCommentChar c = true := by
  by_cases hbreak : c = '\n'
  · exact .inl hbreak
  · right
    by_cases htab : c = '\t'
    · simp [isCommentChar, htab]
    · simp only [needsCode, hbreak, htab, ne_eq, Bool.or_eq_false_iff, Bool.and_eq_false_iff,
        decide_eq_false_iff_not, Nat.not_lt, bne_eq_false_iff_eq, or_false,
        beq_eq_false_iff_ne] at hc
      simp [isCommentChar, hc]

theorem longestRun_eq_zero (h : longestRun c 0 cs = 0) : c ∉ cs := by
  induction cs with
  | nil => simp
  | cons d cs ih =>
    have hle := longestRun_tail_le c d cs
    have htail : longestRun c 0 cs = 0 := by omega
    have hne : d ≠ c := by
      rintro rfl
      have hle := le_longestRun d cs 1
      simp only [longestRun, if_pos, Nat.zero_add] at h
      omega
    simpa [Ne.symm hne] using ih htail

/-- The reader takes the style from the first characters. -/
theorem string_quote (h : ∀ t, rest ≠ '"' :: '"' :: t) :
    string ('"' :: rest) = basicString [] rest := by
  rw [string]
  exact fun t ht => h t ht

theorem string_apostrophe (h : ∀ t, rest ≠ '\'' :: '\'' :: t) :
    string ('\'' :: rest) = literalString [] rest := by
  rw [string]
  exact fun t ht => h t ht

/-- What a style asks of a string that it does not escape. -/
structure Suits (style : StringStyle) (cs : List Char) : Prop where
  literal : style = .literal →
    (∀ c ∈ cs, needsCode c = false) ∧ '\'' ∉ cs ∧ '\n' ∉ cs ∧ cs ≠ []
  multilineLiteral : style = .multilineLiteral →
    (∀ c ∈ cs, needsCode c = false) ∧ longestRun '\'' 0 cs ≤ 2

theorem suits_stringStyle (cs : List Char) : Suits (stringStyle cs) cs := by
  unfold stringStyle
  dsimp only
  split_ifs with hbasic hliteral _ hmultiline
  · exact ⟨by simp, by simp⟩
  · simp only [Bool.and_eq_true, Bool.not_eq_true', beq_iff_eq] at hliteral
    obtain ⟨⟨hplain, hrun⟩, hbreak⟩ := hliteral
    refine ⟨fun _ => ⟨by simpa using hplain, longestRun_eq_zero hrun, by simpa using hbreak, ?_⟩,
      by simp⟩
    rintro rfl
    simp [longestRun] at hbasic
  · exact ⟨by simp, by simp⟩
  · simp only [Bool.and_eq_true, Bool.not_eq_true', decide_eq_true_eq] at hmultiline
    exact ⟨by simp, fun _ => ⟨by simpa using hmultiline.1, hmultiline.2⟩⟩
  · exact ⟨by simp, by simp⟩
  · exact ⟨by simp, by simp⟩

/-- A string is read back from its written form. -/
theorem string_stringChars (cs : List Char) (hrest : Unquoted rest) :
    string (stringChars cs ++ rest) = .ok (.ofList cs, rest) := by
  have hsuits := suits_stringStyle cs
  have hcollected : collected (cs.reverse ++ []) = .ofList cs := by
    rw [List.append_nil, collected, List.reverse_reverse]
  unfold stringChars
  cases hstyle : stringStyle cs with
  | basic =>
    simp only [List.cons_append, List.append_assoc, List.nil_append]
    rw [string_quote, basicString_escapeAll, hcollected]
    intro t heq
    by_cases hcs : cs = []
    · rw [hcs] at heq
      exact hrest.quote (by rw [List.cons.inj heq |>.2]; rfl)
    · exact head?_escapeAll hcs (.inl (Nat.le_refl 0)) ('"' :: rest) (by rw [heq]; rfl)
  | literal =>
    obtain ⟨hplain, happ, hbreak, hcs⟩ := hsuits.literal hstyle
    simp only [List.cons_append, List.append_assoc, List.nil_append]
    rw [string_apostrophe, literalString_append, hcollected]
    · intro c hc
      have hcomment := (isCommentChar_of_not_needsCode (hplain c hc)).resolve_left
        fun heq => hbreak (heq ▸ hc)
      have hne : c ≠ '\'' := fun heq => happ (heq ▸ hc)
      simp [isLiteralChar, hcomment, hne]
    · cases cs with
      | nil => exact absurd rfl hcs
      | cons c cs =>
        intro t heq
        exact happ (by rw [(List.cons.inj heq).1]; exact List.mem_cons_self)
  | multilineBasic =>
    simp only [List.cons_append, List.append_assoc, List.nil_append]
    rw [string, skipLineBreak_leadingBreak, multilineBasic_escapeAll hrest.quote, hcollected]
    · exact (head?_writtenBasic cs _).1
    · exact (head?_writtenBasic cs _).2
  | multilineLiteral =>
    obtain ⟨hplain, hrun⟩ := hsuits.multilineLiteral hstyle
    have hcs : ∀ c ∈ cs, c = '\n' ∨ isCommentChar c = true :=
      fun c hc => isCommentChar_of_not_needsCode (hplain c hc)
    simp only [List.cons_append, List.append_assoc, List.nil_append]
    rw [string, skipLineBreak_leadingBreak, multilineLiteral_append hrest.apostrophe cs [] hcs hrun,
      hcollected]
    · cases cs with
      | nil => simp
      | cons c cs =>
        have hne : c ≠ '\r' := by
          rintro rfl
          exact absurd (hcs _ List.mem_cons_self) (by decide)
        simpa using hne
    · cases cs with
      | nil => simp
      | cons c cs =>
        intro hmem hhead
        have hc : c = '\n' := by simpa using hhead
        exact hmem (by simp [hc])

end ModuleGraph.Document.Toml
