import ModuleGraph.Document.Toml.Reading
import ModuleGraph.Proofs.Ends
import ModuleGraph.Proofs.Toml.Strings

/-!
# Lines are read as they were written

A document has lines of three kinds: a plain field, the header of a table, and the header of a row
of an array table. `line_fieldText`, `line_tableHeader` and `line_rowHeader` say what the reader
does with the text of each, and `Reads` strings lines together: it does not mention fuel, of which
there is enough as long as there is more than text.

Keys are bare and values are strings, truth values or arrays of strings (`Plain`). What follows a
value on its line begins with no quote, which `string_stringChars` asks for.
-/

namespace ModuleGraph.Document.Toml

variable {cs rest : List Char} {depth fuel : Nat} {acc : List Value} {s : String}

theorem Unquoted.cons {c : Char} (hquote : c ≠ '"') (hapostrophe : c ≠ '\'') (rest : List Char) :
    Unquoted (c :: rest) :=
  ⟨by simpa using hquote, by simpa using hapostrophe⟩

/-! ## Values in place -/

/-- A value that is written in place: a string, a truth value, or an array of strings. -/
inductive Plain : Value → Prop where
  | string (s : String) : Plain (.string s)
  | boolean (b : Bool) : Plain (.boolean b)
  | strings (items : List String) : Plain (.strings items)

theorem exists_cons_stringChars (cs : List Char) :
    ∃ q t, stringChars cs = q :: t ∧ (q = '"' ∨ q = '\'') := by
  unfold stringChars
  split <;> simp

theorem value_stringChars (s : String) (hrest : Unquoted rest) :
    value depth (stringChars s.toList ++ rest) = .ok (.string s, rest) := by
  have hstring := string_stringChars s.toList hrest
  obtain ⟨q, t, hcs, hq⟩ := exists_cons_stringChars s.toList
  rw [hcs, List.cons_append, String.ofList_toList] at hstring
  rw [hcs, List.cons_append]
  unfold value
  dsimp only
  rw [if_pos hq, hstring, ok_bind]
  rfl

theorem skipGap_stringChars (cs rest : List Char) :
    skipGap false (stringChars cs ++ rest) = .ok (stringChars cs ++ rest) := by
  obtain ⟨q, t, hcs, rfl | rfl⟩ := exists_cons_stringChars cs
  · simp [hcs, skipGap, isSpace]
  · simp [hcs, skipGap, isSpace]

/-- An item is followed by a comma and other items, or by the closing bracket. -/
theorem items_stringChars (hgap : skipGap false cs = .ok (stringChars s.toList ++ rest))
    (hrest : Unquoted rest) :
    items (value depth) acc (fuel + 1) cs = skipGap false rest >>= fun rest =>
      match rest with
      | ',' :: rest => items (value depth) (.string s :: acc) fuel rest
      | ']' :: rest => .ok ((.string s :: acc).reverse, rest)
      | _ => .error (.expected "a comma or a closing bracket") := by
  have hvalue : value depth _ = _ := value_stringChars s hrest
  obtain ⟨q, t, hcs, hq⟩ := exists_cons_stringChars s.toList
  rw [hcs, List.cons_append] at hgap hvalue
  rw [items, hgap, ok_bind]
  split
  case h_1 heq =>
    cases heq
    exact absurd hq (by decide)
  case h_2 =>
    rw [hvalue, ok_bind]
    rfl

/-- The text of the items of an array, each of them on a line of its own. -/
def rowsChars (items : List String) : List Char :=
  items.flatMap fun s => '\n' :: ' ' :: ' ' :: ' ' :: ' ' :: (stringChars s.toList ++ [','])

theorem items_rowsChars (items : List String) (acc : List Value) (fuel : Nat)
    (hfuel : items.length < fuel) :
    Toml.items (value depth) acc fuel (rowsChars items ++ '\n' :: ']' :: rest) =
      .ok (acc.reverse ++ items.map .string, rest) := by
  induction items generalizing acc fuel with
  | nil =>
    obtain ⟨fuel, rfl⟩ := Nat.exists_eq_add_one.2 hfuel
    simp [rowsChars, Toml.items, skipGap, isSpace, bind, Except.bind, pure, Except.pure]
  | cons s items ih =>
    obtain ⟨fuel, rfl⟩ := Nat.exists_eq_add_one.2 (Nat.zero_lt_of_lt hfuel)
    have hgap : skipGap false (rowsChars (s :: items) ++ '\n' :: ']' :: rest) =
        .ok (stringChars s.toList ++ ',' :: (rowsChars items ++ '\n' :: ']' :: rest)) := by
      simp [rowsChars, skipGap, isSpace, skipGap_stringChars]
    rw [items_stringChars hgap (.cons (by simp) (by simp) _)]
    simp [skipGap, isSpace, ok_bind, ih _ _ (Nat.lt_of_succ_lt_succ hfuel)]

theorem length_le_rowsChars (items : List String) : items.length ≤ (rowsChars items).length := by
  induction items with
  | nil => exact Nat.le_refl 0
  | cons s items ih =>
    simp only [rowsChars, List.flatMap_cons, List.length_cons, List.length_append] at ih ⊢
    omega

theorem valueTexts_strings (items : List String) :
    valueTexts (items.map .string) = items.map stringText := by
  induction items with
  | nil => rfl
  | cons s items ih => rw [List.map_cons, valueTexts, ih, valueText, List.map_cons]

theorem toList_stringText (s : String) : (stringText s).toList = stringChars s.toList :=
  String.toList_ofList

theorem append_intercalate (before after x : List Char) (xs : List (List Char)) :
    before ++ ((after ++ before).intercalate (x :: xs) ++ after) =
      (x :: xs).flatMap fun x => before ++ (x ++ after) := by
  induction xs generalizing x with
  | nil => simp
  | cons y ys ih => simp [List.intercalate_cons_cons, ih]

theorem toList_arrayText_rows (s t : String) (items : List String) :
    (arrayText ((s :: t :: items).map stringText)).toList =
      '[' :: (rowsChars (s :: t :: items) ++ ['\n', ']']) := by
  let texts := (s :: t :: items).map fun s => stringChars s.toList
  have hrows : rowsChars (s :: t :: items) =
      "\n    ".toList ++ (",\n    ".toList.intercalate texts ++ [',']) := calc
    _ = texts.flatMap fun cs => "\n    ".toList ++ (cs ++ [',']) := by
      rw [List.flatMap_map]
      rfl
    _ = _ := (append_intercalate ..).symm
  rw [hrows]
  simp [texts, arrayText, String.toList_intercalate, toList_stringText, Function.comp_def]

theorem value_bracket (cs : List Char) :
    value (depth + 1) ('[' :: cs) = Toml.items (value depth) [] (cs.length + 1) cs >>=
      fun (elements, rest) => .ok (.array elements, rest) := by
  rw [value.eq_def]
  rfl

/-- A plain value is read back from its text. -/
theorem value_valueText {v : Value} (hv : Plain v) (hrest : Unquoted rest) :
    value (depth + 1) ((valueText v).toList ++ rest) = .ok (v, rest) := by
  cases hv with
  | string s => rw [valueText, toList_stringText, value_stringChars s hrest]
  | boolean b => cases b <;> simp [valueText, value]
  | strings items =>
    rw [Value.strings, valueText, valueTexts_strings]
    match items with
    | [] =>
      simp [arrayText, value_bracket, Toml.items, skipGap, isSpace, ok_bind, pure, Except.pure]
    | [s] =>
      have hitems (fuel : Nat) : Toml.items (value depth) [] (fuel + 1) _ = _ :=
        items_stringChars (skipGap_stringChars s.toList (']' :: rest))
          (.cons (by decide) (by decide) rest)
      simp only [List.map_cons, List.map_nil, arrayText, String.toList_append, List.append_assoc,
        String.reduceToList, List.cons_append, List.nil_append, value_bracket]
      rw [toList_stringText, hitems]
      simp [skipGap, isSpace, ok_bind]
    | s :: t :: items =>
      rw [toList_arrayText_rows, List.cons_append, List.append_assoc, value_bracket,
        List.cons_append, List.cons_append, List.nil_append, items_rowsChars]
      · rfl
      · have hlen := length_le_rowsChars (s :: t :: items)
        simp only [List.length_append]
        omega

/-- The text of a plain value begins with no blank. -/
theorem skipSpaces_valueText {v : Value} (hv : Plain v) (rest : List Char) :
    skipSpaces ((valueText v).toList ++ rest) = (valueText v).toList ++ rest := by
  cases hv with
  | string s =>
    rw [valueText, toList_stringText]
    obtain ⟨q, t, hcs, rfl | rfl⟩ := exists_cons_stringChars s.toList
    · simp [hcs, skipSpaces, isSpace]
    · simp [hcs, skipSpaces, isSpace]
  | boolean b => cases b <;> simp [valueText, skipSpaces, isSpace]
  | strings items =>
    rw [Value.strings, valueText, arrayText.eq_def]
    split <;> simp [skipSpaces, isSpace]

/-! ## Keys -/

/-- A key that is written without quotes. -/
def Bare (key : String) : Prop :=
  key ≠ "" ∧ key.toList.all isBareChar = true

instance (key : String) : Decidable (Bare key) :=
  inferInstanceAs (Decidable (_ ∧ _))

theorem Bare.keyText_eq {key : String} (hkey : Bare key) : keyText key = key :=
  if_pos hkey

theorem Bare.exists_cons {key : String} (hkey : Bare key) :
    ∃ c t, key.toList = c :: t ∧ isBareChar c = true := by
  obtain ⟨hne, hall⟩ := hkey
  obtain ⟨c, t, hcs⟩ := List.exists_cons_of_ne_nil (mt String.toList_eq_nil_iff.1 hne)
  rw [hcs, List.all_cons, Bool.and_eq_true] at hall
  exact ⟨c, t, hcs, hall.1⟩

/-- A bare key does not begin with a character that marks something else. -/
theorem Bare.append_ne {key : String} {c : Char} (hkey : Bare key) (hc : isBareChar c = false)
    (cs rest : List Char) : key.toList ++ cs ≠ c :: rest := by
  obtain ⟨d, t, hcs, hd⟩ := hkey.exists_cons
  intro heq
  rw [hcs, List.cons_append] at heq
  rw [(List.cons.inj heq).1, hc] at hd
  exact Bool.false_ne_true hd

theorem skipSpaces_eq_self (hblank : ∀ t, cs ≠ ' ' :: t) (htab : ∀ t, cs ≠ '\t' :: t) :
    skipSpaces cs = cs := by
  cases cs with
  | nil => rfl
  | cons c cs =>
    have hspace : isSpace c = false := by
      simp only [isSpace, Bool.or_eq_false_iff, beq_eq_false_iff_ne]
      exact ⟨fun h => hblank cs (by rw [h]), fun h => htab cs (by rw [h])⟩
    simp [skipSpaces, hspace]

theorem skipSpaces_bare {key : String} (hkey : Bare key) (rest : List Char) :
    skipSpaces (key.toList ++ rest) = key.toList ++ rest :=
  skipSpaces_eq_self (hkey.append_ne (by decide) rest) (hkey.append_ne (by decide) rest)

theorem keyPart_bare {key : String} {c : Char} (hkey : Bare key) (hc : isBareChar c = false)
    (rest : List Char) : keyPart (key.toList ++ c :: rest) = .ok (key, c :: rest) := by
  have hall : ∀ d ∈ key.toList, isBareChar d = true := by simpa using hkey.2
  rw [keyPart.eq_def]
  split
  case h_1 heq => exact absurd heq (hkey.append_ne (by decide) _ _)
  case h_2 heq => exact absurd heq (hkey.append_ne (by decide) _ _)
  case h_3 =>
    rw [List.takeWhile_append_of_pos hall, List.dropWhile_append_of_pos hall,
      List.takeWhile_cons_of_neg (by simp [hc]), List.dropWhile_cons_of_neg (by simp [hc]),
      List.append_nil]
    split
    case h_1 heq => exact absurd (String.toList_eq_nil_iff.1 heq) hkey.1
    case h_2 => rw [String.ofList_toList]

/-- A path of bare keys is read up to the character behind it. -/
theorem keyParts_pathText {path : List String} {c : Char} (hpath : path ≠ [])
    (hbare : ∀ key ∈ path, Bare key) (hfuel : path.length ≤ fuel) (hc : isBareChar c = false)
    (hdot : (skipSpaces (c :: rest)).head? ≠ some '.') :
    keyParts fuel ((pathText path).toList ++ c :: rest) = .ok (path, skipSpaces (c :: rest)) := by
  induction path generalizing fuel with
  | nil => exact absurd rfl hpath
  | cons key path ih =>
    obtain ⟨fuel, rfl⟩ := Nat.exists_eq_add_one.2 (Nat.lt_of_lt_of_le (Nat.succ_pos _) hfuel)
    have hkey := hbare key List.mem_cons_self
    cases path with
    | nil =>
      have htext : (pathText [key]).toList = key.toList := by
        simp [pathText, hkey.keyText_eq]
      rw [htext, keyParts, skipSpaces_bare hkey, keyPart_bare hkey hc, ok_bind]
      dsimp only
      split
      case h_1 heq => exact absurd (by rw [heq]; rfl) hdot
      case h_2 => rfl
    | cons next path =>
      have htext : (pathText (key :: next :: path)).toList =
          key.toList ++ '.' :: (pathText (next :: path)).toList := by
        simp [pathText, hkey.keyText_eq, String.toList_intercalate]
      have hskip (cs : List Char) : skipSpaces ('.' :: cs) = '.' :: cs :=
        skipSpaces_eq_self (by simp) (by simp)
      have hrest := ih (by simp) (fun k hk => hbare k (List.mem_cons_of_mem _ hk))
        (Nat.le_of_succ_le_succ hfuel)
      rw [htext, List.append_assoc, List.cons_append, keyParts, skipSpaces_bare hkey,
        keyPart_bare hkey (by decide), ok_bind]
      dsimp only
      rw [hskip]
      simp only [hrest, ok_bind]
      rfl

theorem key_pathText {path : List String} {c : Char} (hpath : path ≠ [])
    (hbare : ∀ key ∈ path, Bare key) (hlen : path.length < nestingLimit)
    (hc : isBareChar c = false) (hdot : (skipSpaces (c :: rest)).head? ≠ some '.') :
    key ((pathText path).toList ++ c :: rest) = .ok (path, skipSpaces (c :: rest)) :=
  keyParts_pathText hpath hbare (Nat.le_sub_one_of_lt hlen) hc hdot

/-! ## Lines -/

theorem endLine_break (rest : List Char) : endLine ('\n' :: rest) = .ok rest := by
  simp [endLine, skipSpaces, isSpace]

/-- The text of a plain field. -/
def fieldText (field : String × Value) : String :=
  keyText field.1 ++ " = " ++ valueText field.2

theorem toList_fieldText {field : String × Value} (hkey : Bare field.1) :
    (fieldText field).toList =
      field.1.toList ++ ' ' :: '=' :: ' ' :: (valueText field.2).toList := by
  simp [fieldText, hkey.keyText_eq]

theorem binding_fieldText {field : String × Value} (hkey : Bare field.1) (hv : Plain field.2)
    (hrest : Unquoted rest) :
    binding (value (depth + 1)) ((fieldText field).toList ++ rest) =
      .ok (([field.1], field.2), rest) := by
  have htext : (fieldText field).toList ++ rest =
      (pathText [field.1]).toList ++ ' ' :: '=' :: ' ' :: ((valueText field.2).toList ++ rest) := by
    simp [toList_fieldText hkey, pathText, hkey.keyText_eq]
  have hspaces (cs : List Char) : skipSpaces (' ' :: cs) = skipSpaces cs := by
    simp [skipSpaces, isSpace]
  have hequals (cs : List Char) : skipSpaces ('=' :: cs) = '=' :: cs :=
    skipSpaces_eq_self (by simp) (by simp)
  rw [htext, binding, key_pathText (by simp) (by simpa using hkey) (by simp [nestingLimit])
    (by decide) (by simp [hspaces, hequals]), ok_bind]
  simp only [hspaces, hequals, skipSpaces_valueText hv, value_valueText hv hrest, ok_bind]
  rfl

theorem line_fieldText {field : String × Value} (draft : Draft) (hkey : Bare field.1)
    (hv : Plain field.2) (rest : List Char) :
    line draft ((fieldText field).toList ++ '\n' :: rest) = do
      let root ← draft.root.insertUnder draft.header [] field.1 field.2
      return ({ draft with root }, rest) := by
  have hline : line draft ((fieldText field).toList ++ '\n' :: rest) =
      bindingLine draft ((fieldText field).toList ++ '\n' :: rest) := by
    rw [toList_fieldText hkey, List.append_assoc, line.eq_def]
    split
    case h_6 => rfl
    all_goals
      rename_i heq
      exact absurd heq (hkey.append_ne (by decide) _ _)
  have hbinding : binding (value (nestingLimit - 1)) ((fieldText field).toList ++ '\n' :: rest) =
      .ok (([field.1], field.2), '\n' :: rest) :=
    binding_fieldText hkey hv (.cons (by decide) (by decide) rest)
  rw [hline, bindingLine, hbinding, ok_bind]
  dsimp only
  rw [endLine_break, ok_bind]
  rfl

theorem pathText_ne {path : List String} (hpath : path ≠ []) (hbare : ∀ key ∈ path, Bare key)
    {c : Char} (hc : isBareChar c = false) (cs rest : List Char) :
    (pathText path).toList ++ cs ≠ c :: rest := by
  obtain ⟨key, path, rfl⟩ := List.exists_cons_of_ne_nil hpath
  have hkey := hbare key List.mem_cons_self
  cases path with
  | nil =>
    simpa [pathText, hkey.keyText_eq] using hkey.append_ne hc cs rest
  | cons next path => 
    have h := hkey.append_ne hc (("." ++ pathText (next :: path)).toList ++ cs) rest
    simpa [pathText, hkey.keyText_eq, String.toList_intercalate] using h

variable {path : List String} {key : String}

theorem line_tableHeader (draft : Draft) (hbare : ∀ k ∈ path ++ [key], Bare k)
    (hlen : (path ++ [key]).length < nestingLimit) (rest : List Char) :
    line draft (("[" ++ pathText (path ++ [key]) ++ "]").toList ++ '\n' :: rest) = do
      let root ← draft.root.openTable path key
      return ({ root, header := path ++ [key] }, rest) := by
  have hne : path ++ [key] ≠ [] := by simp
  have htext : ("[" ++ pathText (path ++ [key]) ++ "]").toList ++ '\n' :: rest =
      '[' :: ((pathText (path ++ [key])).toList ++ ']' :: '\n' :: rest) := by
    simp
  have hline : line draft ('[' :: ((pathText (path ++ [key])).toList ++ ']' :: '\n' :: rest)) =
      tableHeader draft ((pathText (path ++ [key])).toList ++ ']' :: '\n' :: rest) := by
    rw [line]
    exact fun t => pathText_ne hne hbare (by decide) _ t
  have hspaces : skipSpaces (']' :: '\n' :: rest) = ']' :: '\n' :: rest :=
    skipSpaces_eq_self (by simp) (by simp)
  rw [htext, hline, tableHeader, key_pathText hne hbare hlen (by decide) (by simp [hspaces]),
    ok_bind, hspaces]
  simp only [endLine_break, ok_bind, List.dropLast_concat, List.getLast?_concat]
  rfl

theorem line_rowHeader (draft : Draft) (hbare : ∀ k ∈ path ++ [key], Bare k)
    (hlen : (path ++ [key]).length < nestingLimit) (rest : List Char) :
    line draft (("[[" ++ pathText (path ++ [key]) ++ "]]").toList ++ '\n' :: rest) = do
      let root ← draft.root.openRow path key
      return ({ root, header := path ++ [key] }, rest) := by
  have htext : ("[[" ++ pathText (path ++ [key]) ++ "]]").toList ++ '\n' :: rest =
      '[' :: '[' :: ((pathText (path ++ [key])).toList ++ ']' :: ']' :: '\n' :: rest) := by
    simp
  have hspaces : skipSpaces (']' :: ']' :: '\n' :: rest) = ']' :: ']' :: '\n' :: rest :=
    skipSpaces_eq_self (by simp) (by simp)
  rw [htext, line, rowHeader, key_pathText (by simp) hbare hlen (by decide) (by simp [hspaces]),
    ok_bind, hspaces]
  simp only [endLine_break, ok_bind, List.dropLast_concat, List.getLast?_concat]
  rfl

/-! ## Texts line by line -/

/-- From a draft on, a text leads to the given table. -/
def Reads (draft : Draft) (cs : List Char) (table : Entries) : Prop :=
  ∀ fuel, cs.length < fuel → (document draft fuel cs).map (·.root) = .ok table

namespace Reads

variable {draft next : Draft} {table : Entries} {field : String × Value}

theorem nil (draft : Draft) : Reads draft [] draft.root := by
  intro fuel hfuel
  obtain ⟨fuel, rfl⟩ := Nat.exists_eq_add_one.2 hfuel
  rfl

/-- One step of the reader goes over one line. -/
theorem document_succ (hcs : skipSpaces (cs ++ '\n' :: rest) = cs ++ '\n' :: rest)
    (hline : line draft (cs ++ '\n' :: rest) = .ok (next, rest)) (fuel : Nat) :
    document draft (fuel + 1) (cs ++ '\n' :: rest) = document next fuel rest := by
  rw [document, hcs]
  split
  case h_1 heq => simp at heq
  case h_2 => rw [hline, ok_bind]

theorem step (hcs : skipSpaces (cs ++ '\n' :: rest) = cs ++ '\n' :: rest)
    (hline : line draft (cs ++ '\n' :: rest) = .ok (next, rest)) (h : Reads next rest table) :
    Reads draft (cs ++ '\n' :: rest) table := by
  intro fuel hfuel
  obtain ⟨fuel, rfl⟩ := Nat.exists_eq_add_one.2 (Nat.zero_lt_of_lt hfuel)
  rw [document_succ hcs hline]
  refine h fuel ?_
  simp only [List.length_append, List.length_cons] at hfuel
  omega

/-- A blank line changes nothing. -/
theorem blank_iff : Reads draft ('\n' :: cs) table ↔ Reads draft cs table := by
  have hcs : skipSpaces ([] ++ '\n' :: cs) = [] ++ '\n' :: cs :=
    skipSpaces_eq_self (by simp) (by simp)
  have hline : line draft ([] ++ '\n' :: cs) = .ok (draft, cs) := by
    rw [List.nil_append, line, endLine_break]
    rfl
  refine ⟨fun h fuel hfuel => ?_, step hcs hline⟩
  rw [← document_succ hcs hline]
  exact h (fuel + 1) (Nat.succ_lt_succ hfuel)

/-- The line of a plain field enters the field under the header. -/
theorem fieldLine {root : Entries} (hkey : Bare field.1) (hv : Plain field.2)
    (hroot : draft.root.insertUnder draft.header [] field.1 field.2 = .ok root)
    (h : Reads { draft with root } rest table) :
    Reads draft ((fieldText field).toList ++ '\n' :: rest) table := by
  refine step ?_ ?_ h
  · rw [toList_fieldText hkey, List.append_assoc]
    exact skipSpaces_bare hkey _
  · rw [line_fieldText draft hkey hv, hroot]
    rfl

/-- The line of a table header opens the table. -/
theorem tableLine {root : Entries} (hbare : ∀ k ∈ path ++ [key], Bare k)
    (hlen : (path ++ [key]).length < nestingLimit)
    (hroot : draft.root.openTable path key = .ok root)
    (h : Reads { root, header := path ++ [key] } rest table) :
    Reads draft (("[" ++ pathText (path ++ [key]) ++ "]").toList ++ '\n' :: rest) table := by
  refine step ?_ ?_ h
  · simp [skipSpaces, isSpace]
  · rw [line_tableHeader draft hbare hlen, hroot]
    rfl

/-- The line of a row header opens the row. -/
theorem rowLine {root : Entries} (hbare : ∀ k ∈ path ++ [key], Bare k)
    (hlen : (path ++ [key]).length < nestingLimit)
    (hroot : draft.root.openRow path key = .ok root)
    (h : Reads { root, header := path ++ [key] } rest table) :
    Reads draft (("[[" ++ pathText (path ++ [key]) ++ "]]").toList ++ '\n' :: rest) table := by
  refine step ?_ ?_ h
  · simp [skipSpaces, isSpace]
  · rw [line_rowHeader draft hbare hlen, hroot]
    rfl

end Reads

end ModuleGraph.Document.Toml
