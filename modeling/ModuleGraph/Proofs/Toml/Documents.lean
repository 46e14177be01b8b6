import Mathlib.Data.List.Nodup
import ModuleGraph.Proofs.Toml.Lines

/-!
# Documents are read as they were written

The text of a tidy table is read as that table, its plain fields first (`parse_write`). The reader
goes back to the root for every line, so the proof carries along where the current header leads: a
`Focus` is a place among the entries that a path of headers changes and leaves the rest alone. Each
header moves the focus one key further down, into a new table or a new row.

`Fills` is what the recursion over the tables keeps: under its header, the text of a table fills
that table, whatever stands around it. A tidy table is nested less deep than headers may be long.
-/

namespace ModuleGraph.Document.Toml

variable {path : List String} {key : String} {plug : Entries → Entries} {before : Entries}

/-! ## Tables under construction -/

section Alter

variable {change : Option Tree → Except TomlError Tree} {tree : Tree}

theorem alter_append (hkey : key ∉ before.map Prod.fst) (after : Entries) :
    Entries.alter key change (before ++ after) =
      (Entries.alter key change after).map (before ++ ·) := by
  induction before with
  | nil =>
    rw [List.nil_append]
    cases Entries.alter key change after <;> rfl
  | cons entry before ih =>
    obtain ⟨name, tree⟩ := entry
    simp only [List.map_cons, List.mem_cons, not_or] at hkey
    rw [List.cons_append, Entries.alter, if_neg (Ne.symm hkey.1), ih hkey.2]
    cases Entries.alter key change after <;> rfl

/-- A key that is not there is added at the end. -/
theorem alter_fresh (hkey : key ∉ before.map Prod.fst) (htree : change none = .ok tree) :
    Entries.alter key change before = .ok (before ++ [(key, tree)]) := by
  have h : Entries.alter key change (before ++ []) = _ := alter_append hkey []
  rw [List.append_nil, Entries.alter, htree] at h
  exact h

theorem alter_last (hkey : key ∉ before.map Prod.fst) :
    Entries.alter key change (before ++ [(key, tree)]) =
      (change (some tree)).map fun tree => before ++ [(key, tree)] := by
  rw [alter_append hkey, Entries.alter, if_pos rfl]
  cases change (some tree) <;> rfl

end Alter

/-- A longer path leads through the table at the end of a shorter one. -/
theorem within_concat {added : Origin} (change : Entries → Except TomlError Entries)
    (origin : Origin) (entries : Entries) :
    Entries.within added (path ++ [key]) (fun _ => change) origin entries =
      Entries.within added path
        (fun _ => Entries.within added [key] (fun _ => change) .header) origin entries := by
  induction path generalizing origin entries with
  | nil => rfl
  | cons name path ih =>
    rw [List.cons_append, Entries.within, Entries.within]
    simp only [ih]

/-- `plug` puts entries in the place where a path of headers leads: what a header with that path
does to its table happens there, and the rest stays. -/
def Focus (path : List String) (plug : Entries → Entries) : Prop :=
  ∀ (change : Entries → Except TomlError Entries) (origin : Origin) (entries : Entries),
    Entries.within .implied path (fun _ => change) origin (plug entries) =
      (change entries).map plug

namespace Focus

theorem root : Focus [] id := by
  intro change origin entries
  rw [Entries.within, id_eq]
  cases change entries <;> rfl

theorem through_table (hfocus : Focus path plug) (hkey : key ∉ before.map Prod.fst)
    (origin : Origin) :
    Focus (path ++ [key]) fun entries => plug (before ++ [(key, .table origin entries)]) := by
  intro change start entries
  rw [within_concat, hfocus, Entries.within, alter_last hkey]
  simp only [Entries.within, reduceCtorEq, false_and, if_false]
  cases change entries <;> rfl

theorem through_rows (hfocus : Focus path plug) (hkey : key ∉ before.map Prod.fst)
    (earlier : List Entries) :
    Focus (path ++ [key]) fun entries => plug (before ++ [(key, .rows (entries :: earlier))]) := by
  intro change start entries
  rw [within_concat, hfocus, Entries.within, alter_last hkey]
  simp only [Entries.within]
  cases change entries <;> rfl

theorem insertUnder (hfocus : Focus path plug) (hkey : key ∉ before.map Prod.fst) (v : Value) :
    (plug before).insertUnder path [] key v = .ok (plug (before ++ [(key, .leaf v)])) := by
  have hset : Entries.insert [] key v before = .ok (before ++ [(key, .leaf v)]) := by
    simp only [Entries.insert, Entries.within, ne_eq, not_true_eq_false, false_and, if_false]
    exact alter_fresh hkey rfl
  rw [Entries.insertUnder, hfocus, hset]
  rfl

theorem openTable (hfocus : Focus path plug) (hkey : key ∉ before.map Prod.fst) :
    (plug before).openTable path key = .ok (plug (before ++ [(key, .table .header [])])) := by
  rw [Entries.openTable, hfocus, alter_fresh hkey rfl]
  rfl

/-- The first row of an array table adds its key. -/
theorem openRow_first (hfocus : Focus path plug) (hkey : key ∉ before.map Prod.fst) :
    (plug before).openRow path key = .ok (plug (before ++ [(key, .rows [[]])])) := by
  rw [Entries.openRow, hfocus, alter_fresh hkey rfl]
  rfl

theorem openRow_next (hfocus : Focus path plug) (hkey : key ∉ before.map Prod.fst)
    (reversed : List Entries) :
    (plug (before ++ [(key, .rows reversed)])).openRow path key =
      .ok (plug (before ++ [(key, .rows ([] :: reversed))])) := by
  rw [Entries.openRow, hfocus, alter_last hkey]
  rfl

end Focus

/-! ## What a written table becomes -/

/-- The fields without headers, which come first. -/
def leaves (fields : List (String × Value)) : Entries :=
  (fields.filter fun field => !hasHeader field.2).map fun field => (field.1, .leaf field.2)

mutual

/-- The tree that the text of a value builds. -/
def treeOf : Value → Tree
  | .table fields => .table .header (leaves fields ++ headed fields)
  | .array items =>
    if hasHeader (.array items) then .rows (rowsOf items).reverse else .leaf (.array items)
  | v => .leaf v

/-- The entries of the fields with headers. -/
def headed : List (String × Value) → Entries
  | [] => []
  | (key, v) :: rest => if hasHeader v then (key, treeOf v) :: headed rest else headed rest

/-- The rows of an array table. -/
def rowsOf : List Value → List Entries
  | [] => []
  | .table fields :: rest => (leaves fields ++ headed fields) :: rowsOf rest
  | _ :: rest => rowsOf rest

end

/-- The entries that the text of a table builds. -/
def entriesOf (fields : List (String × Value)) : Entries :=
  leaves fields ++ headed fields

/-- What a field may hold to be read as it was written: a plain value, a table or an array table. -/
inductive Fits (inner : List (String × Value) → Prop) : Value → Prop where
  | plain {v : Value} (hv : Plain v) : Fits inner v
  | table {fields : List (String × Value)} (hfields : inner fields) : Fits inner (.table fields)
  | rows {rows : List (List (String × Value))} (hne : rows ≠ [])
      (hrows : ∀ fields ∈ rows, inner fields) : Fits inner (.array (rows.map .table))

/-- Fields with bare keys, no two the same, that hold tables less than `n` deep. -/
def Tidy : (n : Nat) → List (String × Value) → Prop
  | 0 => fun _ => False
  | n + 1 => fun fields => (fields.map Prod.fst).Nodup ∧
      ∀ field ∈ fields, Bare field.1 ∧ Fits (Tidy n) field.2

theorem Tidy.pos {n : Nat} {fields : List (String × Value)} (h : Tidy n fields) : 0 < n :=
  Nat.pos_of_ne_zero fun hzero => by rw [hzero] at h; exact h

theorem hasHeader_of_plain {v : Value} (hv : Plain v) : hasHeader v = false := by
  cases hv with
  | string => rfl
  | boolean => rfl
  | strings items => cases items <;> simp [Value.strings, hasHeader, isTable]

theorem hasHeader_rows {rows : List (List (String × Value))} (hne : rows ≠ []) :
    hasHeader (.array (rows.map .table)) = true := by
  simp [hasHeader, hne, isTable]

theorem Fits.plain_of_hasHeader {inner : List (String × Value) → Prop} {v : Value}
    (h : Fits inner v) (hv : hasHeader v = false) : Plain v := by
  cases h with
  | plain h => exact h
  | table => exact absurd hv (by simp [hasHeader])
  | rows hne => exact absurd hv (by simp [hasHeader_rows hne])

theorem rowsOf_map (rows : List (List (String × Value))) :
    rowsOf (rows.map .table) = rows.map entriesOf := by
  induction rows with
  | nil => rfl
  | cons row rows ih => rw [List.map_cons, rowsOf, ih, List.map_cons, entriesOf]

theorem treeOf_plain {v : Value} (hv : Plain v) : treeOf v = .leaf v := by
  cases hv with
  | string => rfl
  | boolean => rfl
  | strings items =>
    have h := hasHeader_of_plain (.strings items)
    rw [Value.strings] at h ⊢
    rw [treeOf, h]
    rfl

theorem treeOf_rows {rows : List (List (String × Value))} (hne : rows ≠ []) :
    treeOf (.array (rows.map .table)) = .rows (rows.map entriesOf).reverse := by
  rw [treeOf, hasHeader_rows hne, if_pos rfl, rowsOf_map]

/-! ## Blocks -/

/-- The characters of lines. -/
def linesChars (lines : List String) : List Char :=
  lines.flatMap fun line => line.toList ++ ['\n']

theorem linesChars_cons (line : String) (lines : List String) (rest : List Char) :
    linesChars (line :: lines) ++ rest = line.toList ++ '\n' :: (linesChars lines ++ rest) := by
  simp [linesChars]

theorem toList_text (block : Block) :
    block.text.toList = linesChars (block.header.toList ++ block.bindings) := by
  rw [Block.text, String.toList_join, List.flatMap_map, linesChars]
  simp

/-- The characters of blocks, each of them after a blank line. -/
def blocksChars (blocks : List Block) : List Char :=
  blocks.flatMap fun block => '\n' :: block.text.toList

theorem bindingTexts_eq (fields : List (String × Value)) :
    bindingTexts fields = fields.map fieldText := by
  induction fields with
  | nil => rfl
  | cons field fields ih => rw [bindingTexts, ih, List.map_cons, fieldText]

/-- The lines of plain fields enter them under the header, in order. -/
theorem Reads.plainFields {fields : List (String × Value)} {rest : List Char} {table : Entries}
    (hfocus : Focus path plug)
    (hfields : ∀ field ∈ fields, Bare field.1 ∧ Plain field.2)
    (hkeys : (fields.map Prod.fst).Nodup) (hfresh : ∀ field ∈ fields, field.1 ∉ before.map Prod.fst)
    (h : Reads ⟨plug (before ++ fields.map fun field => (field.1, .leaf field.2)), path⟩ rest
      table) :
    Reads ⟨plug before, path⟩ (linesChars (fields.map fieldText) ++ rest) table := by
  induction fields generalizing before with
  | nil => simpa [linesChars] using h
  | cons field fields ih =>
    obtain ⟨hkey, hv⟩ := hfields field List.mem_cons_self
    rw [List.map_cons, List.nodup_cons] at hkeys
    rw [List.map_cons, linesChars_cons]
    refine .fieldLine hkey hv (hfocus.insertUnder (hfresh field List.mem_cons_self) field.2) ?_
    refine ih (fun f hf => hfields f (List.mem_cons_of_mem _ hf)) hkeys.2 ?_ (by simpa using h)
    intro f hf
    have hne : f.1 ≠ field.1 := fun heq => hkeys.1 (List.mem_map.2 ⟨f, hf, heq⟩)
    simpa [hne] using hfresh f (List.mem_cons_of_mem _ hf)

theorem blocksChars_cons (block : Block) (blocks : List Block) (rest : List Char) :
    blocksChars (block :: blocks) ++ rest =
      '\n' :: (block.text.toList ++ (blocksChars blocks ++ rest)) := by
  simp [blocksChars]

theorem blocksChars_append (blocks more : List Block) (rest : List Char) :
    blocksChars (blocks ++ more) ++ rest = blocksChars blocks ++ (blocksChars more ++ rest) := by
  simp [blocksChars]

theorem fieldBlocks_cons_plain {v : Value} (hv : hasHeader v = false)
    (fields : List (String × Value)) :
    fieldBlocks path ((key, v) :: fields) = fieldBlocks path fields := by
  cases v with
  | table => simp [hasHeader] at hv
  | array items => rw [fieldBlocks, hv, if_neg Bool.false_ne_true, List.nil_append]
  | _ => rw [fieldBlocks] <;> simp

theorem fieldBlocks_cons_rows {rows : List (List (String × Value))} (hne : rows ≠ [])
    (fields : List (String × Value)) :
    fieldBlocks path ((key, .array (rows.map .table)) :: fields) =
      rowBlocks (path ++ [key]) (rows.map .table) ++ fieldBlocks path fields := by
  rw [fieldBlocks, hasHeader_rows hne, if_pos rfl]

/-- Under its header, the text of a table fills the table. -/
def Fills (n : Nat) (fields : List (String × Value)) : Prop :=
  ∀ {path : List String} {plug : Entries → Entries} {rest : List Char} {table : Entries},
    Focus path plug → (∀ k ∈ path, Bare k) → path.length + n ≤ nestingLimit →
    (∀ header, Reads ⟨plug (entriesOf fields), header⟩ rest table) →
    Reads ⟨plug [], path⟩
      (linesChars (plainBindings fields) ++ (blocksChars (fieldBlocks path fields) ++ rest)) table

/-- A key that is still free in the table of a focus, and may hold tables less than `n` deep. -/
structure Slot (n : Nat) (path : List String) (key : String) (plug : Entries → Entries)
    (before : Entries) : Prop where
  pos : 0 < n
  focus : Focus path plug
  bare : ∀ k ∈ path ++ [key], Bare k
  length_le : (path ++ [key]).length + n ≤ nestingLimit
  fresh : key ∉ before.map Prod.fst

theorem Slot.length_lt {n : Nat} (h : Slot n path key plug before) :
    (path ++ [key]).length < nestingLimit :=
  Nat.lt_of_lt_of_le (Nat.lt_add_of_pos_right h.pos) h.length_le

namespace Reads

variable {n : Nat} {fields : List (String × Value)} {rows : List (List (String × Value))}
  {rest : List Char} {table : Entries} {header : List String}

/-- A header line opens a table, and what stands below it fills the table. -/
theorem blocks_below {root : Entries} {text : String} (hfills : Fills n fields)
    (hfocus : Focus path plug) (hbare : ∀ k ∈ path, Bare k)
    (hlen : path.length + n ≤ nestingLimit)
    (hopens : ∀ {rest}, Reads ⟨plug [], path⟩ rest table →
      Reads ⟨root, header⟩ (text.toList ++ '\n' :: rest) table)
    (h : ∀ header, Reads ⟨plug (entriesOf fields), header⟩ rest table) :
    Reads ⟨root, header⟩
      (blocksChars (⟨some text, plainBindings fields⟩ :: fieldBlocks path fields) ++ rest)
      table := by
  rw [blocksChars_cons, toList_text, Option.toList_some, List.singleton_append, linesChars_cons,
    blank_iff]
  exact hopens (hfills hfocus hbare hlen h)

/-- The blocks of a table put the table under its key. -/
theorem tableBlocks (hslot : Slot n path key plug before) (hfills : Fills n fields)
    (h : ∀ header, Reads ⟨plug (before ++ [(key, treeOf (.table fields))]), header⟩ rest table) :
    Reads ⟨plug before, header⟩
      (blocksChars (⟨some ("[" ++ pathText (path ++ [key]) ++ "]"), plainBindings fields⟩ ::
        fieldBlocks (path ++ [key]) fields) ++ rest) table :=
  blocks_below hfills (hslot.focus.through_table hslot.fresh .header) hslot.bare hslot.length_le
    (tableLine hslot.bare hslot.length_lt (hslot.focus.openTable hslot.fresh)) h

/-- The blocks of a row put the row in front of the earlier ones. -/
theorem rowBlocks_cons {root : Entries} {earlier : List Entries}
    (hslot : Slot n path key plug before) (hfills : Fills n fields)
    (hopen : root.openRow path key = .ok (plug (before ++ [(key, .rows ([] :: earlier))])))
    (h : ∀ header,
      Reads ⟨plug (before ++ [(key, .rows (entriesOf fields :: earlier))]), header⟩ rest table) :
    Reads ⟨root, header⟩
      (blocksChars (⟨some ("[[" ++ pathText (path ++ [key]) ++ "]]"), plainBindings fields⟩ ::
        fieldBlocks (path ++ [key]) fields) ++ rest) table :=
  blocks_below hfills (hslot.focus.through_rows hslot.fresh earlier) hslot.bare hslot.length_le
    (rowLine hslot.bare hslot.length_lt hopen) h

/-- Further rows are added to those of an array table. -/
theorem moreRows {earlier : List Entries} (hslot : Slot n path key plug before)
    (hfills : ∀ fields ∈ rows, Fills n fields)
    (h : ∀ header, Reads
      ⟨plug (before ++ [(key, .rows ((rows.map entriesOf).reverse ++ earlier))]), header⟩ rest
      table) :
    Reads ⟨plug (before ++ [(key, .rows earlier)]), header⟩
      (blocksChars (rowBlocks (path ++ [key]) (rows.map .table)) ++ rest) table := by
  induction rows generalizing earlier header with
  | nil => simpa [rowBlocks, blocksChars] using h header
  | cons fields rows ih =>
    rw [List.map_cons, rowBlocks, blocksChars_append]
    refine rowBlocks_cons hslot (hfills fields List.mem_cons_self)
      (hslot.focus.openRow_next hslot.fresh earlier) fun _ => ?_
    exact ih (fun f hf => hfills f (List.mem_cons_of_mem _ hf)) (by simpa using h)

/-- The blocks of an array table put its rows under its key. -/
theorem arrayBlocks (hslot : Slot n path key plug before) (hne : rows ≠ [])
    (hfills : ∀ fields ∈ rows, Fills n fields)
    (h : ∀ header, Reads
      ⟨plug (before ++ [(key, treeOf (.array (rows.map .table)))]), header⟩ rest table) :
    Reads ⟨plug before, header⟩
      (blocksChars (rowBlocks (path ++ [key]) (rows.map .table)) ++ rest) table := by
  rw [treeOf_rows hne] at h
  obtain ⟨fields, rows, rfl⟩ := List.exists_cons_of_ne_nil hne
  rw [List.map_cons, rowBlocks, blocksChars_append]
  refine rowBlocks_cons hslot (hfills fields List.mem_cons_self)
    (hslot.focus.openRow_first hslot.fresh) fun _ => ?_
  exact moreRows hslot (fun f hf => hfills f (List.mem_cons_of_mem _ hf)) (by simpa using h)

/-- The blocks below a table enter its fields with headers, one after the other. -/
theorem fieldBlocks_headed (hinner : ∀ fields, Tidy n fields → Fills n fields)
    (hfocus : Focus path plug) (hbare : ∀ k ∈ path, Bare k)
    (hlen : path.length + (n + 1) ≤ nestingLimit)
    (hfields : ∀ field ∈ fields, Bare field.1 ∧ Fits (Tidy n) field.2)
    (hkeys : (fields.map Prod.fst).Nodup)
    (hfresh : ∀ field ∈ fields, hasHeader field.2 = true → field.1 ∉ before.map Prod.fst)
    (h : ∀ header, Reads ⟨plug (before ++ headed fields), header⟩ rest table) :
    Reads ⟨plug before, header⟩ (blocksChars (fieldBlocks path fields) ++ rest) table := by
  induction fields generalizing before header with
  | nil => simpa [fieldBlocks, blocksChars, headed] using h header
  | cons field fields ih =>
    obtain ⟨key, v⟩ := field
    obtain ⟨hkey, hv⟩ := hfields (key, v) List.mem_cons_self
    have hslot (hn : 0 < n) (hheader : hasHeader v = true) : Slot n path key plug before :=
      ⟨hn, hfocus, by simpa [or_imp, forall_and] using ⟨hbare, hkey⟩,
        by simpa [Nat.add_assoc, Nat.add_comm 1] using hlen, hfresh _ List.mem_cons_self hheader⟩
    rw [List.map_cons, List.nodup_cons] at hkeys
    have hlast := fun f hf => hfields f (List.mem_cons_of_mem (key, v) hf)
    -- A field with headers is entered by its own blocks; the blocks of the others follow.
    have hnext (hheader : hasHeader v = true) (header : List String) :
        Reads ⟨plug (before ++ [(key, treeOf v)]), header⟩
          (blocksChars (fieldBlocks path fields) ++ rest) table := by
      refine ih hlast hkeys.2 ?_ ?_
      · intro f hf hf'
        have hne : f.1 ≠ key := fun heq => hkeys.1 (List.mem_map.2 ⟨f, hf, heq⟩)
        simpa [hne] using hfresh f (List.mem_cons_of_mem _ hf) hf'
      · simpa [headed, hheader] using h
    cases hv with
    | plain hv =>
      have hheader := hasHeader_of_plain hv
      rw [fieldBlocks_cons_plain hheader]
      refine ih hlast hkeys.2 (fun f hf => hfresh f (List.mem_cons_of_mem _ hf)) ?_
      simpa [headed, hheader] using h
    | table hbelow =>
      rw [fieldBlocks, blocksChars_append]
      exact tableBlocks (hslot hbelow.pos rfl) (hinner _ hbelow) (hnext rfl)
    | rows hne hrows =>
      have hheader := hasHeader_rows hne
      obtain ⟨row, hrow⟩ := List.exists_mem_of_ne_nil _ hne
      rw [fieldBlocks_cons_rows hne, blocksChars_append]
      exact arrayBlocks (hslot (hrows row hrow).pos hheader) hne
        (fun f hf => hinner f (hrows f hf)) (hnext hheader)

end Reads

/-- Tidy fields fill their table. -/
theorem fills_of_tidy {n : Nat} {fields : List (String × Value)} (h : Tidy n fields) :
    Fills n fields := by
  -- By induction on the depth: the tables and rows of the fields are nested less deep.
  induction n generalizing fields with
  | zero => exact h.elim
  | succ n ih =>
    obtain ⟨hkeys, hfields⟩ := h
    intro path plug rest table hfocus hbare hlen hrest
    have hplain : ∀ field ∈ fields.filter (fun field => !hasHeader field.2),
        Bare field.1 ∧ Plain field.2 := by
      intro field hfield
      obtain ⟨hmem, hheader⟩ := List.mem_filter.1 hfield
      have hleaf : hasHeader field.2 = false := by simpa using hheader
      exact ⟨(hfields field hmem).1, (hfields field hmem).2.plain_of_hasHeader hleaf⟩
    have hfresh : ∀ field ∈ fields, hasHeader field.2 = true →
        field.1 ∉ (leaves fields).map Prod.fst := by
      intro field hfield hheader hmem
      simp only [leaves, List.map_map, List.mem_map, List.mem_filter, Function.comp_apply] at hmem
      obtain ⟨other, ⟨hother, hplainOther⟩, heq⟩ := hmem
      rw [List.inj_on_of_nodup_map hkeys hother hfield heq, hheader] at hplainOther
      exact Bool.false_ne_true hplainOther
    rw [plainBindings, bindingTexts_eq]
    refine .plainFields hfocus hplain ?_ (by simp) ?_
    · exact hkeys.sublist (List.filter_sublist.map Prod.fst)
    · exact .fieldBlocks_headed (fun fields => ih) hfocus hbare hlen hfields hkeys hfresh hrest

/-! ## Whole documents -/

theorem cons_intercalate_text (block : Block) (blocks : List Block) :
    '\n' :: ("\n".intercalate ((block :: blocks).map Block.text)).toList =
      blocksChars (block :: blocks) := by
  have h := append_intercalate ['\n'] [] block.text.toList
    (blocks.map fun block => block.text.toList)
  rw [← List.map_cons (f := fun block : Block => block.text.toList), List.flatMap_map] at h
  simpa [String.toList_intercalate, blocksChars, Function.comp_def] using h

/-- A text that is read does not begin with a byte order mark. -/
theorem Reads.ne_mark {draft : Draft} {cs : List Char} {table : Entries} (h : Reads draft cs table)
    (rest : List Char) : cs ≠ '\ufeff' :: rest := by
  rintro rfl
  -- Its first line would have to begin with a key.
  have hspaces : skipSpaces ('\ufeff' :: rest) = '\ufeff' :: rest :=
    skipSpaces_eq_self (by simp) (by simp)
  have hpart : keyPart ('\ufeff' :: rest) = .error (.expected "a key") := by
    simp [keyPart, isBareChar]
  have hkey : Toml.key ('\ufeff' :: rest) = .error (.expected "a key") := by
    rw [Toml.key, nestingLimit, keyParts, hspaces, hpart]
    rfl
  have hline : line draft ('\ufeff' :: rest) = .error (.expected "a key") := by
    rw [line.eq_def]
    simp only [bindingLine, binding, hkey]
    rfl
  have hdocument := h _ (Nat.lt_succ_self _)
  rw [document, hspaces] at hdocument
  simp only [hline] at hdocument
  exact absurd hdocument (by simp [bind, Except.bind, Except.map])

theorem reads_writeFields {fields : List (String × Value)} (h : Tidy nestingLimit fields) :
    Reads {} (writeFields fields).toList (entriesOf fields) := by
  have hend (header : List String) : Reads ⟨id (entriesOf fields), header⟩ [] (entriesOf fields) :=
    .nil _
  have hreads := fills_of_tidy h .root (by simp) (Nat.le_of_eq (Nat.zero_add _)) hend
  rw [List.append_nil] at hreads
  unfold writeFields
  cases hroot : plainBindings fields with
  | nil =>
    rw [hroot] at hreads
    cases hblocks : fieldBlocks [] fields with
    | nil => simpa [hblocks, linesChars, blocksChars] using hreads
    | cons block blocks =>
      rw [hblocks, ← cons_intercalate_text] at hreads
      exact Reads.blank_iff.1 hreads
  | cons line lines =>
    rw [hroot] at hreads
    refine Reads.blank_iff.1 ?_
    dsimp only
    rw [List.isEmpty_cons, if_neg Bool.false_ne_true, cons_intercalate_text,
      ← List.append_nil (blocksChars _), blocksChars_cons, toList_text, List.append_nil]
    exact Reads.blank_iff.2 hreads

/-- The text of a tidy table is read as that table, the fields with headers after the others. -/
theorem parse_write {fields : List (String × Value)} (h : Tidy nestingLimit fields) :
    parse (write (.table fields)) = .ok (treeOf (.table fields)).toValue := by
  have hreads := reads_writeFields h
  rw [write, parse]
  split
  case h_1 rest heq => exact absurd heq (hreads.ne_mark rest)
  case h_2 =>
    have hdocument := hreads _ (Nat.lt_succ_self _)
    revert hdocument
    cases document {} ((writeFields fields).toList.length + 1) (writeFields fields).toList with
    | error e => exact fun h => nomatch h
    | ok draft =>
      intro h
      have hroot : draft.root = entriesOf fields := Except.ok.inj h
      rw [ok_bind, hroot, treeOf, Tree.toValue]
      rfl

end ModuleGraph.Document.Toml
