import ModuleGraph.Document.Toml.Text
import ModuleGraph.Document.Value

/-!
# Writing a TOML document

`Toml.write` writes a table as a document. In every table the plain bindings come first, in order,
and the tables below it follow, each under a header and after a blank line. An array whose items are
all tables becomes an array table; other arrays are written in place, with one item a line if there
are several.

A string is written between quotes as long as that takes no escapes, else between apostrophes, and
over several lines if it has line breaks or too many of either (`stringStyle`).
-/

namespace ModuleGraph.Document.Toml

/-! ## Strings -/

/-- The ways to write a string. -/
inductive StringStyle where
  | basic
  | literal
  | multilineBasic
  | multilineLiteral
deriving DecidableEq, Repr, Inhabited

/-- The length of the longest run of a character; `current` is the length of the run under way. -/
def longestRun (c : Char) (current : Nat) : List Char → Nat
  | [] => current
  | d :: rest =>
    if d = c then longestRun c (current + 1) rest else max current (longestRun c 0 rest)

/-- A control character that cannot be written as itself in any string. -/
def needsCode (c : Char) : Bool :=
  (c.toNat < 0x20 && c != '\t' && c != '\n') || c.toNat == 0x7F

/-- The style that fits a string best: the first of the plain styles that can hold it, else quotes
with escapes. -/
def stringStyle (cs : List Char) : StringStyle :=
  let coded := cs.any needsCode
  let escaped := cs.contains '\\'
  let broken := cs.contains '\n'
  let quotes := longestRun '"' 0 cs
  let apostrophes := longestRun '\'' 0 cs
  if !coded && !escaped && quotes == 0 && !broken then .basic
  else if !coded && apostrophes == 0 && !broken then .literal
  else if !coded && !escaped && quotes ≤ 2 then .multilineBasic
  else if !coded && apostrophes ≤ 2 then .multilineLiteral
  else if broken then .multilineBasic
  else .basic

/-- A hexadecimal digit in upper case. -/
def upperHexDigit (n : Nat) : Char :=
  if n < 10 then Char.ofNat ('0'.toNat + n) else Char.ofNat ('A'.toNat + (n - 10))

/-- The written form of a character between quotes; a quote is treated apart. -/
def escape (multiline : Bool) (c : Char) : List Char :=
  match c with
  | '\x08' => ['\\', 'b']
  | '\t' => ['\\', 't']
  | '\n' => if multiline then ['\n'] else ['\\', 'n']
  | '\x0c' => ['\\', 'f']
  | '\r' => ['\\', 'r']
  | '\\' => ['\\', '\\']
  | c =>
    if c.toNat < 0x20 || c.toNat == 0x7F then
      ['\\', 'u', '0', '0', upperHexDigit (c.toNat / 16), upperHexDigit (c.toNat % 16)]
    else [c]

/-- The characters between quotes. `allowed` quotes may stand in a row, the next one is escaped;
`run` counts those just before. -/
def escapeAll (multiline : Bool) (allowed run : Nat) : List Char → List Char
  | [] => []
  | c :: rest =>
    if c = '"' then
      if run < allowed then '"' :: escapeAll multiline allowed (run + 1) rest
      else '\\' :: '"' :: escapeAll multiline allowed 0 rest
    else escape multiline c ++ escapeAll multiline allowed 0 rest

/-- A line break after the opening delimiter of a string that has line breaks itself. -/
def leadingBreak (cs : List Char) : List Char :=
  if cs.contains '\n' then ['\n'] else []

/-- The written form of a string. -/
def stringChars (cs : List Char) : List Char :=
  match stringStyle cs with
  | .basic => '"' :: escapeAll false 0 0 cs ++ ['"']
  | .literal => '\'' :: cs ++ ['\'']
  | .multilineBasic =>
    ['"', '"', '"'] ++ leadingBreak cs ++ escapeAll true 2 0 cs ++ ['"', '"', '"']
  | .multilineLiteral =>
    ['\'', '\'', '\''] ++ leadingBreak cs ++ cs ++ ['\'', '\'', '\'']

/-- The text of a string. -/
def stringText (s : String) : String :=
  .ofList (stringChars s.toList)

/-- The text of a key: bare if it can be. -/
def keyText (key : String) : String :=
  if key ≠ "" ∧ key.toList.all isBareChar then key else stringText key

/-! ## Values -/

/-- The text of an array, with one item a line if there are several. -/
def arrayText (items : List String) : String :=
  match items with
  | [] => "[]"
  | [item] => "[" ++ item ++ "]"
  | items => "[\n    " ++ ",\n    ".intercalate items ++ ",\n]"

/-- The text of an inline table. -/
def inlineText (bindings : List String) : String :=
  if bindings.isEmpty then "\x7b\x7d" else "\x7b " ++ ", ".intercalate bindings ++ " \x7d"

mutual

/-- The text of a value in place. There is no null in TOML; it is written as an empty string. -/
def valueText : Value → String
  | .null => stringText ""
  | .boolean b => if b then "true" else "false"
  | .integer i => toString i
  | .float literal => literal
  | .moment literal => literal
  | .string s => stringText s
  | .array items => arrayText (valueTexts items)
  | .table fields => inlineText (bindingTexts fields)

/-- The texts of values in place. -/
def valueTexts : List Value → List String
  | [] => []
  | v :: rest => valueText v :: valueTexts rest

/-- The texts of bindings in place. -/
def bindingTexts : List (String × Value) → List String
  | [] => []
  | (key, v) :: rest => (keyText key ++ " = " ++ valueText v) :: bindingTexts rest

end

/-! ## Tables -/

/-- Whether a value is a table. -/
def isTable : Value → Bool
  | .table _ => true
  | _ => false

/-- Whether a value gets headers: a table, or a nonempty array of tables. -/
def hasHeader : Value → Bool
  | .table _ => true
  | .array items => !items.isEmpty && items.all isTable
  | _ => false

/-- A block of lines: perhaps a header, and plain bindings. -/
structure Block where
  header : Option String
  bindings : List String
deriving DecidableEq, Repr, Inhabited

/-- The text of a block. -/
def Block.text (block : Block) : String :=
  .join ((block.header.toList ++ block.bindings).map (· ++ "\n"))

/-- The lines of the fields that have no headers. -/
def plainBindings (fields : List (String × Value)) : List String :=
  bindingTexts (fields.filter fun field => !hasHeader field.2)

/-- A path of keys with dots between them. -/
def pathText (path : List String) : String :=
  ".".intercalate (path.map keyText)

mutual

/-- The blocks of the tables below a table. -/
def fieldBlocks (path : List String) : List (String × Value) → List Block
  | [] => []
  | (key, .table fields) :: rest =>
    ⟨some ("[" ++ pathText (path ++ [key]) ++ "]"), plainBindings fields⟩ ::
      fieldBlocks (path ++ [key]) fields ++ fieldBlocks path rest
  | (key, .array items) :: rest =>
    (if hasHeader (.array items) then rowBlocks (path ++ [key]) items else []) ++
      fieldBlocks path rest
  | (_, _) :: rest => fieldBlocks path rest

/-- The blocks of the rows of an array table. -/
def rowBlocks (path : List String) : List Value → List Block
  | [] => []
  | .table fields :: rest =>
    ⟨some ("[[" ++ pathText path ++ "]]"), plainBindings fields⟩ ::
      fieldBlocks path fields ++ rowBlocks path rest
  | _ :: rest => rowBlocks path rest

end

/-- The document of a table with the given fields. -/
def writeFields (fields : List (String × Value)) : String :=
  let root := plainBindings fields
  let blocks := fieldBlocks [] fields
  let blocks := if root.isEmpty then blocks else ⟨none, root⟩ :: blocks
  "\n".intercalate (blocks.map Block.text)

/-- The document of a table. -/
def write : Value → String
  | .table fields => writeFields fields
  | v => valueText v

end ModuleGraph.Document.Toml
