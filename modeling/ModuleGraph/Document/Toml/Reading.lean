import ModuleGraph.Document.Toml.Number
import ModuleGraph.Document.Toml.Tree

/-!
# Reading a TOML document

`Toml.parse` reads a document of TOML 1.0. Arrays may go over several lines and hold comments;
inline tables may not. Values are nested less than eighty deep.
-/

namespace ModuleGraph.Document.Toml

/-! ## Values -/

/-- Skips blanks, line breaks and comments; a comment has to end with a line break. -/
def skipGap (inComment : Bool) : List Char → Except TomlError (List Char)
  | [] => if inComment then .error (.expected "a line break") else .ok []
  | '\n' :: rest => skipGap false rest
  | '\r' :: '\n' :: rest => skipGap false rest
  | c :: rest =>
    if inComment then
      if isCommentChar c then skipGap true rest else .error (.expected "a line break")
    else if isSpace c then skipGap false rest
    else if c = '#' then skipGap true rest
    else .ok (c :: rest)

/-- The items of an array after its opening bracket; `acc` holds those read, the last one first. -/
def items (element : Reader Value) (acc : List Value) : (fuel : Nat) → Reader (List Value)
  | 0, _ => .error (.expected "a closing bracket")
  | fuel + 1, cs => do
    let cs ← skipGap false cs
    match cs with
    | ']' :: rest => return (acc.reverse, rest)
    | cs =>
      let (item, rest) ← element cs
      let rest ← skipGap false rest
      match rest with
      | ',' :: rest => items element (item :: acc) fuel rest
      | ']' :: rest => return ((item :: acc).reverse, rest)
      | _ => .error (.expected "a comma or a closing bracket")

/-- A key, an equals sign and a value. -/
def binding (element : Reader Value) : Reader (List String × Value) := fun cs => do
  let (path, rest) ← key cs
  match rest with
  | '=' :: rest =>
    let (value, rest) ← element (skipSpaces rest)
    return ((path, value), rest)
  | _ => .error (.expected "an equals sign")

/-- Enters a binding into a table. -/
def Entries.bind (path : List String) (value : Value) (entries : Entries) :
    Except TomlError Entries :=
  match path.getLast? with
  | some last => entries.insert path.dropLast last value
  | none => .ok entries

/-- The bindings of an inline table after its opening brace. -/
def bindings (element : Reader Value) (entries : Entries) : (fuel : Nat) → Reader Entries
  | 0, _ => .error (.expected "a closing brace")
  | fuel + 1, cs => do
    let ((path, value), rest) ← binding element cs
    let entries ← entries.bind path value
    match skipSpaces rest with
    | ',' :: rest => bindings element entries fuel rest
    | '\x7d' :: rest => return (entries, rest)
    | _ => .error (.expected "a comma or a closing brace")

/-- An inline table after its opening brace. -/
def inlineTable (element : Reader Value) : Reader Value := fun cs =>
  match skipSpaces cs with
  | '\x7d' :: rest => .ok (.table [], rest)
  | rest => do
    let (entries, rest) ← bindings element [] rest.length rest
    return (.table (Entries.toFields entries), rest)

/-- A value that holds arrays and tables down to the given depth. -/
def value : (depth : Nat) → Reader Value
  | depth, c :: rest =>
    if c = '"' ∨ c = '\'' then do
      let (s, rest) ← string (c :: rest)
      return (.string s, rest)
    else if c = '[' then
      match depth with
      | 0 => .error .tooDeep
      | depth + 1 => do
        let (elements, rest) ← items (value depth) [] (rest.length + 1) rest
        return (.array elements, rest)
    else if c = '\x7b' then
      match depth with
      | 0 => .error .tooDeep
      | depth + 1 => inlineTable (value depth) rest
    else
      match c :: rest with
      | 't' :: 'r' :: 'u' :: 'e' :: rest => .ok (.boolean true, rest)
      | 'f' :: 'a' :: 'l' :: 's' :: 'e' :: rest => .ok (.boolean false, rest)
      | cs => number cs
  | _, [] => .error (.expected "a value")

/-! ## Documents -/

/-- The end of a line: blanks, a comment, and a line break or the end of the text. -/
def endLine (cs : List Char) : Except TomlError (List Char) :=
  let cs := skipSpaces cs
  let cs := if cs.head? = some '#' then cs.dropWhile isCommentChar else cs
  match cs with
  | [] => .ok []
  | '\n' :: rest => .ok rest
  | '\r' :: '\n' :: rest => .ok rest
  | _ => .error (.expected "the end of the line")

/-- A document under construction and the header that its bindings stand under. -/
structure Draft where
  root : Entries := []
  header : List String := []
deriving Inhabited

/-- A header of an array table after its brackets. -/
def rowHeader (draft : Draft) (cs : List Char) : Except TomlError (Draft × List Char) := do
  let (path, rest) ← key cs
  match rest with
  | ']' :: ']' :: rest =>
    let rest ← endLine rest
    let root ← draft.root.openRow path.dropLast (path.getLast?.getD "")
    return ({ root, header := path }, rest)
  | _ => .error (.expected "closing brackets")

/-- A header of a table after its bracket. -/
def tableHeader (draft : Draft) (cs : List Char) : Except TomlError (Draft × List Char) := do
  let (path, rest) ← key cs
  match rest with
  | ']' :: rest =>
    let rest ← endLine rest
    let root ← draft.root.openTable path.dropLast (path.getLast?.getD "")
    return ({ root, header := path }, rest)
  | _ => .error (.expected "a closing bracket")

/-- A binding on a line of its own. -/
def bindingLine (draft : Draft) (cs : List Char) : Except TomlError (Draft × List Char) := do
  let ((path, v), rest) ← binding (value (nestingLimit - 1)) cs
  let rest ← endLine rest
  let root ← draft.root.insertUnder draft.header path.dropLast (path.getLast?.getD "") v
  return ({ draft with root }, rest)

/-- One line. -/
def line (draft : Draft) (cs : List Char) : Except TomlError (Draft × List Char) :=
  match cs with
  | '#' :: _ | '\n' :: _ | '\r' :: _ => (endLine cs).map (draft, ·)
  | '[' :: '[' :: rest => rowHeader draft rest
  | '[' :: rest => tableHeader draft rest
  | _ => bindingLine draft cs

/-- The lines of a document. -/
def document (draft : Draft) : (fuel : Nat) → List Char → Except TomlError Draft
  | 0, _ => .error (.expected "the end of the text")
  | fuel + 1, cs =>
    match skipSpaces cs with
    | [] => .ok draft
    | cs => do
      let (draft, rest) ← line draft cs
      document draft fuel rest

/-- The table that a text denotes. A byte order mark at the front is skipped. -/
def parse (text : String) : Except TomlError Value := do
  let cs := match text.toList with
    | '\ufeff' :: rest => rest
    | cs => cs
  let draft ← document {} (cs.length + 1) cs
  return .table (Entries.toFields draft.root)

end ModuleGraph.Document.Toml
