/-!
# Strings and keys of TOML

A string stands between quotes or between apostrophes, on one line or, with three of them, on
several. Between quotes a backslash starts an escape; at the end of a line it removes the line break
and the blanks that follow. A line feed right after three opening quotes is dropped, and every line
break inside counts as one line feed. A closing run may be up to two characters longer than three;
they belong to the string.
-/

namespace ModuleGraph.Document.Toml

/-! ## Readers -/

/-- Why a text is no TOML document. -/
inductive TomlError where
  | expected (what : String)
  | badEscape
  | badNumber
  | duplicateKey (key : String)
  | notATable (key : String)
  | tooDeep
deriving DecidableEq, Repr, Inhabited

/-- The wording of a TOML error. -/
def TomlError.message : TomlError → String
  | expected what => s!"expected {what}"
  | badEscape => "invalid escape sequence"
  | badNumber => "invalid number or date"
  | duplicateKey key => s!"duplicate key {key}"
  | notATable key => s!"key {key} is not a table"
  | tooDeep => "recursion limit"

/-- A reader takes characters off the front and returns what follows. -/
abbrev Reader (α : Type) := List Char → Except TomlError (α × List Char)

/-- Values are nested less than this deep, and keys have fewer parts. -/
def nestingLimit : Nat := 80

/-! ## Characters -/

/-- A character that may stand in a comment: no control character but the tab. -/
def isCommentChar (c : Char) : Bool :=
  c == '\t' || (0x20 ≤ c.toNat && c.toNat != 0x7F)

/-- A character that stands for itself between quotes. -/
def isBasicChar (c : Char) : Bool :=
  isCommentChar c && c != '"' && c != '\\'

/-- A character that stands for itself between apostrophes. -/
def isLiteralChar (c : Char) : Bool :=
  isCommentChar c && c != '\''

/-- A blank within a line. -/
def isSpace (c : Char) : Bool :=
  c == ' ' || c == '\t'

/-- Without the blanks at the front. -/
def skipSpaces (cs : List Char) : List Char :=
  cs.dropWhile isSpace

/-- A character of a key that is not quoted. -/
def isBareChar (c : Char) : Bool :=
  (c.toNat < 0x80 && c.isAlphanum) || c == '-' || c == '_'

/-! ## Escapes -/

/-- The value of a hexadecimal digit. -/
def hexValue? (c : Char) : Option Nat :=
  if '0' ≤ c ∧ c ≤ '9' then some (c.toNat - '0'.toNat)
  else if 'a' ≤ c ∧ c ≤ 'f' then some (c.toNat - 'a'.toNat + 10)
  else if 'A' ≤ c ∧ c ≤ 'F' then some (c.toNat - 'A'.toNat + 10)
  else none

/-- The character of a code point given by hexadecimal digits. -/
def scalar? (digits : List Char) : Option Char := do
  let n ← digits.foldlM (fun n c => (hexValue? c).map (16 * n + ·)) 0
  if h : n.isValidChar then return Char.ofNatAux n h else none

/-- The character that a letter after a backslash stands for. -/
def escaped? : Char → Option Char
  | 'b' => some '\x08'
  | 't' => some '\t'
  | 'n' => some '\n'
  | 'f' => some '\x0c'
  | 'r' => some '\r'
  | '"' => some '"'
  | '\\' => some '\\'
  | _ => none

/-! ## Strings -/

/-- A text whose characters were collected from the last to the first. -/
def collected (acc : List Char) : String :=
  .ofList acc.reverse

/-- What follows the opening quote of a string on one line. -/
def basicString (acc : List Char) : Reader String
  | [] => .error (.expected "a closing quote")
  | '"' :: rest => .ok (collected acc, rest)
  | '\\' :: 'u' :: a :: b :: c :: d :: rest =>
    match scalar? [a, b, c, d] with
    | some x => basicString (x :: acc) rest
    | none => .error .badEscape
  | '\\' :: 'U' :: a :: b :: c :: d :: e :: f :: g :: h :: rest =>
    match scalar? [a, b, c, d, e, f, g, h] with
    | some x => basicString (x :: acc) rest
    | none => .error .badEscape
  | '\\' :: c :: rest =>
    match escaped? c with
    | some x => basicString (x :: acc) rest
    | none => .error .badEscape
  | c :: rest =>
    if isBasicChar c then basicString (c :: acc) rest else .error (.expected "a closing quote")

/-- What follows the opening apostrophe of a string on one line. -/
def literalString (acc : List Char) : Reader String
  | [] => .error (.expected "a closing apostrophe")
  | '\'' :: rest => .ok (collected acc, rest)
  | c :: rest =>
    if isLiteralChar c then literalString (c :: acc) rest
    else .error (.expected "a closing apostrophe")

/-- Whether only blanks stand before the next line break. -/
def breaksLine (cs : List Char) : Bool :=
  match skipSpaces cs with
  | '\n' :: _ => true
  | '\r' :: '\n' :: _ => true
  | _ => false

/-- Up to two further quotes after three closing ones belong to the string. -/
def closeWith (quote : Char) (acc : List Char) : Reader String
  | c :: d :: rest =>
    if c = quote ∧ d = quote then .ok (collected (quote :: quote :: acc), rest)
    else if c = quote then .ok (collected (quote :: acc), d :: rest)
    else .ok (collected acc, c :: d :: rest)
  | [c] =>
    if c = quote then .ok (collected (quote :: acc), []) else .ok (collected acc, [c])
  | [] => .ok (collected acc, [])

/-- What follows the opening quotes of a string on several lines. While `skipping`, blanks and line
breaks are dropped. -/
def multilineBasic (skipping : Bool) (acc : List Char) : Reader String
  | [] => .error (.expected "closing quotes")
  | '"' :: '"' :: '"' :: rest => closeWith '"' acc rest
  | '"' :: rest => multilineBasic false ('"' :: acc) rest
  | '\n' :: rest => multilineBasic skipping (if skipping then acc else '\n' :: acc) rest
  | '\r' :: '\n' :: rest => multilineBasic skipping (if skipping then acc else '\n' :: acc) rest
  | '\\' :: 'u' :: a :: b :: c :: d :: rest =>
    match scalar? [a, b, c, d] with
    | some x => multilineBasic false (x :: acc) rest
    | none => .error .badEscape
  | '\\' :: 'U' :: a :: b :: c :: d :: e :: f :: g :: h :: rest =>
    match scalar? [a, b, c, d, e, f, g, h] with
    | some x => multilineBasic false (x :: acc) rest
    | none => .error .badEscape
  | '\\' :: c :: rest =>
    match escaped? c with
    | some x => multilineBasic false (x :: acc) rest
    | none =>
      if breaksLine (c :: rest) then multilineBasic true acc (c :: rest) else .error .badEscape
  | c :: rest =>
    if skipping && isSpace c then multilineBasic true acc rest
    else if isBasicChar c then multilineBasic false (c :: acc) rest
    else .error (.expected "closing quotes")

/-- What follows the opening apostrophes of a string on several lines. -/
def multilineLiteral (acc : List Char) : Reader String
  | [] => .error (.expected "closing apostrophes")
  | '\'' :: '\'' :: '\'' :: rest => closeWith '\'' acc rest
  | '\'' :: rest => multilineLiteral ('\'' :: acc) rest
  | '\n' :: rest => multilineLiteral ('\n' :: acc) rest
  | '\r' :: '\n' :: rest => multilineLiteral ('\n' :: acc) rest
  | c :: rest =>
    if isLiteralChar c then multilineLiteral (c :: acc) rest
    else .error (.expected "closing apostrophes")

/-- Without a line break at the very front. -/
def skipLineBreak : List Char → List Char
  | '\n' :: rest => rest
  | '\r' :: '\n' :: rest => rest
  | cs => cs

/-- A string of any form. -/
def string : Reader String
  | '"' :: '"' :: '"' :: rest => multilineBasic false [] (skipLineBreak rest)
  | '"' :: rest => basicString [] rest
  | '\'' :: '\'' :: '\'' :: rest => multilineLiteral [] (skipLineBreak rest)
  | '\'' :: rest => literalString [] rest
  | _ => .error (.expected "a string")

/-! ## Keys -/

/-- One part of a key: quoted, or a run of letters, digits, hyphens and underscores. -/
def keyPart : Reader String
  | '"' :: rest => basicString [] rest
  | '\'' :: rest => literalString [] rest
  | cs =>
    match cs.takeWhile isBareChar with
    | [] => .error (.expected "a key")
    | bare => .ok (.ofList bare, cs.dropWhile isBareChar)

/-- The parts of a key, with dots between them. -/
def keyParts : (fuel : Nat) → Reader (List String)
  | 0, _ => .error .tooDeep
  | fuel + 1, cs => do
    let (part, rest) ← keyPart (skipSpaces cs)
    match skipSpaces rest with
    | '.' :: rest =>
      let (parts, rest) ← keyParts fuel rest
      return (part :: parts, rest)
    | rest => return ([part], rest)

/-- A key. Blanks around it and its dots are skipped. -/
def key : Reader (List String) :=
  keyParts (nestingLimit - 1)

end ModuleGraph.Document.Toml
