import ModuleGraph.Text.Letter

/-!
# Quoted names

The form in which events show names: between quotes, with a backslash before quotes and
backslashes, and with control characters and letters that show nothing of their own given by their
code points.
-/

namespace ModuleGraph.Text

/-- The digits of a number in base sixteen, without leading zeros. -/
def hexDigits (n : Nat) : List Char :=
  Nat.toDigits 16 n

/-- A control character. -/
def isControl (c : Char) : Bool :=
  c.toNat < 0x20 || (0x7f ≤ c.toNat && c.toNat < 0xa0)

/-- The form of a character between quotes. -/
def showChar (c : Char) : List Char :=
  match c with
  | '"' => ['\\', '"']
  | '\\' => ['\\', '\\']
  | '\n' => ['\\', 'n']
  | '\r' => ['\\', 'r']
  | '\t' => ['\\', 't']
  | '\x00' => ['\\', '0']
  | c =>
    if isControl c || isDependent c then
      ['\\', 'u', '\x7b'] ++ hexDigits c.toNat ++ ['\x7d']
    else [c]

/-- A name between quotes. -/
def quoted (name : String) : String :=
  .ofList ('"' :: name.toList.flatMap showChar ++ ['"'])

/-- Names between quotes, in brackets. -/
def quotedList (names : List String) : String :=
  "[" ++ ", ".intercalate (names.map quoted) ++ "]"

end ModuleGraph.Text
