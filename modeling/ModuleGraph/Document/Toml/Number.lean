import ModuleGraph.Document.Toml.Text
import ModuleGraph.Document.Value

/-!
# Numbers and dates of TOML

Integers have 64 bits and a sign. Floating-point numbers and dates are kept as they are written; a
floating-point number must not be above every finite one, and a date must exist.
-/

namespace ModuleGraph.Document.Toml

/-- Reads something off the front, or fails. -/
abbrev Scanner (α : Type) := List Char → Option (α × List Char)

/-! ## Digits -/

/-- The rest of a run of digits, which may be separated by single underscores. Collects the digits
from the last to the first. -/
def digitsAfter (isDigit : Char → Bool) (acc : List Char) : Scanner (List Char)
  | '_' :: d :: rest => if isDigit d then digitsAfter isDigit (d :: acc) rest else none
  | c :: rest =>
    if isDigit c then digitsAfter isDigit (c :: acc) rest
    else if c = '_' then none
    else some (acc.reverse, c :: rest)
  | [] => some (acc.reverse, [])

/-- A run of digits. -/
def digits (isDigit : Char → Bool) : Scanner (List Char)
  | c :: rest => if isDigit c then digitsAfter isDigit [c] rest else none
  | [] => none

/-- An optional sign; true stands for minus. -/
def sign : List Char → Bool × List Char
  | '-' :: rest => (true, rest)
  | '+' :: rest => (false, rest)
  | cs => (false, cs)

/-- Decimal digits without a superfluous zero in front. -/
def decimalDigits : Scanner (List Char)
  | '0' :: rest => some (['0'], rest)
  | cs => digits Char.isDigit cs

/-! ## Integers -/

/-- The number that digits of a base denote. -/
def valueInBase (base : Nat) (ds : List Char) : Nat :=
  ds.foldl (fun n c => base * n + (hexValue? c).getD 0) 0

/-- Integers are below this bound, and not below its negation. -/
def integerBound : Nat := 0x8000000000000000

/-- A number below the bound, from digits of a base. -/
def unsignedInteger (base : Nat) : Scanner Value := fun cs => do
  let isDigit := fun c => (hexValue? c).any (· < base)
  let (ds, rest) ← digits isDigit cs
  let n := valueInBase base ds
  if n < integerBound then return (.integer n, rest) else none

/-- An integer. -/
def integer : Scanner Value
  | '0' :: 'x' :: rest => unsignedInteger 16 rest
  | '0' :: 'o' :: rest => unsignedInteger 8 rest
  | '0' :: 'b' :: rest => unsignedInteger 2 rest
  | cs => do
    let (negative, cs) := sign cs
    let (ds, rest) ← decimalDigits cs
    let n := valueInBase 10 ds
    if negative then
      if n ≤ integerBound then return (.integer (-(n : Int)), rest) else none
    else if n < integerBound then return (.integer n, rest)
    else none

/-! ## Floating-point numbers -/

/-- The part of a number after its point. -/
def fraction : Scanner (List Char)
  | '.' :: rest => digits Char.isDigit rest
  | _ => none

/-- The exponent of a number. -/
def exponent : Scanner Int
  | c :: rest =>
    if c = 'e' ∨ c = 'E' then do
      let (negative, rest) := sign rest
      let (ds, rest) ← digits Char.isDigit rest
      let n : Int := valueInBase 10 ds
      return (if negative then -n else n, rest)
    else none
  | [] => none

/-- Whether `m * 10 ^ e` rounds to infinity in double precision: whether it is at least halfway from
the largest finite number to `2 ^ 1024`. -/
def overflows (m : Nat) (e : Int) : Bool :=
  let bound := Nat.pow 2 1024 - Nat.pow 2 970
  let width := (toString m).length
  if m = 0 then false
  else if (width : Int) + e > 400 then true
  else if (width : Int) + e < 300 then false
  else if 0 ≤ e then bound ≤ m * Nat.pow 10 e.toNat
  else bound * Nat.pow 10 (-e).toNat ≤ m

/-- The characters that a scanner has taken. -/
def taken (cs rest : List Char) : String :=
  .ofList (cs.take (cs.length - rest.length))

/-- A number with a fraction or an exponent. -/
def fractional : Scanner Value := fun cs => do
  let (negative, afterSign) := sign cs
  let (whole, afterWhole) ← decimalDigits afterSign
  let (part, exp, rest) ← match fraction afterWhole with
    | some (part, afterPart) =>
      match exponent afterPart with
      | some (exp, rest) => some (part, exp, rest)
      | none => some (part, 0, afterPart)
    | none => (exponent afterWhole).map fun (exp, rest) => ([], exp, rest)
  let m := valueInBase 10 (whole ++ part)
  if !negative && overflows m (exp - part.length) then none
  else return (.float (taken cs rest), rest)

/-- Infinity or the value that is no number. -/
def special : Scanner Value := fun cs =>
  match (sign cs).2 with
  | 'i' :: 'n' :: 'f' :: rest => some (.float (taken cs rest), rest)
  | 'n' :: 'a' :: 'n' :: rest => some (.float (taken cs rest), rest)
  | _ => none

/-! ## Dates and times -/

/-- A number of exactly `width` digits within bounds. -/
def fixed (width low high : Nat) : Scanner Nat := fun cs =>
  let ds := cs.take width
  let n := valueInBase 10 ds
  if ds.length = width ∧ ds.all Char.isDigit ∧ low ≤ n ∧ n ≤ high then some (n, cs.drop width)
  else none

/-- One given character. -/
def exactly (c : Char) : List Char → Option (List Char)
  | d :: rest => if d = c then some rest else none
  | [] => none

/-- The number of days of a month. -/
def daysOf (year month : Nat) : Nat :=
  if month = 2 then
    if year % 4 = 0 ∧ (year % 100 ≠ 0 ∨ year % 400 = 0) then 29 else 28
  else if month ∈ [4, 6, 9, 11] then 30
  else 31

/-- A date. -/
def date : Scanner Unit := fun cs => do
  let (year, cs) ← fixed 4 0 9999 cs
  let cs ← exactly '-' cs
  let (month, cs) ← fixed 2 1 12 cs
  let cs ← exactly '-' cs
  let (_, cs) ← fixed 2 1 (daysOf year month) cs
  return ((), cs)

/-- The fraction of a second, if there is one. -/
def secondFraction : List Char → List Char
  | '.' :: d :: rest => if d.isDigit then rest.dropWhile Char.isDigit else '.' :: d :: rest
  | cs => cs

/-- A time of day. -/
def time : Scanner Unit := fun cs => do
  let (_, cs) ← fixed 2 0 23 cs
  let cs ← exactly ':' cs
  let (_, cs) ← fixed 2 0 59 cs
  let cs ← exactly ':' cs
  let (_, cs) ← fixed 2 0 60 cs
  return ((), secondFraction cs)

/-- The distance from universal time. -/
def offset : Scanner Unit
  | 'Z' :: rest => some ((), rest)
  | 'z' :: rest => some ((), rest)
  | c :: rest =>
    if c = '+' ∨ c = '-' then do
      let (_, rest) ← fixed 2 0 23 rest
      let rest ← exactly ':' rest
      let (_, rest) ← fixed 2 0 59 rest
      return ((), rest)
    else none
  | [] => none

/-- What follows a date: a delimiter, a time and perhaps an offset. -/
def timeAfterDate : Scanner Unit
  | c :: rest =>
    if c = 'T' ∨ c = 't' ∨ c = ' ' then do
      let (_, rest) ← time rest
      return ((offset rest).getD ((), rest))
    else none
  | [] => none

/-- A date, a time, or both. -/
def moment : Scanner Value := fun cs => do
  let (_, rest) ← match date cs with
    | some (_, rest) => some ((timeAfterDate rest).getD ((), rest))
    | none => time cs
  return (.moment (taken cs rest), rest)

/-- A value that starts with a digit, a sign or a letter. -/
def number : Reader Value := fun cs =>
  match (moment cs).or ((fractional cs).or ((special cs).or (integer cs))) with
  | some result => .ok result
  | none => .error .badNumber

end ModuleGraph.Document.Toml
