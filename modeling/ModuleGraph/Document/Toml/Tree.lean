import ModuleGraph.Document.Toml.Text
import ModuleGraph.Document.Value

/-!
# Tables under construction

A TOML document builds its tables piecemeal, by headers and by dotted keys, and every table may be
defined once. So a table remembers its origin: a header of its own, the header of a table below it,
or a dotted key. Array tables grow at the end, and a header that goes through one continues its last
table.

* `Entries.insert` sets a value under a dotted key,
* `Entries.openTable` and `Entries.openRow` are the effects of the two kinds of headers,
* `Entries.toFields` is the finished table.
-/

namespace ModuleGraph.Document.Toml

/-- How a table came to be. -/
inductive Origin where
  /-- It has a header of its own. -/
  | header
  /-- A table below it has a header. -/
  | implied
  /-- A dotted key leads through it. -/
  | dotted
deriving DecidableEq, Repr, Inhabited

/-- A value or table under construction. The rows of an array table are kept from the last to the
first. -/
inductive Tree where
  | leaf (value : Value)
  | table (origin : Origin) (entries : List (String × Tree))
  | rows (reversed : List (List (String × Tree)))
deriving Inhabited

/-- The entries of a table under construction. -/
abbrev Entries := List (String × Tree)

namespace Entries

/-- Sets the entry of a key to what `change` makes of the present one. -/
def alter (key : String) (change : Option Tree → Except TomlError Tree) :
    Entries → Except TomlError Entries
  | [] => do
    let tree ← change none
    return [(key, tree)]
  | (name, tree) :: rest =>
    if name = key then do
      let tree ← change (some tree)
      return (name, tree) :: rest
    else do
      let rest ← alter key change rest
      return (name, tree) :: rest

/-- Goes down a path and applies `change` to the table at its end, which is told the origin of the
table. Missing tables are added with origin `added`. Through a table with a header of its own only
headers lead, not dotted keys. -/
def within (added : Origin) :
    List String → (Origin → Entries → Except TomlError Entries) → Origin → Entries →
      Except TomlError Entries
  | [], change, origin, entries => change origin entries
  | key :: path, change, _, entries =>
    entries.alter key fun
      | none => do
        let below ← within added path change added []
        return .table added below
      | some (.leaf _) => .error (.notATable key)
      | some (.rows []) => .error (.notATable key)
      | some (.rows (last :: earlier)) => do
        let last ← within added path change .header last
        return .rows (last :: earlier)
      | some (.table origin below) =>
        if added = .dotted ∧ origin = .header then .error (.duplicateKey key)
        else do
          let below ← within added path change origin below
          return .table origin below

/-- Sets a value under a key that is not taken. -/
def set (key : String) (value : Value) (entries : Entries) : Except TomlError Entries :=
  entries.alter key fun
    | none => .ok (.leaf value)
    | some _ => .error (.duplicateKey key)

/-- Sets a value under a dotted key. Its table must be made by dotted keys alone. -/
def insert (path : List String) (key : String) (value : Value) (entries : Entries) :
    Except TomlError Entries :=
  within .dotted path
    (fun origin entries =>
      if path ≠ [] ∧ origin ≠ .dotted then .error (.duplicateKey key) else set key value entries)
    .header entries

/-- Gives a table a header of its own. -/
def openTable (path : List String) (key : String) (entries : Entries) :
    Except TomlError Entries :=
  within .implied path
    (fun _ entries =>
      entries.alter key fun
        | none => .ok (.table .header [])
        | some (.table .implied below) => .ok (.table .header below)
        | some _ => .error (.duplicateKey key))
    .header entries

/-- Starts a new row of an array table. -/
def openRow (path : List String) (key : String) (entries : Entries) : Except TomlError Entries :=
  within .implied path
    (fun _ entries =>
      entries.alter key fun
        | none => .ok (.rows [[]])
        | some (.rows reversed) => .ok (.rows ([] :: reversed))
        | some _ => .error (.duplicateKey key))
    .header entries

/-- Sets a value under a dotted key in the table of a header. -/
def insertUnder (header path : List String) (key : String) (value : Value) (entries : Entries) :
    Except TomlError Entries :=
  within .implied header (fun _ entries => insert path key value entries) .header entries

end Entries

mutual

/-- The finished value. -/
def Tree.toValue : Tree → Value
  | .leaf value => value
  | .table _ entries => .table (Entries.toFields entries)
  | .rows reversed => .array (Entries.toRows reversed).reverse

/-- The finished fields of a table. -/
def Entries.toFields : List (String × Tree) → List (String × Value)
  | [] => []
  | (name, tree) :: rest => (name, tree.toValue) :: Entries.toFields rest

/-- The finished rows of an array table, in the order in which they are kept. -/
def Entries.toRows : List (List (String × Tree)) → List Value
  | [] => []
  | row :: rest => .table (Entries.toFields row) :: Entries.toRows rest

end

end ModuleGraph.Document.Toml
