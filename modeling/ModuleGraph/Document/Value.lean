/-!
# Document values

`Value` is the tree that a configuration is read from and a report is written as, whatever the
concrete notation: tables of named values, arrays and scalars. Tables keep the order of their
fields.

`Value.record`, `Value.asString` and their kin take a value apart and say what is wrong with one
of another shape.
-/

namespace ModuleGraph.Document

/-- A tree of tables, arrays and scalars. Floating-point numbers and points in time are kept as
they were written. -/
inductive Value where
  | null
  | boolean (value : Bool)
  | integer (value : Int)
  | float (literal : String)
  | moment (literal : String)
  | string (value : String)
  | array (items : List Value)
  | table (fields : List (String × Value))
deriving Inhabited

/-- Why a value does not have the expected shape. -/
inductive ShapeError where
  | missing (field : String)
  | expected (kind : String)
deriving DecidableEq, Repr, Inhabited

/-- The wording of a shape error. -/
def ShapeError.message : ShapeError → String
  | missing field => s!"missing field {field}"
  | expected kind => s!"expected {kind}"

namespace Value

/-- A list of strings as a value. -/
def strings (items : List String) : Value :=
  array (items.map string)

/-- The string that a value is. -/
def asString : Value → Except ShapeError String
  | string s => .ok s
  | _ => .error (.expected "a string")

/-- The truth value that a value is. -/
def asBool : Value → Except ShapeError Bool
  | boolean b => .ok b
  | _ => .error (.expected "a boolean")

/-- The items of an array, each read by `read`. -/
def asList (read : Value → Except ShapeError α) : Value → Except ShapeError (List α)
  | array items => items.mapM read
  | _ => .error (.expected "an array")

/-- A value that may be null, else read by `read`. -/
def asOption (read : Value → Except ShapeError α) : Value → Except ShapeError (Option α)
  | null => .ok none
  | value => (read value).map some

/-- How to find the fields of a record in a value. A table has them by name. An array has them by
position, in the given order; items beyond the last field are an error unless `surplus` is set. A
point in time has none of them. -/
def record (surplus : Bool) (names : List String) :
    Value → Except ShapeError (String → Option Value)
  | table fields => .ok fun name => fields.lookup name
  | array items =>
    if !surplus && names.length < items.length then .error (.expected "fewer items")
    else .ok fun name => (names.zip items).lookup name
  | moment _ => .ok fun _ => none
  | _ => .error (.expected "a table")

end Value

/-- Reads a field that must be there. -/
def required (field : String → Option Value) (name : String)
    (read : Value → Except ShapeError α) : Except ShapeError α :=
  match field name with
  | some value => read value
  | none => .error (.missing name)

/-- Reads a field that may be left out. -/
def withDefault (field : String → Option Value) (name : String) (default : α)
    (read : Value → Except ShapeError α) : Except ShapeError α :=
  match field name with
  | some value => read value
  | none => .ok default

end ModuleGraph.Document
