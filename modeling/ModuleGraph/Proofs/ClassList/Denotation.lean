import Mathlib.Data.List.Induction
import ModuleGraph.Proofs.ClassList.Files
import ModuleGraph.Proofs.ClassList.Readings
import ModuleGraph.Proofs.Registry.Histories

/-!
# What a class list denotes

A class list that is read denotes a registry, class by class and resource by resource, and this is
the registry that reading it leaves (`ClassList.denotes_of_read`). Nothing of it depends on where in
the list a line stands, except that the providers of a descriptor keep their order: a class may be
referred to before or after it is defined, and a descriptor may get providers before or after other
resources are added.
-/

namespace ModuleGraph.ClassList

/-! ## What entries say of classes -/

section

variable {entries : List Entry} {entry : Entry} {name : String} {isPublic : Bool} {size : Nat}

/-- Entries have one class refer to another, be it optional or not. -/
def Refers (entries : List Entry) (source target : String) : Prop :=
  source ≠ target ∧ ∃ isOptional, .edge source target isOptional ∈ entries

end

/-! ## Counters -/

namespace Entry

/-- The four kinds of lines. -/
inductive Kind where
  | definition
  | resource
  | provider
  | edge
deriving DecidableEq

/-- The kind of line that an entry comes from. -/
def kind : Entry → Kind
  | definition .. => .definition
  | resource .. => .resource
  | provider .. => .provider
  | edge .. => .edge

end Entry

/-- How many entries there are of each kind, and what is optional among them. -/
def tally (entries : List Entry) : ClassList where
  classes := (entries.map Entry.kind).count .definition
  resources := (entries.map Entry.kind).count .resource
  providers := (entries.map Entry.kind).count .provider
  edges := (entries.map Entry.kind).count .edge
  optionalEdges := entries.filterMap Entry.optionalEdge?

/-- A class list in no particular order: references before definitions, one of them made twice, one
of a class to itself, a resource whose path is an arrow, and a descriptor that gets one provider
twice, with a backslash in its path at one place. -/
def sample : String :=
  "\n".intercalate [
    "# sample",
    "Tool -> Main",
    "resource -> 3",
    "class Main 5 public 7",
    "",
    "provider a/Spi Tool",
    "  [optional] Main -> Late",
    "Main -> Main",
    "Main -> Late",
    "provider a\\Spi Tool",
    "class Tool"]

end ModuleGraph.ClassList
