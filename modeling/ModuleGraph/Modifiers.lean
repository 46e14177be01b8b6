/-!
# Modifiers of a dependence

A dependence may be public (handed on to those who depend on the requester), optional (satisfied
only if the target is there) and local (with access to what the target keeps to itself).
-/

namespace ModuleGraph

/-- A set of modifiers. -/
structure Modifiers where
  isPublic : Bool := false
  isOptional : Bool := false
  isLocal : Bool := false
deriving DecidableEq, Repr, Inhabited

namespace Modifiers

/-- The keywords, in the order in which they are written. -/
def keywords (m : Modifiers) : List String :=
  (if m.isPublic then ["public"] else []) ++
    (if m.isOptional then ["optional"] else []) ++
    (if m.isLocal then ["local"] else [])

/-- The keywords with spaces between them. -/
def text (m : Modifiers) : String :=
  " ".intercalate m.keywords

/-- The modifiers of an edge that two edges fall together into: optional only if both are, public
and local if one is. -/
def combine (m n : Modifiers) : Modifiers where
  isPublic := m.isPublic || n.isPublic
  isOptional := m.isOptional && n.isOptional
  isLocal := m.isLocal || n.isLocal

theorem combine_comm (m n : Modifiers) : m.combine n = n.combine m := by
  simp [combine, Bool.or_comm, Bool.and_comm]

theorem combine_assoc (m n o : Modifiers) :
    (m.combine n).combine o = m.combine (n.combine o) := by
  simp [combine, Bool.or_assoc, Bool.and_assoc]

@[simp]
theorem combine_self (m : Modifiers) : m.combine m = m := by
  simp [combine]

end Modifiers

end ModuleGraph
