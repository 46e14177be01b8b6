import ModuleGraph.Text.Ends
import ModuleGraph.Text.Split

/-!
# Qualified names

A dotted name consists of a package and a simple name; the last dot separates them, and a name
without a dot lies in the nameless package. A resource path is cut at its last slash in the same
way, and its directory denotes a package when slashes are read as dots.

**Statements.** A name that is given by its parts has these parts (`ofClass_append`,
`ofPath_append`), and so has one that is a simple name alone (`ofClass_of_not_mem`,
`ofPath_of_not_mem`).
-/

namespace ModuleGraph

/-- A unit's place: its package and its name inside the package. -/
structure QualifiedName where
  package : String
  simple : String
deriving DecidableEq, Repr, Inhabited

namespace QualifiedName

variable {p m d f : String}

/-- Reads slashes as dots. -/
def dotted (cs : List Char) : List Char :=
  cs.map fun c => if c = '/' then '.' else c

/-- The package and simple name of a dotted name. -/
def ofClass (name : String) : QualifiedName :=
  match Text.cutLast '.' name.toList with
  | some (package, simple) => ⟨.ofList package, .ofList simple⟩
  | none => ⟨"", name⟩

/-- The package and file name of a resource path. -/
def ofPath (path : String) : QualifiedName :=
  match Text.cutLast '/' path.toList with
  | some (directory, file) => ⟨.ofList (dotted directory), .ofList file⟩
  | none => ⟨"", path⟩

/-- The package and the simple name with a dot between them, or the simple name alone in the
nameless package. -/
def joined (name : QualifiedName) : String :=
  if name.package = "" then name.simple else name.package ++ "." ++ name.simple

/-- The last dot parts the package from the simple name. -/
theorem ofClass_append {rest : String} (h : '.' ∉ rest.toList) :
    ofClass (p ++ "." ++ rest) = ⟨p, rest⟩ := by
  have hlist : (p ++ "." ++ rest).toList = p.toList ++ '.' :: rest.toList := by
    rw [String.toList_append, String.toList_append, List.append_assoc]
    rfl
  rw [ofClass, hlist, Text.cutLast_append_cons h]
  dsimp only
  rw [String.ofList_toList, String.ofList_toList]

theorem ofClass_of_not_mem (h : '.' ∉ m.toList) : ofClass m = ⟨"", m⟩ := by
  rw [ofClass, Text.cutLast_eq_none_iff.2 h]

/-- The last slash parts the directory from the file name. -/
theorem ofPath_append (h : '/' ∉ f.toList) :
    ofPath (d ++ "/" ++ f) = ⟨.ofList (dotted d.toList), f⟩ := by
  have hlist : (d ++ "/" ++ f).toList = d.toList ++ '/' :: f.toList := by
    rw [String.toList_append, String.toList_append, List.append_assoc]
    rfl
  rw [ofPath, hlist, Text.cutLast_append_cons h]
  dsimp only
  rw [String.ofList_toList]

theorem ofPath_of_not_mem (h : '/' ∉ f.toList) : ofPath f = ⟨"", f⟩ := by
  rw [ofPath, Text.cutLast_eq_none_iff.2 h]

end QualifiedName

end ModuleGraph
