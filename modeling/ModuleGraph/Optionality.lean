import ModuleGraph.Config.Validation
import ModuleGraph.Registry.Basic

/-!
# Optional references and declared edges

`OptionalRules` decides which references are optional: those that a pair of patterns selects, and
those that a class list marks. `DeclaredEdges` holds the edges between modules that no reference
shows.
-/

namespace ModuleGraph

/-- A test on the two ends of a reference. -/
abbrev Classifier := ClassEntry → ClassEntry → Bool

/-- Every reference is required. -/
def neverOptional : Classifier := fun _ _ => false

/-- Pairs of patterns and single references that make a reference optional. -/
structure OptionalRules where
  rules : List (Pattern × Pattern) := []
  edges : List (String × String) := []
deriving DecidableEq, Repr, Inhabited

namespace OptionalRules

/-- Reads a declared rule. -/
def readRule (decl : OptionalDeclaration) : Except ConfigFault (Pattern × Pattern) := do
  let source ← readRulePattern decl.source
  let target ← readRulePattern decl.target
  return (source, target)

/-- The declared rules. -/
def ofDeclarations (decls : List OptionalDeclaration) : Except ConfigFault OptionalRules :=
  (decls.mapM readRule).map fun rules => { rules }

/-- Both sets of rules together. -/
def extend (rules other : OptionalRules) : OptionalRules where
  rules := rules.rules ++ other.rules
  edges := rules.edges ++ other.edges

/-- With further marked references. -/
def withEdges (rules : OptionalRules) (edges : List (String × String)) : OptionalRules :=
  rules.extend { edges }

/-- Whether there is neither a rule nor a marked reference. -/
def isEmpty (rules : OptionalRules) : Bool :=
  rules.rules.isEmpty && rules.edges.isEmpty

/-- Whether a reference from one class to another is optional. -/
def isOptional (rules : OptionalRules) : Classifier := fun source target =>
  rules.edges.contains (source.name, target.name) ||
    rules.rules.any fun (sources, targets) =>
      sources.selectsClass source.name && targets.selectsClass target.name

end OptionalRules

/-- The declared edges between modules, in order. -/
structure DeclaredEdges where
  edges : List EdgeDeclaration := []
deriving DecidableEq, Repr, Inhabited

namespace DeclaredEdges

/-- The edges that leave a module, as the requirements that they amount to. -/
def leaving (declared : DeclaredEdges) (name : String) : List Requirement :=
  (declared.edges.filter (·.source == name)).map fun edge => ⟨edge.target, edge.modifiers⟩

/-- The names that edges leave from, in order and without repetition. -/
def sources (declared : DeclaredEdges) : List String :=
  (Std.TreeSet.ofList (declared.edges.map (·.source))).toList

end DeclaredEdges

end ModuleGraph
