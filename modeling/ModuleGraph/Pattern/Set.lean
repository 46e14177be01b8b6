import ModuleGraph.Pattern.Reading

/-!
# Pattern lists

A name is selected by a list of patterns if one of its members selects it.
-/

namespace ModuleGraph

/-- Patterns in the order in which they were given. -/
structure PatternSet where
  patterns : List Pattern := []
deriving DecidableEq, Repr, Inhabited

namespace PatternSet

/-- The set that texts denote; the first one that is no pattern is the error. -/
def parse (inputs : List String) : Except PatternError PatternSet :=
  (inputs.mapM Pattern.parse).map PatternSet.mk

/-- With one more pattern at the end. -/
def push (set : PatternSet) (pattern : Pattern) : PatternSet :=
  ⟨set.patterns ++ [pattern]⟩

/-- The number of patterns, repetitions included. -/
def size (set : PatternSet) : Nat :=
  set.patterns.length

/-- Whether there is no pattern at all. -/
def isEmpty (set : PatternSet) : Bool :=
  set.patterns.isEmpty

/-- Whether some member selects the class. -/
def selectsClass (set : PatternSet) (name : String) : Bool :=
  set.patterns.any (·.selectsClass name)

/-- Whether some member selects the resource. -/
def selectsResource (set : PatternSet) (path : String) : Bool :=
  set.patterns.any (·.selectsResource path)

end PatternSet

end ModuleGraph
