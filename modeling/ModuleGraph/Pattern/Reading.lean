import ModuleGraph.Pattern.Basic
import ModuleGraph.Text.Blank

/-!
# Reading a pattern

`Pattern.parse` trims its input, refuses blanks inside, reads slashes as dots and then tells the
form from the stars at the end. A star anywhere else, or a package wildcard without a package,
is refused.
-/

namespace ModuleGraph

/-- Why a text is no pattern; the text is kept as it was given. -/
inductive PatternError where
  | empty
  | blank (input : String)
  | misplacedWildcard (input : String)
deriving DecidableEq, Repr, Inhabited

/-- The wording of a pattern error. -/
def PatternError.message : PatternError → String
  | empty => "Empty pattern"
  | blank input => s!"Pattern contains whitespace: '{input}'"
  | misplacedWildcard input =>
    s!"Wildcard is only allowed at the end of a pattern: '{input}'"

namespace Pattern

/-- A name with at least one character and no star. -/
def isStem (cs : List Char) : Bool :=
  !cs.isEmpty && !cs.contains '*'

/-- The pattern that a text without blanks and slashes denotes, if its stars are in place. -/
def ofDotted? (cs : List Char) : Option Pattern :=
  if cs = ['*'] ∨ cs = ['*', '*'] then some all
  else
    match Text.stripEnd? ['.', '*', '*'] cs with
    | some stem => if isStem stem then some (subtree (.ofList stem)) else none
    | none =>
      match Text.stripEnd? ['.', '*'] cs with
      | some stem => if isStem stem then some (package (.ofList stem)) else none
      | none =>
        match Text.stripEnd? ['*'] cs with
        | some stem =>
          if stem.contains '*' then none
          else
            let name := QualifiedName.ofClass (.ofList stem)
            some (starting name.package name.simple)
        | none => if isStem cs then some (exact (.ofList cs)) else none

/-- The pattern that a text denotes. -/
def parse (input : String) : Except PatternError Pattern :=
  let cs := Text.trim input.toList
  if cs.isEmpty then .error .empty
  else if cs.any Text.isBlank then .error (.blank input)
  else
    match ofDotted? (QualifiedName.dotted cs) with
    | some pattern => .ok pattern
    | none => .error (.misplacedWildcard input)

end Pattern

end ModuleGraph
