import ModuleGraph.Config.Declaration
import ModuleGraph.Pattern.Set
import ModuleGraph.Text.Letter

/-!
# Validation of a configuration

`Configuration.validate` checks each declaration on its own, in order; names that refer to other
modules are checked once all modules are known. The first fault found is the error.

* Versions are not blank.
* The names of modules and views are dot-separated segments of letters, numerals, underscores and
  hyphens.
* No module is a member of itself, and its views have names of their own.
* All patterns can be read.
-/

namespace ModuleGraph

/-- What is wrong with a configuration. -/
inductive ConfigFault where
  | blankDefaultVersion
  | badModuleName (name : String)
  | memberOfItself (name : String)
  | blankVersion (name : String)
  | namelessRequirement (name : String)
  | badViewName (name view : String)
  | duplicateView (name view : String)
  | clashWithInternalView (name view : String)
  | namelessEdgeEnd
  | badPattern (name : String) (error : PatternError)
deriving DecidableEq, Repr, Inhabited

/-- The wording of a fault. -/
def ConfigFault.message : ConfigFault → String
  | blankDefaultVersion => "Invalid config: Default version cannot be empty"
  | badModuleName name =>
    s!"Invalid config: Invalid module name: \"{name}\". Must be dot-separated identifiers"
  | memberOfItself name => s!"Invalid config: Module \"{name}\" cannot be a member of itself"
  | blankVersion name => s!"Invalid config: Module \"{name}\" has an empty version"
  | namelessRequirement name =>
    s!"Invalid config: Module \"{name}\" has a requires entry without a name"
  | badViewName name view =>
    s!"Invalid config: Module \"{name}\" has an invalid view name \"{view}\""
  | duplicateView name view => s!"Invalid config: Duplicate view \"{view}\" in module \"{name}\""
  | clashWithInternalView name view =>
    s!"Invalid config: View \"{view}\" clashes with the internal view of \"{name}\""
  | namelessEdgeEnd => "Invalid config: Dependency endpoints cannot be empty"
  | badPattern name error => s!"Invalid pattern in module \"{name}\": {error.message}"

/-- A character of a module name other than the dot. -/
def isModuleNameChar (c : Char) : Bool :=
  Text.isAlphanumeric c || c == '_' || c == '-'

/-- Dot-separated segments, none of them empty. -/
def isModuleName (name : String) : Bool :=
  (Text.splitWhen (· == '.') name.toList).all fun segment =>
    !segment.isEmpty && segment.all isModuleNameChar

/-- The name of a module's internal view. -/
def internalViewName (name : String) : String :=
  name ++ ".internal"

/-- A text of blanks only. -/
def isBlankText (text : String) : Bool :=
  text.toList.all Text.isBlank

/-- Reads the patterns of a module. -/
def readPatterns (name : String) (inputs : List String) : Except ConfigFault PatternSet :=
  match PatternSet.parse inputs with
  | .ok set => .ok set
  | .error e => .error (.badPattern name e)

/-- The name under which faults in rules for optional references are reported. -/
def optionalRulesName : String := "[[optional]]"

/-- Reads a pattern of a rule for optional references. -/
def readRulePattern (input : String) : Except ConfigFault Pattern :=
  match Pattern.parse input with
  | .ok pattern => .ok pattern
  | .error e => .error (.badPattern optionalRulesName e)

/-- An error if the condition holds. -/
def refuseIf (condition : Bool) (fault : ConfigFault) : Except ConfigFault Unit :=
  if condition then .error fault else .ok ()

namespace ModuleDeclaration

/-- Checks the names of views against each other and the names already in use. -/
def validateViews (m : ModuleDeclaration) (used : List String) :
    List ViewDeclaration → Except ConfigFault Unit
  | [] => .ok ()
  | view :: rest => do
    refuseIf (!isModuleName view.name) (.badViewName m.name view.name)
    refuseIf (used.contains view.name) (.duplicateView m.name view.name)
    refuseIf (m.internalView && view.name == internalViewName m.name)
      (.clashWithInternalView m.name view.name)
    m.validateViews (view.name :: used) rest

/-- Checks one module. -/
def validate (m : ModuleDeclaration) : Except ConfigFault Unit := do
  refuseIf (!isModuleName m.name) (.badModuleName m.name)
  refuseIf (m.members.contains m.name) (.memberOfItself m.name)
  refuseIf (m.version.any isBlankText) (.blankVersion m.name)
  refuseIf (m.requires.any (·.name == "")) (.namelessRequirement m.name)
  m.validateViews [m.name] m.views
  let _ ← readPatterns m.name m.roots
  let _ ← readPatterns m.name m.includes
  let _ ← readPatterns m.name m.excludes
  return ()

end ModuleDeclaration

namespace Configuration

/-- Checks the patterns of a rule for optional references. -/
def validateRule (rule : OptionalDeclaration) : Except ConfigFault Unit := do
  let _ ← readRulePattern rule.source
  let _ ← readRulePattern rule.target
  return ()

/-- Checks a whole configuration. -/
def validate (c : Configuration) : Except ConfigFault Unit := do
  refuseIf (isBlankText c.settings.version) .blankDefaultVersion
  c.modules.forM ModuleDeclaration.validate
  c.dependencies.forM fun edge =>
    refuseIf (edge.source == "" || edge.target == "") .namelessEdgeEnd
  c.optional.forM validateRule

end Configuration

end ModuleGraph
