import ModuleGraph.Config.Validation

/-!
# Errors of a build
-/

namespace ModuleGraph

/-- Why a build stops. Every cause names the module or item to blame. -/
inductive BuildError where
  | config (fault : ConfigFault)
  | duplicateModule (name : String)
  | duplicateView (name view : String)
  | unknownModule (name context : String)
  | memberCycle (name : String)
  | multipleParents (name first second : String)
  /-- The names along a cycle of dependences, the first one repeated at the end. -/
  | dependencyCycle (names : List String)
  | ownershipViolation (item owner claimant : String)
  | conflictingDependence (name existing incoming : String)
  | viewNotFound (name dependence : String)
  | permitsFrozen (name permit : String)
  | missingModuleInfo (name : String)
  | duplicateModuleInfo (name : String)
  | platformModuleMissing (role name : String)
  | bootMergedIntoBase (boot base : String)
  | platformTableMissing
deriving DecidableEq, Repr, Inhabited

/-- The wording of a build error. -/
def BuildError.message : BuildError → String
  | config fault => fault.message
  | duplicateModule name => s!"Module \"{name}\" already exists"
  | duplicateView name view =>
    s!"View \"{view}\" of module \"{name}\" clashes with an existing module or view"
  | unknownModule name context =>
    s!"Module \"{name}\" referenced by {context} doesn't exist"
  | memberCycle name => s!"Cycle detected in module members: module {name}"
  | multipleParents name first second =>
    s!"Module \"{name}\" is a member of both \"{first}\" and \"{second}\""
  | dependencyCycle names =>
    "Circular module dependency detected: " ++ " -> ".intercalate names
  | ownershipViolation item owner claimant =>
    s!"{item} is already owned by module \"{owner}\"; \"{claimant}\" cannot claim it"
  | conflictingDependence name existing incoming =>
    s!"Unexpected dependence from \"{name}\": {existing} conflicts with {incoming}"
  | viewNotFound name dependence =>
    s!"Module \"{name}\" requires {dependence} but no view exports it"
  | permitsFrozen name permit =>
    s!"Permits of module \"{name}\" are frozen; cannot add \"{permit}\""
  | missingModuleInfo name => s!"No module info for module \"{name}\""
  | duplicateModuleInfo name => s!"Module info already created for \"{name}\""
  | platformModuleMissing role name =>
    s!"Platform configuration error: {role} module \"{name}\" is not declared"
  | bootMergedIntoBase boot base =>
    s!"Platform configuration error: boot module \"{boot}\" cannot be merged into base module " ++
      s!"\"{base}\""
  | platformTableMissing => "Platform configuration error: missing [platform] table"

end ModuleGraph
