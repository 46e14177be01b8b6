import ModuleGraph.Config.ModuleSpec
import ModuleGraph.Dependence
import ModuleGraph.Package

/-!
# Views

A view is a set of exported packages under a name. A module has a default view of its own name,
an internal view that exports all of its packages unless that is switched off, and the views that
were declared for it.

* `View.forModule` lists the views of a module.
* `View.forPackage?` is the view through which a reference into a package goes.
* `View.select` is the view that a dependence is bound to.
-/

namespace ModuleGraph

/-- What kind of surface a view is. -/
inductive ViewKind where
  | default
  | internal
  | named
deriving DecidableEq, Repr, Inhabited

/-- A named set of exported packages. -/
structure View where
  name : String
  kind : ViewKind
  exports : Std.TreeSet String := {}
  permits : Std.TreeSet String := {}
  mainClass : Option String := none
deriving Inhabited

/-- The word for a kind of view. -/
def ViewKind.word : ViewKind → String
  | default => "default"
  | internal => "internal"
  | named => "named"

namespace View

/-- The names of the packages that pass a test. -/
def packagesWhere (packages : Packages) (test : PackageSummary → Bool) : Std.TreeSet String :=
  stringSet ((packages.values.filter test).map (·.name))

/-- The view of a module's own name: it exports the exported packages. -/
def ofModule (name : String) (mainClass : Option String) (packages : Packages) : View :=
  { name, kind := .default, exports := packagesWhere packages (·.exported), mainClass }

/-- The internal view of a module: it exports every package with classes. -/
def internalOf (name : String) (packages : Packages) : View :=
  { name := internalViewName name, kind := .internal,
    exports := packagesWhere packages (·.hasClasses) }

/-- A declared view. -/
def ofSpec (spec : ViewSpec) : View :=
  { name := spec.name, kind := .named, exports := spec.exports,
    permits := stringSet spec.permits, mainClass := spec.mainClass }

/-- The views of a module. -/
def forModule (name : String) (mainClass : Option String) (internalView : Bool)
    (declared : List ViewSpec) (packages : Packages) : List View :=
  ofModule name mainClass packages ::
    (if internalView then [internalOf name packages] else []) ++ declared.map ofSpec

/-- The first view of a kind. -/
def ofKind? (views : List View) (kind : ViewKind) : Option View :=
  views.find? (·.kind == kind)

/-- The first view of a name. -/
def find? (views : List View) (name : String) : Option View :=
  List.find? (·.name == name) views

/-- The view through which a reference into a package goes: a named view that exports it, else the
default view if that exports it, else the internal view. -/
def forPackage? (views : List View) (package : String) : Option View :=
  (views.find? fun v => v.kind == .named && v.exports.contains package).or
    (((ofKind? views .default).filter (·.exports.contains package)).or (ofKind? views .internal))

/-- The view a dependence of `requester` is bound to. A dependence under the name of a view is
bound to that view. Otherwise an edge into packages that are not exported needs the internal view,
a local edge takes the internal view if there is one and local edges are not allowed the default
view, and every other edge takes the default view. -/
def select (views : List View) (dep : Dependence) (requester : String) (allowLocalDefault : Bool) :
    Except BuildError View :=
  let byName := if dep.targetsView then find? views dep.target else none
  let wantsInternal := dep.isInternal || (dep.modifiers.isLocal && !allowLocalDefault)
  let byKind :=
    if wantsInternal then
      (ofKind? views .internal).or (if dep.isInternal then none else ofKind? views .default)
    else ofKind? views .default
  match byName.or byKind with
  | some view => .ok view
  | none => .error (.viewNotFound requester dep.text)

end View

end ModuleGraph
