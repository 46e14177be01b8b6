import ModuleGraph.Path
import Std.Data.TreeMap.Basic

/-!
# File trees

A `FileTree` is the root directory and everything below it, held in memory, with a working directory
at which relative paths start. A path leads to a location, step by step; every step has to start at
a directory. The root lies above itself.

* `FileTree.read` is the text of a file.
* `FileTree.write` sets the text of a file, which may be new.
* `FileTree.makeDirectory` adds a directory.
* `FileTree.files` are the files below the working directory.
-/

namespace ModuleGraph

/-- The names that lead from the root to a place below it. -/
abbrev Location := List String

/-- What a location holds. -/
inductive FileEntry where
  | file (text : String)
  | directory
deriving DecidableEq, Repr, Inhabited

/-- Directories and files, seen from one of the directories. -/
structure FileTree where
  entries : Std.TreeMap Location FileEntry := {}
  /-- The working directory. -/
  home : Location := []
deriving Inhabited

namespace FileTree

/-! ## Locations -/

/-- The bytes that a name may have. -/
def nameLimit : Nat := 255

/-- Where a step from a directory leads. -/
def stepFrom (here : Location) : Path.Step → Except FileError Location
  | .stay => .ok here
  | .up => .ok here.dropLast
  | .into name =>
    if nameLimit < name.utf8ByteSize then .error .nameTooLong else .ok (here ++ [name])

/-- What a location holds; the root is a directory. -/
def entryAt (tree : FileTree) (location : Location) : Option FileEntry :=
  if location = [] then some .directory else tree.entries[location]?

/-- Checks that a location holds a directory. -/
def checkDirectory (tree : FileTree) (location : Location) : Except FileError Unit :=
  match tree.entryAt location with
  | none => .error .notFound
  | some (.file _) => .error .notADirectory
  | some .directory => .ok ()

/-- The location that steps lead to, from a directory on. Nothing need be there. -/
def walk (tree : FileTree) (here : Location) : List Path.Step → Except FileError Location
  | [] => .ok here
  | step :: rest => do
    tree.checkDirectory here
    tree.walk (← stepFrom here step) rest

/-- The directory at which a path starts. -/
def start (tree : FileTree) (path : String) : Location :=
  if Path.isAbsolute path then [] else tree.home

/-- Fails if a path leads nowhere, whatever files there are. -/
def checkPath (path : String) : Except FileError Unit :=
  match Path.fault? path with
  | some e => .error e
  | none => .ok ()

/-- The location that a path leads to. -/
def locate (tree : FileTree) (path : String) : Except FileError Location := do
  checkPath path
  tree.walk (tree.start path) (Path.steps path)

/-! ## Files and directories -/

/-- The text of a file. -/
def read (tree : FileTree) (path : String) : Except FileError String :=
  match tree.locate path with
  | .error e => .error e
  | .ok location =>
    match tree.entryAt location with
    | none => .error .notFound
    | some .directory => .error .isADirectory
    | some (.file text) => if Path.endsInSlash path then .error .notADirectory else .ok text

/-- Whether a path leads to a directory. -/
def isDirectory (tree : FileTree) (path : String) : Bool :=
  match tree.locate path with
  | .ok location => tree.entryAt location == some .directory
  | .error _ => false

/-- Sets what a location holds. -/
def put (tree : FileTree) (location : Location) (entry : FileEntry) : FileTree :=
  { tree with entries := tree.entries.insert location entry }

/-- Sets the text of a file, which may be new. -/
def write (tree : FileTree) (path text : String) : Except FileError FileTree :=
  match tree.locate path with
  | .error e => .error e
  | .ok location =>
    if tree.entryAt location = some .directory || Path.endsInSlash path then .error .isADirectory
    else .ok (tree.put location (.file text))

/-- Adds a directory to one that is there. A path that ends in a dot or two names a directory that
is there already. -/
def makeDirectory (tree : FileTree) (path : String) : Except FileError FileTree := do
  checkPath path
  let steps := Path.steps path
  let above ← tree.walk (tree.start path) steps.dropLast
  tree.checkDirectory above
  match steps.getLast? with
  | some (.into name) =>
    let location ← stepFrom above (.into name)
    if (tree.entryAt location).isSome then .error .alreadyExists
    else .ok (tree.put location .directory)
  | _ => .error .alreadyExists

/-! ## Contents -/

/-- The path that names lead along. -/
def pathOf (location : Location) : String :=
  "/".intercalate location

/-- The names that lead from the working directory to a location below it. -/
def fromHome? (tree : FileTree) (location : Location) : Option Location :=
  if tree.home.isPrefixOf location then some (location.drop tree.home.length) else none

/-- The files below the working directory, by path. -/
def files (tree : FileTree) : List (String × String) :=
  tree.entries.toList.filterMap fun
    | (location, .file text) => (tree.fromHome? location).map fun names => (pathOf names, text)
    | (_, .directory) => none

/-- Adds the directories that lead to a location. -/
def putAbove (tree : FileTree) (location : Location) : FileTree :=
  ((List.range location.length).drop 1).foldl (fun tree n => tree.put (location.take n) .directory)
    tree

/-- Puts a file into a tree together with the directories above it. -/
def place (tree : FileTree) (location : Location) (text : String) : FileTree :=
  (tree.putAbove location).put location (.file text)

/-- The location that steps lead to if every directory on the way is there. -/
def destination (here : Location) : List Path.Step → Location
  | [] => here
  | .stay :: rest => destination here rest
  | .up :: rest => destination here.dropLast rest
  | .into name :: rest => destination (here ++ [name]) rest

/-- The tree of a working directory with the given files. -/
def ofFiles (home : Location) (files : List (String × String)) : FileTree :=
  let empty : FileTree := { home }
  files.foldl (fun tree (path, text) => tree.place (destination home (Path.steps path)) text)
    ((empty.putAbove home).put home .directory)

/-- The files of a tree that another one does not hold with the same text. -/
def changesSince (tree before : FileTree) : List (String × String) :=
  tree.files.filter fun file => !before.files.contains file

end FileTree

end ModuleGraph
