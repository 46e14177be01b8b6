import ModuleGraph.FileTree
import ModuleGraph.Report.Actions

/-!
# File systems

`FileSystem m` is what a program needs of a file system, with effects in `m`. `FileTree.system`
works on a tree in memory. `FileSystem.makeDirectories` makes a directory and those above it, and
`FileSystem.performAll` carries out the steps that write a report.
-/

namespace ModuleGraph

/-- Access to files. -/
structure FileSystem (m : Type → Type) where
  read : String → m (Except FileError ByteArray)
  write : (path text : String) → m (Except FileError Unit)
  /-- The directory above it has to be there. -/
  makeDirectory : String → m (Except FileError Unit)
  isDirectory : String → m Bool

/-- Keeps the new tree if there is one. -/
def FileTree.commit (change : FileTree → Except FileError FileTree) :
    StateM FileTree (Except FileError Unit) := fun tree =>
  match change tree with
  | .ok changed => (.ok (), changed)
  | .error e => (.error e, tree)

/-- The file system of a tree in memory. -/
def FileTree.system : FileSystem (StateM FileTree) where
  read path := fun tree => ((tree.read path).map String.toUTF8, tree)
  write path text := commit (·.write path text)
  makeDirectory path := commit (·.makeDirectory path)
  isDirectory path := fun tree => (tree.isDirectory path, tree)

namespace FileSystem

variable {m : Type → Type} [Monad m]

/-- Makes a directory, or finds one there. -/
def ensureDirectory (fs : FileSystem m) (path : String) : m (Except FileError Unit) := do
  match ← fs.makeDirectory path with
  | .error .alreadyExists =>
    return if ← fs.isDirectory path then .ok () else .error .alreadyExists
  | result => return result

/-- Makes the first of some directories, each of which lies in the next. The others are made only
as far as they are missing. -/
def makeUpward (fs : FileSystem m) : List String → m (Except FileError Unit)
  | [] => return .ok ()
  | path :: above => do
    match ← fs.ensureDirectory path with
    | .error .notFound =>
      match ← fs.makeUpward above with
      | .ok () => fs.ensureDirectory path
      | .error e => return .error e
    | result => return result

/-- Makes a directory and the directories above it that are missing. -/
def makeDirectories (fs : FileSystem m) (path : String) : m (Except FileError Unit) :=
  fs.makeUpward (Path.upward path)

/-- Carries out a step in a directory. -/
def perform (fs : FileSystem m) (directory : String) : FileAction → m (Except FileError Unit)
  | .makeDirectory path => fs.makeDirectories (Path.join directory path)
  | .write path text => fs.write (Path.join directory path) text

/-- Carries out steps in a directory, up to the first that fails. -/
def performAll (fs : FileSystem m) (directory : String) :
    List FileAction → m (Except FileError Unit)
  | [] => return .ok ()
  | action :: rest => do
    match ← fs.perform directory action with
    | .ok () => fs.performAll directory rest
    | .error e => return .error e

end FileSystem

end ModuleGraph
