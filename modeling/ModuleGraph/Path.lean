import ModuleGraph.Text.Split

/-!
# Paths

A path is a text whose names stand between slashes. It starts at the root of the file system if it
begins with a slash, and at the working directory otherwise.

* `Path.join` goes on from a directory along another path.
* `Path.steps` are the moves that a path stands for.
* `Path.upward` is a path with the paths above it, each of which leads to the place of the next.
* `Path.fault?` tells why a path leads nowhere, whatever files there are. Such failures are
  `FileError`s.
-/

namespace ModuleGraph

/-- Why a file or directory could not be read or written. -/
inductive FileError where
  | notFound
  | alreadyExists
  | notADirectory
  | isADirectory
  /-- A name or a whole path has more bytes than it may have. -/
  | nameTooLong
  | nulInName
  /-- The bytes of a text file are no UTF-8. -/
  | notText
  | other (reason : String)
deriving DecidableEq, Repr, Inhabited

/-- The wording of a file error. -/
def FileError.message : FileError → String
  | notFound => "No such file or directory (os error 2)"
  | alreadyExists => "File exists (os error 17)"
  | notADirectory => "Not a directory (os error 20)"
  | isADirectory => "Is a directory (os error 21)"
  | nameTooLong => "File name too long (os error 36)"
  | nulInName => "file name contained an unexpected NUL byte"
  | notText => "stream did not contain valid UTF-8"
  | other reason => reason

namespace Path

/-- Whether a path starts at the root of the file system. -/
def isAbsolute (path : String) : Bool :=
  path.toList.head? == some '/'

/-- Whether a path ends in a slash, so that it can only lead to a directory. -/
def endsInSlash (path : String) : Bool :=
  path.toList.getLast? == some '/'

/-- A path that is followed from a directory. -/
def join (directory path : String) : String :=
  if isAbsolute path || directory == "" then path
  else if endsInSlash directory then directory ++ path
  else directory ++ "/" ++ path

/-! ## Steps -/

/-- One step of a path. -/
inductive Step where
  | stay
  | up
  | into (name : String)
deriving DecidableEq, Repr, Inhabited

/-- The step that a segment between slashes stands for. -/
def Step.ofSegment (segment : List Char) : Option Step :=
  if segment = [] then none
  else if segment = ['.'] then some stay
  else if segment = ['.', '.'] then some up
  else some (into (.ofList segment))

/-- The steps of a path. -/
def steps (path : String) : List Step :=
  (Text.splitWhen (· == '/') path.toList).filterMap Step.ofSegment

/-! ## Paths above a path -/

/-- The segments that tell a path from the one above it. Only at the start does a dot count. -/
def segments (path : String) : List (List Char) :=
  match Text.splitWhen (· == '/') path.toList with
  | [] => []
  | first :: rest => [first].filter (· ≠ []) ++ rest.filter fun s => s ≠ [] && s ≠ ['.']

/-- The path along segments. -/
def ofSegments (absolute : Bool) (segments : List (List Char)) : String :=
  .ofList ((if absolute then ['/'] else []) ++ List.intercalate ['/'] segments)

/-- A path and the paths above it, the longest first. The start of the path is left out. -/
def upward (path : String) : List String :=
  let all := segments path
  if all = [] then []
  else
    path :: ((List.range all.length).drop 1).reverse.map fun n =>
      ofSegments (isAbsolute path) (all.take n)

/-! ## Paths that lead nowhere -/

/-- The bytes that a path may have. -/
def limit : Nat := 4095

/-- Why a path leads nowhere, whatever files there are. -/
def fault? (path : String) : Option FileError :=
  if path.toList.contains '\x00' then some .nulInName
  else if path == "" then some .notFound
  else if limit < path.utf8ByteSize then some .nameTooLong
  else none

end Path

end ModuleGraph
