/-
Stencil/Sources.lean

Where an engine looks up the names of sources.  The sources in files below a
directory are named by their paths from there, and a name is taken for a path only
if it goes down all the way: it is not absolute, does not start at `.`, and never
steps up.
-/
import Stencil.Bindings
import Stencil.Text.Search

namespace Stencil

/-! ### Files below a directory -/

/-- The components of a path: names, and besides them `/` for the root of the file system, `.` for the
place where one is and `..` for a step up. -/
abbrev Path := List String

/-- The parts of a path between its slashes. -/
def pathPieces (path : String) : List String :=
  (Text.splitAll ['/'] path.toList).map String.ofList

/-- The steps that a path takes: pieces that are empty or `.` do not count. -/
def pathSteps (path : String) : Path :=
  (pathPieces path).filter fun piece => piece ≠ "" && piece ≠ "."

/-- Where a path says that it starts: at the root, or where one is. -/
def pathStart? (path : String) : Option String :=
  if path.toList.head? = some '/' then some "/"
  else if (pathPieces path).head? = some "." then some "."
  else none

/-- The components of a path. -/
def components (path : String) : Path := (pathStart? path).toList ++ pathSteps path

/-- The component is a name. -/
def isPathName (component : String) : Bool :=
  component ≠ "/" && component ≠ "." && component ≠ ".."

/-- The character does not occur in identifiers of files. -/
def isForbidden (c : Char) : Bool := c = '\n' || c = '\r' || c = '\x00'

/-- The names that an identifier leads down, if it is one of a file: all its components have to be
names. -/
def relativePath? (identifier : String) : Option Path :=
  if identifier.isEmpty || identifier.toList.any isForbidden then none
  else if (components identifier).all isPathName then some (components identifier)
  else none

/-- The identifier ends with a name, so that it can be one of a file; otherwise only a directory can
stand there. -/
def endsWithName (identifier : String) : Bool :=
  match (pathPieces identifier).getLast? with
  | some piece => piece ≠ "" && piece ≠ "."
  | none => false

/-- A directory of sources, and all files there are. -/
structure Directory where
  base : Path
  files : List (Path × ByteArray)

namespace Directory

/-- The file that an identifier names. -/
def path? (d : Directory) (identifier : String) : Option Path :=
  (relativePath? identifier).map (d.base ++ ·)

/-- The text of the file that an identifier names, if there is one and it holds text. -/
def read? (d : Directory) (identifier : String) : Option String :=
  match d.path? identifier with
  | some path =>
    if endsWithName identifier then (d.files.lookup path).bind String.fromUTF8? else none
  | none => none

end Directory

/-! ### The sources of an engine -/

/-- Where an engine looks up names. -/
inductive Sources where
  /-- No name is known. -/
  | nothing
  | memory (texts : Bindings String)
  | directory (files : Directory)
  /-- The host is asked every time, and can change its answers. -/
  | host

/-- The text that a name stands for, where the host would answer from `hosted`. -/
def Sources.resolve? (hosted : Bindings String) (name : String) : Sources → Option String
  | .nothing => none
  | .memory texts => texts.lookup name
  | .directory files => files.read? name
  | .host => hosted.lookup name

end Stencil
