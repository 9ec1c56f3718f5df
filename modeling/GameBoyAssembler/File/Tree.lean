import GameBoyAssembler.File.Path

/-!
# Files

Files stand in folders below one root.  A path with a slash in front is followed from the root, and
any other from the working folder.  Dot-dot leads back to the folder above, and from the root to the
root.

* `FileFault` — why a file cannot be read or written;
* `FileTree` — all files with a working folder, held in memory;
* `FileTree.locate` — the place that a path leads to;
* `FileTree.read`, `FileTree.write` — reading and writing by path.
-/

set_option relaxedAutoImplicit false
set_option autoImplicit false

namespace GameBoyAssembler

/-- Why a file cannot be read or written. -/
inductive FileFault where
  | notFound
  | isFolder
  | notFolder
  | notText
  /-- Any other fault, as the system puts it. -/
  | system (text : String)
  deriving DecidableEq, Repr

def FileFault.text : FileFault → String
  | notFound => "No such file or directory (os error 2)"
  | isFolder => "Is a directory (os error 21)"
  | notFolder => "Not a directory (os error 20)"
  | notText => "stream did not contain valid UTF-8"
  | system text => text

/-- The names on the way from the root to a file or folder. -/
abbrev Place := List String

/-- Files by place, the folders that exist without a file in them, and the folder in which paths
start. -/
structure FileTree where
  files : List (Place × List UInt8)
  folders : List Place
  workingFolder : Place
  deriving DecidableEq, Repr

namespace FileTree

/-- The content of the file at a place. -/
def file? (t : FileTree) (place : Place) : Option (List UInt8) :=
  t.files.lookup place

/-- A place is a folder if it is on the way to something. -/
def isFolder (t : FileTree) (place : Place) : Bool :=
  place.isEmpty
    || t.folders.any (fun f => place.isPrefixOf f)
    || t.files.any (fun f => place.isPrefixOf f.1 && place != f.1)

/-- Follow the pieces of a path from a place on.  Each piece is looked up in a folder. -/
def walk (t : FileTree) : Place → List String → Except FileFault Place
  | place, [] => .ok place
  | place, name :: rest =>
      if t.isFolder place then
        if name = "" || name = "." then t.walk place rest
        else if name = ".." then t.walk place.dropLast rest
        else t.walk (place ++ [name]) rest
      else if (t.file? place).isSome then .error .notFolder
      else .error .notFound

/-- Where a path starts: at the root if there is a slash in front. -/
def start (t : FileTree) (path : String) : Place :=
  if path.toList.head? = some '/' then [] else t.workingFolder

/-- The place that a path leads to.  An empty path leads nowhere. -/
def locate (t : FileTree) (path : String) : Except FileFault Place :=
  if path.isEmpty then .error .notFound
  else t.walk (t.start path) ((pathPieces path.toList).map String.ofList)

/-- The content of the file that a path leads to. -/
def read (t : FileTree) (path : String) : Except FileFault (List UInt8) := do
  let place ← t.locate path
  match t.file? place with
  | some content => return content
  | none => throw (if t.isFolder place then .isFolder else .notFound)

/-- The tree with the content of one place replaced. -/
def put (t : FileTree) (place : Place) (content : List UInt8) : FileTree :=
  { t with files := (place, content) :: t.files.filter fun f => f.1 != place }

/-- The path without the slashes at its end, except that of the root. -/
def withoutEndSlashes (path : String) : String :=
  match path.toList.reverse.dropWhile (· == '/') with
  | [] => if path.isEmpty then "" else "/"
  | cs => String.ofList cs.reverse

/-- Replace the content of the file that a path leads to, making the file if its folder exists.  A
slash at the end asks for a folder. -/
def write (t : FileTree) (path : String) (content : List UInt8) : Except FileFault FileTree := do
  let place ← t.locate (withoutEndSlashes path)
  if t.isFolder place || path.toList.getLast? == some '/' then throw .isFolder
  return t.put place content

/-- The tree of the given files and further folders, all in one working folder. -/
def ofFiles (workingFolder : Place) (files : List (String × List UInt8)) (folders : List String) :
    FileTree :=
  let place (path : String) : Place :=
    workingFolder ++ (plainNames (pathPieces path.toList)).map String.ofList
  ⟨files.map fun f => (place f.1, f.2), workingFolder :: folders.map place, workingFolder⟩

/-- The files in the working folder of `before` that are new in `after` or have changed, with their
paths from there. -/
def changes (before after : FileTree) : List (String × List UInt8) :=
  after.files.filterMap fun f => do
    guard (before.file? f.1 != some f.2)
    let names ← before.workingFolder.isPrefixOf? f.1
    return (String.intercalate "/" names, f.2)

end FileTree

end GameBoyAssembler
