/-!
# Paths

A path is a text in which slashes separate names.  Two paths are the same when their components are:
repeated slashes do not count, nor does a dot, except in front.  Dot-dot is a name like any other.

* `pathComponents`, `samePath` — the components of a path and the equality they give;
* `withExtension?` — the path with another file name extension, which must not hold a slash.
-/

set_option relaxedAutoImplicit false
set_option autoImplicit false

namespace GameBoyAssembler

/-- The pieces between slashes. -/
def pathPieces : List Char → List (List Char)
  | [] => [[]]
  | '/' :: cs => [] :: pathPieces cs
  | c :: cs =>
      match pathPieces cs with
      | [] => [[c]]
      | p :: ps => (c :: p) :: ps

/-- The names in a path that are neither empty nor a dot. -/
def plainNames (pieces : List (List Char)) : List (List Char) :=
  pieces.filter fun p => p != [] && p != ['.']

/-- The components of a path.  A slash in front is the component of the root, and a dot in front is
kept. -/
def pathComponents (path : String) : List (List Char) :=
  match pathPieces path.toList with
  | [] :: rest => if path.isEmpty then [] else ['/'] :: plainNames rest
  | ['.'] :: rest => ['.'] :: plainNames rest
  | pieces => plainNames pieces

/-- Equality of paths by their components. -/
def samePath (p q : String) : Bool :=
  pathComponents p == pathComponents q

/-- Dot and dot-dot name folders, and nothing names nothing. -/
def namesFile (name : List Char) : Bool :=
  name != [] && name != ['.'] && name != ['.', '.']

/-- The file name without its last dot and what follows it.  A dot in front of the name does not
count. -/
def stem (name : List Char) : List Char :=
  match name.reverse.dropWhile (· != '.') with
  | _ :: before => if before.isEmpty then name else before.reverse
  | [] => name

/-- The file name up to its last dot, which is kept.  A dot in front of the name does not count. -/
def upToDot (name : List Char) : List Char :=
  if stem name = name then name else stem name ++ ['.']

/-- The path with what follows the last dot of its file name replaced.  An empty extension takes the
dot away too.  The old extension goes first; if no file name is left, as of a name with two dots in
front and no other, the new one is not added. -/
def withExtension (path extension : String) : String :=
  let name := (path.toList.reverse.takeWhile (· != '/')).reverse
  let folder := path.toList.take (path.length - name.length)
  if namesFile (upToDot name) then
    let dotted := if extension.isEmpty then [] else '.' :: extension.toList
    String.ofList (folder ++ stem name ++ dotted)
  else String.ofList (folder ++ upToDot name)

/-- The path with another extension; `none` if the extension holds a slash, and so would name more
than the end of a file name. -/
def withExtension? (path extension : String) : Option String :=
  if '/' ∈ extension.toList then none else some (withExtension path extension)

end GameBoyAssembler
