import TileOffload.Error

/-! # File trees

Files in a tree of directories, for commands that are tried out without touching real files. A path is
followed name by name, from the root if it begins with a slash and else from the working directory. On the
way there may be directories only; a slash at the end of a path, too, asks for a directory. What the path
leads to is opened for reading and writing, which only a file can be. -/

namespace TileOffload

/-- A place in a tree: the names on the way to it from the root. -/
abbrev Place := List String

/-- The directories of a tree besides the root, its files, and the working directory. -/
structure FileTree where
  directories : List Place
  files : List (Place × ByteArray)
  working : Place

namespace FileTree

/-- A name has at most this many bytes. -/
def nameLimit : Nat := 255

/-- A path has fewer bytes than this. -/
def pathLimit : Nat := 4096

/-- Whether there is a directory at a place. -/
def hasDirectory (t : FileTree) (p : Place) : Bool := p.isEmpty || t.directories.contains p

/-- The bytes of the file at a place. -/
def file? (t : FileTree) (p : Place) : Option ByteArray := t.files.lookup p

/-- The place that a name leads to. No name at all, and one dot, stay where they are; two dots lead one
    directory up, and in the root nowhere. -/
def step (t : FileTree) (p : Place) (name : String) : Except FileFault Place :=
  let next := p ++ [name]
  if !t.hasDirectory p then .error .notDirectory
  else if name = "" ∨ name = "." then .ok p
  else if name = ".." then .ok p.dropLast
  else if nameLimit < name.utf8ByteSize then .error .nameTooLong
  else if t.hasDirectory next || (t.file? next).isSome then .ok next
  else .error .notFound

/-- The place that a path leads to. -/
def locate (t : FileTree) (path : String) : Except FileFault Place :=
  if path = "" then .error .notFound
  else if pathLimit ≤ path.utf8ByteSize then .error .nameTooLong
  else (path.splitOn "/").foldlM t.step (if path.startsWith "/" then [] else t.working)

/-- The bytes of the file that a path leads to. -/
def read (t : FileTree) (path : String) : Except FileFault ByteArray := do
  let p ← t.locate path
  match t.file? p with
  | some bytes => return bytes
  | none => throw .isDirectory

/-- The tree with other bytes in the file that a path leads to, if it leads to one. -/
def write (t : FileTree) (path : String) (bytes : ByteArray) : FileTree :=
  match t.locate path with
  | .ok p => { t with files := t.files.map fun f => if f.1 = p then (p, bytes) else f }
  | .error _ => t

end FileTree

end TileOffload
