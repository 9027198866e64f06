/-! # Reading files

`ReadFault` says why a file cannot be read. A `FileTree` is a tree of directories and files: every
place is the list of names on the way to it from the root. `FileTree.read` follows a path, which is
absolute if it starts with a slash and starts at a directory otherwise, and gives the content of the
file at its end or the first fault on the way. -/

namespace BoundedVm

namespace Cli

/-- Why a file or the standard input cannot be read. -/
inductive ReadFault where
  | notFound
  /-- The path goes on after a file. -/
  | notDirectory
  /-- The path ends at a directory. -/
  | isDirectory
  | nameTooLong
  | permissionDenied
  | notUtf8
  /-- Another reason, in the words of the system. -/
  | other (reason : String)
  deriving DecidableEq

/-- The wording of a fault. -/
def ReadFault.message : ReadFault → String
  | notFound => "No such file or directory (os error 2)"
  | notDirectory => "Not a directory (os error 20)"
  | isDirectory => "Is a directory (os error 21)"
  | nameTooLong => "File name too long (os error 36)"
  | permissionDenied => "Permission denied (os error 13)"
  | notUtf8 => "stream did not contain valid UTF-8"
  | other reason => reason

/-- The names on the way from the root to a directory or a file. -/
abbrev Place := List String

/-- What stands at a place. -/
inductive Entry where
  | directory
  | file (content : List UInt8)
  deriving DecidableEq

/-- What stands at the places of a tree; the root is always a directory. -/
structure FileTree where
  entries : List (Place × Entry)

namespace FileTree

/-- The tree of the root alone. -/
def empty : FileTree := ⟨[]⟩

/-- What stands at a place. -/
def get? (tree : FileTree) (place : Place) : Option Entry :=
  if place = [] then some .directory else tree.entries.lookup place

/-- The tree with a directory at a place and at every place on the way to it. -/
def addDirectory (tree : FileTree) (place : Place) : FileTree :=
  ⟨(List.range place.length).map (fun n => (place.take (n + 1), .directory)) ++ tree.entries⟩

/-- The tree with a file in a directory, in front of what stood there. -/
def addFile (tree : FileTree) (directory : Place) (name : String) (content : List UInt8) : FileTree :=
  ⟨(directory ++ [name], .file content) :: (tree.addDirectory directory).entries⟩

/-- The most bytes a name on the way may have. -/
def maxName : Nat := 255

/-- The most bytes a path may have. -/
def maxPath : Nat := 4095

/-- The place that names lead to from a place. An empty name and `.` stay at a directory and `..` goes
one step back to the root; the last name need not stand for anything. -/
def walk (tree : FileTree) (place : Place) : List String → Except ReadFault Place
  | [] => .ok place
  | name :: rest =>
    -- the place itself is looked at only when the path goes on from it
    match tree.get? place with
    | none => .error .notFound
    | some (.file _) => .error .notDirectory
    | some .directory =>
      if name = "" ∨ name = "." then walk tree place rest
      else if name = ".." then walk tree place.dropLast rest
      else if name.utf8ByteSize > maxName then .error .nameTooLong
      else walk tree (place ++ [name]) rest

/-- The content of the file that a path leads to from a directory. -/
def read (tree : FileTree) (directory : Place) (path : String) : Except ReadFault (List UInt8) :=
  if path = "" then .error .notFound
  else if path.utf8ByteSize > maxPath then .error .nameTooLong
  else
    let start := if path.startsWith "/" then [] else directory
    match tree.walk start (path.splitOn "/") with
    | .error e => .error e
    | .ok place =>
      match tree.get? place with
      | none => .error .notFound
      | some .directory => .error .isDirectory
      | some (.file content) => .ok content

@[simp] theorem get?_nil (tree : FileTree) : tree.get? [] = some .directory := rfl

/-- A file that was added stands at its place. -/
theorem get?_addFile (tree : FileTree) (directory : Place) (name : String)
    (content : List UInt8) :
    (tree.addFile directory name content).get? (directory ++ [name]) = some (.file content) := by
  simp [get?, addFile]

end FileTree

end Cli

end BoundedVm
