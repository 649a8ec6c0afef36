import ServiceDiscovery.Text.Pieces
import ServiceDiscovery.Text.Utf8

/-!
# File trees

The files of a host, and the reasons why one of them cannot be read. A path leads from directory to
directory; the first name in it that leads nowhere is told.

Main definitions:

- {lit}`FileTree`: a file, or a directory of named trees.
- {lit}`FileFault`: why a file cannot be read.
- {lit}`Place.follow`: goes where one name of a path leads.
- {lit}`Place.read`: the contents of the file at a path.
-/

namespace ServiceDiscovery

/-- A file, or a directory of named trees. -/
inductive FileTree where
  | file (contents : Bytes)
  | directory (entries : List (String × FileTree))

/-- Why a file cannot be read. -/
inductive FileFault where
  /-- The path holds a character that no path can hold. -/
  | zeroByte
  /-- The path, or a name in it, is too long. -/
  | tooLong
  /-- There is nothing of this name. -/
  | missing
  /-- What a name is looked up in is no directory. -/
  | noDirectory
  /-- What is to be read is a directory. -/
  | directory
  /-- The host does not allow it. -/
  | denied
  /-- Something else, in the host's own words. -/
  | other (text : String)
  deriving DecidableEq, Repr

/-- The words for a fault. -/
def FileFault.message : FileFault → String
  | .zeroByte => "file name contained an unexpected NUL byte"
  | .tooLong => "File name too long (os error 36)"
  | .missing => "No such file or directory (os error 2)"
  | .noDirectory => "Not a directory (os error 20)"
  | .directory => "Is a directory (os error 21)"
  | .denied => "Permission denied (os error 13)"
  | .other text => text

/-- A place in a tree: what is there, and the directories above it, the nearest one first. -/
structure Place where
  node : FileTree
  above : List FileTree

namespace Place

/-- The place at the top of the tree. -/
def top (p : Place) : Place :=
  match p.above.getLast? with
  | some root => ⟨root, []⟩
  | none => p

/-- The place above this one; nothing is above the top. -/
def up (p : Place) : Place :=
  match p.above with
  | [] => p
  | parent :: above => ⟨parent, above⟩

/-- The most bytes in a name. -/
def maxName : Nat := 255

/-- The most bytes in a path. -/
def maxPath : Nat := 4095

/-- Goes where one name of a path leads. An empty name and a single dot stand for the directory
itself, and two dots for the one above. -/
def follow (p : Place) (name : String) : Except FileFault Place :=
  match p.node with
  | .file _ => .error .noDirectory
  | .directory entries =>
    if name = "" || name = "." then .ok p
    else if name = ".." then .ok p.up
    else if maxName < name.utf8ByteSize then .error .tooLong
    else
      match entries.lookup name with
      | some node => .ok ⟨node, p.node :: p.above⟩
      | none => .error .missing

/-- The contents of the file at a path, which begins at the top if it begins with a slash, and here
otherwise. -/
def read (here : Place) (path : String) : Except FileFault Bytes :=
  if path.toList.contains '\x00' then .error .zeroByte
  else if path = "" then .error .missing
  else if maxPath < path.utf8ByteSize then .error .tooLong
  else
    let start := if path.toList.head? = some '/' then here.top else here
    match (Text.split '/' path).foldlM follow start with
    | .error fault => .error fault
    | .ok p =>
      match p.node with
      | .file contents => .ok contents
      | .directory _ => .error .directory

end Place
end ServiceDiscovery
