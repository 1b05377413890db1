/-!
# Files

Reading a file can fail, and what is met first on the way along its path is what counts. A daemon
only needs to know what reading gives, so that is a function of the path for it. `FileTree.read` is
such a function: it follows a path through a tree of directories that is a value.
-/

namespace ScaleWatch

/-- Why a file cannot be read. -/
inductive FileFault where
  | notFound
  | permissionDenied
  | notADirectory
  | isADirectory
  | nameTooLong
  deriving DecidableEq

def FileFault.message : FileFault → String
  | notFound => "No such file or directory (os error 2)"
  | permissionDenied => "Permission denied (os error 13)"
  | notADirectory => "Not a directory (os error 20)"
  | isADirectory => "Is a directory (os error 21)"
  | nameTooLong => "File name too long (os error 36)"

inductive FileTree where
  | file (octets : List UInt8)
  | directory (entries : List (String × FileTree))

namespace FileTree

/-- The number of octets that a path may have. -/
def maxPathOctets : Nat := 4095

/-- The number of octets that a name in a directory may have. -/
def maxNameOctets : Nat := 255

/-- Look a name up among the entries of a directory. -/
def lookup (name : String) (entries : List (String × FileTree)) : Except FileFault FileTree :=
  if maxNameOctets < name.utf8ByteSize then .error .nameTooLong
  else
    match entries.find? (·.1 = name) with
    | some (_, tree) => .ok tree
    | none => .error .notFound

/-- Follow names from a place whose parents, the nearest first, are `above`. Only a directory can
be passed, even by an empty name or a dot, and the parent of the root is the root. -/
def walk : List String → FileTree → List FileTree → Except FileFault FileTree
  | [], here, _ => .ok here
  | _ :: _, file _, _ => .error .notADirectory
  | name :: names, directory entries, above =>
    if name = "" ∨ name = "." then walk names (directory entries) above
    else if name = ".." then
      match above with
      | [] => walk names (directory entries) []
      | parent :: above => walk names parent above
    else do walk names (← lookup name entries) (directory entries :: above)

/-- What reading the file at a path gives; a path that does not begin at the root begins in the
directory to which the names of `home` lead. -/
def read (root : FileTree) (home : List String) (path : String) :
    Except FileFault (List UInt8) :=
  if maxPathOctets < path.utf8ByteSize then .error .nameTooLong
  else if path.isEmpty then .error .notFound
  else do
    let names := path.splitOn "/"
    match ← walk (if path.startsWith "/" then names else home ++ names) root [] with
    | file octets => return octets
    | directory _ => .error .isADirectory

end FileTree

end ScaleWatch
