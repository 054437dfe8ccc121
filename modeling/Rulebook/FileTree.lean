/-!
# Trees of files

## Main definitions

* `FileTree`: a file with its contents, or a directory with its entries
* `FileFault`: why a path leads to no text, and how that is worded
* `FileTree.walk`: what the names of a path lead to
* `FileTree.read`: the text that a path leads to
* `FileTree.bare`: the files of a system on which nothing was written yet
-/

namespace Rulebook

/-- A file with its contents, or a directory with its entries by name. -/
inductive FileTree where
  | file (contents : String)
  | directory (entries : List (String × FileTree))

/-- Why a path leads to no text. -/
inductive FileFault where
  /-- There is nothing of this name. -/
  | missing
  /-- A file stands where only a directory can. -/
  | notDirectory
  /-- A directory stands where only a file can. -/
  | isDirectory
  /-- A name or the whole path is too long. -/
  | tooLong
  /-- The path has a character that no name can have. -/
  | nulCharacter
  deriving DecidableEq

/-- The wording of a fault, with its number in the operating system. -/
def FileFault.message : FileFault → String
  | missing => "No such file or directory (os error 2)"
  | notDirectory => "Not a directory (os error 20)"
  | isDirectory => "Is a directory (os error 21)"
  | tooLong => "File name too long (os error 36)"
  | nulCharacter => "file name contained an unexpected NUL byte"

namespace FileTree

/-- The longest name, in bytes. -/
def maxNameSize : Nat := 255

/-- The longest path, in bytes. -/
def maxPathSize : Nat := 4095

/-- The entry of a name. -/
def entry? (name : String) (entries : List (String × FileTree)) : Option FileTree :=
  entries.lookup name

/-- The directories above a place, the nearest first, and what is in the place. -/
abbrev Site := List FileTree × FileTree

/-- One step of a path. An empty name and `.` stay in a directory, and `..` goes to the one above
it; nothing is above the root. -/
def step : Site → String → Except FileFault Site
  | (_, .file _), _ => .error .notDirectory
  | (above, .directory entries), name =>
    if name = "" ∨ name = "." then .ok (above, .directory entries)
    else if name = ".." then
      match above with
      | [] => .ok ([], .directory entries)
      | parent :: above => .ok (above, parent)
    else if maxNameSize < name.utf8ByteSize then .error .tooLong
    else
      match entry? name entries with
      | some t => .ok (.directory entries :: above, t)
      | none => .error .missing

/-- What the names of a path lead to. -/
def walk (s : Site) (names : List String) : Except FileFault Site :=
  names.foldlM step s

/-- Where a path starts: at the root behind a slash, otherwise in an empty directory below the
root. -/
def start (root : FileTree) (path : String) : Site :=
  if path.startsWith "/" then ([], root) else ([root], .directory [])

/-- The text that a path leads to. -/
def read (root : FileTree) (path : String) : Except FileFault String :=
  if path.contains '\x00' then .error .nulCharacter
  else if path = "" then .error .missing
  else if maxPathSize < path.utf8ByteSize then .error .tooLong
  else
    match walk (start root path) (path.splitOn "/") with
    | .ok (_, .file contents) => .ok contents
    | .ok (_, .directory _) => .error .isDirectory
    | .error fault => .error fault

/-- The files of a system on which nothing was written yet: the usual directories, and a file that
is always empty. -/
def bare : FileTree :=
  .directory (("dev", .directory [("null", .file "")]) ::
    ["bin", "boot", "etc", "home", "lib", "media", "mnt", "opt", "proc", "root", "run", "sbin",
      "srv", "sys", "tmp", "usr", "var"].map (·, .directory []))

end FileTree

end Rulebook
