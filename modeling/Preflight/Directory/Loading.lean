import Preflight.Module.Basic

/-!
# Loading a directory

A module is loaded from the regular files of a directory with the extensions `tf` and `tfvars`:
first the configuration, then the assignments, each in the order of names. The order in which the
directory lists its files has no influence. There must be a configuration file.
-/

namespace Preflight

/-- A file or something else in a directory. -/
structure DirectoryEntry where
  name : String
  isFile : Bool
  /-- The text of the file, or why there is none, as the file system says it. -/
  content : Except String String

/-- A directory: how it was asked for, where it is and what it holds. -/
structure Directory where
  shown : String
  path : String
  entries : List DirectoryEntry

/-- What follows the last point of a file name; a point at the start does not count. -/
def extension? (name : String) : Option String :=
  let cs := name.toList.reverse
  let extension := cs.takeWhile (· ≠ '.')
  match cs.dropWhile (· ≠ '.') with
  | _ :: _ :: _ => some (String.ofList extension.reverse)
  | _ => none

namespace DirectoryEntry

/-- A file with the extension of assignments. -/
def isAssignments (e : DirectoryEntry) : Bool := e.isFile && extension? e.name = some "tfvars"

/-- A file with the extension of configuration. -/
def isConfiguration (e : DirectoryEntry) : Bool := e.isFile && extension? e.name = some "tf"

/-- The order of loading: configuration first, then by name. -/
def before (a b : DirectoryEntry) : Bool :=
  if a.isAssignments = b.isAssignments then a.name ≤ b.name else b.isAssignments

end DirectoryEntry

namespace Directory

/-- The files to load, in order. -/
def files (d : Directory) : List DirectoryEntry :=
  (d.entries.filter fun e => e.isConfiguration || e.isAssignments).mergeSort DirectoryEntry.before

/-- Adds a file of the directory. -/
def insertFile (d : Directory) (b : Builder) (e : DirectoryEntry) : Except LoadError Builder :=
  match e.content with
  | .error cause => .error (.unreadable cause)
  | .ok text =>
    if e.isAssignments then b.insertAssignments text
    else b.insert (some (d.path ++ "/" ++ e.name)) text

/-- Loads the module of the directory. -/
def load (d : Directory) : Except LoadError Module :=
  if d.entries.any DirectoryEntry.isConfiguration then
    Builder.build <$> d.files.foldlM d.insertFile Builder.empty
  else .error (.noFiles d.shown)

end Directory
end Preflight
