import Preflight.Directory.Loading

/-!
# File systems

What loading needs of a file system: where a path leads, and what a directory holds. A file system
answers in a monad of its own.
-/

namespace Preflight

/-- Why a path leads nowhere. -/
inductive PathError where
  | notFound
  | notDirectory
  deriving DecidableEq, Repr

/-- How a reason is worded. -/
def PathError.message : PathError → String
  | .notFound => "No such file or directory (os error 2)"
  | .notDirectory => "Not a directory (os error 20)"

/-- Why there is no text to read. -/
inductive ReadError where
  | isDirectory
  | notText
  deriving DecidableEq, Repr

/-- How a reason is worded. -/
def ReadError.message : ReadError → String
  | .isDirectory => "Is a directory (os error 21)"
  | .notText => "stream did not contain valid UTF-8"

/-- Where a path leads: a path from the root without detours. -/
structure Place where
  path : String
  isDirectory : Bool

/-- A file system. -/
structure FileSystem (m : Type → Type) where
  /-- Where a path leads from a directory. -/
  resolve : (directory path : String) → m (Except PathError Place)
  /-- What the directory at a place holds, or why it cannot be listed. -/
  entries : (path : String) → m (Except String (List DirectoryEntry))

namespace FileSystem

variable {m : Type → Type} [Monad m]

/-- The directory that a path leads to, or why there is none. -/
def directory (fs : FileSystem m) (current path : String) : m (Except String Directory) := do
  match ← fs.resolve current path with
  | .error err => return .error err.message
  | .ok place =>
    if place.isDirectory then
      return (← fs.entries place.path).map fun entries => ⟨path, place.path, entries⟩
    else return .error PathError.notDirectory.message

/-- Loads the module in the directory that a path leads to. -/
def load (fs : FileSystem m) (current path : String) : m (Except LoadError Module) := do
  match ← fs.directory current path with
  | .ok d => return d.load
  | .error cause => return .error (.unreadable cause)

end FileSystem
end Preflight
