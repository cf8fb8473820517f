import Preflight.CommandLine

/-!
# The program

Runs the command line on the files of the machine.
-/

namespace Preflight

/-- What a failure to find a path was. -/
def pathError : IO.Error → PathError
  | .inappropriateType .. => .notDirectory
  | _ => .notFound

/-- Where a path leads from a directory. -/
def resolveOnDisk (directory path : String) : IO (Except PathError Place) := do
  let start := if "/".isPrefixOf path then path else directory ++ "/" ++ path
  try
    let place ← IO.FS.realPath start
    return .ok ⟨place.toString, ← place.isDir⟩
  catch err => return .error (pathError err)

/-- The text of a file. -/
def readOnDisk (path : String) : IO (Except String String) := do
  try
    match String.fromUTF8? (← IO.FS.readBinFile path) with
    | some text => return .ok text
    | none => return .error ReadError.notText.message
  catch err => return .error (toString err)

/-- What a directory holds. -/
def entriesOnDisk (path : String) : IO (Except String (List DirectoryEntry)) := do
  try
    let place ← IO.FS.realPath path
    let mut entries := #[]
    for found in ← place.readDir do
      let isFile := (← found.path.symlinkMetadata).type == .file
      let content ← if isFile then readOnDisk found.path.toString
        else pure (.error ReadError.isDirectory.message)
      entries := entries.push ⟨found.fileName, isFile, content⟩
    return .ok entries.toList
  catch err => return .error (toString err)

/-- The files of the machine. -/
def disk : FileSystem IO := ⟨resolveOnDisk, entriesOnDisk⟩

/-- Runs with some arguments, shows the outcome and gives the exit code. -/
def runOnDisk (args : List String) : IO UInt32 := do
  let current ← IO.currentDir
  match ← CommandLine.run disk current.toString args with
  | none =>
    IO.eprintln "usage: preflight [-C DIR]... [-d DIR]... [-p NAME=VALUE]... [-F yaml|json]"
    return 2
  | some outcome =>
    IO.print outcome.output
    IO.eprint outcome.errors
    return outcome.exitCode.toUInt32

end Preflight

/-- The program. -/
def main (args : List String) : IO UInt32 := Preflight.runOnDisk args
