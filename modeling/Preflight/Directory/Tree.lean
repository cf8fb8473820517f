import Preflight.Directory.FileSystem

/-!
# Trees of directories

A file system in memory: a tree of directories below a top that has a path of its own.
-/

namespace Preflight

/-- A file or a directory. -/
inductive Node where
  | file (content : Except String String)
  | directory (entries : List (String × Node))

namespace Node

/-- Whether a node is a directory. -/
def isDirectory : Node → Bool
  | .file _ => false
  | .directory _ => true

/-- The node that a path of names leads to. -/
def get? : Node → List String → Option Node
  | n, [] => some n
  | .file _, _ :: _ => none
  | .directory entries, name :: names => match Entries.get? entries name with
    | some n => n.get? names
    | none => none

/-- Puts a node at a path of names, with the directories on the way. -/
def put : Node → List String → Node → Node
  | _, [], new => new
  | n, name :: names, new =>
    let entries := match n with
      | .directory entries => entries
      | .file _ => []
    .directory (Entries.insert entries name
      (put ((Entries.get? entries name).getD (.directory [])) names new))

/-- The node of a tree as an entry of its directory. -/
def entry (name : String) : Node → DirectoryEntry
  | .file content => ⟨name, true, content⟩
  | .directory _ => ⟨name, false, .error ReadError.isDirectory.message⟩

end Node

/-- A tree with the path of its top. -/
structure FileTree where
  top : String
  root : Node

namespace FileTree

/-- The path of a list of names. -/
def pathOf (t : FileTree) (names : List String) : String :=
  t.top ++ String.join (names.map fun name => "/" ++ name)

/-- The names of a path. -/
def namesOf (path : String) : List String := path.splitOn "/"

/-- Follows names from a directory; the empty name and `.` stay there, `..` goes up. -/
def walk (t : FileTree) : List String → List String → Except PathError (List String)
  | here, [] => .ok here
  | here, name :: names => match t.root.get? here with
    | none => .error .notFound
    | some node =>
      if !node.isDirectory then .error .notDirectory
      else if name = "" ∨ name = "." then t.walk here names
      else if name = ".." then t.walk here.dropLast names
      else if (t.root.get? (here ++ [name])).isSome then t.walk (here ++ [name]) names
      else .error .notFound

/-- The names from the top to a path inside the tree; none if it lies outside. -/
def inside? (t : FileTree) (path : String) : Option (List String) :=
  if path = t.top then some []
  else if (t.top ++ "/").isPrefixOf path then
    some (namesOf (String.ofList (path.toList.drop (t.top.length + 1))))
  else none

/-- Where a path leads from a directory. -/
def resolve (t : FileTree) (directory path : String) : Except PathError Place := do
  let names ← match t.inside? path with
    | some names => t.walk [] names
    | none =>
      if path = "" ∨ "/".isPrefixOf path then .error .notFound
      else t.walk ((t.inside? directory).getD []) (namesOf path)
  return ⟨t.pathOf names, ((t.root.get? names).map Node.isDirectory).getD false⟩

/-- What the directory at a path holds. -/
def entries (t : FileTree) (path : String) : Except String (List DirectoryEntry) :=
  match (t.inside? path).bind t.root.get? with
  | some (.directory entries) => .ok (entries.map fun e => e.2.entry e.1)
  | some (.file _) => .error PathError.notDirectory.message
  | none => .error PathError.notFound.message

/-- The tree as a file system. -/
def fileSystem (t : FileTree) : FileSystem Id := ⟨t.resolve, t.entries⟩

end FileTree
end Preflight
