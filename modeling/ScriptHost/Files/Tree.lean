import ScriptHost.Files.Basic

/-!
File trees that are held in memory. Paths start at the top of the tree; above it and at its root
there is nothing but an empty directory.
-/

namespace ScriptHost

inductive FileTree where
  | file (content : ByteArray) (modified : Nat)
  | directory (entries : List (String × FileTree))

namespace FileTree

def empty : FileTree := directory []

def child? (t : FileTree) (name : String) : Except FileError FileTree :=
  match t with
  | file _ _ => .error .notDirectory
  | directory entries => ((entries.find? (·.1 == name)).map (·.2)).elim (.error .missing) .ok

/-- Follows the parts of a path; `above` are the directories on the way here, nearest first. -/
def walk (above : List FileTree) (t : FileTree) : List String → Except FileError FileTree
  | [] => .ok t
  | part :: parts =>
    match t with
    | file _ _ => .error .notDirectory
    | directory _ =>
      if part = "" || part = "." then walk above t parts
      else if part = ".." then
        match above with
        | [] => walk [] empty parts
        | t :: above => walk above t parts
      else
        match t.child? part with
        | .ok next => walk (t :: above) next parts
        | .error e => .error e

def find? (t : FileTree) (path : String) : Except FileError FileTree :=
  match path.splitOn "/" with
  | [""] => .error .missing
  | "" :: parts => walk [] empty parts
  | parts => walk [] t parts

def read (t : FileTree) (path : String) : Except FileError ByteArray :=
  match t.find? path with
  | .ok (file content _) => .ok content
  | .ok (directory _) => .error .isDirectory
  | .error e => .error e

def plainFile? : String × FileTree → Option FileEntry
  | (name, file content modified) => some ⟨name, modified, content.size, .ok content⟩
  | (_, directory _) => none

def list (t : FileTree) (path : String) : Except FileError (List FileEntry) :=
  match t.find? path with
  | .ok (directory entries) => .ok (entries.filterMap plainFile?)
  | .ok (file _ _) => .error .notDirectory
  | .error e => .error e

def putEntry (name : String) (t : FileTree) : List (String × FileTree) → List (String × FileTree)
  | [] => [(name, t)]
  | (other, u) :: entries =>
    if other = name then (name, t) :: entries else (other, u) :: putEntry name t entries

def put (t : FileTree) (names : List String) (u : FileTree) : FileTree :=
  match names with
  | [] => u
  | name :: names =>
    match t with
    | file _ _ => t
    | directory entries =>
      let inner := ((entries.find? (·.1 == name)).map (·.2)).getD empty
      directory (putEntry name (inner.put names u) entries)

def erase (t : FileTree) (names : List String) : FileTree :=
  match names, t with
  | _, file _ _ => t
  | [], directory _ => t
  | [name], directory entries => directory (entries.filter (·.1 != name))
  | name :: names, directory entries =>
    match entries.find? (·.1 == name) with
    | some (_, inner) => directory (putEntry name (inner.erase names) entries)
    | none => t

/-- The names on the way to a path of some parts, given those already passed, newest first; nothing
if the path leaves the tree. -/
def namesFrom? (passed : List String) : List String → Option (List String)
  | [] => some passed.reverse
  | part :: parts =>
    if part = "" || part = "." then namesFrom? passed parts
    else if part = ".." then
      match passed with
      | [] => none
      | _ :: passed => namesFrom? passed parts
    else namesFrom? (part :: passed) parts

def names? (path : String) : Option (List String) :=
  match path.splitOn "/" with
  | "" :: _ => none
  | parts => namesFrom? [] parts

def modifiedAt (t : FileTree) (path : String) : Nat :=
  match t.find? path with
  | .ok (file _ modified) => modified
  | _ => 0

def splitPath (path : String) : String × String × Bool :=
  let (trailing, parts) := (path.splitOn "/").reverse.span (· == "")
  match parts with
  | [] => ("/", ".", true)
  | [name] => (".", name, !trailing.isEmpty)
  | name :: parents => ("/".intercalate parents.reverse ++ "/", name, !trailing.isEmpty)

/-- Writes a file into a directory that is there. What is written outside the tree is lost. -/
def write (t : FileTree) (path text : String) : Except FileError FileTree :=
  let (dir, name, slashed) := splitPath path
  match t.find? dir, t.find? path with
  | .error e, _ => .error e
  | .ok (file _ _), _ => .error .notDirectory
  | .ok (directory _), .ok (directory _) => .error .isDirectory
  | .ok (directory _), _ =>
    if slashed || name = "." || name = ".." then .error .isDirectory
    else
      match names? path with
      | some names => .ok (t.put names (file text.toUTF8 (t.modifiedAt path + 1)))
      | none => .ok t

instance : Disk (StateM FileTree) where
  read path := return (← get).read path
  list path := return (← get).list path
  write path text := do
    match (← get).write path text with
    | .ok t =>
      set t
      return .ok ()
    | .error e => return .error e

end FileTree

end ScriptHost
