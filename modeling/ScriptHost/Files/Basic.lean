/-!
What a program can ask of a file system, and how that fails.
-/

namespace ScriptHost

inductive FileError where
  | missing
  | notDirectory
  | isDirectory
  | notText
  | other (message : String)
deriving DecidableEq, Repr

namespace FileError

def message : FileError → String
  | missing => "No such file or directory (os error 2)"
  | notDirectory => "Not a directory (os error 20)"
  | isDirectory => "Is a directory (os error 21)"
  | notText => "stream did not contain valid UTF-8"
  | other message => message

end FileError

structure FileEntry where
  name : String
  /-- When it was changed last; a file that is written again has a later time. -/
  modified : Nat
  size : Nat
  content : Except FileError ByteArray

class Disk (m : Type → Type) where
  read : String → m (Except FileError ByteArray)
  /-- The plain files of a directory, in any order. -/
  list : String → m (Except FileError (List FileEntry))
  write : String → String → m (Except FileError Unit)

namespace Disk

def decode (bytes : ByteArray) : Except FileError String :=
  (String.fromUTF8? bytes).elim (.error .notText) .ok

def readText {m : Type → Type} [Monad m] [Disk m] (path : String) :
    m (Except FileError String) := do
  return (← read path) >>= decode

end Disk

namespace FilePath

def join (dir name : String) : String :=
  if dir.endsWith "/" then dir ++ name else dir ++ "/" ++ name

def fileName? (path : String) : Option String :=
  match ((path.splitOn "/").filter fun part => part != "" && part != ".").getLast? with
  | some ".." => none
  | last => last

/-- A name as what stands before its last point and what stands behind; a point in front does not
count. -/
def splitName (name : String) : String × Option String :=
  match (name.splitOn ".").reverse with
  | last :: first :: others =>
    let stem := ".".intercalate (first :: others).reverse
    if stem = "" then (name, none) else (stem, some last)
  | _ => (name, none)

def stem (name : String) : String :=
  (splitName name).1

def extension? (name : String) : Option String :=
  (splitName name).2

end FilePath

end ScriptHost
