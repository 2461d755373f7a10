import ScriptHost.CommandLine.Run
import Std.Time.DateTime.Timestamp

/-! The program: its arguments, the files and the clock of the machine it runs on. -/

namespace ScriptHost.Outside

open CommandLine

def errorNumber (code : UInt32) : Nat :=
  min code.toNat (UInt32.size - code.toNat)

def fileError : IO.Error → FileError
  | .noFileOrDirectory _ _ _ => .missing
  | e@(.inappropriateType _ code _) =>
    match errorNumber code with
    | 20 => .notDirectory
    | 21 => .isDirectory
    | _ => .other (toString e)
  | e => .other (toString e)

def caught {α : Type} (action : IO α) : IO (Except FileError α) := do
  try return .ok (← action)
  catch e => return .error (fileError e)

def timeOf (t : IO.FS.SystemTime) : Nat :=
  t.sec.toNat * 1000000000 + t.nsec.toNat

def listFiles (dir : String) : IO (List FileEntry) := do
  let mut files := []
  for e in ← (← IO.FS.realPath dir).readDir do
    let info ← e.path.metadata
    if info.type == .file then
      let content ← caught (IO.FS.readBinFile e.path)
      files := ⟨e.fileName, timeOf info.modified, info.byteSize.toNat, content⟩ :: files
  return files

instance : Disk IO where
  read path := caught (IO.FS.readBinFile path)
  list dir := caught (listFiles dir)
  write path text := caught (IO.FS.writeFile path text)

def now : IO Instant := do
  return ⟨(← Std.Time.Timestamp.now).toMillisecondsSinceUnixEpoch.toInt.toNat⟩

def give (o : Output) : IO UInt32 := do
  IO.print o.out
  IO.eprint o.errors
  return o.exitCode.toUInt32

def publish (output : Option String) (r : Coalesce.Report) : IO Unit := do
  match output with
  | none => IO.print r.source
  | some path =>
    match ← Disk.write path r.source with
    | .ok () => return
    | .error e => IO.eprintln ("Cannot write " ++ path ++ ": " ++ e.message)

partial def keepWatch (v : Vigil) (w : Coalesce.Watch) : IO UInt32 := do
  match ← Coalesce.filesOf v.settings.dir with
  | .error e => give (.failed (.ofGatherError e))
  | .ok entries =>
    let (report, w) := w.look v.settings (← now).stamp entries
    report.forM (publish v.output)
    IO.sleep 250
    keepWatch v w

end ScriptHost.Outside

open ScriptHost in
def main (args : List String) : IO UInt32 := do
  let (output, vigil) ← CommandLine.perform (← Outside.now) args
  match vigil with
  | none => Outside.give output
  | some v => Outside.keepWatch v {}
