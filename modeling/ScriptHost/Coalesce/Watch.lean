import ScriptHost.Coalesce.Gather
import ScriptHost.Coalesce.Report

/-!
Keeping the last good version of a directory. A look at the directory that shows a change has its
units coalesced again, and what compiles is published.
-/

namespace ScriptHost.Coalesce

def fingerprint (entries : List FileEntry) : List (String × Nat × Nat) :=
  (unitFiles entries).map fun e => (e.name, e.modified, e.size)

structure Watch where
  seen : Option (List (String × Nat × Nat)) := none
  latest : Option String := none
  publishes : Nat := 0
deriving DecidableEq, Repr

namespace Watch

structure Settings where
  dir : String
  main : String
  limits : CompilerLimits := {}

def publishable? (s : Settings) (stamp : String) (entries : List FileEntry) : Option Report := do
  let units ← (unitsOf s.dir s.main entries).toOption
  let r ← (report s.limits stamp units).toOption
  guard r.compiles
  return r

def look (s : Settings) (stamp : String) (entries : List FileEntry) (w : Watch) :
    Option Report × Watch :=
  if w.seen = some (fingerprint entries) then (none, w)
  else
    let r := publishable? s stamp entries
    (r, { seen := some (fingerprint entries)
          latest := (r.map (·.source)).or w.latest
          publishes := w.publishes + r.isSome.toNat })

end Watch

end ScriptHost.Coalesce
