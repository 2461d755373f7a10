import ScriptHost.Machine.State

/-!
Values on their way into a run and out of it. What is copied is charged, and a result nested too
deep is cut like a rendered one.
-/

namespace ScriptHost.Machine

mutual

def takeIn (h : Host) : Value → Run Datum
  | .nil => return .nil
  | .bool b => return .bool b
  | .int v => return .int v
  | .str s => newString h s
  | .array vs => do newArray h (← takeInAll h #[] vs)

def takeInAll (h : Host) (done : Array Datum) : List Value → Run (Array Datum)
  | [] => return done
  | v :: vs => do
    let d ← takeIn h v
    takeInAll h (done.push d) vs

end

def giveOut (h : Host) (levels : Nat) (d : Datum) : Run Value := do
  tick h
  match d with
  | .nil => return .nil
  | .bool b => return .bool b
  | .int v => return .int v
  | .str s =>
    charge h s.utf8ByteSize
    return .str s
  | .array handle =>
    match levels with
    | 0 => return .str deepText
    | levels + 1 =>
      let items := (← get).heap.items handle
      charge h (slotBytes * (items.size + 1))
      let values ← items.foldlM (fun done d => return done.push (← giveOut h levels d)) #[]
      return .array values.toList

end ScriptHost.Machine
