import ScriptHost.Machine.Datum
import ScriptHost.Text.Fit
import ScriptHost.Text.Quoted

/-!
Values as text within a budget of bytes. Shared arrays are walked again wherever they occur, so the
budget, a depth of nesting and a signal that is looked at now and then bound the work.
-/

namespace ScriptHost

def pollInterval : Nat := 1024

def renderDepth : Nat := 32

def deepText : String := "[...]"

inductive RenderStop where
  | full
  | interrupted
deriving DecidableEq, Repr

structure Rendering where
  text : String
  limit : Nat
  visits : Nat
deriving Repr

namespace Rendering

abbrev Step := Except (RenderStop × Rendering) Rendering

def append (r : Rendering) (s : String) : Step :=
  let room := r.limit - r.text.utf8ByteSize
  if s.utf8ByteSize ≤ room then .ok { r with text := r.text ++ s }
  else .error (.full, { r with text := r.text ++ Text.fit room s })

/-- Counts a visit; `raised` tells of each visit whether the signal is up by then. -/
def visit (raised : Nat → Bool) (r : Rendering) : Step :=
  let r := { r with visits := r.visits + 1 }
  if r.visits % pollInterval = 0 && raised r.visits then .error (.interrupted, r) else .ok r

/-- Values one after another with a separator between them; `first` says that none came before. -/
def separated (datum : Rendering → Datum → Step) (separator : String) (r : Rendering)
    (items : Array Datum) : Step :=
  Prod.fst <$> items.foldlM (fun (r, first) d => do
    let r ← if first then pure r else r.append separator
    return (← datum r d, false)) (r, true)

def inner (heap : Heap) (raised : Nat → Bool) : Nat → Rendering → Datum → Step
  | levels, r, d => do
    let r ← r.visit raised
    match d with
    | .nil => r.append "nil"
    | .bool b => r.append (if b then "true" else "false")
    | .int v => r.append (toString v.toInt)
    | .str s => r.append (Text.Quoted.quote s)
    | .array handle =>
      match levels with
      | 0 => r.append deepText
      | levels + 1 =>
        let r ← r.append "["
        let r ← separated (inner heap raised levels) ", " r (heap.items handle)
        r.append "]"

/-- A value that stands alone: like one inside an array, but a string is shown as it is. -/
def outer (heap : Heap) (raised : Nat → Bool) (r : Rendering) (d : Datum) : Step :=
  match d with
  | .str s => do
    let r ← r.visit raised
    r.append s
  | d => inner heap raised renderDepth r d

end Rendering

def render (heap : Heap) (raised : Nat → Bool) (separator : String) (limit : Nat)
    (values : Array Datum) : Rendering × Option RenderStop :=
  match Rendering.separated (Rendering.outer heap raised) separator ⟨"", limit, 0⟩ values with
  | .ok r => (r, none)
  | .error (stop, r) => (r, some stop)

end ScriptHost
