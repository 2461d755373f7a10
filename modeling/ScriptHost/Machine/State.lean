import ScriptHost.Bytecode.Program
import ScriptHost.Machine.Fault
import ScriptHost.Machine.Render
import ScriptHost.Sandbox.Capture
import ScriptHost.Value
import ScriptHost.Word

/-!
States of the stack machine. Each call has its own locals and operands; arrays, output, charged
memory and the clock belong to the whole run.
-/

namespace ScriptHost

def slotBytes : Nat := 16

def chargeLimit : Nat := wordLimit - 1

structure Frame where
  function : Nat
  pc : Nat
  locals : Array Datum
  /-- The operand stack, top first. -/
  operands : List Datum
deriving Repr, Inhabited

structure Host where
  program : Program
  callDepth : Nat
  memoryCeiling : Option Nat
  /-- Whether the interrupt signal is up at a time of the clock. -/
  raised : Nat → Bool

namespace Machine

structure State where
  frames : List Frame
  depth : Nat
  heap : Heap
  allocated : Nat
  steps : Nat
  /-- Steps and rendered values so far. -/
  clock : Nat
  out : Capture
  err : Capture
deriving Repr

namespace State

def start (outputLimit : Nat) : State :=
  { frames := [], depth := 0, heap := #[], allocated := 0, steps := 0, clock := 0
    out := ⟨outputLimit, {}⟩, err := ⟨outputLimit, {}⟩ }

def capture (s : State) : Stream → Capture
  | .out => s.out
  | .err => s.err

def write (s : State) (stream : Stream) (text : String) : State :=
  match stream with
  | .out => { s with out := s.out.write text }
  | .err => { s with err := s.err.write text }

end State

def traceEntry (p : Program) (f : Frame) : String :=
  let g := p.functions.getD f.function default
  g.name ++ " (" ++ g.unit ++ ":" ++ toString (g.lineAt (f.pc - 1)) ++ ")"

def trace (p : Program) (frames : List Frame) : List String :=
  frames.map (traceEntry p)

/-- A part of a run. One that fails names the fault and leaves a state that keeps the output. -/
abbrev Run := EStateM Fault State

def fail {α : Type} (h : Host) (kind : FaultKind) (message : String) : Run α := do
  throw ⟨kind, message, trace h.program (← get).frames⟩

/-- A failure that no compiled program reaches. -/
def broken {α : Type} (h : Host) : Run α :=
  fail h .internalError "operand stack underflow"

def interrupted {α : Type} (h : Host) : Run α :=
  fail h .interrupted "execution interrupted"

def outOfMemory {α : Type} (h : Host) (ceiling : Nat) : Run α :=
  fail h .outOfMemory
    ("allocation exceeds the memory ceiling of " ++ toString ceiling ++ " bytes")

def State.tick (s : State) : State :=
  { s with steps := s.steps + 1, clock := s.clock + 1 }

def tick (h : Host) : Run Unit := do
  modify State.tick
  let s ← get
  if s.steps % pollInterval = 0 && h.raised s.clock then interrupted h

def charge (h : Host) (bytes : Nat) : Run Unit := do
  modify fun s => { s with allocated := min (s.allocated + bytes) chargeLimit }
  match h.memoryCeiling with
  | some ceiling => if ceiling < (← get).allocated then outOfMemory h ceiling
  | none => pure ()

def newString (h : Host) (text : String) : Run Datum := do
  charge h text.utf8ByteSize
  return .str text

def newArray (h : Host) (items : Array Datum) : Run Datum := do
  charge h (slotBytes * (items.size + 1))
  modifyGet fun s => (.array s.heap.size, { s with heap := s.heap.push items })

def show? (h : Host) (separator : String) (limit : Nat) (values : Array Datum) :
    Run (String × Option RenderStop) :=
  modifyGet fun s =>
    let (r, stop) := render s.heap (fun n => h.raised (s.clock + n)) separator limit values
    ((r.text, stop), { s with clock := s.clock + r.visits })

def display (h : Host) (values : Array Datum) : Run String := do
  let allocated := (← get).allocated
  let room := h.memoryCeiling.elim chargeLimit (· - allocated)
  match ← show? h "" room values with
  | (text, none) => return text
  | (_, some .interrupted) => interrupted h
  | (_, some .full) => outOfMemory h (h.memoryCeiling.getD chargeLimit)

end Machine

end ScriptHost
