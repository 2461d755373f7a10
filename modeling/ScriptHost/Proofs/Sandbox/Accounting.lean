import ScriptHost.Compile.Compiler
import ScriptHost.Proofs.Machine.Output
import ScriptHost.Sandbox.Execution

/-!
Output of whole runs, however they end. What a stream kept and what it counted as lost come to the lines that were
written on it, and those lack the part of a text that a rendering cut off.
-/

namespace ScriptHost

def Outcome.captured : Outcome → Stream → Captured
  | .success _ out _, .out | .fault _ out _, .out | .timeout out _, .out | .interrupted out _, .out => out
  | .success _ _ err, .err | .fault _ _ err, .err | .timeout _ err, .err | .interrupted _ err, .err => err

namespace Execution

variable (x : Execution) (limits : SandboxLimits)

def lines : List Line :=
  match x.launch limits with
  | (.running s, _) => Machine.lines (x.host limits) (x.limit + pollInterval) s
  | (.ended _, _) => []

def Keeps (stream : Stream) (lines : List Line) (o : Outcome) : Prop :=
  o.captured stream =
    ((⟨limits.outputBytes, {}⟩ : Capture).writeAll ((Line.on stream lines).map (·.written limits.outputBytes))).kept

variable {limits} {lines : List Line} {s : Machine.State}

lemma start_capture (stream : Stream) (limit : Nat) : (Machine.State.start limit).capture stream = ⟨limit, {}⟩ := by
  cases stream <;> rfl

lemma keeps_of_shows {stream : Stream} {o : Outcome} (hs : Machine.Shows lines (.start limits.outputBytes) s)
    (ho : o.captured stream = (s.capture stream).kept) : Keeps limits stream lines o := by
  have hstream := hs stream
  rw [start_capture] at hstream
  rw [Keeps, ho, hstream]

lemma captured_stop (s : Machine.State) (stream : Stream) :
    (x.stop s).captured stream = (s.capture stream).kept := by
  rw [stop]
  split <;> cases stream <;> rfl

lemma captured_fail (f : Fault) (s : Machine.State) (stream : Stream) :
    (x.fail f s).captured stream = (s.capture stream).kept := by
  rw [fail]
  split
  · exact captured_stop x s stream
  · cases stream <;> rfl

lemma launch_ended {o : Outcome} {launched : Bool} (hx : x.launch limits = (.ended o, launched)) (stream : Stream) :
    Keeps limits stream [] o := by
  rw [launch] at hx
  split at hx
  · cases hx
    cases stream <;> rfl
  · next id _ =>
    split at hx
    · cases hx
      cases stream <;> rfl
    · have hcall := Machine.call_tells (h := x.host limits) (s := .start limits.outputBytes) id x.arguments
      split at hx
      · cases hx
      · next f s hs =>
        cases hx
        exact keeps_of_shows (hcall.error hs) (captured_fail x f s stream)

lemma launch_running {launched : Bool} (hx : x.launch limits = (.running s, launched)) :
    Machine.Shows [] (.start limits.outputBytes) s := by
  rw [launch] at hx
  split at hx
  · cases hx
  · next id _ =>
    split at hx
    · cases hx
    · have hcall := Machine.call_tells (h := x.host limits) (s := .start limits.outputBytes) id x.arguments
      split at hx
      · next hs =>
        cases hx
        exact hcall.ok hs
      · cases hx

variable (limits)

lemma run_keeps (stream : Stream) : Keeps limits stream (x.lines limits) (x.run limits).1 := by
  rw [run, Execution.lines]
  rcases hx : x.launch limits with ⟨o | s, launched⟩
  · exact launch_ended x hx stream
  · have hs := launch_running x hx
    have hsteps : Machine.Tells (Machine.proceed (x.host limits) (x.limit + pollInterval)) s
        (Machine.lines (x.host limits) (x.limit + pollInterval) s) := Machine.proceed_tells _
    dsimp only
    rw [Execution.proceed]
    cases hp : (Machine.proceed (x.host limits) (x.limit + pollInterval)).run s with
    | error f t => exact keeps_of_shows (hs.trans (hsteps.error hp)) (captured_fail x f t stream)
    | ok v t =>
      cases v with
      | none => exact keeps_of_shows (hs.trans (hsteps.ok hp)) (captured_stop x t stream)
      | some v =>
        apply keeps_of_shows (hs.trans (hsteps.ok hp))
        cases stream <;> rfl

/-- Output accounting. The bytes kept and the bytes counted as lost come to those of the lines that are written, so to
those of all texts exactly if each text fits in the limit of its stream by itself and no signal stops it. What a
rendering cuts off is lost without being counted. -/
theorem output_accounts (stream : Stream) :
    let limit := limits.outputBytes
    let asked := Line.on stream (x.lines limits)
    let kept := (x.run limits).1.captured stream
    kept = ((⟨limit, {}⟩ : Capture).writeAll (asked.map (·.written limit))).kept ∧
      kept.text.utf8ByteSize + kept.dropped = (asked.map fun l => (l.written limit).utf8ByteSize).sum ∧
      (kept.text.utf8ByteSize + kept.dropped = (asked.map fun l => l.whole.utf8ByteSize).sum ↔
        ∀ l ∈ asked, l.Complete limit) ∧
      (kept = ((⟨limit, {}⟩ : Capture).writeAll (asked.map Line.whole)).kept ↔
        ∀ l ∈ asked, l.Complete limit) := by
  intro limit asked kept
  have hkept : kept = ((⟨limit, {}⟩ : Capture).writeAll (asked.map (·.written limit))).kept := x.run_keeps limits stream
  have htotal : ∀ texts : List String, ((⟨limit, {}⟩ : Capture).writeAll texts).total =
      (texts.map String.utf8ByteSize).sum := fun texts =>
    (Capture.total_writeAll ⟨limit, {}⟩ texts).trans (Nat.zero_add _)
  have hwritten : kept.text.utf8ByteSize + kept.dropped =
      (asked.map fun l => (l.written limit).utf8ByteSize).sum := by
    have hsum := htotal (asked.map (·.written limit))
    rw [List.map_map] at hsum
    rw [hkept]
    exact hsum
  have hiff : kept.text.utf8ByteSize + kept.dropped = (asked.map fun l => l.whole.utf8ByteSize).sum ↔
      ∀ l ∈ asked, l.Complete limit := by
    rw [hwritten]
    exact Line.sum_written_eq_iff asked
  refine ⟨hkept, hwritten, hiff, fun hwhole => hiff.mp ?_, fun hall => ?_⟩
  · have hsum := htotal (asked.map Line.whole)
    rw [List.map_map] at hsum
    rw [hwhole]
    exact hsum
  · have hsame : asked.map (·.written limit) = asked.map Line.whole :=
      List.map_congr_left fun l hl => (hall l hl).written_eq
    rw [hkept, hsame]

-- Six of ten letters are lost, and none of them is counted.
example :
    (Compiler.compile {} 0 [⟨"m", "fn main() \x7b print(\"abcdefghij\"); \x7d", true⟩]).toOption.map (fun p =>
      let x : Execution := { program := p, deadlineMs := 1 }
      ((x.run { outputBytes := 4 }).1.captured .out, (x.lines { outputBytes := 4 }).map Line.whole)) =
    some (⟨"abcd", 0⟩, ["abcdefghij"]) := by
  decide +kernel

end Execution

end ScriptHost
