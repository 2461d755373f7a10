import Mathlib.Tactic.Lemma
import ScriptHost.Bytecode.Builtin
import ScriptHost.Proofs.Text.Fit
import ScriptHost.Sandbox.Capture

/-!
Lines on their way into output streams, and how a stream accounts for them.
-/

namespace ScriptHost

namespace Capture

def total (c : Capture) : Nat :=
  c.kept.text.utf8ByteSize + c.kept.dropped

lemma total_write (c : Capture) (s : String) : (c.write s).total = c.total + s.utf8ByteSize := by
  rw [write]
  by_cases hs : s.utf8ByteSize ≤ c.room
  · rw [if_pos hs]
    simp only [total, String.utf8ByteSize_append]
    omega
  · have hle := Text.utf8ByteSize_fit_le c.room s
    rw [if_neg hs]
    simp only [total, String.utf8ByteSize_append]
    omega

lemma write_empty (c : Capture) : c.write "" = c := by
  have hroom : "".utf8ByteSize ≤ c.room := Nat.zero_le c.room
  rw [write, if_pos hroom, String.append_empty]

def writeAll (c : Capture) (texts : List String) : Capture :=
  texts.foldl write c

lemma limit_writeAll (c : Capture) (texts : List String) : (c.writeAll texts).limit = c.limit := by
  induction texts generalizing c with
  | nil => rfl
  | cons s texts ih => exact (ih (c.write s)).trans (limit_write c s)

lemma writeAll_append (c : Capture) (texts more : List String) :
    c.writeAll (texts ++ more) = (c.writeAll texts).writeAll more :=
  List.foldl_append

lemma total_writeAll (c : Capture) (texts : List String) :
    (c.writeAll texts).total = c.total + (texts.map String.utf8ByteSize).sum := by
  induction texts generalizing c with
  | nil => rfl
  | cons s texts ih =>
    have hrest := ih (c.write s)
    rw [total_write] at hrest
    rw [List.map_cons, List.sum_cons, ← Nat.add_assoc]
    exact hrest

end Capture

structure Line where
  stream : Stream
  /-- The values with blanks between them, whatever their size. -/
  text : String
  newline : Bool
  /-- Whether the signal stops it before it is written. -/
  stopped : Bool
  some_of_stopped : stopped = true → text ≠ ""

namespace Line

def ended (l : Line) (text : String) : String :=
  if l.newline then text.push '\n' else text

def whole (l : Line) : String :=
  l.ended l.text

def written (l : Line) (limit : Nat) : String :=
  if l.stopped then "" else l.ended (Text.fit limit l.text)

def Complete (limit : Nat) (l : Line) : Prop :=
  l.stopped = false ∧ l.text.utf8ByteSize ≤ limit

variable (l : Line) (limit : Nat)

lemma utf8ByteSize_ended (text : String) :
    (l.ended text).utf8ByteSize = text.utf8ByteSize + (l.ended "").utf8ByteSize := by
  rw [ended, ended]
  cases l.newline with
  | true =>
    rw [if_pos rfl, if_pos rfl, String.utf8ByteSize_push, String.utf8ByteSize_push, String.utf8ByteSize_empty,
      Nat.zero_add]
  | false => rfl

variable {l limit}

lemma Complete.written_eq (h : l.Complete limit) : l.written limit = l.whole := by
  rw [written, h.1, whole, Text.fit_of_le h.2]
  rfl

lemma size_written_lt (h : ¬ l.Complete limit) :
    (l.written limit).utf8ByteSize < l.whole.utf8ByteSize := by
  have hwhole := l.utf8ByteSize_ended l.text
  rw [written, whole]
  by_cases hs : l.stopped = true
  · have htext : l.text.utf8ByteSize ≠ 0 := fun hzero => l.some_of_stopped hs (String.utf8ByteSize_eq_zero_iff.mp hzero)
    rw [if_pos hs, String.utf8ByteSize_empty]
    omega
  · have hroom : limit < l.text.utf8ByteSize :=
      Nat.not_le.mp fun hle => h ⟨Bool.not_eq_true _ ▸ hs, hle⟩
    have hfit := Text.utf8ByteSize_fit_le_room limit l.text
    rw [if_neg hs, utf8ByteSize_ended]
    omega

lemma size_written_le : (l.written limit).utf8ByteSize ≤ l.whole.utf8ByteSize := by
  by_cases h : l.Complete limit
  · exact Nat.le_of_eq (congrArg String.utf8ByteSize h.written_eq)
  · exact Nat.le_of_lt (size_written_lt h)

lemma sum_written_eq_iff (lines : List Line) :
    (lines.map fun l => (l.written limit).utf8ByteSize).sum = (lines.map fun l => l.whole.utf8ByteSize).sum ↔
      ∀ l ∈ lines, l.Complete limit := by
  suffices h : (lines.map fun l => (l.written limit).utf8ByteSize).sum ≤
      (lines.map fun l => l.whole.utf8ByteSize).sum ∧
      ((lines.map fun l => (l.written limit).utf8ByteSize).sum = (lines.map fun l => l.whole.utf8ByteSize).sum ↔
        ∀ l ∈ lines, l.Complete limit) from h.2
  induction lines with
  | nil => simp
  | cons l lines ih =>
    obtain ⟨hle, hiff⟩ := ih
    have hl : (l.written limit).utf8ByteSize ≤ l.whole.utf8ByteSize := size_written_le
    simp only [List.map_cons, List.sum_cons, List.forall_mem_cons]
    refine ⟨Nat.add_le_add hl hle, ?_⟩
    by_cases hfirst : l.Complete limit
    · rw [hfirst.written_eq, Nat.add_left_cancel_iff, hiff]
      exact ⟨fun hall => ⟨hfirst, hall⟩, fun hboth => hboth.2⟩
    · have hlt := size_written_lt hfirst
      refine ⟨fun heq => ?_, fun hboth => absurd hboth.1 hfirst⟩
      omega

end Line

end ScriptHost
