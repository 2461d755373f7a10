import ScriptHost.Proofs.Sandbox.Accounting
import ScriptHost.Proofs.Sandbox.Streams
import ScriptHost.Session.Basic

/-!
Texts of streams in verdicts. A text is cut once more when it is put into a verdict, and the mark behind it counts what
either cut has taken.
-/

namespace ScriptHost

namespace Captured

def mark (lost : Nat) : String :=
  if lost = 0 then "" else "...[truncated " ++ toString lost ++ " bytes]"

/-- A text is shown as the longest beginning of it that takes `limit` bytes at most, and a mark for all other bytes. A
beginning has whole characters. -/
def Shows (limit : Nat) (c : Captured) (shown : String) : Prop :=
  ∃ kept rest, c.text = kept ++ rest ∧ kept.utf8ByteSize ≤ limit ∧
    (∀ kept' rest', c.text = kept' ++ rest' → kept'.utf8ByteSize ≤ limit →
      kept'.utf8ByteSize ≤ kept.utf8ByteSize) ∧
    shown = kept ++ mark (rest.utf8ByteSize + c.dropped)

variable {limit : Nat} {c : Captured}

lemma excerpt_eq {rest : String} (h : Text.fit limit c.text ++ rest = c.text) :
    c.excerpt limit = Text.fit limit c.text ++ mark (rest.utf8ByteSize + c.dropped) := by
  have hlost : c.dropped + (c.text.utf8ByteSize - (Text.fit limit c.text).utf8ByteSize) =
      rest.utf8ByteSize + c.dropped := by
    have hsize := congrArg String.utf8ByteSize h
    rw [String.utf8ByteSize_append] at hsize
    omega
  rw [excerpt, hlost, mark]
  by_cases hzero : rest.utf8ByteSize + c.dropped = 0
  · rw [if_pos hzero, if_pos hzero, String.append_empty]
  · rw [if_neg hzero, if_neg hzero, String.append_assoc, String.append_assoc, String.append_assoc]

lemma shows_excerpt : c.Shows limit (c.excerpt limit) := by
  obtain ⟨⟨rest, hrest⟩, hsize, hlongest⟩ := Text.longest_fit limit c.text
  exact ⟨_, rest, hrest.symm, hsize, fun kept' rest' h => hlongest kept' rest' h.symm, excerpt_eq hrest⟩

lemma Shows.eq_excerpt {shown : String} (h : c.Shows limit shown) : shown = c.excerpt limit := by
  obtain ⟨kept, rest, htext, hsize, hlongest, rfl⟩ := h
  have hkept : Text.Longest limit c.text kept :=
    ⟨⟨rest, htext.symm⟩, hsize, fun kept' rest' h => hlongest kept' rest' h.symm⟩
  obtain rfl := hkept.eq_fit
  exact (excerpt_eq htext.symm).symm

lemma excerpt_of_le (h : c.text.utf8ByteSize ≤ limit) : c.excerpt limit = c.text ++ mark c.dropped := by
  have hfit := Text.fit_of_le h
  have hall : Text.fit limit c.text ++ "" = c.text := by rw [hfit, String.append_empty]
  rw [excerpt_eq hall, hfit]
  exact congrArg (fun n => c.text ++ mark n) (Nat.zero_add c.dropped)

end Captured

def Verdict.shown? : Verdict → Stream → Option String
  | success _ out _ _, .out | runtimeFault _ out _ _, .out | timeout out _, .out => some out
  | success _ _ err _, .err | runtimeFault _ _ err _, .err | timeout _ err, .err => some err
  | _, _ => none

lemma Ending.shown?_verdictOfRun (limit nanos : Nat) (o : Outcome) (stream : Stream) :
    (∃ out err, o = .interrupted out err) ∨
      (verdictOfRun limit nanos o).shown? stream = some ((o.captured stream).excerpt limit) := by
  cases o with
  | interrupted out err => exact .inl ⟨out, err, rfl⟩
  | _ => cases stream <;> exact .inr rfl

lemma Ending.shown_of_le {limit nanos : Nat} {o : Outcome} {stream : Stream} {shown : String}
    (hle : (o.captured stream).text.utf8ByteSize ≤ limit)
    (hshown : (verdictOfRun limit nanos o).shown? stream = some shown) :
    shown = (o.captured stream).text ++ Captured.mark (o.captured stream).dropped := by
  rcases shown?_verdictOfRun limit nanos o stream with ⟨out, err, rfl⟩ | heq
  · cases hshown
  · rw [hshown, Captured.excerpt_of_le hle] at heq
    exact Option.some.inj heq

lemma Session.finish_executed {s : Session} (hs : s.verdict = none) (limit nanos : Nat) (o : Outcome) :
    (s.finish limit (.executed o nanos)).1 = Ending.verdictOfRun limit nanos o := by
  rw [finish, hs]
  rfl

/-- Verdicts account for every byte. Whatever a run that was not called off left on a stream, its session, if it has no
verdict yet, gets one that shows the longest beginning within the limit and counts all that is missing, and no other
text does. What went through a capture of the same limit, however it was used, is shown as it was kept, with the
capture's own count; so is the output of every run under that limit. -/
theorem verdicts_account_for_every_byte (limit nanos : Nat) {s : Session} (hs : s.verdict = none) :
    (∀ o stream, (∃ out err, o = .interrupted out err) ∨ ∃ shown,
      (s.finish limit (.executed o nanos)).1.shown? stream = some shown ∧
      ∀ text, (o.captured stream).Shows limit text ↔ text = shown) ∧
    (∀ limits log (streams : Streams) (i : Nat) (c : Capture), Streams.Run limits log streams →
      limits[i]? = some limit → streams.captures[i]? = some c → ∀ o stream shown, o.captured stream = c.kept →
      (s.finish limit (.executed o nanos)).1.shown? stream = some shown →
      shown = c.kept.text ++ Captured.mark c.kept.dropped) ∧
    ∀ (x : Execution) (limits : SandboxLimits) o stream shown, limits.outputBytes = limit → (x.run limits).1 = o →
      (s.finish limit (.executed o nanos)).1.shown? stream = some shown →
      shown = (o.captured stream).text ++ Captured.mark (o.captured stream).dropped := by
  simp only [Session.finish_executed hs]
  refine ⟨?_, ?_, ?_⟩
  · intro o stream
    apply (Ending.shown?_verdictOfRun limit nanos o stream).imp_right
    intro hshown
    exact ⟨_, hshown, fun text => ⟨Captured.Shows.eq_excerpt, fun heq => heq ▸ Captured.shows_excerpt⟩⟩
  · intro limits log streams i c hrun hi hc o stream shown ho hshown
    have hbound : c.kept.text.utf8ByteSize ≤ limit := by
      rw [hrun.capture hi, Capture.after_eq_writeAll] at hc
      cases hc
      exact Capture.size_writeAll_le _ (Nat.zero_le limit)
    rw [← ho] at hbound ⊢
    exact Ending.shown_of_le hbound hshown
  · intro x limits o stream shown hlimit hrun hshown
    have hbound : (o.captured stream).text.utf8ByteSize ≤ limit := by
      have hkept := x.run_keeps limits stream
      rw [← hrun, hkept, ← hlimit]
      exact Capture.size_writeAll_le _ (Nat.zero_le limits.outputBytes)
    exact Ending.shown_of_le hbound hshown

def submitted : Session :=
  { id := 1, units := [], arguments := [], deadlineMs := 1, created := default }

theorem verdicts_account_for_every_byte_split :
    (∃ shown, (submitted.finish 3 (.executed (.timeout ⟨"abéc", 2⟩ {}) 0)).1.shown? .out = some shown ∧
      (⟨"abéc", 2⟩ : Captured).Shows 3 shown ∧ shown = "ab...[truncated 5 bytes]") ∧
    ∀ shown, (submitted.finish 3 (.executed (.timeout ⟨"ab", 2⟩ {}) 0)).1.shown? .out = some shown →
      shown = "ab...[truncated 2 bytes]" := by
  obtain ⟨hshows, hcaptures, -⟩ := verdicts_account_for_every_byte 3 0 (s := submitted) rfl
  have huse : (Streams.ofLimits [3]).use? 0 (.write "abé") = some (none, ⟨[⟨3, ⟨"ab", 2⟩⟩], [0]⟩) := by
    decide +kernel
  have hrun : Streams.Run [3] [(0, .write "abé")] ⟨[⟨3, ⟨"ab", 2⟩⟩], [0]⟩ := Streams.Run.start.use rfl huse
  refine ⟨?_, fun shown hshown => ?_⟩
  · rcases hshows (.timeout ⟨"abéc", 2⟩ {}) .out with ⟨out, err, h⟩ | ⟨shown, hshown, hiff⟩
    · cases h
    · refine ⟨shown, hshown, (hiff shown).mpr rfl, ?_⟩
      cases hshown
      decide +kernel
  · exact hcaptures [3] _ _ 0 _ hrun rfl rfl (.timeout ⟨"ab", 2⟩ {}) .out shown rfl hshown

end ScriptHost
