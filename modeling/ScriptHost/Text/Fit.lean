/-!
Cutting text to a budget of bytes. `fit` keeps the longest beginning of a text that ends between two
characters and is no larger than the budget.
-/

namespace ScriptHost.Text

/-- The last place between two characters at most `n` bytes into the text. -/
def cut (s : String) : Nat → s.Pos
  | 0 => s.startPos
  | n + 1 =>
    match s.pos? ⟨n + 1⟩ with
    | some p => p
    | none => cut s n

def fit (room : Nat) (s : String) : String :=
  if s.utf8ByteSize ≤ room then s else (s.sliceTo (cut s room)).copy

theorem fit_of_le {room : Nat} {s : String} (h : s.utf8ByteSize ≤ room) : fit room s = s := by
  simp [fit, h]

theorem offset_cut_le (s : String) (n : Nat) : (cut s n).offset.byteIdx ≤ n := by
  induction n with
  | zero => simp [cut]
  | succ n ih =>
    rw [cut]
    split
    · next p h =>
      simp only [String.pos?, Option.map_eq_some_iff] at h
      obtain ⟨q, hq, rfl⟩ := h
      simp only [String.Slice.pos?] at hq
      split at hq <;> simp at hq
      subst hq
      simp
    · omega

/-- What is kept begins the text. -/
theorem fit_append (room : Nat) (s : String) : ∃ rest, fit room s ++ rest = s := by
  unfold fit
  split
  · exact ⟨"", by simp⟩
  · exact ⟨_, (cut s room).splits.eq_append.symm⟩

end ScriptHost.Text
