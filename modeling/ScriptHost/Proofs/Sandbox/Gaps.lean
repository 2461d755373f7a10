import ScriptHost.Proofs.Sandbox.Streams

/-!
Where output has gaps. A text that does not fit is cut between two characters, and what room that leaves is there for
later texts that are short enough: they come right behind the cut, and what was cut off is missing before them.
-/

namespace ScriptHost

namespace Text

def fitAll : Nat → List String → String
  | _, [] => ""
  | room, s :: texts => fit room s ++ fitAll (room - (fit room s).utf8ByteSize) texts

def late : Nat → List String → List String
  | _, [] => []
  | room, s :: texts => if s.utf8ByteSize ≤ room then late (room - s.utf8ByteSize) texts else texts

def spare (room : Nat) (texts : List String) : Nat :=
  room - (fit room (String.join texts)).utf8ByteSize

section Gaps

variable (room : Nat) (texts : List String)

lemma fitAll_eq : fitAll room texts =
    fit room (String.join texts) ++ fitAll (spare room texts) (late room texts) := by
  induction texts generalizing room with
  | nil => rfl
  | cons s texts ih =>
    rw [fitAll, late, spare, String.join_cons]
    by_cases hs : s.utf8ByteSize ≤ room
    · rw [if_pos hs, fit_of_le hs, fit_left hs, ih, String.append_assoc, String.utf8ByteSize_append, ← Nat.sub_sub]
      rfl
    · rw [if_neg hs, fit_right (Nat.not_le.mp hs)]

lemma size_fitAll_le : (fitAll room texts).utf8ByteSize ≤ room := by
  induction texts generalizing room with
  | nil => exact Nat.zero_le room
  | cons s texts ih =>
    have hs := utf8ByteSize_fit_le_room room s
    have hrest := ih (room - (fit room s).utf8ByteSize)
    rw [fitAll, String.utf8ByteSize_append]
    omega

lemma fitAll_sublist : (fitAll room texts).toList.Sublist (String.join texts).toList := by
  induction texts generalizing room with
  | nil => exact List.Sublist.refl _
  | cons s texts ih =>
    obtain ⟨rest, hs⟩ := fit_append room s
    have hprefix : (fit room s).toList <+: s.toList := ⟨rest.toList, by rw [← String.toList_append, hs]⟩
    rw [fitAll, String.join_cons, String.toList_append, String.toList_append]
    exact hprefix.sublist.append (ih _)

lemma late_eq_nil {room : Nat} {texts : List String} (h : (String.join texts).utf8ByteSize ≤ room) :
    late room texts = [] := by
  induction texts generalizing room with
  | nil => rfl
  | cons s texts ih =>
    rw [String.join_cons, String.utf8ByteSize_append] at h
    rw [late, if_pos (by omega), ih (by omega)]

lemma fitAll_eq_empty_iff : fitAll room texts = "" ↔ ∀ s ∈ texts, ∀ c ∈ s.toList.head?, room < c.utf8Size := by
  induction texts with
  | nil => simp [fitAll]
  | cons s texts ih =>
    rw [List.forall_mem_cons, ← fit_eq_empty_iff, ← ih, fitAll, String.append_eq_empty_iff]
    constructor
    · rintro ⟨hs, hrest⟩
      rw [hs] at hrest
      exact ⟨hs, hrest⟩
    · rintro ⟨hs, hrest⟩
      rw [hs]
      exact ⟨rfl, hrest⟩

lemma size_slipped_le : (fitAll (spare room texts) (late room texts)).utf8ByteSize ≤ 3 := by
  by_cases hall : (String.join texts).utf8ByteSize ≤ room
  · rw [late_eq_nil hall]
    exact Nat.zero_le 3
  · have hcut := lt_utf8ByteSize_fit (Nat.not_le.mp hall)
    have hsize := size_fitAll_le (spare room texts) (late room texts)
    rw [spare] at hsize ⊢
    omega

lemma fitAll_prefix_iff : (fitAll room texts).toList <+: (String.join texts).toList ↔
    fitAll (spare room texts) (late room texts) = "" := by
  rw [fitAll_eq]
  constructor
  · intro hprefix
    have hfit := utf8ByteSize_fit_le_room room (String.join texts)
    have hsize := size_fitAll_le (spare room texts) (late room texts)
    refine eq_empty_of_fit_prefix hprefix ?_
    rw [spare] at hsize ⊢
    omega
  · intro hnone
    obtain ⟨rest, hrest⟩ := fit_append room (String.join texts)
    rw [hnone, String.append_empty]
    exact ⟨rest.toList, by rw [← String.toList_append, hrest]⟩

end Gaps

end Text

namespace Capture

lemma text_write (c : Capture) (s : String) : (c.write s).kept.text = c.kept.text ++ Text.fit c.room s := by
  rw [write]
  by_cases hs : s.utf8ByteSize ≤ c.room
  · rw [if_pos hs, Text.fit_of_le hs]
  · rw [if_neg hs]

lemma text_writeAll (c : Capture) (texts : List String) :
    (c.writeAll texts).kept.text = c.kept.text ++ Text.fitAll c.room texts := by
  induction texts generalizing c with
  | nil => exact String.append_empty.symm
  | cons s texts ih =>
    have hroom : (c.write s).room = c.room - (Text.fit c.room s).utf8ByteSize := by
      rw [room, limit_write, text_write, String.utf8ByteSize_append, ← Nat.sub_sub]
      rfl
    have hrest := ih (c.write s)
    rw [text_write, hroom, String.append_assoc] at hrest
    exact hrest

end Capture

namespace Streams

/-- Through whatever handles a stream was written: what it keeps begins with all that fits of the texts since it was last
emptied, and goes on with what slips in of the texts after the one that was cut, three bytes at most. So it keeps the
characters in their order, but it has a gap exactly if one of the late texts begins with a character that is no larger
than the room behind the cut. -/
theorem text_is_prefix_iff_nothing_slips_in {limits : List Nat} {log : List (Nat × Capture.Use)} {s : Streams}
    {i limit : Nat} (h : Run limits log s) (hi : limits[i]? = some limit) :
    let texts := Capture.unread (usesOf i log)
    let whole := String.join texts
    let slipped := Text.fitAll (Text.spare limit texts) (Text.late limit texts)
    ∃ c, s.captures[i]? = some c ∧ c.kept.text = Text.fit limit whole ++ slipped ∧
      slipped.utf8ByteSize ≤ 3 ∧ c.kept.text.toList.Sublist whole.toList ∧
      (c.kept.text.toList <+: whole.toList ↔ slipped = "") ∧
      (slipped = "" ↔
        ∀ late ∈ Text.late limit texts, ∀ x ∈ late.toList.head?, Text.spare limit texts < x.utf8Size) := by
  intro texts whole slipped
  have hc := h.capture hi
  rw [Capture.after_eq_writeAll] at hc
  have htext := Capture.text_writeAll ⟨limit, {}⟩ texts
  have hroom : (⟨limit, {}⟩ : Capture).room = limit := rfl
  rw [hroom, String.empty_append] at htext
  refine ⟨_, hc, ?_, Text.size_slipped_le limit texts, ?_, ?_, Text.fitAll_eq_empty_iff _ _⟩
  · rw [htext]
    exact Text.fitAll_eq limit texts
  · rw [htext]
    exact Text.fitAll_sublist limit texts
  · rw [htext]
    exact Text.fitAll_prefix_iff limit texts

lemma run_slipped : Run [3] [(0, .write "abé"), (0, .write "c")] ⟨[⟨3, ⟨"abc", 2⟩⟩], [0]⟩ :=
  (Run.start.use (h := 0) rfl rfl).use (h := 0) rfl rfl

theorem late_text_leaves_gap : ∃ log s c, Run [3] log s ∧ s.captures[0]? = some c ∧
    ¬ c.kept.text.toList <+: (String.join (Capture.unread (usesOf 0 log))).toList :=
  ⟨_, _, _, run_slipped, rfl, by decide +kernel⟩

theorem text_is_prefix_iff_nothing_slips_in_wide : ∃ log s c, Run [3] log s ∧ s.captures[0]? = some c ∧
    c.kept.text = "ab" ∧ c.kept.text.toList <+: "abéé".toList := by
  have hrun : Run [3] [(0, .write "abé"), (0, .write "é")] ⟨[⟨3, ⟨"ab", 4⟩⟩], [0]⟩ :=
    (Run.start.use (h := 0) rfl rfl).use (h := 0) rfl rfl
  obtain ⟨c, hc, htext, -, -, hprefix, hnone⟩ := text_is_prefix_iff_nothing_slips_in hrun (i := 0) rfl
  have hlate : Text.late 3 ["abé", "é"] = ["é"] := by decide +kernel
  have hspare : Text.spare 3 ["abé", "é"] = 1 := by decide +kernel
  have hwide : ∀ late ∈ Text.late 3 ["abé", "é"], ∀ x ∈ late.toList.head?, Text.spare 3 ["abé", "é"] < x.utf8Size := by
    have hsize : 1 < 'é'.utf8Size := by decide
    rw [hlate, hspare]
    simpa using hsize
  exact ⟨_, _, c, hrun, hc, htext, hprefix.mpr (hnone.mpr hwide)⟩

end Streams

end ScriptHost
