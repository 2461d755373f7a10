import Mathlib.Algebra.GroupWithZero.Nat
import Mathlib.Tactic.Lemma
import ScriptHost.Text.Fit

/-!
Cut texts, character by character.
-/

namespace ScriptHost.Text

def fitChars : Nat → List Char → List Char
  | _, [] => []
  | room, c :: cs => if c.utf8Size ≤ room then c :: fitChars (room - c.utf8Size) cs else []

def byteSize (cs : List Char) : Nat :=
  (cs.map Char.utf8Size).sum

lemma byteSize_cons (c : Char) (cs : List Char) : byteSize (c :: cs) = c.utf8Size + byteSize cs := rfl

lemma byteSize_toList (s : String) : byteSize s.toList = s.utf8ByteSize := by
  suffices h : ∀ cs : List Char, (String.ofList cs).utf8ByteSize = byteSize cs by
    rw [← h, String.ofList_toList]
  intro cs
  induction cs with
  | nil => rfl
  | cons c cs ih =>
    rw [← List.singleton_append, String.ofList_append, String.utf8ByteSize_append, ih, ← String.singleton_eq_ofList,
      String.utf8ByteSize_singleton]
    rfl

lemma fitChars_append {room : Nat} {cs rest : List Char} (h : byteSize cs ≤ room)
    (hrest : ∀ c cs', rest = c :: cs' → room < byteSize cs + c.utf8Size) :
    fitChars room (cs ++ rest) = cs := by
  induction cs generalizing room with
  | nil =>
    cases rest with
    | nil => rfl
    | cons c cs' =>
      have hc := hrest c cs' rfl
      rw [List.nil_append, fitChars, if_neg]
      rw [byteSize, List.map_nil, List.sum_nil, Nat.zero_add] at hc
      omega
  | cons c cs ih =>
    rw [byteSize_cons] at h
    rw [List.cons_append, fitChars, if_pos (by omega), ih (by omega)]
    intro d cs' hd
    have hd := hrest d cs' hd
    rw [byteSize_cons] at hd
    omega

lemma fitChars_left {room : Nat} {cs : List Char} (h : byteSize cs ≤ room) (ds : List Char) :
    fitChars room (cs ++ ds) = cs ++ fitChars (room - byteSize cs) ds := by
  induction cs generalizing room with
  | nil => rfl
  | cons c cs ih =>
    rw [byteSize_cons] at h ⊢
    rw [List.cons_append, fitChars, if_pos (by omega), ih (by omega), List.cons_append, Nat.sub_sub]

lemma fitChars_right {room : Nat} {cs : List Char} (h : room < byteSize cs) (ds : List Char) :
    fitChars room (cs ++ ds) = fitChars room cs := by
  induction cs generalizing room with
  | nil => cases h
  | cons c cs ih =>
    rw [byteSize_cons] at h
    rw [List.cons_append, fitChars, fitChars]
    by_cases hc : c.utf8Size ≤ room
    · rw [if_pos hc, if_pos hc, ih (by omega)]
    · rw [if_neg hc, if_neg hc]

lemma byteSize_fitChars_le (room : Nat) (cs : List Char) : byteSize (fitChars room cs) ≤ room := by
  induction cs generalizing room with
  | nil => exact Nat.zero_le room
  | cons c cs ih =>
    rw [fitChars]
    by_cases hc : c.utf8Size ≤ room
    · have hrest := ih (room - c.utf8Size)
      rw [if_pos hc, byteSize_cons]
      omega
    · rw [if_neg hc]
      exact Nat.zero_le room

lemma lt_byteSize_fitChars {room : Nat} {cs : List Char} (h : room < byteSize cs) :
    room < byteSize (fitChars room cs) + 4 := by
  induction cs generalizing room with
  | nil => cases h
  | cons c cs ih =>
    rw [byteSize_cons] at h
    rw [fitChars]
    by_cases hc : c.utf8Size ≤ room
    · have hrest := ih (show room - c.utf8Size < byteSize cs by omega)
      rw [if_pos hc, byteSize_cons]
      omega
    · have hfour := c.utf8Size_le_four
      rw [if_neg hc]
      omega

lemma fitChars_stops {room : Nat} {cs : List Char} {c : Char} {ds : List Char}
    (h : fitChars room cs ++ c :: ds = cs) : room < byteSize (fitChars room cs) + c.utf8Size := by
  induction cs generalizing room with
  | nil => simp [fitChars] at h
  | cons d cs ih =>
    rw [fitChars] at h ⊢
    by_cases hd : d.utf8Size ≤ room
    · rw [if_pos hd] at h ⊢
      have hrest := ih (List.cons_inj_right d |>.mp h)
      rw [byteSize_cons]
      omega
    · rw [if_neg hd] at h ⊢
      obtain ⟨rfl, -⟩ := List.cons_eq_cons.mp h
      exact Nat.lt_add_left _ (Nat.not_le.mp hd)

lemma fitChars_eq_nil_iff {room : Nat} {cs : List Char} :
    fitChars room cs = [] ↔ ∀ c ∈ cs.head?, room < c.utf8Size := by
  cases cs with
  | nil => simp [fitChars]
  | cons c cs => simp [fitChars]

lemma le_offset_cut {s : String} (p : s.Pos) {n : Nat} (hp : p.offset.byteIdx ≤ n) :
    p.offset.byteIdx ≤ (cut s n).offset.byteIdx := by
  induction n with
  | zero => exact Nat.le_trans hp (Nat.zero_le _)
  | succ n ih =>
    rw [cut]
    by_cases hvalid : (⟨n + 1⟩ : String.Pos.Raw).isValidForSlice s.toSlice = true
    · simp only [String.pos?, String.Slice.pos?, hvalid]
      simpa using hp
    · have hne : p.offset.byteIdx ≠ n + 1 := by
        intro heq
        have hp := p.isValid.toSlice
        rw [show p.offset = ⟨n + 1⟩ from String.Pos.Raw.ext heq] at hp
        exact hvalid (String.Pos.Raw.isValidForSlice_eq_true_iff.mpr hp)
      simp only [String.pos?, String.Slice.pos?, hvalid]
      exact ih (by omega)

lemma toList_fit (room : Nat) (s : String) : (fit room s).toList = fitChars room s.toList := by
  by_cases hs : s.utf8ByteSize ≤ room
  · have hall : fitChars room (s.toList ++ []) = s.toList :=
      fitChars_append (le_of_eq_of_le (byteSize_toList s) hs) (by simp)
    rw [List.append_nil] at hall
    rw [fit_of_le hs, hall]
  · rw [fit, if_neg hs]
    have hsplits := (cut s room).splits
    generalize (s.sliceTo (cut s room)).copy = t at hsplits ⊢
    generalize (s.sliceFrom (cut s room)).copy = u at hsplits
    have heq := hsplits.eq_append
    have hsize : (cut s room).offset.byteIdx = byteSize t.toList := by
      rw [hsplits.offset_eq_rawEndPos, byteSize_toList]
      rfl
    have hlist : s.toList = t.toList ++ u.toList := by rw [heq, String.toList_append]
    rw [hlist, fitChars_append]
    · rw [← hsize]
      exact offset_cut_le s room
    · intro c cs hc
      apply Nat.not_le.mp
      intro hroom
      have hvalid : (⟨byteSize t.toList + c.utf8Size⟩ : String.Pos.Raw).IsValid s := by
        rw [String.Pos.Raw.isValid_iff_exists_append]
        refine ⟨t.push c, String.ofList cs, ?_, ?_⟩
        · rw [← String.toList_inj, hlist, hc]
          simp
        · rw [byteSize_toList]
          simp [String.Pos.Raw.ext_iff]
      have hle := le_offset_cut (s.pos _ hvalid) hroom
      have hpos := c.utf8Size_pos
      rw [hsize] at hle
      simp only [String.offset_pos] at hle
      omega

lemma utf8ByteSize_fit_le (room : Nat) (s : String) : (fit room s).utf8ByteSize ≤ s.utf8ByteSize := by
  obtain ⟨rest, h⟩ := fit_append room s
  rw [← congrArg String.utf8ByteSize h, String.utf8ByteSize_append]
  exact Nat.le_add_right _ _

lemma utf8ByteSize_fit_le_room (room : Nat) (s : String) : (fit room s).utf8ByteSize ≤ room := by
  rw [← byteSize_toList, toList_fit]
  exact byteSize_fitChars_le room s.toList

lemma lt_utf8ByteSize_fit {room : Nat} {s : String} (h : room < s.utf8ByteSize) :
    room < (fit room s).utf8ByteSize + 4 := by
  rw [← byteSize_toList] at h ⊢
  rw [toList_fit]
  exact lt_byteSize_fitChars h

lemma fit_eq_empty_iff {room : Nat} {s : String} : fit room s = "" ↔ ∀ c ∈ s.toList.head?, room < c.utf8Size := by
  rw [← String.toList_inj, toList_fit]
  exact fitChars_eq_nil_iff

lemma eq_empty_of_fit_prefix {room : Nat} {s t : String} (h : (fit room s ++ t).toList <+: s.toList)
    (hroom : (fit room s).utf8ByteSize + t.utf8ByteSize ≤ room) : t = "" := by
  rw [← byteSize_toList, ← byteSize_toList t, toList_fit] at hroom
  rw [← String.toList_inj]
  obtain ⟨rest, h⟩ := h
  rw [String.toList_append, toList_fit, List.append_assoc] at h
  cases ht : t.toList with
  | nil => rfl
  | cons c cs =>
    rw [ht] at h hroom
    have hlarge := fitChars_stops h
    rw [byteSize_cons] at hroom
    omega

lemma fit_left {room : Nat} {s : String} (h : s.utf8ByteSize ≤ room) (t : String) :
    fit room (s ++ t) = s ++ fit (room - s.utf8ByteSize) t := by
  rw [← byteSize_toList] at h ⊢
  rw [← String.toList_inj, toList_fit, String.toList_append, String.toList_append, toList_fit, fitChars_left h]

lemma fit_right {room : Nat} {s : String} (h : room < s.utf8ByteSize) (t : String) :
    fit room (s ++ t) = fit room s := by
  rw [← byteSize_toList] at h
  rw [← String.toList_inj, toList_fit, String.toList_append, toList_fit, fitChars_right h]

lemma append_eq_fit {room : Nat} {s t rest : String} (h : t ++ rest = s) (ht : t.utf8ByteSize ≤ room) :
    ∃ more, t ++ more = fit room s := by
  obtain ⟨left, hleft⟩ := fit_append room s
  have hprefix : t.toList <+: s.toList := by
    rw [← h, String.toList_append]
    exact List.prefix_append _ _
  have hfit : (fit room s).toList <+: s.toList := ⟨left.toList, by rw [← String.toList_append, hleft]⟩
  rcases List.prefix_or_prefix_of_prefix hprefix hfit with ⟨more, hmore⟩ | ⟨more, hmore⟩
  · refine ⟨String.ofList more, ?_⟩
    rw [← String.toList_inj, String.toList_append, String.toList_ofList, hmore]
  · have hlong : fit room s ++ String.ofList more = t := by
      rw [← String.toList_inj, String.toList_append, String.toList_ofList, hmore]
    have hempty : String.ofList more = "" := by
      apply eq_empty_of_fit_prefix (hlong ▸ hprefix)
      rw [← String.utf8ByteSize_append, hlong]
      exact ht
    rw [hempty, String.append_empty] at hlong
    exact ⟨"", by rw [String.append_empty, hlong]⟩

/-- The longest beginning of a text that takes `room` bytes at most. A beginning has whole characters. -/
structure Longest (room : Nat) (s t : String) : Prop where
  begins : ∃ rest, t ++ rest = s
  fits : t.utf8ByteSize ≤ room
  longest : ∀ t' rest, t' ++ rest = s → t'.utf8ByteSize ≤ room → t'.utf8ByteSize ≤ t.utf8ByteSize

lemma longest_fit (room : Nat) (s : String) : Longest room s (fit room s) where
  begins := fit_append room s
  fits := utf8ByteSize_fit_le_room room s
  longest t' rest h ht := by
    obtain ⟨more, hmore⟩ := append_eq_fit h ht
    rw [← hmore, String.utf8ByteSize_append]
    exact Nat.le_add_right _ _

lemma Longest.eq_fit {room : Nat} {s t : String} (h : Longest room s t) : t = fit room s := by
  obtain ⟨rest, hrest⟩ := h.begins
  obtain ⟨left, hleft⟩ := fit_append room s
  obtain ⟨more, hmore⟩ := append_eq_fit hrest h.fits
  -- What fits begins with the longest beginning, so nothing comes behind that.
  have hle := h.longest _ left hleft (utf8ByteSize_fit_le_room room s)
  rw [← hmore, String.utf8ByteSize_append] at hle
  have hempty : more = "" := String.utf8ByteSize_eq_zero_iff.mp (by omega)
  rw [← hmore, hempty, String.append_empty]

end ScriptHost.Text
