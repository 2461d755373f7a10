import Mathlib.Data.List.Infix
import ScriptHost.Coalesce.Source
import ScriptHost.Proofs.Syntax.Spelling

/-!
The text that some units are folded into. Without marks in the entry unit it spells what the entry unit spells, and then
what the other units do.
-/

namespace ScriptHost

namespace Text

open Lexeme (Trim)

lemma occursIn_iff {part cs : List Char} : occursIn part cs = true ↔ part <:+: cs := by
  induction cs with
  | nil => rw [occursIn, List.isEmpty_iff, List.infix_nil]
  | cons c cs ih => rw [occursIn, Bool.or_eq_true, List.isPrefixOf_iff_prefix, ih, List.infix_cons_iff]

lemma endedLine_begins (line : List Char) : (endedLine line).toList <+: line.reverse := by
  unfold endedLine
  split
  · simp
  · simp

lemma linesFrom_within (done : List String) (line cs : List Char) :
    ∀ l ∈ linesFrom done line cs, l ∈ done ∨ l.toList <:+: line.reverse ++ cs := by
  induction cs generalizing done line with
  | nil =>
    intro l hl
    rw [linesFrom, List.mem_reverse] at hl
    split at hl
    · exact .inl hl
    · rcases List.mem_cons.mp hl with rfl | hl
      · exact .inr ⟨[], [], by simp⟩
      · exact .inl hl
  | cons c cs ih =>
    intro l hl
    rw [linesFrom] at hl
    split at hl
    · rcases ih _ _ l hl with hdone | hwithin
      · rcases List.mem_cons.mp hdone with rfl | hdone
        · exact .inr ((endedLine_begins line).isInfix.trans (List.infix_append' [] line.reverse (c :: cs)))
        · exact .inl hdone
      · exact .inr (hwithin.trans ⟨line.reverse ++ [c], [], by simp⟩)
    · rcases ih _ _ l hl with hdone | hwithin
      · exact .inl hdone
      · exact .inr (by simpa using hwithin)

lemma lines_within {s l : String} (hl : l ∈ lines s) : l.toList <:+: s.toList :=
  (linesFrom_within [] [] s.toList l hl).resolve_left List.not_mem_nil

lemma endedLine_trim (line : List Char) {cs body : List Char} (h : Trim cs body) :
    Trim (line.reverse ++ '\n' :: cs) ((endedLine line).toList ++ '\n' :: body) := by
  have hkeep : Trim ('\n' :: cs) ('\n' :: body) := .keep '\n' h
  unfold endedLine
  split
  · next line =>
    rw [List.reverse_cons, List.append_assoc, String.toList_ofList]
    exact (Trim.drop (by simp) hkeep).prepend line.reverse
  · rw [String.toList_ofList]
    exact hkeep.prepend line.reverse

def ended (ls : List String) : List Char :=
  ls.flatMap fun l => l.toList ++ ['\n']

lemma linesFrom_trim (done : List String) (line cs : List Char) :
    ∃ body, Trim (line.reverse ++ cs) body ∧
      (ended (linesFrom done line cs) = ended done.reverse ++ body ∨
        ended (linesFrom done line cs) = ended done.reverse ++ (body ++ ['\n'])) := by
  induction cs generalizing done line with
  | nil =>
    rw [linesFrom, List.append_nil]
    refine ⟨line.reverse, Trim.refl _, ?_⟩
    cases line with
    | nil => exact .inl (by simp)
    | cons c line => exact .inr (by simp [ended])
  | cons c cs ih =>
    rw [linesFrom]
    split
    · next hc =>
      subst hc
      obtain ⟨body, hbody, hended⟩ := ih (endedLine line :: done) []
      refine ⟨(endedLine line).toList ++ '\n' :: body, endedLine_trim line hbody, ?_⟩
      simpa [ended] using hended
    · obtain ⟨body, hbody, hended⟩ := ih done (c :: line)
      exact ⟨body, by simpa using hbody, hended⟩

lemma lines_trim (s : String) :
    ∃ body, Trim s.toList body ∧ (ended (lines s) = body ∨ ended (lines s) = body ++ ['\n']) :=
  linesFrom_trim [] [] s.toList

end Text

namespace Coalesce

open Lexeme (Spells Trim)

lemma foldl_toList {α : Type} (g : α → String) (xs : List α) (s : String) :
    (xs.foldl (fun out x => out ++ g x) s).toList = s.toList ++ xs.flatMap fun x => (g x).toList := by
  induction xs generalizing s with
  | nil => simp
  | cons x xs ih => rw [List.foldl_cons, ih, String.toList_append, List.append_assoc, List.flatMap_cons]

lemma entryLine_plain {stamp line : String} (others : List SourceUnit) (hs : isMarked stampMark line = false)
    (hu : isMarked unitsMark line = false) : entryLine stamp others line = line ++ "\n" := by
  rw [entryLine, hs, hu]
  rfl

lemma isMarked_line {mark text line : String} (h : isMarked mark text = false) (hl : line ∈ Text.lines text) :
    isMarked mark line = false := by
  rw [isMarked, Bool.eq_false_iff] at h ⊢
  exact fun hline => h (Text.occursIn_iff.mpr ((Text.occursIn_iff.mp hline).trans (Text.lines_within hl)))

def appended (others : List SourceUnit) : List Char :=
  others.flatMap fun u => '\n' :: (block u).toList

def finished (text : String) : List Char :=
  text.toList ++ if text.toList.getLast? = some '\n' then [] else ['\n']

lemma block_toList (u : SourceUnit) :
    (block u).toList = '/' :: '/' :: (" unit: ".toList ++ u.name.toList ++ '\n' :: finished u.text) := by
  rw [block, headerOf, finished]
  split <;> simp

lemma foldl_appended (others : List SourceUnit) (out : String) :
    (others.foldl (fun out u => out ++ "\n" ++ block u) out).toList = out.toList ++ appended others := by
  have hassoc : (fun (out : String) u => out ++ "\n" ++ block u) = fun out u => out ++ ("\n" ++ block u) := by
    funext out u
    rw [String.append_assoc]
  rw [hassoc, foldl_toList, appended]
  simp

def heading (stamp text : String) : String :=
  if isMarked stampMark text then "" else stampLine stamp ++ "\n\n"

def entryLines (stamp : String) (others : List SourceUnit) (text : String) : List Char :=
  (Text.lines text).flatMap fun l => (entryLine stamp others l).toList

lemma fold_eq (stamp : String) (entry : SourceUnit) (others : List SourceUnit) :
    (fold stamp entry others).toList = (heading stamp entry.text).toList ++ entryLines stamp others entry.text ++
      if isMarked unitsMark entry.text then [] else appended others := by
  rw [fold, heading]
  split
  · rw [foldl_toList, List.append_nil]
    rfl
  · rw [foldl_appended, foldl_toList]
    rfl

lemma fold_toList {stamp : String} {entry : SourceUnit} (others : List SourceUnit)
    (hs : isMarked stampMark entry.text = false) (hu : isMarked unitsMark entry.text = false) :
    (fold stamp entry others).toList = '/' :: '/' :: (" mashed ".toList ++ stamp.toList ++
      '\n' :: '\n' :: (Text.ended (Text.lines entry.text) ++ appended others)) := by
  have hlines : entryLines stamp others entry.text = Text.ended (Text.lines entry.text) := by
    rw [entryLines, Text.ended, List.flatMap_def, List.flatMap_def]
    congr 1
    apply List.map_congr_left
    intro l hl
    rw [entryLine_plain others (isMarked_line hs hl) (isMarked_line hu hl), String.toList_append]
    rfl
  rw [fold_eq, hlines, heading, hs, hu]
  simp [stampLine]

lemma newline_spells {cs : List Char} {ks : List TokenKind} (h : Spells cs ks) : Spells ('\n' :: cs) ks := by
  have hblank : ∀ c ∈ ['\n'], Text.isBlank c = true := List.forall_mem_singleton.mpr rfl
  exact Spells.blanks hblank h

lemma ended_spells {cs body tail : List Char} {ks ls : List TokenKind} (h : Spells cs ks) (hb : Trim cs body)
    (ht : Spells tail ls) (hend : ∀ c ∈ tail.head?, c = '\n') :
    Spells (body ++ tail) (ks ++ ls) ∧ Spells (body ++ ['\n'] ++ tail) (ks ++ ls) := by
  refine ⟨h.join hb ht hend, ?_⟩
  rw [List.append_assoc]
  refine h.join hb (newline_spells ht) fun c hc => ?_
  exact (Option.some.inj hc).symm

lemma appended_spells {others : List SourceUnit} {kss : List (List TokenKind)}
    (hn : ∀ u ∈ others, '\n' ∉ u.name.toList)
    (h : List.Forall₂ (fun u ks => Spells u.text.toList ks) others kss) :
    Spells (appended others) kss.flatten ∧ ∀ c ∈ (appended others).head?, c = '\n' := by
  induction h with
  | nil => exact ⟨.nil, fun c hc => nomatch hc⟩
  | @cons u ks others kss hu _ ih =>
    obtain ⟨hname, hnames⟩ := List.forall_mem_cons.mp hn
    obtain ⟨hrest, hend⟩ := ih hnames
    have htext : Spells (finished u.text ++ appended others) (ks ++ kss.flatten) := by
      obtain ⟨hplain, hfed⟩ := ended_spells hu (Trim.refl _) hrest hend
      rw [finished]
      split
      · rw [List.append_nil]
        exact hplain
      · exact hfed
    have hheader : '\n' ∉ " unit: ".toList ++ u.name.toList := by
      rw [List.mem_append, not_or]
      exact ⟨by decide, hname⟩
    refine ⟨?_, fun c hc => (Option.some.inj hc).symm⟩
    have happended : appended (u :: others) = '\n' :: ((block u).toList ++ appended others) := List.flatMap_cons
    rw [happended, block_toList, List.flatten_cons]
    refine newline_spells ?_
    simpa using Spells.comment hheader (by simp) (newline_spells htext)

theorem fold_spells {stamp : String} {entry : SourceUnit} {others : List SourceUnit} {ks : List TokenKind}
    {kss : List (List TokenKind)} (hstamp : '\n' ∉ stamp.toList) (hn : ∀ u ∈ others, '\n' ∉ u.name.toList)
    (hs : isMarked stampMark entry.text = false) (hu : isMarked unitsMark entry.text = false)
    (he : Spells entry.text.toList ks) (ho : List.Forall₂ (fun u ks => Spells u.text.toList ks) others kss) :
    Spells (fold stamp entry others).toList (ks ++ kss.flatten) := by
  obtain ⟨hrest, hend⟩ := appended_spells hn ho
  obtain ⟨body, hbody, hended⟩ := Text.lines_trim entry.text
  obtain ⟨hplain, hfed⟩ := ended_spells he hbody hrest hend
  have hentry : Spells (Text.ended (Text.lines entry.text) ++ appended others) (ks ++ kss.flatten) := by
    rcases hended with heq | heq
    · rw [heq]
      exact hplain
    · rw [heq]
      exact hfed
  have hheader : '\n' ∉ " mashed ".toList ++ stamp.toList := by
    rw [List.mem_append, not_or]
    exact ⟨by decide, hstamp⟩
  rw [fold_toList others hs hu]
  exact Spells.comment hheader (by simp) (newline_spells (newline_spells hentry))

end Coalesce

end ScriptHost
