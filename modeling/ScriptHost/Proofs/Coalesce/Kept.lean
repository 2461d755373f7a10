import ScriptHost.Proofs.Coalesce.Folded
import ScriptHost.Proofs.Compile.Accepted

/-!
Which units a coalesced source has. A unit is kept whole under its header where the entry unit has room for it; a line
that asks for the time stamp and for the other units has none.
-/

namespace ScriptHost

namespace Coalesce

/-- Room for the other units, behind the lines of an entry text or on one of them. -/
def HasRoom (text : String) : Prop :=
  isMarked unitsMark text = true →
    ∃ line ∈ Text.lines text, isMarked stampMark line = false ∧ isMarked unitsMark line = true

lemma block_begins (u : SourceUnit) : (headerOf u ++ u.text).toList <+: (block u).toList := by
  rw [block, String.toList_append (s := headerOf u ++ u.text)]
  exact List.prefix_append _ _

lemma entryLine_units {stamp line : String} (others : List SourceUnit) (hs : isMarked stampMark line = false)
    (hu : isMarked unitsMark line = true) :
    (entryLine stamp others line).toList = others.flatMap fun u => (block u).toList := by
  rw [entryLine, hs, hu]
  exact foldl_toList block others ""

lemma entryLine_stamp {stamp line : String} (others : List SourceUnit)
    (h : isMarked unitsMark line = true → isMarked stampMark line = true) :
    entryLine stamp others line = entryLine stamp [] line := by
  rw [entryLine, entryLine]
  split
  · rfl
  · next hs => rw [if_neg (mt h hs), if_neg (mt h hs)]

lemma fold_roomless {entry : SourceUnit} (h : ¬ HasRoom entry.text) (stamp : String) (others : List SourceUnit) :
    fold stamp entry others = fold stamp entry [] := by
  obtain ⟨hunits, hlines⟩ := Classical.not_imp.mp h
  have hsame : entryLines stamp others entry.text = entryLines stamp [] entry.text := by
    rw [entryLines, entryLines, List.flatMap_def, List.flatMap_def]
    congr 1
    apply List.map_congr_left
    intro line hline
    rw [entryLine_stamp others fun hu => ?_]
    exact Bool.of_not_eq_false fun hs => hlines ⟨line, hline, hs, hu⟩
  rw [← String.toList_inj, fold_eq, fold_eq, hsame, if_pos hunits, if_pos hunits]

lemma appended_keeps {others : List SourceUnit} {u : SourceUnit} (hu : u ∈ others) :
    (headerOf u ++ u.text).toList <:+: appended others := by
  have hblock : '\n' :: (block u).toList <:+: appended others :=
    List.infix_of_mem_flatten (List.mem_map_of_mem hu)
  exact (block_begins u).isInfix.trans ((List.suffix_cons '\n' _).isInfix.trans hblock)

lemma entryLines_keep {stamp text line : String} {others : List SourceUnit} {u : SourceUnit} (hu : u ∈ others)
    (hline : line ∈ Text.lines text) (hs : isMarked stampMark line = false) (hm : isMarked unitsMark line = true) :
    (headerOf u ++ u.text).toList <:+: entryLines stamp others text := by
  have hblock : (block u).toList <:+: (entryLine stamp others line).toList := by
    rw [entryLine_units others hs hm]
    exact List.infix_of_mem_flatten (List.mem_map_of_mem hu)
  have hin : (entryLine stamp others line).toList <:+: entryLines stamp others text :=
    List.infix_of_mem_flatten (List.mem_map_of_mem hline)
  exact (block_begins u).isInfix.trans (hblock.trans hin)

lemma fold_keeps {entry : SourceUnit} (h : HasRoom entry.text) (stamp : String) {others : List SourceUnit}
    {u : SourceUnit} (hu : u ∈ others) : (headerOf u ++ u.text).toList <:+: (fold stamp entry others).toList := by
  rw [fold_eq]
  split
  · next hunits =>
    obtain ⟨line, hline, hs, hm⟩ := h hunits
    exact (entryLines_keep hu hline hs hm).trans ⟨_, [], rfl⟩
  · exact (appended_keeps hu).trans (List.suffix_append _ _).isInfix

lemma source_eq {units : List SourceUnit} {entry : SourceUnit} (h : SourceUnit.entryOf units = .ok entry)
    (stamp : String) : source stamp units = .ok (fold stamp entry (units.filter (!·.isEntry))) := by
  rw [source, h]
  rfl

def oversized (entry : SourceUnit) (out : String) : SourceUnit :=
  ⟨entry.name ++ "x", out ++ "x", false⟩

lemma entryOf_oversized {units : List SourceUnit} {entry : SourceUnit} (h : SourceUnit.entryOf units = .ok entry)
    (out : String) : SourceUnit.entryOf [entry, oversized entry out] = .ok entry := by
  obtain ⟨hnamed, -, -⟩ := SourceUnit.entryOf_eq_ok_iff.mp h
  obtain ⟨hmem, hentry⟩ := SourceUnit.mem_of_entryOf h
  have hname : (oversized entry out).isNameless = false := by
    rw [SourceUnit.isNameless, List.all_eq_false]
    exact ⟨'x', by simp [oversized], by decide⟩
  have hnew : entry.name ≠ (oversized entry out).name := by
    intro heq
    have hlength := congrArg String.length heq
    simp [oversized] at hlength
  rw [SourceUnit.entryOf_eq_ok_iff]
  refine ⟨by simpa using ⟨hnamed entry hmem, hname⟩, by simpa using hnew, ?_⟩
  simp [hentry, oversized]

/-- The source of a submission has each unit beside the entry unit, its header and then its whole text, whatever the
units are, if and only if the text of the entry unit has room for them. -/
theorem source_keeps_units_iff_has_room (stamp text : String) :
    (∀ units entry, SourceUnit.entryOf units = .ok entry → entry.text = text →
      ∃ out, source stamp units = .ok out ∧
        ∀ u ∈ units, u.isEntry = false → (headerOf u ++ u.text).toList <:+: out.toList) ↔ HasRoom text := by
  constructor
  · intro hkept
    by_contra hroom
    have hnamed : "m".toList.all Text.isBlank = false := by decide
    have hentry : SourceUnit.entryOf [⟨"m", text, true⟩] = .ok ⟨"m", text, true⟩ :=
      SourceUnit.entryOf_single rfl hnamed
    let out := fold stamp ⟨"m", text, true⟩ []
    let u := oversized ⟨"m", text, true⟩ out
    have htwo := entryOf_oversized hentry out
    obtain ⟨out', hout', hunits⟩ := hkept _ _ htwo rfl
    rw [source_eq htwo, Except.ok.injEq, fold_roomless hroom] at hout'
    have hin : (headerOf u ++ u.text).toList <:+: out.toList := by
      have := hunits u (by simp [u]) rfl
      rwa [← hout'] at this
    have hle := hin.length_le
    simp [u, oversized] at hle
    omega
  · rintro hroom units entry hentry rfl
    refine ⟨_, source_eq hentry stamp, fun u hu hother => fold_keeps hroom stamp ?_⟩
    rw [List.mem_filter, hother]
    exact ⟨hu, rfl⟩

/-- A unit is lost where the only line for the other units takes the time stamp as well. -/
theorem stamped_line_loses_unit :
    ∃ units entry out, SourceUnit.entryOf units = .ok entry ∧ source "now" units = .ok out ∧
      ∃ u ∈ units, u.isEntry = false ∧ ¬ (headerOf u ++ u.text).toList <:+: out.toList := by
  refine ⟨[⟨"lib", "fn f() \x7b return 1; \x7d", false⟩,
      ⟨"m", "// [[CM::UPDATESTAMP]] [[CM::CODE]]\nfn main() \x7b return f(); \x7d", true⟩],
    ⟨"m", "// [[CM::UPDATESTAMP]] [[CM::CODE]]\nfn main() \x7b return f(); \x7d", true⟩,
    "// mashed now\nfn main() \x7b return f(); \x7d\n", by decide, ?_, _, List.mem_cons_self, rfl, ?_⟩
  · decide +kernel
  · rw [← Text.occursIn_iff]
    decide +kernel

end Coalesce

end ScriptHost
