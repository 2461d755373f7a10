import ScriptHost.Proofs.Coalesce.Folded
import ScriptHost.Proofs.Syntax.Placed

/-!
What the header of a unit adds to its text. A header is a comment up to its first line feed, so only what a name has
behind a line feed can be read as code.
-/

namespace ScriptHost

namespace Lexeme

def problems (x : Lexeme) : List Problem :=
  (x.read .start).2.reverse.map (·.problem)

lemma problems_eq_nil {x : Lexeme} : x.problems = [] ↔ x.IsClean := by
  rw [problems, List.map_eq_nil_iff, List.reverse_eq_nil_iff, IsClean]

def contents (cs : List Char) : List TokenKind × List Problem :=
  ((split cs).flatMap kinds, (split cs).flatMap problems)

lemma contents_cons {c : Char} {w next : List Char} {k : LexemeKind} (hm : measure c (w ++ next) = (k, w.length)) :
    contents (c :: (w ++ next)) =
      (kinds ⟨k, c :: w⟩ ++ (contents next).1, problems ⟨k, c :: w⟩ ++ (contents next).2) := by
  have hsplit : split (c :: (w ++ next)) = ⟨k, c :: w⟩ :: split next := by
    rw [split_cons, hm]
    dsimp only
    rw [List.take_left, List.drop_left]
  rw [contents, hsplit, List.flatMap_cons, List.flatMap_cons]
  rfl

lemma contents_eq_nil {cs : List Char} : contents cs = ([], []) ↔ Spells cs [] := by
  rw [spells_iff, contents, Prod.mk.injEq, and_comm, List.flatMap_eq_nil_iff (f := problems)]
  simp only [problems_eq_nil]

variable {cs ds : List Char}

lemma contents_dropBlanks (cs : List Char) : contents (cs.dropWhile Text.isBlank) = contents cs := by
  cases cs with
  | nil => rfl
  | cons c cs =>
    rw [List.dropWhile_cons]
    split
    · next hc =>
      have hm : measure c (cs.takeWhile Text.isBlank ++ cs.dropWhile Text.isBlank) =
          (.blank, (cs.takeWhile Text.isBlank).length) := by
        rw [measure_blank hc, List.takeWhile_append_dropWhile]
        rfl
      have hcontents := contents_cons hm
      rw [List.takeWhile_append_dropWhile] at hcontents
      exact hcontents.symm
    · rfl

lemma contents_blanks {w : List Char} (hw : ∀ c ∈ w, Text.isBlank c = true) (cs : List Char) :
    contents (w ++ cs) = contents cs := by
  rw [← contents_dropBlanks, List.dropWhile_append_of_pos hw, contents_dropBlanks]

lemma contents_newline (cs : List Char) : contents ('\n' :: cs) = contents cs := by
  have hblank : ∀ c ∈ ['\n'], Text.isBlank c = true := List.forall_mem_singleton.mpr rfl
  exact contents_blanks hblank cs

lemma contents_line {w : List Char} (hw : '\n' ∉ w) (cs : List Char) :
    contents ('/' :: '/' :: (w ++ '\n' :: cs)) = contents cs := by
  have hm : measure '/' ('/' :: w ++ '\n' :: cs) = (.comment, ('/' :: w).length) :=
    measure_comment.mpr (.inl ⟨w, rfl, hw, fun c hc => (Option.some.inj hc).symm⟩)
  exact (contents_cons hm).trans (contents_newline cs)

lemma kind_of_no_kinds {c : Char} {w : List Char} {k : LexemeKind} (hclean : IsClean ⟨k, c :: w⟩)
    (hk : kinds ⟨k, c :: w⟩ = []) : k = .blank ∨ k = .comment := by
  cases k with
  | blank => exact .inl rfl
  | comment => exact .inr rfl
  | openComment | openQuoted | stray => exact absurd hclean (List.cons_ne_nil _ _)
  | quoted | word | sign => exact absurd hk (List.cons_ne_nil _ _)
  | number =>
    rw [IsClean, read] at hclean
    rw [kinds, read] at hk
    dsimp only at hclean hk
    split at hclean
    · next hvalue =>
      rw [if_pos hvalue] at hk
      exact absurd hk (List.cons_ne_nil _ _)
    · exact absurd hclean (List.cons_ne_nil _ _)

lemma comment_follows {c : Char} {w next next' : List Char} (hm : measure c (w ++ next) = (.comment, w.length))
    (hf : Follows next next') : measure c (w ++ next') = (.comment, w.length) := by
  obtain ⟨rfl, -⟩ := measure_eq_comment.mp hm
  rw [measure_comment] at hm ⊢
  refine hm.imp_left fun ⟨v, hv, hline, hnext⟩ => ⟨v, hv, hline, fun d hd => ?_⟩
  rcases hf with heq | hend
  · exact hnext d (heq ▸ hd)
  · exact hend d hd

lemma Spells.contents_before {ks : List TokenKind} (h : Spells cs ks) (hks : ks = []) (ds : List Char) :
    contents (cs ++ '\n' :: ds) = contents ds := by
  induction h with
  | nil => exact contents_newline ds
  | @cons c w next ks k hm hclean _ ih =>
    obtain ⟨hk, hks⟩ := List.append_eq_nil_iff.mp hks
    have hrest := ih hks
    rw [List.cons_append, List.append_assoc]
    rcases kind_of_no_kinds hclean hk with rfl | rfl
    · rw [← List.cons_append, contents_blanks (blank_parts hm).1, hrest]
    · have hf : Follows next (next ++ '\n' :: ds) := by
        cases next with
        | nil => exact .inr fun d hd => (Option.some.inj hd).symm
        | cons d next => exact .inl rfl
      rw [contents_cons (comment_follows hm hf), hrest]
      rfl

lemma Closed.getLast? {v : List Char} (h : Closed v) : v.getLast? = some '/' := by
  induction h with
  | done => rfl
  | more _ _ ih => simp [List.getLast?_cons, ih]

lemma blank_of_newline {c : Char} {w : List Char} {k : LexemeKind} (hm : measure c (w ++ []) = (k, w.length))
    (hclean : IsClean ⟨k, c :: w⟩) (hend : (c :: w).getLast? = some '\n') : k = .blank := by
  have hmem := List.mem_of_getLast? hend
  cases k with
  | blank => rfl
  | comment =>
    obtain ⟨rfl, -⟩ := measure_eq_comment.mp hm
    rcases measure_comment.mp hm with ⟨v, rfl, hv, -⟩ | ⟨v, rfl, hv⟩
    · simp [hv] at hmem
    · simp [List.getLast?_cons, hv.getLast?] at hend
  | openComment | openQuoted | stray => exact absurd hclean (List.cons_ne_nil _ _)
  | quoted => exact absurd hmem (measure_inline hm hclean (.inl rfl)).1
  | number => exact absurd hmem (measure_inline hm hclean (.inr (.inl rfl))).1
  | word => exact absurd hmem (measure_inline hm hclean (.inr (.inr (.inl rfl)))).1
  | sign s => exact absurd hmem (measure_inline hm hclean (.inr (.inr (.inr ⟨s, rfl⟩)))).1

lemma Spells.dropNewline {ks : List TokenKind} (h : Spells cs ks) (hcs : cs = ds ++ ['\n']) : Spells ds ks := by
  induction h generalizing ds with
  | nil => exact absurd hcs (by simp)
  | @cons c w next ks k hm hclean hnext ih =>
    rcases List.eq_nil_or_concat next with rfl | ⟨next', d, rfl⟩
    · have hend : (c :: w).getLast? = some '\n' := by
        rw [List.append_nil] at hcs
        rw [hcs, List.getLast?_concat]
      obtain rfl := blank_of_newline hm hclean hend
      have hall : ∀ d ∈ ds, Text.isBlank d = true := fun d hd =>
        (blank_parts hm).1 d (by rw [List.append_nil] at hcs; rw [hcs]; exact List.mem_append_left _ hd)
      cases hnext
      have hds := Spells.blanks hall .nil
      rw [List.append_nil] at hds
      exact hds
    · obtain ⟨rfl, hd⟩ : c :: (w ++ next') = ds ∧ [d] = ['\n'] := by
        rw [List.concat_eq_append, ← List.append_assoc, ← List.cons_append] at hcs
        exact List.append_inj' hcs rfl
      have hrest : Spells next' ks := ih (by rw [List.concat_eq_append, hd])
      have hf : Follows (next'.concat d) next' := by
        cases next' with
        | nil => exact .inr fun d hd => nomatch hd
        | cons d next' => exact .inl rfl
      have hinside (hk : k = .quoted ∨ k = .number ∨ k = .word ∨ ∃ s, k = .sign s) :
          Spells (c :: (w ++ next')) (kinds ⟨k, c :: w⟩ ++ ks) :=
        .cons k (measure_follows hm hf hk) hclean hrest
      cases k with
      | blank => exact Spells.blanks (blank_parts hm).1 hrest
      | comment => exact .cons .comment (comment_follows hm hf) hclean hrest
      | openComment | openQuoted | stray => exact absurd hclean (List.cons_ne_nil _ _)
      | quoted => exact hinside (.inl rfl)
      | number => exact hinside (.inr (.inl rfl))
      | word => exact hinside (.inr (.inr (.inl rfl)))
      | sign s => exact hinside (.inr (.inr (.inr ⟨s, rfl⟩)))

end Lexeme

namespace Scan

def contents (s : Scan) : List TokenKind × List String :=
  (s.tokens.map (·.kind), s.findings.map (·.problem.message))

lemma foldl_problems (xs : List Lexeme) (s : Progress) :
    (xs.foldl Progress.add s).findings.map (·.problem) =
      (xs.flatMap Lexeme.problems).reverse ++ s.findings.map (·.problem) := by
  induction xs generalizing s with
  | nil => rfl
  | cons x xs ih =>
    have hadd : (s.add x).findings.map (·.problem) = x.problems.reverse ++ s.findings.map (·.problem) := by
      rw [Lexeme.problems, List.map_reverse, List.reverse_reverse, ← (x.read_place s.place .start).2, ← List.map_append]
      rfl
    rw [List.foldl_cons, ih, hadd, List.flatMap_cons, List.reverse_append, List.append_assoc]

lemma ofText_contents (s : String) :
    (ofText s).contents =
      ((Lexeme.contents s.toList).1 ++ [.eof], (Lexeme.contents s.toList).2.map (·.message)) := by
  have hfindings : ∀ s : Scan, s.findings.map (·.problem.message) = (s.findings.map (·.problem)).map (·.message) := by
    intro s
    rw [List.map_map]
    rfl
  rw [contents, hfindings, ofText, ofLexemes, Progress.finish, List.map_reverse, List.map_reverse, foldl_problems,
    foldl_tokens, List.map_cons, List.map_append, List.map_reverse, placed_kinds]
  simp [Lexeme.contents]

lemma contents_congr {s t : String} (h : Lexeme.contents s.toList = Lexeme.contents t.toList) :
    (ofText s).contents = (ofText t).contents := by
  rw [ofText_contents, ofText_contents, h]

lemma contents_eq_nil {s : String} : (ofText s).contents = ([.eof], []) ↔ Lexeme.Spells s.toList [] := by
  rw [ofText_contents, ← Lexeme.contents_eq_nil]
  simp [Prod.ext_iff]

end Scan

namespace Coalesce

/-- What a name has behind its first line feed. -/
def spill (name : String) : String :=
  String.ofList (name.toList.dropWhile (· != '\n')).tail

lemma spill_cases (name : String) : ∃ first, '\n' ∉ first ∧
    (name.toList = first ∧ (spill name).toList = [] ∨ name.toList = first ++ '\n' :: (spill name).toList) := by
  have hname := List.takeWhile_append_dropWhile (p := (· != '\n')) (l := name.toList)
  have hstop := List.head?_dropWhile_not (· != '\n') name.toList
  refine ⟨name.toList.takeWhile (· != '\n'), fun hmem => ?_, ?_⟩
  · exact absurd (List.all_eq_true.mp List.all_takeWhile _ hmem) (by decide)
  · rw [spill, String.toList_ofList]
    cases hrest : name.toList.dropWhile (· != '\n') with
    | nil =>
      rw [hrest, List.append_nil] at hname
      exact .inl ⟨hname.symm, rfl⟩
    | cons c rest =>
      rw [hrest] at hname hstop
      obtain rfl : c = '\n' := by simpa using hstop
      exact .inr hname.symm

lemma spill_eq {name : String} (h : '\n' ∉ name.toList) : spill name = "" := by
  obtain ⟨first, -, ⟨-, hspill⟩ | hname⟩ := spill_cases name
  · rw [← String.toList_inj, hspill]
    rfl
  · rw [hname] at h
    exact absurd (List.mem_append_right first List.mem_cons_self) h

lemma contents_block (name text : String) :
    Lexeme.contents (block ⟨name, text, false⟩).toList =
      Lexeme.contents ((spill name).toList ++ '\n' :: finished text) := by
  obtain ⟨first, hfirst, hname⟩ := spill_cases name
  have hheader : '\n' ∉ " unit: ".toList ++ first := by
    rw [List.mem_append, not_or]
    exact ⟨by decide, hfirst⟩
  rw [block_toList]
  dsimp only
  rcases hname with ⟨hname, hspill⟩ | hname
  · rw [hspill, hname, Lexeme.contents_line hheader]
    exact (Lexeme.contents_newline _).symm
  · rw [hname, ← List.append_assoc, List.append_assoc _ ('\n' :: _), List.cons_append, Lexeme.contents_line hheader]

/-- A unit is read as its text, ended by a line feed, behind what its name has beyond the first line feed. So the header
adds nothing, whatever the text is, if and only if that part of the name can be read and has no tokens; a name without
line feeds has no such part. -/
theorem header_is_inert_iff_spill_says_nothing (name : String) :
    (∀ text, (Scan.ofText (block ⟨name, text, false⟩)).contents =
        (Scan.ofText (spill name ++ "\n" ++ String.ofList (finished text))).contents) ∧
      ((∀ text, (Scan.ofText (block ⟨name, text, false⟩)).contents =
          (Scan.ofText (String.ofList (finished text))).contents) ↔
        (Scan.ofText (spill name)).contents = ([.eof], [])) ∧
      ('\n' ∉ name.toList → spill name = "") := by
  have hblock (text : String) : Lexeme.contents (block ⟨name, text, false⟩).toList =
      Lexeme.contents (spill name ++ "\n" ++ String.ofList (finished text)).toList := by
    rw [contents_block]
    simp
  refine ⟨fun text => Scan.contents_congr (hblock text), ⟨fun hinert => ?_, fun hspill text => ?_⟩, spill_eq⟩
  · -- The empty text shows what the name adds, but for the line feeds behind it.
    have hempty : (Scan.ofText (String.ofList (finished ""))).contents = ([.eof], []) := by decide +kernel
    have hspells := Scan.contents_eq_nil.mp ((Scan.contents_congr (hblock "")).symm.trans ((hinert "").trans hempty))
    have htoList : (spill name ++ "\n" ++ String.ofList (finished "")).toList =
        (spill name).toList ++ ['\n'] ++ ['\n'] := by
      simp [finished]
    exact Scan.contents_eq_nil.mpr ((hspells.dropNewline htoList).dropNewline rfl)
  · have hspells := Scan.contents_eq_nil.mp hspill
    apply Scan.contents_congr
    rw [contents_block, String.toList_ofList]
    exact hspells.contents_before rfl (finished text)

theorem header_brings_function :
    ∃ units entry, SourceUnit.entryOf units = .ok entry ∧ ∃ u ∈ units, u.isEntry = false ∧
      (Scan.ofText (block u)).contents ≠ (Scan.ofText (String.ofList (finished u.text))).contents := by
  let u : SourceUnit := ⟨"a\nfn f() \x7b return 1; \x7d //", "", false⟩
  let entry : SourceUnit := ⟨"m", "fn main() \x7b return f(); \x7d", true⟩
  exact ⟨[u, entry], entry, by decide +kernel, u, List.mem_cons_self, rfl, by decide +kernel⟩

end Coalesce

end ScriptHost
