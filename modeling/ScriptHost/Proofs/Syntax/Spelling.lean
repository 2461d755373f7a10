import ScriptHost.Proofs.Syntax.Lexemes

/-!
What a text spells. Line feeds end every lexeme but blanks and block comments, so texts can be put one after another
with a line feed between them, and carriage returns before line feeds can be left out.
-/

namespace ScriptHost.Lexeme

/-! Texts without some of their carriage returns. -/

/-- The second text is the first one without some carriage returns that end lines. -/
inductive Trim : List Char → List Char → Prop
  | nil : Trim [] []
  | keep (c : Char) {cs ds : List Char} : Trim cs ds → Trim (c :: cs) (c :: ds)
  | drop {cs ds : List Char} : (∀ c ∈ cs.head?, c = '\n') → Trim cs ds → Trim ('\r' :: cs) ds

namespace Trim

variable {cs ds : List Char}

lemma refl (cs : List Char) : Trim cs cs := by
  induction cs with
  | nil => exact .nil
  | cons c cs ih => exact .keep c ih

lemma prepend (xs : List Char) (h : Trim cs ds) : Trim (xs ++ cs) (xs ++ ds) := by
  induction xs with
  | nil => exact h
  | cons x xs ih => exact .keep x ih

lemma subset (h : Trim cs ds) : ds ⊆ cs := by
  induction h with
  | nil => exact List.Subset.refl _
  | keep c _ ih => exact List.cons_subset_cons c ih
  | drop _ _ ih => exact List.subset_cons_of_subset _ ih

lemma follows (h : Trim cs ds) : Follows cs ds := by
  induction h with
  | nil => exact .inl rfl
  | keep => exact .inl rfl
  | drop hend _ ih =>
    rcases ih with heq | hline
    · exact .inr (heq ▸ hend)
    · exact .inr hline

lemma follows_append (h : Trim cs ds) {tail : List Char} (ht : ∀ c ∈ tail.head?, c = '\n') :
    Follows cs (ds ++ tail) := by
  cases ds with
  | nil => exact .inr ht
  | cons d ds => exact h.follows

lemma append (xs : List Char) {ys : List Char} (h : Trim (xs ++ ys) ds) :
    ∃ xs' ys', ds = xs' ++ ys' ∧ Trim xs xs' ∧ Trim ys ys' := by
  induction xs generalizing ds with
  | nil => exact ⟨[], ds, rfl, .nil, h⟩
  | cons x xs ih =>
    rw [List.cons_append] at h
    cases h with
    | keep c h =>
      obtain ⟨xs', ys', rfl, hx, hy⟩ := ih h
      exact ⟨x :: xs', ys', rfl, .keep x hx, hy⟩
    | drop hend h =>
      obtain ⟨xs', ys', rfl, hx, hy⟩ := ih h
      refine ⟨xs', ys', rfl, .drop (fun c hc => hend c ?_) hx, hy⟩
      cases xs with
      | nil => cases hc
      | cons x xs => exact hc

lemma eq_self (h : Trim cs ds) (hn : '\n' ∉ cs) (hr : cs.getLast? ≠ some '\r') : ds = cs := by
  induction h with
  | nil => rfl
  | @keep c cs ds _ ih =>
    rw [ih (fun h => hn (List.mem_cons_of_mem _ h))]
    cases cs with
    | nil => simp
    | cons d cs => simpa using hr
  | @drop cs ds hend _ _ =>
    cases cs with
    | nil => simp at hr
    | cons d cs => simp [hend d rfl] at hn

lemma closed (h : Trim cs ds) (hc : Closed cs) : Closed ds := by
  induction hc generalizing ds with
  | done => rw [h.eq_self (by decide) (by decide)]; exact .done
  | @more c cs hgo hc ih =>
    cases h with
    | drop _ h => exact ih h
    | keep _ h =>
      refine .more (fun hstop => ?_) (ih h)
      rcases h.follows with heq | hline
      · exact hgo ⟨hstop.1, heq ▸ hstop.2⟩
      · exact absurd (hline _ hstop.2) (by decide)

end Trim

/-! What a lexeme stands for does not depend on its place. -/

lemma unescape_place {p q : Position} {value : String} {found found' : List Finding} (cs : List Char)
    (hf : found.map (·.problem) = found'.map (·.problem)) :
    (unescape p value found cs).1 = (unescape q value found' cs).1 ∧
      (unescape p value found cs).2.map (·.problem) = (unescape q value found' cs).2.map (·.problem) := by
  fun_induction unescape p value found cs generalizing q found' with
  | case1 => exact ⟨rfl, hf⟩
  | case2 => exact ⟨rfl, hf⟩
  | case3 => exact ⟨rfl, hf⟩
  | case4 p value found c cs e he ih =>
    rw [unescape, he]
    exact ih hf
  | case5 p value found c cs he ih =>
    rw [unescape, he]
    exact ih (congrArg (Problem.unknownEscape c :: ·) hf)
  | case6 => exact ⟨rfl, hf⟩
  | case7 p value found c cs hquote hline hescape hlast ih =>
    rw [unescape]
    · exact ih hf
    · exact hquote
    · exact hline
    · exact hescape
    · exact hlast

lemma read_place (p q : Position) (x : Lexeme) :
    (x.read p).1 = (x.read q).1 ∧ (x.read p).2.map (·.problem) = (x.read q).2.map (·.problem) := by
  obtain ⟨kind, text⟩ := x
  have hrest := @unescape_place (p.after (text.take 1)) (q.after (text.take 1)) "" [] [] text.tail rfl
  cases kind with
  | quoted => exact ⟨congrArg (fun v => some (TokenKind.str v)) hrest.1, hrest.2⟩
  | openQuoted => exact ⟨rfl, congrArg (Problem.unterminatedString :: ·) hrest.2⟩
  | number =>
    rw [read, read]
    dsimp only
    split
    · exact ⟨rfl, rfl⟩
    · exact ⟨rfl, rfl⟩
  | stray => exact ⟨rfl, by simp [read, Function.comp_def]⟩
  | _ => exact ⟨rfl, rfl⟩

lemma unescape_clean {p : Position} {value : String} {found : List Finding} {cs : List Char}
    (h : (unescape p value found cs).2 = []) : found = [] := by
  fun_induction unescape p value found cs with
  | case1 => exact h
  | case2 => exact h
  | case3 => exact h
  | case4 p value found c cs e he ih => exact ih h
  | case5 p value found c cs he ih => exact absurd (ih h) (List.cons_ne_nil _ _)
  | case6 => exact h
  | case7 p value found c cs _ _ _ _ ih => exact ih h

lemma Quoted.no_newline {w : List Char} (h : Quoted w) {p : Position} {value : String} {found : List Finding}
    (hclean : (unescape p value found w).2 = []) : '\n' ∉ w := by
  induction h generalizing p value found with
  | close => decide
  | @escape c cs _ ih =>
    rw [unescape] at hclean
    cases he : escaped? c with
    | none =>
      rw [he] at hclean
      exact absurd (unescape_clean hclean) (List.cons_ne_nil _ _)
    | some e =>
      rw [he] at hclean
      have hc : '\n' ≠ c := by
        rintro rfl
        cases he
      simpa [hc] using ih hclean
  | @plain c cs hq hn hb _ ih =>
    rw [unescape] at hclean
    · simpa [hn.symm] using ih hclean
    · exact hq
    · exact hn
    · exact fun _ _ h _ => hb h
    · exact fun h _ => hb h

lemma Quoted.getLast? {w : List Char} (h : Quoted w) : w.getLast? = some '"' := by
  induction h with
  | close => rfl
  | escape c _ ih => simp [List.getLast?_cons, ih]
  | plain _ _ _ _ ih => simp [List.getLast?_cons, ih]

def IsClean (x : Lexeme) : Prop :=
  (x.read .start).2 = []

def kinds (x : Lexeme) : List TokenKind :=
  (x.read .start).1.toList

lemma mem_kinds {x : Lexeme} {t : TokenKind} (h : t ∈ x.kinds) :
    (∃ v, t = .int v) ∨ (∃ v, t = .str v) ∨ (∃ w, t = .word w) ∨ (∃ s, t = .sign s) ∨
      x.kind = .word ∧ t = .name (String.ofList x.text) := by
  obtain ⟨kind, text⟩ := x
  rw [kinds, Option.mem_toList] at h
  cases kind with
  | blank | comment | openComment | openQuoted | stray => cases h
  | quoted =>
    cases h
    exact .inr (.inl ⟨_, rfl⟩)
  | number =>
    rw [read] at h
    dsimp only at h
    split at h
    · cases h
      exact .inl ⟨_, rfl⟩
    · cases h
  | word =>
    rw [read] at h
    dsimp only at h
    cases hw : Keyword.ofSpelling? (String.ofList text) with
    | none =>
      rw [hw] at h
      cases h
      exact .inr (.inr (.inr (.inr ⟨rfl, rfl⟩)))
    | some w =>
      rw [hw] at h
      cases h
      exact .inr (.inr (.inl ⟨w, rfl⟩))
  | sign s =>
    cases h
    exact .inr (.inr (.inr (.inl ⟨s, rfl⟩)))

lemma measure_inline {c : Char} {w next : List Char} {k : LexemeKind} (h : measure c (w ++ next) = (k, w.length))
    (hclean : IsClean ⟨k, c :: w⟩) (hk : k = .quoted ∨ k = .number ∨ k = .word ∨ ∃ s, k = .sign s) :
    '\n' ∉ c :: w ∧ (c :: w).getLast? ≠ some '\r' := by
  -- Where all characters are of one class that has neither, there is nothing more to show.
  have hclass {p : Char → Bool} (hp : p '\n' = false ∧ p '\r' = false) (hw : ∀ d ∈ c :: w, p d = true) :
      '\n' ∉ c :: w ∧ (c :: w).getLast? ≠ some '\r' := by
    refine ⟨fun hn => ?_, fun hr => ?_⟩
    · exact absurd (hw _ hn) (by simp [hp.1])
    · exact absurd (hw _ (List.mem_of_getLast? hr)) (by simp [hp.2])
  have hm := measured_of_eq h
  generalize hn : w.length = n at hm
  cases hm with
  | blank | line | block | openBlock | openQuoted | stray => simp at hk
  | quoted hc hq =>
    subst hc hn
    have hw : Quoted w := quotedLength_append.mp (by rw [hq, Nat.zero_add])
    refine ⟨?_, ?_⟩
    · simpa using hw.no_newline hclean
    · simp [List.getLast?_cons, hw.getLast?]
  | number hblank hdigit =>
    have hall := (runLength_append.mp hn.symm).1
    exact hclass (p := isNumberPart) ⟨by decide, by decide⟩
      (List.forall_mem_cons.mpr ⟨by simp [isNumberPart, hdigit], hall⟩)
  | word => exact hclass (p := isWordPart) ⟨by decide, by decide⟩ (measure_word_parts h)
  | pair hbare hpair =>
    obtain ⟨d, rfl⟩ := List.length_eq_one_iff.mp hn
    exact hclass (p := isSignPart) ⟨rfl, rfl⟩ (by simpa using pair?_parts hpair)
  | single hbare hpair hsingle =>
    obtain rfl := List.length_eq_zero_iff.mp hn
    exact hclass (p := isSignPart) ⟨rfl, rfl⟩ (by simpa using single?_parts hsingle)

/-! Texts that can be read. -/

/-- The characters can be read, and spell tokens of these kinds. -/
inductive Spells : List Char → List TokenKind → Prop
  | nil : Spells [] []
  | cons {c : Char} {w next : List Char} {ks : List TokenKind} (k : LexemeKind) :
    measure c (w ++ next) = (k, w.length) → IsClean ⟨k, c :: w⟩ → Spells next ks →
    Spells (c :: (w ++ next)) (kinds ⟨k, c :: w⟩ ++ ks)

variable {cs ds tail : List Char} {ks ls : List TokenKind}

lemma Spells.no_eof (h : Spells cs ks) : .eof ∉ ks := by
  induction h with
  | nil => exact List.not_mem_nil
  | cons k _ _ _ ih =>
    intro heof
    rcases List.mem_append.mp heof with hx | hks
    · rcases mem_kinds hx with ⟨_, ⟨⟩⟩ | ⟨_, ⟨⟩⟩ | ⟨_, ⟨⟩⟩ | ⟨_, ⟨⟩⟩ | ⟨-, ⟨⟩⟩
    · exact ih hks

lemma Spells.name_parts (h : Spells cs ks) {name : String} (hname : .name name ∈ ks) :
    ∀ c ∈ name.toList, isWordPart c = true := by
  induction h with
  | nil => exact (List.not_mem_nil hname).elim
  | cons k hm _ _ ih =>
    rcases List.mem_append.mp hname with hx | hks
    · rcases mem_kinds hx with ⟨_, ⟨⟩⟩ | ⟨_, ⟨⟩⟩ | ⟨_, ⟨⟩⟩ | ⟨_, ⟨⟩⟩ | ⟨rfl, ⟨⟩⟩
      rw [String.toList_ofList]
      exact measure_word_parts hm
    · exact ih hks

lemma measure_blank {c : Char} (hc : Text.isBlank c = true) (cs : List Char) :
    measure c cs = (.blank, runLength Text.isBlank cs) := by
  rw [measure, if_pos hc]

lemma blank_parts {c : Char} {w next : List Char} (hm : measure c (w ++ next) = (.blank, w.length)) :
    (∀ d ∈ c :: w, Text.isBlank d = true) ∧ ∀ d ∈ next.head?, Text.isBlank d = false := by
  have hmeasured := measured_of_eq hm
  generalize hlength : w.length = n at hmeasured
  cases hmeasured with
  | blank hc =>
    obtain ⟨hall, hnext⟩ := runLength_append.mp hlength.symm
    exact ⟨List.forall_mem_cons.mpr ⟨hc, hall⟩, hnext⟩

lemma Spells.dropBlanks (h : Spells cs ks) : Spells (cs.dropWhile Text.isBlank) ks := by
  cases h with
  | nil => exact .nil
  | @cons c w next ks k hm hclean hnext =>
    rw [List.dropWhile_cons]
    split
    · next hc =>
      rw [measure_blank hc, Prod.mk.injEq] at hm
      obtain ⟨rfl, hw⟩ := hm
      obtain ⟨hall, hhead⟩ := runLength_append.mp hw
      rw [List.dropWhile_append_of_pos hall]
      have hdrop : next.dropWhile Text.isBlank = next := by
        cases next with
        | nil => rfl
        | cons d next => rw [List.dropWhile_cons, if_neg (Bool.eq_false_iff.mp (hhead d rfl))]
      rw [hdrop]
      exact hnext
    · exact .cons k hm hclean hnext

lemma Spells.blanks {w : List Char} (hw : ∀ c ∈ w, Text.isBlank c = true) (h : Spells ds ls) :
    Spells (w ++ ds) ls := by
  cases w with
  | nil => exact h
  | cons c w =>
    obtain ⟨hc, hw⟩ := List.forall_mem_cons.mp hw
    have hm : measure c ((w ++ ds.takeWhile Text.isBlank) ++ ds.dropWhile Text.isBlank) =
        (.blank, (w ++ ds.takeWhile Text.isBlank).length) := by
      rw [measure_blank hc, Prod.mk.injEq]
      refine ⟨rfl, runLength_append.mpr ⟨?_, ?_⟩⟩
      · exact List.forall_mem_append.mpr ⟨hw, fun d hd => List.all_eq_true.mp List.all_takeWhile d hd⟩
      · intro d hd
        have hstop := List.head?_dropWhile_not Text.isBlank ds
        rw [Option.mem_def.mp hd] at hstop
        exact hstop
    have hspells := Spells.cons .blank hm rfl h.dropBlanks
    rw [List.append_assoc, List.takeWhile_append_dropWhile] at hspells
    exact hspells

lemma Spells.comment {w : List Char} (hw : '\n' ∉ w) (hend : ∀ c ∈ ds.head?, c = '\n') (h : Spells ds ls) :
    Spells ('/' :: '/' :: (w ++ ds)) ls :=
  .cons .comment (measure_comment.mpr (.inl ⟨w, rfl, hw, hend⟩)) rfl h

/-- Behind a text another one can be read that starts on a line of its own. The first text may lose some carriage
returns at the ends of its lines. -/
theorem Spells.join (h : Spells cs ks) (ht : Trim cs ds) (hl : Spells tail ls) (hend : ∀ c ∈ tail.head?, c = '\n') :
    Spells (ds ++ tail) (ks ++ ls) := by
  induction h generalizing ds with
  | nil =>
    cases ht
    exact hl
  | @cons c w next ks k hm hclean _ ih =>
    obtain ⟨x', next', rfl, hx, hn⟩ := Trim.append (c :: w) ht
    have hrest := ih hn
    have hf := hn.follows_append hend
    rw [List.append_assoc]
    -- Most lexemes lie inside a line and stay as they are.
    have hinside (hk : k = .quoted ∨ k = .number ∨ k = .word ∨ ∃ s, k = .sign s) :
        Spells (x' ++ (next' ++ tail)) (kinds ⟨k, c :: w⟩ ++ ks ++ ls) := by
      obtain ⟨hline, hreturn⟩ := measure_inline hm hclean hk
      rw [hx.eq_self hline hreturn, List.append_assoc]
      exact .cons k (measure_follows hm hf hk) hclean hrest
    cases k with
    | blank =>
      exact Spells.blanks (fun d hd => (blank_parts hm).1 d (hx.subset hd)) hrest
    | comment =>
      obtain ⟨rfl, -⟩ := measure_eq_comment.mp hm
      cases hx with
      | @keep _ _ v hv =>
        have hcomment : measure '/' (v ++ (next' ++ tail)) = (.comment, v.length) := by
          rw [measure_comment] at hm ⊢
          rcases hm with ⟨u, rfl, hu, hnext⟩ | ⟨u, rfl, hu⟩
          · cases hv with
            | @keep _ _ v hv =>
              refine .inl ⟨v, rfl, fun hmem => hu (hv.subset hmem), fun d hd => ?_⟩
              rcases hf with heq | hline
              · exact hnext d (heq ▸ hd)
              · exact hline d hd
          · cases hv with
            | @keep _ _ v hv => exact .inr ⟨v, rfl, hv.closed hu⟩
        exact .cons .comment hcomment rfl hrest
    | openComment => exact absurd hclean (List.cons_ne_nil _ _)
    | openQuoted => exact absurd hclean (List.cons_ne_nil _ _)
    | stray => exact absurd hclean (List.cons_ne_nil _ _)
    | quoted => exact hinside (.inl rfl)
    | number => exact hinside (.inr (.inl rfl))
    | word => exact hinside (.inr (.inr (.inl rfl)))
    | sign s => exact hinside (.inr (.inr (.inr ⟨s, rfl⟩)))

end ScriptHost.Lexeme
