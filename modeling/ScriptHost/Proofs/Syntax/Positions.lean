import Mathlib.Algebra.Group.Nat.Defs
import ScriptHost.Proofs.Syntax.Printing

/-!
Where the tokens of a text stand, and where what is wrong with it is reported. A place is told by the characters before
it, and a text is cut into pieces, each of which comes to a token, to reports, or to nothing if it is white space or a
comment.
-/

namespace ScriptHost

namespace Position

/-- The place behind some characters: one line for each line feed among them, and one column for each character after
the last line feed. -/
def behind (cs : List Char) : Position :=
  ⟨1 + cs.count '\n', 1 + (cs.reverse.takeWhile (· != '\n')).length⟩

lemma behind_next (cs : List Char) (c : Char) : (behind cs).next c = behind (cs ++ [c]) := by
  rw [next]
  split
  · next h =>
    subst h
    simp [behind, Nat.add_assoc]
  · next h => simp [behind, h, Nat.add_assoc]

lemma behind_after (cs ds : List Char) : (behind cs).after ds = behind (cs ++ ds) := by
  induction ds generalizing cs with
  | nil => rw [after_nil, List.append_nil]
  | cons d ds ih => rw [after_cons, behind_next, ih, List.append_assoc, List.singleton_append]

lemma behind_before (cs : List Char) {ds : List Char} (h : ds ≠ []) : (behind cs).Before (behind (cs ++ ds)) := by
  rw [← behind_after]
  exact before_after _ h

lemma behind_le (cs : List Char) : (behind cs).line ≤ 1 + cs.length ∧ (behind cs).column ≤ 1 + cs.length := by
  have hline : cs.count '\n' ≤ cs.length := List.count_le_length
  have hcolumn : (cs.reverse.takeWhile (· != '\n')).length ≤ cs.reverse.length := (List.takeWhile_sublist _).length_le
  rw [List.length_reverse] at hcolumn
  exact ⟨Nat.add_le_add_left hline 1, Nat.add_le_add_left hcolumn 1⟩

end Position

open Position

namespace Lexeme

/-- The rest of a quoted text before `rest`, whether a quote closes it, what it stands for, and its bad escapes. The
characters `before` it are all characters before it. -/
inductive Body (rest : List Char) : Bool → List Char → List Char → List Char → List Finding → Prop
  | close {before : List Char} : Body rest true before ['"'] [] []
  | newline {before : List Char} : Body rest false before ['\n'] [] []
  | nothing {before : List Char} : rest = [] → Body rest false before [] [] []
  | backslash {before : List Char} : rest = [] → Body rest false before ['\\'] [] []
  | escape {closed : Bool} {before w value : List Char} {fs : List Finding} {c e : Char} : escaped? c = some e →
    Body rest closed (before ++ ['\\', c]) w value fs → Body rest closed before ('\\' :: c :: w) (e :: value) fs
  | badEscape {closed : Bool} {before w value : List Char} {fs : List Finding} {c : Char} : escaped? c = none →
    Body rest closed (before ++ ['\\', c]) w value fs →
    Body rest closed before ('\\' :: c :: w) value (⟨behind before, .unknownEscape c⟩ :: fs)
  | plain {closed : Bool} {before w value : List Char} {fs : List Finding} {c : Char} : c ≠ '"' → c ≠ '\n' → c ≠ '\\' →
    Body rest closed (before ++ [c]) w value fs → Body rest closed before (c :: w) (c :: value) fs

/-- `Piece before text rest kind fs`: the characters `text`, which stand between `before` and `rest`, are one lexeme, a
comment or white space. What comes of them is the token of the given kind, if any, at the first of them, and the
findings `fs`. -/
inductive Piece (before : List Char) : List Char → List Char → Option TokenKind → List Finding → Prop
  | blank {c : Char} {w rest : List Char} : (∀ d ∈ c :: w, Text.isBlank d = true) →
    (∀ d ∈ rest.head?, Text.isBlank d = false) → Piece before (c :: w) rest none []
  | line {w rest : List Char} : '\n' ∉ w → (∀ d ∈ rest.head?, d = '\n') → Piece before ('/' :: '/' :: w) rest none []
  | block {w rest : List Char} : Closed w → Piece before ('/' :: '*' :: w) rest none []
  | openBlock {w : List Char} : (∀ v, v <+: w → ¬ Closed v) →
    Piece before ('/' :: '*' :: w) [] none [⟨behind before, .unterminatedComment⟩]
  | quoted {w rest value : List Char} {fs : List Finding} : Body rest true (before ++ ['"']) w value fs →
    Piece before ('"' :: w) rest (some (.str (String.ofList value))) fs
  | openQuoted {w rest value : List Char} {fs : List Finding} : Body rest false (before ++ ['"']) w value fs →
    Piece before ('"' :: w) rest none (fs ++ [⟨behind before, .unterminatedString⟩])
  | number {c : Char} {w rest : List Char} {n : Nat} : isDigit c = true → (∀ d ∈ w, isNumberPart d = true) →
    (∀ d ∈ rest.head?, isNumberPart d = false) → Nat.ofDigitChars 10 ((c :: w).filter isDigit) 0 = n →
    n < signedLimit → Piece before (c :: w) rest (some (.int (Int64.ofNat n))) []
  | bigNumber {c : Char} {w rest : List Char} : isDigit c = true → (∀ d ∈ w, isNumberPart d = true) →
    (∀ d ∈ rest.head?, isNumberPart d = false) →
    signedLimit ≤ Nat.ofDigitChars 10 ((c :: w).filter isDigit) 0 → Piece before (c :: w) rest none
      [⟨behind before, .integerOutOfRange (String.ofList ((c :: w).filter isDigit))⟩]
  | keyword {k : Keyword} {rest : List Char} : (∀ d ∈ rest.head?, isWordPart d = false) →
    Piece before k.spelling.toList rest (some (.word k)) []
  | name {s : String} {rest : List Char} : isWord s.toList = true → (∀ k : Keyword, k.spelling ≠ s) →
    (∀ d ∈ rest.head?, isWordPart d = false) → Piece before s.toList rest (some (.name s)) []
  | sign {s : Sign} {rest : List Char} :
    (∀ c, s.spelling.toList = [c] → Bare c rest ∧ rest.head?.bind (Sign.pair? c) = none) →
    Piece before s.spelling.toList rest (some (.sign s)) []
  | stray {c : Char} {rest : List Char} : Bare c rest → rest.head?.bind (Sign.pair? c) = none →
    Sign.single? c = none → Piece before [c] rest none [⟨behind before, .unexpectedCharacter c⟩]

lemma Piece.ne_nil {before text rest : List Char} {kind : Option TokenKind} {fs : List Finding}
    (h : Piece before text rest kind fs) : text ≠ [] := by
  cases h with
  | keyword =>
    next k _ => cases k <;> decide
  | name hword =>
    rintro htext
    rw [htext] at hword
    cases hword
  | sign =>
    next s _ => cases s <;> decide
  | _ => exact List.cons_ne_nil _ _

lemma Piece.kind_ne {before text rest : List Char} {kind : TokenKind} {fs : List Finding}
    (h : Piece before text rest (some kind) fs) : kind ≠ .eof := by
  cases h <;> exact nofun

/-! Quoted texts. -/

lemma Body.place {rest before w value : List Char} {closed : Bool} {fs : List Finding}
    (h : Body rest closed before w value fs) : ∀ f ∈ fs, ∃ v, v <+: w ∧ f.place = behind (before ++ v) := by
  induction h with
  | close | newline | nothing | backslash => exact nofun
  | escape _ _ ih =>
    intro f hf
    obtain ⟨v, hv, hplace⟩ := ih f hf
    exact ⟨_, List.prefix_append_right_inj [_, _] |>.mpr hv, by rw [hplace, List.append_assoc]⟩
  | badEscape _ _ ih =>
    intro f hf
    rcases List.mem_cons.mp hf with rfl | hf
    · exact ⟨[], List.nil_prefix, by rw [List.append_nil]⟩
    · obtain ⟨v, hv, hplace⟩ := ih f hf
      exact ⟨_, List.prefix_append_right_inj [_, _] |>.mpr hv, by rw [hplace, List.append_assoc]⟩
  | plain _ _ _ _ ih =>
    intro f hf
    obtain ⟨v, hv, hplace⟩ := ih f hf
    exact ⟨_, List.prefix_append_right_inj [_] |>.mpr hv, by rw [hplace, List.append_assoc]⟩

lemma Piece.place {before text rest : List Char} {kind : Option TokenKind} {fs : List Finding}
    (h : Piece before text rest kind fs) : ∀ f ∈ fs, ∃ v, v <+: text ∧ f.place = behind (before ++ v) := by
  have hfirst (text : List Char) (problem : Problem) : ∃ v, v <+: text ∧
      (⟨behind before, problem⟩ : Finding).place = behind (before ++ v) :=
    ⟨[], List.nil_prefix, by rw [List.append_nil]⟩
  have hbody {closed : Bool} {w value : List Char} {fs : List Finding}
      (hbody : Body rest closed (before ++ ['"']) w value fs) :
      ∀ f ∈ fs, ∃ v, v <+: '"' :: w ∧ f.place = behind (before ++ v) := by
    intro f hf
    obtain ⟨v, hv, hplace⟩ := hbody.place f hf
    exact ⟨'"' :: v, (List.prefix_cons_inj _).mpr hv, by rw [hplace, List.append_assoc, List.singleton_append]⟩
  cases h with
  | quoted h => exact hbody h
  | openQuoted h =>
    intro f hf
    rcases List.mem_append.mp hf with hf | hf
    · exact hbody h f hf
    · rw [List.mem_singleton.mp hf]
      exact hfirst _ _
  | openBlock | bigNumber | stray =>
    intro f hf
    rw [List.mem_singleton.mp hf]
    exact hfirst _ _
  | _ => exact nofun

lemma Body.unescape {rest before w value : List Char} {closed : Bool} {fs : List Finding}
    (h : Body rest closed before w value fs) (v : String) (found : List Finding) :
    unescape (behind before) v found w = (v ++ String.ofList value, fs.reverse ++ found) := by
  have htwo (before : List Char) (c : Char) :
      ((behind before).next '\\').next c = behind (before ++ ['\\', c]) := by
    rw [behind_next, behind_next, List.append_assoc]
    rfl
  have hpush (v : String) (c : Char) (value : List Char) :
      v.push c ++ String.ofList value = v ++ String.ofList (c :: value) := by
    apply String.ext
    simp
  induction h generalizing v found with
  | close | newline | nothing | backslash => simp [Lexeme.unescape]
  | escape he _ ih =>
    rw [Lexeme.unescape, he, htwo]
    exact (ih _ _).trans (by rw [hpush])
  | badEscape he _ ih =>
    rw [Lexeme.unescape, he, htwo]
    exact (ih _ _).trans (by simp)
  | plain hq hn hb _ ih =>
    rw [Lexeme.unescape, behind_next]
    · exact (ih _ _).trans (by rw [hpush])
    · exact hq
    · exact hn
    · exact fun _ _ h _ => hb h
    · exact fun h _ => hb h

lemma quotedLength_body (before : List Char) (n : Nat) (cs : List Char) :
    ∃ closed w rest value fs, cs = w ++ rest ∧ quotedLength n cs = (n + w.length, closed) ∧
      Body rest closed before w value fs := by
  fun_induction quotedLength n cs generalizing before with
  | case1 n => exact ⟨false, [], [], [], [], rfl, rfl, .nothing rfl⟩
  | case2 n cs => exact ⟨true, ['"'], cs, [], [], rfl, rfl, .close⟩
  | case3 n cs => exact ⟨false, ['\n'], cs, [], [], rfl, rfl, .newline⟩
  | case4 n c cs ih =>
    obtain ⟨closed, w, rest, value, fs, rfl, hlength, hbody⟩ := ih (before ++ ['\\', c])
    have hlength : quotedLength (n + 2) (w ++ rest) = (n + ('\\' :: c :: w).length, closed) := by
      rw [hlength, List.length_cons, List.length_cons, Nat.add_assoc, Nat.add_comm 2]
    cases he : escaped? c with
    | none => exact ⟨closed, _, rest, value, _, rfl, hlength, .badEscape he hbody⟩
    | some e => exact ⟨closed, _, rest, _, fs, rfl, hlength, .escape he hbody⟩
  | case5 n c cs hq hn hb ih =>
    by_cases hc : c = '\\'
    · subst hc
      cases cs with
      | nil => exact ⟨false, ['\\'], [], [], [], rfl, rfl, .backslash rfl⟩
      | cons d cs => exact absurd rfl (hb d cs rfl)
    · obtain ⟨closed, w, rest, value, fs, rfl, hlength, hbody⟩ := ih (before ++ [c])
      have hlength : quotedLength (n + 1) (w ++ rest) = (n + (c :: w).length, closed) := by
        rw [hlength, List.length_cons, Nat.add_assoc, Nat.add_comm 1]
      exact ⟨closed, _, rest, _, fs, rfl, hlength, .plain hq hn hc hbody⟩

/-! Numbers, words and signs. -/

lemma decimal_lt_iff (ds : List Char) : decimal ds < signedLimit ↔ Nat.ofDigitChars 10 ds 0 < signedLimit := by
  refine ⟨fun h => ?_, fun h => decimal_eq h ▸ h⟩
  induction ds using List.reverseRecOn with
  | nil => exact h
  | append_singleton ds d ih =>
    rw [decimal_append] at h
    split at h
    · next hds =>
      rw [decimal_eq (ih hds)] at h
      rw [Nat.ofDigitChars_append, Nat.ofDigitChars_cons, Nat.ofDigitChars_nil]
      exact h
    · next hds => exact absurd h hds

lemma pair?_spelling {c d : Char} {s : Sign} (h : Sign.pair? c d = some s) : s.spelling.toList = [c, d] := by
  unfold Sign.pair? at h
  split at h <;> cases h <;> rfl

lemma single?_spelling {c : Char} {s : Sign} (h : Sign.single? c = some s) : s.spelling.toList = [c] := by
  unfold Sign.single? at h
  split at h <;> cases h <;> rfl

lemma exists_run (p : Char → Bool) (cs : List Char) : ∃ w rest, cs = w ++ rest ∧ runLength p cs = w.length ∧
    (∀ c ∈ w, p c = true) ∧ ∀ c ∈ rest.head?, p c = false := by
  refine ⟨cs.takeWhile p, cs.dropWhile p, List.takeWhile_append_dropWhile.symm, rfl, ?_⟩
  rw [← runLength_append, List.takeWhile_append_dropWhile]
  rfl

/-- A lexeme of the given kind that goes `n` characters past `c` is a piece, and comes to what it is read as. -/
def Comes (before : List Char) (c : Char) (cs : List Char) (k : LexemeKind) (n : Nat) : Prop :=
  ∃ w rest kind fs, cs = w ++ rest ∧ n = w.length ∧ Piece before (c :: w) rest kind fs ∧
    read (behind before) ⟨k, c :: w⟩ = (kind, fs.reverse)

section Comes

variable (before : List Char) {c : Char} {cs : List Char} {n : Nat}

lemma comment_comes (hm : measure c cs = (.comment, n)) (hn : n ≤ cs.length) : Comes before c cs .comment n := by
  obtain rfl := (measure_eq_comment.mp hm).1
  have hlength : (cs.take n).length = n := List.length_take_of_le hn
  have hwhole : measure '/' (cs.take n ++ cs.drop n) = (.comment, (cs.take n).length) := by
    rw [List.take_append_drop, hlength, hm]
  refine ⟨cs.take n, cs.drop n, none, [], (List.take_append_drop n cs).symm, hlength.symm, ?_, rfl⟩
  rcases measure_comment.mp hwhole with ⟨v, hv, hline, hend⟩ | ⟨v, hv, hclosed⟩
  · rw [hv]
    exact .line hline hend
  · rw [hv]
    exact .block hclosed

lemma openComment_comes (hhead : cs.head? = some '*') (hnone : closeLength? 1 cs.tail = none) :
    Comes before '/' cs .openComment cs.length := by
  cases cs with
  | nil => cases hhead
  | cons d v =>
    cases hhead
    refine ⟨'*' :: v, [], none, _, (List.append_nil _).symm, rfl, .openBlock ?_, rfl⟩
    rintro u ⟨rest, rfl⟩ hclosed
    rw [List.tail_cons, closeLength?_append.mpr hclosed] at hnone
    cases hnone

lemma quoted_comes {closed : Bool} (hn : quotedLength 0 cs = (n, closed)) :
    Comes before '"' cs (if closed then .quoted else .openQuoted) n := by
  obtain ⟨closed', w, rest, value, fs, rfl, hlength, hbody⟩ := quotedLength_body (before ++ ['"']) 0 cs
  rw [hlength, Nat.zero_add] at hn
  obtain ⟨rfl, rfl⟩ := Prod.mk.inj hn
  have hread := hbody.unescape "" []
  rw [← behind_after, String.empty_append, List.append_nil] at hread
  cases closed' with
  | true =>
    refine ⟨w, rest, _, fs, rfl, rfl, .quoted hbody, ?_⟩
    exact congrArg (fun r => (some (TokenKind.str r.1), r.2)) hread
  | false =>
    refine ⟨w, rest, none, _, rfl, rfl, .openQuoted hbody, ?_⟩
    rw [List.reverse_append]
    exact congrArg (fun r : String × List Finding => (none, _ :: r.2)) hread

lemma number_comes (hdigit : isDigit c = true) : Comes before c cs .number (runLength isNumberPart cs) := by
  obtain ⟨w, rest, rfl, hw, hall, hrest⟩ := exists_run isNumberPart cs
  by_cases hlimit : Nat.ofDigitChars 10 ((c :: w).filter isDigit) 0 < signedLimit
  · refine ⟨w, rest, _, [], rfl, hw, .number hdigit hall hrest rfl hlimit, ?_⟩
    rw [read]
    dsimp only
    rw [decimal_eq hlimit, if_pos hlimit]
    rfl
  · refine ⟨w, rest, none, _, rfl, hw, .bigNumber hdigit hall hrest (Nat.not_lt.mp hlimit), ?_⟩
    rw [read]
    dsimp only
    rw [if_neg ((decimal_lt_iff _).not.mpr hlimit)]
    rfl

lemma word_comes (hstart : isWordStart c = true) : Comes before c cs .word (runLength isWordPart cs) := by
  obtain ⟨w, rest, rfl, hw, hall, hrest⟩ := exists_run isWordPart cs
  have htext : (String.ofList (c :: w)).toList = c :: w := String.toList_ofList
  refine ⟨w, rest, _, [], rfl, hw, ?_, rfl⟩
  cases hk : Keyword.ofSpelling? (String.ofList (c :: w)) with
  | some k =>
    rw [Keyword.ofSpelling?] at hk
    have hspelling : k.spelling = String.ofList (c :: w) := by simpa using List.find?_some hk
    rw [← htext, ← hspelling]
    exact .keyword hrest
  | none =>
    have hpiece : Piece before (String.ofList (c :: w)).toList rest (some (.name (String.ofList (c :: w)))) [] := by
      refine .name ?_ (fun k hspelling => ?_) hrest
      · rw [htext, isWord, hstart, Bool.true_and, List.all_eq_true]
        exact hall
      · rw [← hspelling, Keyword.ofSpelling?_spelling] at hk
        cases hk
    rwa [htext] at hpiece

lemma pair_comes {s : Sign} (hs : cs.head?.bind (Sign.pair? c) = some s) : Comes before c cs (.sign s) 1 := by
  cases cs with
  | nil => cases hs
  | cons d rest =>
    have hspelling := pair?_spelling hs
    refine ⟨[d], rest, _, [], rfl, rfl, hspelling ▸ .sign fun e he => ?_, rfl⟩
    rw [hspelling] at he
    cases he

lemma single_comes {s : Sign} (hbare : Bare c cs) (hpair : cs.head?.bind (Sign.pair? c) = none)
    (hs : Sign.single? c = some s) : Comes before c cs (.sign s) 0 := by
  have hspelling := single?_spelling hs
  refine ⟨[], cs, _, [], rfl, rfl, hspelling ▸ .sign fun e he => ?_, rfl⟩
  rw [hspelling] at he
  cases he
  exact ⟨hbare, hpair⟩

lemma measure_comes (c : Char) (cs : List Char) : Comes before c cs (measure c cs).1 (measure c cs).2 := by
  cases hm : measure c cs with
  | mk k n =>
  cases measured_of_eq hm with
  | blank hc =>
    obtain ⟨w, rest, rfl, hw, hall, hrest⟩ := exists_run Text.isBlank cs
    exact ⟨w, rest, none, [], rfl, hw, .blank (List.forall_mem_cons.mpr ⟨hc, hall⟩) hrest, rfl⟩
  | line => exact comment_comes before hm (runLength_le _ cs)
  | block _ hhead hn =>
    refine comment_comes before hm ?_
    have hle := closeLength?_le hn
    cases cs with
    | nil => cases hhead
    | cons d cs =>
      rw [List.tail_cons] at hle
      rw [List.length_cons]
      omega
  | openBlock hc hhead hnone => exact hc ▸ openComment_comes before hhead hnone
  | quoted hc hn => exact hc ▸ quoted_comes before hn
  | openQuoted hc hn => exact hc ▸ quoted_comes before hn
  | number _ hdigit => exact number_comes before hdigit
  | word _ _ hstart => exact word_comes before hstart
  | pair _ hs => exact pair_comes before hs
  | single hbare hpair hs => exact single_comes before hbare hpair hs
  | stray hbare hpair hs => exact ⟨[], cs, none, _, rfl, rfl, .stray hbare hpair hs, rfl⟩

end Comes

end Lexeme

namespace Scan

open Lexeme

/-- The characters behind `before` are cut into pieces, in the order of the text and with nothing between them. Each
token stands at the first character of its piece. -/
inductive Scans : List Char → List Char → List Token → List Finding → Prop
  | done {before : List Char} : Scans before [] [] []
  | piece {before text rest : List Char} {kind : Option TokenKind} {fs fs' : List Finding} {ts : List Token} :
    Piece before text rest kind fs → Scans (before ++ text) rest ts fs' →
    Scans before (text ++ rest) (kind.toList.map (⟨·, behind before⟩) ++ ts) (fs ++ fs')

lemma foldl_scans (before cs : List Char) (ts : List Token) (fs : List Finding) :
    ∃ ts' fs', Scans before cs ts' fs' ∧ (split cs).foldl Progress.add ⟨ts, fs, behind before⟩ =
      ⟨ts'.reverse ++ ts, fs'.reverse ++ fs, behind (before ++ cs)⟩ := by
  -- On the length, since a lexeme may end anywhere in the rest.
  induction hn : cs.length using Nat.strongRecOn generalizing before cs ts fs with
  | ind n ih =>
    cases cs with
    | nil =>
      rw [split_nil, List.append_nil]
      exact ⟨[], [], .done, rfl⟩
    | cons c cs =>
      obtain ⟨w, rest, kind, found, rfl, hlength, hpiece, hread⟩ := measure_comes before c cs
      have hsplit : split (c :: (w ++ rest)) = ⟨(measure c (w ++ rest)).1, c :: w⟩ :: split rest := by
        rw [split_cons, hlength, List.take_left, List.drop_left]
      have hshorter : rest.length < n := by
        rw [← hn, List.length_cons, List.length_append]
        omega
      have hadd : Progress.add ⟨ts, fs, behind before⟩ ⟨(measure c (w ++ rest)).1, c :: w⟩ =
          ⟨(kind.toList.map (⟨·, behind before⟩)).reverse ++ ts, found.reverse ++ fs, behind (before ++ c :: w)⟩ := by
        rw [Progress.add, hread, behind_after]
        cases kind <;> rfl
      obtain ⟨ts', fs', hscans, hfold⟩ := ih _ hshorter (before ++ c :: w) rest
        ((kind.toList.map (⟨·, behind before⟩)).reverse ++ ts) (found.reverse ++ fs) rfl
      refine ⟨_, _, .piece hpiece hscans, ?_⟩
      rw [hsplit, List.foldl_cons, hadd, hfold]
      simp only [List.reverse_append, List.append_assoc, List.cons_append]

section Scans

variable {before cs : List Char} {ts : List Token} {fs : List Finding}

lemma Scans.kind_ne (h : Scans before cs ts fs) : ∀ t ∈ ts, t.kind ≠ .eof := by
  induction h with
  | done => exact nofun
  | @piece _ _ _ kind _ _ _ hpiece _ ih =>
    intro t ht
    rcases List.mem_append.mp ht with ht | ht
    · obtain ⟨k, hk, rfl⟩ := List.mem_map.mp ht
      rw [Option.mem_toList.mp hk] at hpiece
      exact hpiece.kind_ne
    · exact ih t ht

lemma Scans.token_place (h : Scans before cs ts fs) :
    ∀ t ∈ ts, ∃ u v, cs = u ++ v ∧ v ≠ [] ∧ t.place = behind (before ++ u) := by
  induction h with
  | done => exact nofun
  | @piece before text rest kind _ _ _ hpiece _ ih =>
    intro t ht
    rcases List.mem_append.mp ht with ht | ht
    · obtain ⟨k, -, rfl⟩ := List.mem_map.mp ht
      refine ⟨[], text ++ rest, rfl, ?_, by rw [List.append_nil]⟩
      exact List.append_ne_nil_of_left_ne_nil hpiece.ne_nil rest
    · obtain ⟨u, v, rfl, hv, hplace⟩ := ih t ht
      exact ⟨text ++ u, v, (List.append_assoc _ _ _).symm, hv, by rw [hplace, List.append_assoc]⟩

lemma Scans.ordered (h : Scans before cs ts fs) : (ts.map (·.place)).Pairwise Before := by
  induction h with
  | done => exact .nil
  | @piece before text rest kind _ _ ts hpiece hscans ih =>
    cases kind with
    | none => exact ih
    | some k =>
      refine List.pairwise_cons.mpr ⟨fun p hp => ?_, ih⟩
      obtain ⟨t, ht, rfl⟩ := List.mem_map.mp hp
      obtain ⟨u, v, -, -, hplace⟩ := hscans.token_place t ht
      rw [hplace, List.append_assoc]
      exact behind_before before (List.append_ne_nil_of_left_ne_nil hpiece.ne_nil u)

lemma Scans.finding_place (h : Scans before cs ts fs) : ∀ f ∈ fs, ∃ u, u <+: cs ∧ f.place = behind (before ++ u) := by
  induction h with
  | done => exact nofun
  | piece hpiece _ ih =>
    intro f hf
    rcases List.mem_append.mp hf with hf | hf
    · obtain ⟨v, hv, hplace⟩ := hpiece.place f hf
      exact ⟨v, hv.trans (List.prefix_append _ _), hplace⟩
    · obtain ⟨u, hu, hplace⟩ := ih f hf
      exact ⟨_, (List.prefix_append_right_inj _).mpr hu, by rw [hplace, List.append_assoc]⟩

end Scans

/-- The tokens of a text stand at the first characters of the pieces that they are, and so do the reports of the pieces
that are no tokens; a bad escape is reported at its backslash. -/
theorem positions_are_exact (s : String) :
    ∃ ts, (ofText s).tokens = ts ++ [⟨.eof, behind s.toList⟩] ∧ (∀ t ∈ ts, t.kind ≠ .eof) ∧
      Scans [] s.toList ts (ofText s).findings ∧ ((ofText s).tokens.map (·.place)).Pairwise Before ∧
      (s.length < 2 ^ 32 - 1 →
        (∀ t ∈ (ofText s).tokens, t.place.line < 2 ^ 32 ∧ t.place.column < 2 ^ 32) ∧
          ∀ f ∈ (ofText s).findings, f.place.line < 2 ^ 32 ∧ f.place.column < 2 ^ 32) := by
  obtain ⟨ts, fs, hscans, hfold⟩ := foldl_scans [] s.toList [] []
  have hfold : (split s.toList).foldl Progress.add ⟨[], [], .start⟩ = ⟨ts.reverse, fs.reverse, behind s.toList⟩ := by
    rw [List.append_nil, List.append_nil, List.nil_append] at hfold
    exact hfold
  have htokens : (ofText s).tokens = ts ++ [⟨.eof, behind s.toList⟩] := by
    rw [ofText, ofLexemes, hfold, Progress.finish, List.reverse_cons, List.reverse_reverse]
  have hfindings : (ofText s).findings = fs := by
    rw [ofText, ofLexemes, hfold, Progress.finish, List.reverse_reverse]
  have hplaces : ∀ t ∈ ts, t.place.Before (behind s.toList) := by
    intro t ht
    obtain ⟨u, v, hsplit, hv, hplace⟩ := hscans.token_place t ht
    rw [hplace, hsplit]
    exact behind_before u hv
  refine ⟨ts, htokens, hscans.kind_ne, hfindings ▸ hscans, ?_, fun hsize => ?_⟩
  · rw [htokens, List.map_append, List.pairwise_append]
    refine ⟨hscans.ordered, List.pairwise_singleton _ _, fun p hp q hq => ?_⟩
    obtain ⟨t, ht, rfl⟩ := List.mem_map.mp hp
    rw [List.mem_singleton.mp hq]
    exact hplaces t ht
  · have hfits {u : List Char} (hu : u <+: s.toList) : (behind u).line < 2 ^ 32 ∧ (behind u).column < 2 ^ 32 := by
      have hle := behind_le u
      have hlength := hu.length_le
      rw [String.length_toList] at hlength
      omega
    rw [htokens, hfindings]
    constructor
    · intro t ht
      rcases List.mem_append.mp ht with ht | ht
      · obtain ⟨u, v, hsplit, -, hplace⟩ := hscans.token_place t ht
        rw [hplace]
        exact hfits ⟨v, hsplit.symm⟩
      · rw [List.mem_singleton.mp ht]
        exact hfits List.prefix_rfl
    · intro f hf
      obtain ⟨u, hu, hplace⟩ := hscans.finding_place f hf
      rw [hplace]
      exact hfits hu

def crooked : String := "/* a\n */ x $\n\"b\\n\\q\" 1_0 \"c\n\ty"

theorem positions_are_exact_crooked :
    (ofText crooked).tokens.map (·.place) = [⟨2, 5⟩, ⟨3, 1⟩, ⟨3, 9⟩, ⟨4, 2⟩, ⟨4, 3⟩] ∧
      (ofText crooked).findings = [⟨⟨2, 7⟩, .unexpectedCharacter '$'⟩, ⟨⟨3, 5⟩, .unknownEscape 'q'⟩,
        ⟨⟨3, 13⟩, .unterminatedString⟩] ∧
      (∀ t ∈ (ofText crooked).tokens, t.place.line < 2 ^ 32 ∧ t.place.column < 2 ^ 32) ∧
      Position.behind crooked.toList = ⟨4, 3⟩ := by
  obtain ⟨ts, htokens, -, -, -, hfits⟩ := positions_are_exact crooked
  refine ⟨by decide +kernel, by decide +kernel, (hfits (by decide +kernel)).1, by decide +kernel⟩

end Scan

end ScriptHost
