import Mathlib.Data.List.Infix
import ScriptHost.Proofs.Syntax.Placed

/-!
Tokens in print. Numbers are printed in decimal and texts with as few escapes as can be. White space ends whatever
stands before it, so tokens with white space between them, and with any comments and more white space after that, are
read as they were printed.
-/

namespace ScriptHost

namespace Text.CharClass

def codes : List Nat → List Nat
  | lo :: hi :: bounds => List.range' lo (hi - lo) ++ codes bounds
  | _ => []

lemma mem_codes {code : Nat} {bounds : List Nat} (heven : bounds.length % 2 = 0)
    (h : toggle code false bounds = true) : code ∈ codes bounds := by
  fun_induction codes bounds with
  | case1 lo hi bounds ih =>
    rw [toggle, toggle] at h
    rw [List.mem_append, List.mem_range'_1]
    split_ifs at h with hlo hhi
    · omega
    · rw [List.length_cons, List.length_cons] at heven
      exact .inr (ih (by omega) h)
  | case2 bounds hshort =>
    cases bounds with
    | nil => cases h
    | cons lo rest =>
      cases rest with
      | nil => cases heven
      | cons hi rest => exact (hshort lo hi rest rfl).elim

lemma forall_codes {P : Char → Prop} {ns : List Nat} (h : ∀ n ∈ ns, P (Char.ofNat n)) {c : Char} (hc : c.toNat ∈ ns) :
    P c := by
  have hp := h c.toNat hc
  rwa [Char.ofNat_toNat] at hp

end Text.CharClass

namespace Lexeme

lemma blank_stops {c : Char} (h : Text.isBlank c = true) : isWordPart c = false ∧ isNumberPart c = false := by
  have hcodes : ∀ n ∈ Text.CharClass.codes Text.blankBounds,
      isWordPart (Char.ofNat n) = false ∧ isNumberPart (Char.ofNat n) = false := by decide +kernel
  exact Text.CharClass.forall_codes (P := fun c => isWordPart c = false ∧ isNumberPart c = false) hcodes
    (Text.CharClass.mem_codes rfl h)

lemma digit_starts {c : Char} (h : isDigit c = true) : Text.isBlank c = false ∧ isWordStart c = false := by
  have hcodes : ∀ n ∈ List.range' 48 10,
      Text.isBlank (Char.ofNat n) = false ∧ isWordStart (Char.ofNat n) = false := by decide
  rw [isDigit, Bool.and_eq_true, decide_eq_true_iff, decide_eq_true_iff] at h
  exact Text.CharClass.forall_codes (P := fun c => Text.isBlank c = false ∧ isWordStart c = false) hcodes
    (List.mem_range'_1.mpr ⟨h.1, Nat.lt_succ_of_le h.2⟩)

def isWord : List Char → Bool
  | [] => false
  | c :: w => isWordStart c && w.all isWordPart

def escape : Char → List Char
  | '\n' => ['\\', 'n']
  | '"' => ['\\', '"']
  | '\\' => ['\\', '\\']
  | c => [c]

end Lexeme

namespace TokenKind

def print : TokenKind → List Char
  | int v => Nat.toDigits 10 v.toInt.toNat
  | str s => '"' :: (s.toList.flatMap Lexeme.escape ++ ['"'])
  | name n => n.toList
  | word k => k.spelling.toList
  | sign s => s.spelling.toList
  | eof => []

/-- What can be printed: no negative number, and as names only words that are not keywords. -/
def Printable : TokenKind → Prop
  | int v => 0 ≤ v
  | name n => Lexeme.isWord n.toList = true ∧ Keyword.ofSpelling? n = none
  | eof => False
  | _ => True

instance : DecidablePred Printable
  | int v => inferInstanceAs (Decidable (0 ≤ v))
  | str _ | word _ | sign _ => inferInstanceAs (Decidable True)
  | name n => inferInstanceAs (Decidable (Lexeme.isWord n.toList = true ∧ Keyword.ofSpelling? n = none))
  | eof => inferInstanceAs (Decidable False)

end TokenKind

/-- A character of white space, or a comment; the line feed belongs to the comment that it ends. -/
inductive Filler where
  | blank (c : Char) (isBlank : Text.isBlank c = true)
  | line (body : List Char) (oneLine : '\n' ∉ body)
  | block (body : List Char) (unclosed : ¬ ['*', '/'] <:+: body)

def Filler.chars : Filler → List Char
  | blank c _ => [c]
  | line body _ => '/' :: '/' :: (body ++ ['\n'])
  | block body _ => '/' :: '*' :: (body ++ ['*', '/'])

structure Gap where
  first : Char
  isBlank : Text.isBlank first = true
  rest : List Filler

def Gap.chars (g : Gap) : List Char :=
  g.first :: g.rest.flatMap Filler.chars

def layout (gap : Nat → Gap) : List TokenKind → List Char
  | [] => []
  | [k] => k.print
  | k :: l :: ks => k.print ++ ((gap 0).chars ++ layout (fun n => gap (n + 1)) (l :: ks))

namespace Lexeme

structure Stands (k : TokenKind) (kind : LexemeKind) (c : Char) (w : List Char) : Prop where
  clean : IsClean ⟨kind, c :: w⟩
  reads : kinds ⟨kind, c :: w⟩ = [k]
  ends {next : List Char} : (∀ d ∈ next.head?, Text.isBlank d = true) → measure c (w ++ next) = (kind, w.length)

/-! Numbers. -/

lemma decimal_append (ds : List Char) (d : Char) : decimal (ds ++ [d]) =
    if decimal ds < signedLimit then 10 * decimal ds + (d.toNat - '0'.toNat) else decimal ds := by
  rw [decimal, List.foldl_append]
  rfl

lemma decimal_eq {ds : List Char} (h : Nat.ofDigitChars 10 ds 0 < signedLimit) :
    decimal ds = Nat.ofDigitChars 10 ds 0 := by
  induction ds using List.reverseRecOn with
  | nil => rfl
  | append_singleton ds d ih =>
    rw [Nat.ofDigitChars_append, Nat.ofDigitChars_cons, Nat.ofDigitChars_nil] at h ⊢
    -- what stops at the limit has not been met by the digits before
    have hds : Nat.ofDigitChars 10 ds 0 < signedLimit := by omega
    rw [decimal_append, ih hds, if_pos hds]

lemma isDigit_toDigits {n : Nat} {c : Char} (h : c ∈ Nat.toDigits 10 n) : isDigit c = true :=
  Nat.isDigit_of_mem_toDigits (by decide) (by decide) h

lemma stands_int {v : Int64} (hv : 0 ≤ v) {c : Char} {w : List Char}
    (h : Nat.toDigits 10 v.toInt.toNat = c :: w) : Stands (.int v) .number c w := by
  have hnonneg : 0 ≤ v.toInt := Int64.le_iff_toInt_le.mp hv
  have hdigits : ∀ d ∈ c :: w, isDigit d = true := fun d hd => isDigit_toDigits (h ▸ hd)
  have hlimit : v.toInt.toNat < signedLimit := by
    have := v.toInt_lt
    rw [signedLimit]
    omega
  have hvalue : decimal (c :: w) = v.toInt.toNat := by
    have htoDigits := Nat.ofDigitChars_ten_toDigits (n := v.toInt.toNat)
    rw [h] at htoDigits
    rw [decimal_eq (htoDigits ▸ hlimit), htoDigits]
  have hread : read .start ⟨.number, c :: w⟩ = (some (.int v), []) := by
    have hback : Int64.ofNat v.toInt.toNat = v := by
      rw [← Int64.ofInt_eq_ofNat, Int.toNat_of_nonneg hnonneg, Int64.ofInt_toInt]
    rw [read]
    dsimp only
    rw [List.filter_eq_self.mpr hdigits, hvalue, if_pos hlimit, hback]
  refine ⟨by rw [IsClean, hread], by rw [kinds, hread]; rfl, fun hnext => ?_⟩
  have hc := hdigits c List.mem_cons_self
  rw [measure_number _ (digit_starts hc).1 hc, Prod.mk.injEq]
  refine ⟨rfl, runLength_append.mpr ⟨fun d hd => ?_, fun d hd => (blank_stops (hnext d hd)).2⟩⟩
  rw [isNumberPart, hdigits d (List.mem_cons_of_mem _ hd), Bool.true_or]

/-! Quoted texts. -/

lemma quoted_escape (cs : List Char) : Quoted (cs.flatMap escape ++ ['"']) := by
  induction cs with
  | nil => exact .close
  | cons c cs ih =>
    rw [List.flatMap_cons, List.append_assoc]
    unfold escape
    split
    · exact .escape 'n' ih
    · exact .escape '"' ih
    · exact .escape '\\' ih
    · next hn hq hb => exact .plain hq hn hb ih

lemma unescape_escape (p : Position) (value : String) (cs : List Char) :
    unescape p value [] (cs.flatMap escape ++ ['"']) = (value ++ String.ofList cs, []) := by
  induction cs generalizing p value with
  | nil => simp [unescape]
  | cons c cs ih =>
    have hpush : value.push c ++ String.ofList cs = value ++ String.ofList (c :: cs) := by
      apply String.ext
      simp
    rw [List.flatMap_cons, List.append_assoc, ← hpush]
    unfold escape
    split
    · exact ih _ _
    · exact ih _ _
    · exact ih _ _
    · next hn hq hb =>
      rw [List.singleton_append, unescape]
      · exact ih _ _
      · exact hq
      · exact hn
      · exact fun _ _ h _ => hb h
      · exact fun h _ => hb h

lemma stands_str (s : String) : Stands (.str s) .quoted '"' (s.toList.flatMap escape ++ ['"']) := by
  have hread : read .start ⟨.quoted, '"' :: (s.toList.flatMap escape ++ ['"'])⟩ = (some (.str s), []) := by
    rw [read]
    dsimp only
    rw [List.tail_cons, unescape_escape]
    simp
  refine ⟨by rw [IsClean, hread], by rw [kinds, hread]; rfl, fun _ => measure_quoted ?_⟩
  rw [quotedLength_append.mpr (quoted_escape _), Nat.zero_add]

/-! Words. -/

lemma stands_word {n : String} (h : isWord n.toList = true) : ∃ c w, n.toList = c :: w ∧
    Stands ((Keyword.ofSpelling? n).elim (.name n) .word) .word c w := by
  cases hn : n.toList with
  | nil =>
    rw [hn] at h
    cases h
  | cons c w =>
    rw [hn, isWord, Bool.and_eq_true, List.all_eq_true] at h
    obtain ⟨hstart, hw⟩ := h
    have hdigit : isDigit c = false := by
      cases hd : isDigit c with
      | false => rfl
      | true => exact absurd hstart (Bool.eq_false_iff.mp (digit_starts hd).2)
    have hblank : Text.isBlank c = false := by
      cases hb : Text.isBlank c with
      | false => rfl
      | true => exact absurd (isWordPart_of_start hstart) (Bool.eq_false_iff.mp (blank_stops hb).1)
    have hread : read .start ⟨.word, c :: w⟩ = (some ((Keyword.ofSpelling? n).elim (.name n) .word), []) := by
      rw [← hn, read, String.ofList_toList]
    refine ⟨c, w, rfl, by rw [IsClean, hread], by rw [kinds, hread]; rfl, fun hnext => ?_⟩
    rw [measure_word _ hblank hdigit hstart, Prod.mk.injEq]
    exact ⟨rfl, runLength_append.mpr ⟨hw, fun d hd => (blank_stops (hnext d hd)).1⟩⟩

lemma isWord_spelling (k : Keyword) : isWord k.spelling.toList = true := by
  cases k <;> decide

/-! Signs. -/

lemma spelling_single (s : Sign) :
    (∃ c, s.spelling.toList = [c] ∧ Sign.single? c = some s) ∨
      ∃ c d, s.spelling.toList = [c, d] ∧ Sign.pair? c d = some s := by
  cases s <;> first | exact .inl ⟨_, rfl, rfl⟩ | exact .inr ⟨_, _, rfl, rfl⟩

lemma bare_single {c : Char} {s : Sign} (h : Sign.single? c = some s) {next : List Char}
    (hnext : ∀ d ∈ next.head?, Text.isBlank d = true) : Bare c next := by
  have hc : Text.isBlank c = false ∧ c ≠ '"' ∧ isDigit c = false ∧ isWordStart c = false := by
    unfold Sign.single? at h
    split at h <;> first | decide | cases h
  obtain ⟨hblank, hquote, hdigit, hword⟩ := hc
  refine ⟨hblank, fun _ d hd => ⟨?_, ?_⟩, hquote, hdigit, hword⟩
  · rintro rfl
    exact absurd (hnext _ hd) (by decide)
  · rintro rfl
    exact absurd (hnext _ hd) (by decide)

lemma bare_pair {c d : Char} {s : Sign} (h : Sign.pair? c d = some s) (next : List Char) : Bare c (d :: next) := by
  have hc : Text.isBlank c = false ∧ c ≠ '"' ∧ isDigit c = false ∧ isWordStart c = false ∧ c ≠ '/' := by
    unfold Sign.pair? at h
    split at h <;> first | decide | cases h
  obtain ⟨hblank, hquote, hdigit, hword, hslash⟩ := hc
  exact ⟨hblank, fun heq => (hslash heq).elim, hquote, hdigit, hword⟩

lemma pair?_blank (c : Char) {d : Char} (hd : Text.isBlank d = true) : Sign.pair? c d = none := by
  rw [Option.eq_none_iff_forall_ne_some]
  intro s hs
  have hnot : Text.isBlank d = false := by
    unfold Sign.pair? at hs
    split at hs <;> first | decide | cases hs
  exact absurd hd (Bool.eq_false_iff.mp hnot)

lemma stands_sign (s : Sign) : ∃ c w, s.spelling.toList = c :: w ∧ Stands (.sign s) (.sign s) c w := by
  rcases spelling_single s with ⟨c, hspelling, hs⟩ | ⟨c, d, hspelling, hs⟩
  · refine ⟨c, [], hspelling, rfl, rfl, fun {next} hnext => (bare_single hs hnext).measure_single ?_ hs⟩
    cases next with
    | nil => rfl
    | cons d next => exact pair?_blank c (hnext d rfl)
  · exact ⟨c, [d], hspelling, rfl, rfl, fun {next} _ => (bare_pair hs next).measure_pair hs⟩

/-! Texts. -/

lemma print_stands {k : TokenKind} (hk : k.Printable) : ∃ kind c w, k.print = c :: w ∧ Stands k kind c w := by
  cases k with
  | int v =>
    obtain ⟨c, w, h⟩ := List.exists_cons_of_ne_nil (Nat.toDigits_ne_nil (n := v.toInt.toNat) (b := 10))
    exact ⟨.number, c, w, h, stands_int hk h⟩
  | str s => exact ⟨.quoted, '"', _, rfl, stands_str s⟩
  | name n =>
    obtain ⟨hword, hname⟩ := hk
    obtain ⟨c, w, h, hstands⟩ := stands_word hword
    rw [hname] at hstands
    exact ⟨.word, c, w, h, hstands⟩
  | word k =>
    obtain ⟨c, w, h, hstands⟩ := stands_word (isWord_spelling k)
    rw [Keyword.ofSpelling?_spelling] at hstands
    exact ⟨.word, c, w, h, hstands⟩
  | sign s =>
    obtain ⟨c, w, h, hstands⟩ := stands_sign s
    exact ⟨.sign s, c, w, h, hstands⟩
  | eof => exact hk.elim

lemma Spells.print {k : TokenKind} (hk : k.Printable) {next : List Char} {ks : List TokenKind}
    (hnext : ∀ d ∈ next.head?, Text.isBlank d = true) (h : Spells next ks) : Spells (k.print ++ next) (k :: ks) := by
  obtain ⟨kind, c, w, hprint, hstands⟩ := print_stands hk
  have hspells := Spells.cons kind (hstands.ends hnext) hstands.clean h
  rw [hstands.reads] at hspells
  rw [hprint]
  exact hspells

lemma closed_append {body : List Char} (h : ¬ ['*', '/'] <:+: body) : Closed (body ++ ['*', '/']) := by
  induction body with
  | nil => exact .done
  | cons c body ih =>
    refine .more ?_ (ih fun hmore => h (List.infix_cons hmore))
    rintro ⟨rfl, hhead⟩
    cases body with
    | nil => cases hhead
    | cons d body =>
      cases hhead
      exact h ⟨[], body, rfl⟩

lemma Spells.filler (f : Filler) {next : List Char} {ks : List TokenKind} (h : Spells next ks) :
    Spells (f.chars ++ next) ks := by
  cases f with
  | blank c hc => exact h.blanks (List.forall_mem_singleton.mpr hc)
  | line body hbody =>
    -- the lexeme ends before the line feed, which is a blank
    have hend : Spells ('\n' :: next) ks := h.blanks (List.forall_mem_singleton.mpr rfl)
    rw [Filler.chars, List.cons_append, List.cons_append, List.append_assoc]
    exact hend.comment hbody (by simp)
  | block body hbody =>
    exact .cons .comment (measure_comment.mpr (.inr ⟨_, rfl, closed_append hbody⟩)) rfl h

lemma Spells.gap (g : Gap) {next : List Char} {ks : List TokenKind} (h : Spells next ks) :
    Spells (g.chars ++ next) ks := by
  have hrest : Spells (g.rest.flatMap Filler.chars ++ next) ks := by
    induction g.rest with
    | nil => exact h
    | cons f fs ih =>
      rw [List.flatMap_cons, List.append_assoc]
      exact ih.filler f
  exact hrest.blanks (w := [g.first]) (List.forall_mem_singleton.mpr g.isBlank)

theorem layout_spells {ks : List TokenKind} (hk : ∀ k ∈ ks, k.Printable) (gap : Nat → Gap) :
    Spells (layout gap ks) ks := by
  fun_induction layout gap ks with
  | case1 => exact .nil
  | case2 gap k =>
    have h := Spells.nil.print (hk k List.mem_cons_self) (by simp)
    rwa [List.append_nil] at h
  | case3 gap k l ks ih =>
    obtain ⟨hfirst, hrest⟩ := List.forall_mem_cons.mp hk
    refine Spells.print hfirst ?_ ((ih hrest).gap (gap 0))
    rintro d ⟨⟩
    exact (gap 0).isBlank

end Lexeme

/-- Whatever is printed, with any gaps, is read as just these tokens and the end of the text, and nothing is wrong
with it. -/
theorem reading_undoes_printing {ks : List TokenKind} (hk : ∀ k ∈ ks, k.Printable) (gap : Nat → Gap) :
    (Scan.ofText (String.ofList (layout gap ks))).findings = [] ∧
      (Scan.ofText (String.ofList (layout gap ks))).tokens.map (·.kind) = ks ++ [.eof] := by
  have hspells := Lexeme.layout_spells hk gap
  rw [← String.toList_ofList (l := layout gap ks)] at hspells
  obtain ⟨hfindings, ts, p, htokens, hkinds, -⟩ := Scan.ofText_spells hspells
  exact ⟨hfindings, by rw [htokens, List.map_append, hkinds]; rfl⟩

theorem reading_undoes_printing_apart :
    (Scan.ofText (String.ofList (layout
      (fun _ => ⟨' ', rfl, [.block ['*'] (by decide), .line ['/', '*'] (by decide), .block ['/'] (by decide)]⟩)
      [.word .inWord, .name "int", .sign .less, .sign .assign, .int 9223372036854775807, .str "\"\\\n"]))).tokens.map
        (·.kind) =
      [.word .inWord, .name "int", .sign .less, .sign .assign, .int 9223372036854775807, .str "\"\\\n", .eof] :=
  (reading_undoes_printing (by decide) _).2

end ScriptHost
