import Mathlib.Data.List.Basic
import Mathlib.Tactic.Lemma
import ScriptHost.Syntax.Scan

/-!
Where lexemes end. How far one goes depends on what it is made of and on the character behind it, and where that is a
line feed it may be any line.
-/

namespace ScriptHost.Lexeme

/-! Where lexemes end. -/

lemma runLength_append {p : Char → Bool} {w next : List Char} :
    runLength p (w ++ next) = w.length ↔ (∀ c ∈ w, p c = true) ∧ ∀ c ∈ next.head?, p c = false := by
  induction w with
  | nil =>
    cases next with
    | nil => simp [runLength]
    | cons c next => cases hc : p c <;> simp [runLength, hc]
  | cons c w ih =>
    cases hc : p c with
    | true => simpa [runLength, hc] using ih
    | false => simp [runLength, hc]

inductive Closed : List Char → Prop
  | done : Closed ['*', '/']
  | more {c : Char} {cs : List Char} : ¬ (c = '*' ∧ cs.head? = some '/') → Closed cs → Closed (c :: cs)

lemma closeLength?_gt {n m : Nat} {cs : List Char} (h : closeLength? n cs = some m) : n + 1 < m := by
  fun_induction closeLength? n cs with
  | case1 n => cases h; omega
  | case2 n c cs _ ih => have := ih h; omega
  | case3 n => cases h

lemma Closed.ne_nil {v : List Char} (h : Closed v) : v ≠ [] := by
  cases h <;> simp

lemma closeLength?_cons (n : Nat) (c : Char) (cs : List Char) :
    closeLength? n (c :: cs) =
      if c = '*' ∧ cs.head? = some '/' then some (n + 2) else closeLength? (n + 1) cs := by
  split
  · next h =>
    obtain ⟨rfl, hcs⟩ := h
    cases cs with
    | nil => cases hcs
    | cons d cs =>
      cases hcs
      rfl
  · next h =>
    rw [closeLength?]
    rintro rest rfl rfl
    exact h ⟨rfl, rfl⟩

lemma closeLength?_append {n : Nat} {v next : List Char} :
    closeLength? n (v ++ next) = some (n + v.length) ↔ Closed v := by
  induction v generalizing n with
  | nil =>
    refine iff_of_false (fun h => ?_) fun h => h.ne_nil rfl
    have := closeLength?_gt h
    rw [List.length_nil] at this
    omega
  | cons c v ih =>
    have hhead (hv : v ≠ []) : (v ++ next).head? = v.head? := by
      cases v with
      | nil => cases hv rfl
      | cons d v => rfl
    have hlength : n + (c :: v).length = n + 1 + v.length := by
      rw [List.length_cons]
      omega
    rw [List.cons_append, closeLength?_cons, hlength]
    constructor
    · intro h
      split at h
      · next hstop =>
        have hone : v.length = 1 := by
          have := Option.some.inj h
          omega
        obtain ⟨d, rfl⟩ := List.length_eq_one_iff.mp hone
        obtain ⟨rfl, hd⟩ := hstop
        cases hd
        exact .done
      · next hgo =>
        have hv := ih.mp h
        exact .more (hhead hv.ne_nil ▸ hgo) hv
    · intro h
      cases h with
      | done => rfl
      | more hgo hv => rw [if_neg (hhead hv.ne_nil ▸ hgo), ih.mpr hv]

inductive Quoted : List Char → Prop
  | close : Quoted ['"']
  | escape (c : Char) {cs : List Char} : Quoted cs → Quoted ('\\' :: c :: cs)
  | plain {c : Char} {cs : List Char} : c ≠ '"' → c ≠ '\n' → c ≠ '\\' → Quoted cs → Quoted (c :: cs)

lemma quotedLength_gt {n m : Nat} {cs : List Char} (h : quotedLength n cs = (m, true)) : n < m := by
  fun_induction quotedLength n cs with
  | case1 n => cases h
  | case2 n cs => cases h; omega
  | case3 n cs => cases h
  | case4 n c cs ih => have := ih h; omega
  | case5 n c cs _ _ _ ih => have := ih h; omega

lemma quotedLength_plain {n : Nat} {c : Char} {cs : List Char} (hq : c ≠ '"') (hn : c ≠ '\n') (hb : c ≠ '\\') :
    quotedLength n (c :: cs) = quotedLength (n + 1) cs := by
  rw [quotedLength]
  · exact fun h => hq h
  · exact fun h => hn h
  · exact fun _ _ h _ => hb h

lemma quotedLength_append {n : Nat} {w next : List Char} :
    quotedLength n (w ++ next) = (n + w.length, true) ↔ Quoted w := by
  constructor
  · intro h
    fun_induction quotedLength n w with
    | case1 n =>
      have := quotedLength_gt h
      simp at this
    | case2 n w =>
      have hlength : w.length = 0 := by
        rw [List.cons_append, quotedLength, Prod.mk.injEq, List.length_cons] at h
        omega
      rw [List.length_eq_zero_iff.mp hlength]
      exact .close
    | case3 n w => simp [quotedLength] at h
    | case4 n c w ih =>
      apply Quoted.escape c
      apply ih
      rw [List.cons_append, List.cons_append, quotedLength] at h
      rw [h, List.length_cons, List.length_cons]
      congr 1
      omega
    | case5 n c w hq hn hb ih =>
      by_cases hc : c = '\\'
      · -- Nothing follows the backslash inside, so the closing quote would be past the end.
        subst hc
        cases w with
        | cons d w => exact (hb d w rfl rfl).elim
        | nil =>
          cases next with
          | nil => simp [quotedLength] at h
          | cons d next =>
            rw [List.singleton_append, quotedLength] at h
            have := quotedLength_gt h
            simp at this
      · refine .plain hq hn hc (ih ?_)
        rw [List.cons_append, quotedLength_plain hq hn hc] at h
        rw [h, List.length_cons]
        congr 1
        omega
  · intro h
    induction h generalizing n with
    | close => rfl
    | escape c _ ih =>
      rw [List.cons_append, List.cons_append, quotedLength, ih, List.length_cons, List.length_cons]
      congr 1
      omega
    | plain hq hn hb _ ih =>
      rw [List.cons_append, quotedLength_plain hq hn hb, ih, List.length_cons]
      congr 1
      omega

/-! Lexemes that stop at a line feed are the same before any other line. -/

/-- What may stand behind a lexeme in place of `next`. -/
def Follows (next next' : List Char) : Prop :=
  next'.head? = next.head? ∨ ∀ c ∈ next'.head?, c = '\n'

lemma Follows.head {next next' : List Char} (h : Follows next next') {p : Char → Bool} (hp : p '\n' = false)
    (hn : ∀ c ∈ next.head?, p c = false) : ∀ c ∈ next'.head?, p c = false := by
  intro c hc
  rcases h with heq | hline
  · exact hn c (heq ▸ hc)
  · rw [hline c hc]
    exact hp

lemma runLength_follows {p : Char → Bool} (hp : p '\n' = false) {w next next' : List Char} (hf : Follows next next')
    (h : runLength p (w ++ next) = w.length) : runLength p (w ++ next') = w.length := by
  rw [runLength_append] at h ⊢
  exact ⟨h.1, hf.head hp h.2⟩

/-! What the lexemes are. -/

structure Bare (c : Char) (cs : List Char) : Prop where
  blank : Text.isBlank c = false
  comment : c = '/' → ∀ d ∈ cs.head?, d ≠ '/' ∧ d ≠ '*'
  quote : c ≠ '"'
  digit : isDigit c = false
  word : isWordStart c = false

inductive Measured (c : Char) (cs : List Char) : LexemeKind → Nat → Prop
  | blank : Text.isBlank c = true → Measured c cs .blank (runLength Text.isBlank cs)
  | line : c = '/' → cs.head? = some '/' → Measured c cs .comment (runLength (· != '\n') cs)
  | block {n : Nat} : c = '/' → cs.head? = some '*' → closeLength? 1 cs.tail = some n → Measured c cs .comment n
  | openBlock : c = '/' → cs.head? = some '*' → closeLength? 1 cs.tail = none →
    Measured c cs .openComment cs.length
  | quoted {n : Nat} : c = '"' → quotedLength 0 cs = (n, true) → Measured c cs .quoted n
  | openQuoted {n : Nat} : c = '"' → quotedLength 0 cs = (n, false) → Measured c cs .openQuoted n
  | number : Text.isBlank c = false → isDigit c = true → Measured c cs .number (runLength isNumberPart cs)
  | word : Text.isBlank c = false → isDigit c = false → isWordStart c = true →
    Measured c cs .word (runLength isWordPart cs)
  | pair {s : Sign} : Bare c cs → cs.head?.bind (Sign.pair? c) = some s → Measured c cs (.sign s) 1
  | single {s : Sign} : Bare c cs → cs.head?.bind (Sign.pair? c) = none → Sign.single? c = some s →
    Measured c cs (.sign s) 0
  | stray : Bare c cs → cs.head?.bind (Sign.pair? c) = none → Sign.single? c = none → Measured c cs .stray 0

lemma measured (c : Char) (cs : List Char) : Measured c cs (measure c cs).1 (measure c cs).2 := by
  unfold measure
  split_ifs with hblank hline hblock hquote hdigit hword
  · exact .blank hblank
  · rw [Bool.and_eq_true, beq_iff_eq, beq_iff_eq] at hline
    exact .line hline.1 hline.2
  · rw [Bool.and_eq_true, beq_iff_eq, beq_iff_eq] at hblock
    cases hn : closeLength? 1 cs.tail with
    | some n => exact .block hblock.1 hblock.2 hn
    | none => exact .openBlock hblock.1 hblock.2 hn
  · cases hn : quotedLength 0 cs with
    | mk n closed =>
      cases closed with
      | true => exact .quoted (beq_iff_eq.mp hquote) hn
      | false => exact .openQuoted (beq_iff_eq.mp hquote) hn
  · exact .number (Bool.eq_false_iff.mpr hblank) hdigit
  · exact .word (Bool.eq_false_iff.mpr hblank) (Bool.eq_false_iff.mpr hdigit) hword
  · have hbare : Bare c cs := {
      blank := Bool.eq_false_iff.mpr hblank
      comment := by
        rintro rfl d hd
        refine ⟨?_, ?_⟩
        · rintro rfl
          exact hline (by rw [hd]; rfl)
        · rintro rfl
          exact hblock (by rw [hd]; rfl)
      quote := fun h => hquote (beq_iff_eq.mpr h)
      digit := Bool.eq_false_iff.mpr hdigit
      word := Bool.eq_false_iff.mpr hword }
    cases hpair : cs.head?.bind (Sign.pair? c) with
    | some s => exact .pair hbare hpair
    | none =>
      cases hsingle : Sign.single? c with
      | some s => exact .single hbare hpair hsingle
      | none => exact .stray hbare hpair hsingle

lemma measured_of_eq {c : Char} {cs : List Char} {k : LexemeKind} {n : Nat} (h : measure c cs = (k, n)) :
    Measured c cs k n := by
  have hm := measured c cs
  rw [h] at hm
  exact hm

lemma isWordPart_of_start {c : Char} (h : isWordStart c = true) : isWordPart c = true := by
  rw [isWordStart, Bool.or_eq_true] at h
  rw [isWordPart, Bool.or_eq_true, Bool.or_eq_true]
  exact h.imp_left .inl

lemma measure_word_parts {c : Char} {w next : List Char} (h : measure c (w ++ next) = (.word, w.length)) :
    ∀ d ∈ c :: w, isWordPart d = true := by
  have hm := measured_of_eq h
  generalize hn : w.length = n at hm
  cases hm with
  | word _ _ hword =>
    exact List.forall_mem_cons.mpr ⟨isWordPart_of_start hword, (runLength_append.mp hn.symm).1⟩

lemma measure_eq_comment {c : Char} {cs : List Char} {n : Nat} :
    measure c cs = (.comment, n) ↔ c = '/' ∧
      (cs.head? = some '/' ∧ runLength (· != '\n') cs = n ∨ cs.head? = some '*' ∧ closeLength? 1 cs.tail = some n) := by
  constructor
  · intro h
    cases measured_of_eq h with
    | line hc hhead => exact ⟨hc, .inl ⟨hhead, rfl⟩⟩
    | block hc hhead hn => exact ⟨hc, .inr ⟨hhead, hn⟩⟩
  · have hblank : Text.isBlank '/' = false := by decide
    rintro ⟨rfl, ⟨hhead, h⟩ | ⟨hhead, h⟩⟩
    · simp [measure, hblank, hhead, h]
    · simp [measure, hblank, hhead, h]

lemma measure_quoted {cs : List Char} {n : Nat} (h : quotedLength 0 cs = (n, true)) :
    measure '"' cs = (.quoted, n) := by
  have hblank : Text.isBlank '"' = false := by decide
  simp [measure, hblank, h]

lemma measure_number {c : Char} (cs : List Char) (hblank : Text.isBlank c = false) (hdigit : isDigit c = true) :
    measure c cs = (.number, runLength isNumberPart cs) := by
  have hslash : c ≠ '/' := by
    rintro rfl
    cases hdigit
  have hquote : c ≠ '"' := by
    rintro rfl
    cases hdigit
  simp [measure, hblank, hslash, hquote, hdigit]

lemma measure_word {c : Char} (cs : List Char) (hblank : Text.isBlank c = false) (hdigit : isDigit c = false)
    (hword : isWordStart c = true) : measure c cs = (.word, runLength isWordPart cs) := by
  have hslash : c ≠ '/' := by
    rintro rfl
    exact absurd hword (by decide)
  have hquote : c ≠ '"' := by
    rintro rfl
    exact absurd hword (by decide)
  simp [measure, hblank, hslash, hquote, hdigit, hword]

lemma Bare.slashes {c : Char} {cs : List Char} (h : Bare c cs) {d : Char} (hd : d = '/' ∨ d = '*') :
    (c == '/' && cs.head? == some d) = false := by
  rw [Bool.and_eq_false_iff, beq_eq_false_iff_ne, beq_eq_false_iff_ne]
  by_cases hc : c = '/'
  · refine .inr fun hhead => ?_
    obtain ⟨hline, hblock⟩ := h.comment hc d hhead
    exact hd.elim hline hblock
  · exact .inl hc

lemma Bare.measure_pair {c : Char} {cs : List Char} (h : Bare c cs) {s : Sign}
    (hs : cs.head?.bind (Sign.pair? c) = some s) : measure c cs = (.sign s, 1) := by
  simp [measure, h.blank, h.slashes, h.quote, h.digit, h.word, hs]

lemma Bare.measure_single {c : Char} {cs : List Char} (h : Bare c cs) {s : Sign}
    (hpair : cs.head?.bind (Sign.pair? c) = none) (hs : Sign.single? c = some s) : measure c cs = (.sign s, 0) := by
  simp [measure, h.blank, h.slashes, h.quote, h.digit, h.word, hpair, hs]

def isSignPart (c : Char) : Bool :=
  c != '\n' && c != '\r'

lemma pair?_parts {c d : Char} {s : Sign} (h : Sign.pair? c d = some s) :
    isSignPart c = true ∧ isSignPart d = true := by
  unfold Sign.pair? at h
  split at h <;> first | decide | cases h

lemma single?_parts {c : Char} {s : Sign} (h : Sign.single? c = some s) : isSignPart c = true := by
  unfold Sign.single? at h
  split at h <;> first | decide | cases h

lemma pair?_newline (c : Char) : Sign.pair? c '\n' = none := by
  rw [Option.eq_none_iff_forall_ne_some]
  intro s hs
  exact absurd (pair?_parts hs).2 (by decide)

lemma measure_follows {c : Char} {w next next' : List Char} {k : LexemeKind}
    (h : measure c (w ++ next) = (k, w.length)) (hf : Follows next next')
    (hk : k = .quoted ∨ k = .number ∨ k = .word ∨ ∃ s, k = .sign s) :
    measure c (w ++ next') = (k, w.length) := by
  have hm := measured_of_eq h
  generalize hn : w.length = n at hm
  cases hm with
  | blank | line | block | openBlock | openQuoted | stray => simp at hk
  | quoted hc hq =>
    subst hc hn
    have hw : Quoted w := quotedLength_append.mp (by rw [hq, Nat.zero_add])
    apply measure_quoted
    rw [quotedLength_append.mpr hw, Nat.zero_add]
  | number hblank hdigit =>
    rw [measure_number _ hblank hdigit, ← hn, runLength_follows (by decide) hf hn.symm]
  | word hblank hdigit hword =>
    rw [measure_word _ hblank hdigit hword, ← hn, runLength_follows (by decide) hf hn.symm]
  | pair hbare hpair =>
    obtain ⟨d, rfl⟩ := List.length_eq_one_iff.mp hn
    have hbare' : Bare c ([d] ++ next') := { hbare with comment := hbare.comment }
    exact hbare'.measure_pair hpair
  | single hbare hpair hsingle =>
    obtain rfl := List.length_eq_zero_iff.mp hn
    rw [List.nil_append] at hbare hpair ⊢
    have hbare' : Bare c next' := {
      hbare with
      comment := by
        intro hc d hd
        rcases hf with heq | hline
        · exact hbare.comment hc d (heq ▸ hd)
        · rw [hline d hd]
          decide }
    refine hbare'.measure_single ?_ hsingle
    rcases hf with heq | hline
    · rw [heq, hpair]
    · cases hhead : next'.head? with
      | none => rfl
      | some d =>
        rw [hline d hhead]
        exact pair?_newline c

lemma measure_comment {w next : List Char} : measure '/' (w ++ next) = (.comment, w.length) ↔
    (∃ v, w = '/' :: v ∧ '\n' ∉ v ∧ ∀ c ∈ next.head?, c = '\n') ∨ ∃ v, w = '*' :: v ∧ Closed v := by
  rw [measure_eq_comment, runLength_append]
  constructor
  · rintro ⟨-, ⟨hhead, hall, hnext⟩ | ⟨hhead, hn⟩⟩
    · cases w with
      | nil =>
        rw [List.nil_append] at hhead
        exact absurd (hnext _ hhead) (by decide)
      | cons d v =>
        cases hhead
        refine .inl ⟨v, rfl, fun hv => ?_, fun c hc => by simpa using hnext c hc⟩
        exact absurd (hall '\n' (List.mem_cons_of_mem _ hv)) (by decide)
    · cases w with
      | nil =>
        have := closeLength?_gt hn
        simp at this
      | cons d v =>
        cases hhead
        refine .inr ⟨v, rfl, closeLength?_append.mp (hn.trans ?_)⟩
        rw [List.length_cons, Nat.add_comm]
  · rintro (⟨v, rfl, hv, hnext⟩ | ⟨v, rfl, hv⟩)
    · refine ⟨rfl, .inl ⟨rfl, fun c hc => ?_, fun c hc => by simpa using hnext c hc⟩⟩
      rcases List.mem_cons.mp hc with rfl | hc
      · decide
      · have hne : c ≠ '\n' := fun h => hv (h ▸ hc)
        simpa using hne
    · refine ⟨rfl, .inr ⟨rfl, (closeLength?_append.mpr hv).trans ?_⟩⟩
      rw [List.length_cons, Nat.add_comm]

end ScriptHost.Lexeme
