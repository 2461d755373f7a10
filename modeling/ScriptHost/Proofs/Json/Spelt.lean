import Mathlib.Tactic.Lemma
import ScriptHost.Json.Reader
import ScriptHost.Json.Writer

/-!
The characters that values are written as, and what strings and numbers among them are read as.
-/

namespace ScriptHost.Json

/-! What a value is written as. -/

def spellString (s : String) : List Char :=
  '"' :: s.toList.flatMap (fun c => (escape c).toList) ++ ['"']

mutual

def spell (l : Layout) (level : Nat) : Json → List Char
  | null => "null".toList
  | bool true => "true".toList
  | bool false => "false".toList
  | int v => (toString v).toList
  | real literal => literal.toList
  | str s => spellString s
  | arr [] => ['[', ']']
  | arr (j :: js) =>
    '[' :: ((l.indent (level + 1)).toList ++ (spell l (level + 1) j ++ spellItems l level js))
  | obj [] => ['\x7b', '\x7d']
  | obj ((name, j) :: fields) =>
    '\x7b' :: ((l.indent (level + 1)).toList ++ (spellString name ++ (l.colon.toList ++
      (spell l (level + 1) j ++ spellFields l level fields))))

def spellItems (l : Layout) (level : Nat) : List Json → List Char
  | [] => (l.indent level).toList ++ [']']
  | j :: js => ',' :: ((l.indent (level + 1)).toList ++ (spell l (level + 1) j ++ spellItems l level js))

def spellFields (l : Layout) (level : Nat) : List (String × Json) → List Char
  | [] => (l.indent level).toList ++ ['\x7d']
  | (name, j) :: fields =>
    ',' :: ((l.indent (level + 1)).toList ++ (spellString name ++ (l.colon.toList ++
      (spell l (level + 1) j ++ spellFields l level fields))))

end

lemma escape_plain {c : Char} (h : (' ' ≤ c && c != '"' && c != '\\') = true) : escape c = c.toString := by
  simp only [Bool.and_eq_true, bne_iff_ne, decide_eq_true_eq] at h
  obtain ⟨⟨hle, hquote⟩, hslash⟩ := h
  have hctrl : ∀ d : Char, d < ' ' → c ≠ d := fun d hd heq => absurd (heq ▸ hle) (Char.not_le.mpr hd)
  simp only [escape, beq_iff_eq]
  rw [if_neg hquote, if_neg hslash, if_neg (hctrl _ (by decide)), if_neg (hctrl _ (by decide)),
    if_neg (hctrl _ (by decide)), if_neg (hctrl _ (by decide)), if_neg (hctrl _ (by decide)),
    if_neg (Char.not_lt.mpr hle)]

lemma toList_quoteOnto (out s : String) : (quoteOnto out s).toList = out.toList ++ spellString s := by
  have hfold : ∀ (cs : List Char) (out : String),
      (cs.foldl (fun out c => if ' ' ≤ c && c != '"' && c != '\\' then out.push c else out ++ escape c) out).toList =
        out.toList ++ cs.flatMap fun c => (escape c).toList := by
    intro cs
    induction cs with
    | nil => simp
    | cons c cs ih =>
      intro out
      rw [List.foldl_cons, ih, List.flatMap_cons, ← List.append_assoc]
      congr 1
      split
      · next hc => rw [escape_plain hc, String.toList_push, Char.toString, String.toList_singleton]
      · exact String.toList_append
  rw [quoteOnto, String.toList_push, hfold, String.toList_push, spellString]
  simp

mutual

lemma toList_writeOnto (l : Layout) (level : Nat) (out : String) (j : Json) :
    (writeOnto l level out j).toList = out.toList ++ spell l level j := by
  cases j with
  | null => simp [writeOnto, spell]
  | bool b => cases b <;> simp [writeOnto, spell]
  | int v => simp [writeOnto, spell]
  | real literal => simp [writeOnto, spell]
  | str s => rw [writeOnto, toList_quoteOnto, spell]
  | arr items =>
    cases items with
    | nil => simp [writeOnto, spell]
    | cons j js =>
      rw [writeOnto, toList_writeItems l level _ js, toList_writeOnto l (level + 1) _ j]
      simp [spell, Layout.lineOnto]
  | obj fields =>
    rcases fields with _ | ⟨⟨name, j⟩, fields⟩
    · simp [writeOnto, spell]
    · rw [writeOnto, toList_writeFields l level _ fields, toList_writeOnto l (level + 1) _ j, String.toList_append,
        toList_quoteOnto]
      simp [spell, Layout.lineOnto]

lemma toList_writeItems (l : Layout) (level : Nat) (out : String) (js : List Json) :
    (writeItems l level out js).toList = out.toList ++ spellItems l level js := by
  cases js with
  | nil => simp [writeItems, spellItems, Layout.lineOnto]
  | cons j js =>
    rw [writeItems, toList_writeItems l level _ js, toList_writeOnto l (level + 1) _ j]
    simp [spellItems, Layout.lineOnto]

lemma toList_writeFields (l : Layout) (level : Nat) (out : String) (fields : List (String × Json)) :
    (writeFields l level out fields).toList = out.toList ++ spellFields l level fields := by
  rcases fields with _ | ⟨⟨name, j⟩, fields⟩
  · simp [writeFields, spellFields, Layout.lineOnto]
  · rw [writeFields, toList_writeFields l level _ fields, toList_writeOnto l (level + 1) _ j, String.toList_append,
      toList_quoteOnto]
    simp [spellFields, Layout.lineOnto]

end

/-! Strings and numbers. -/

def Reads {cs : List Char} {α : Type} (r : Option (Piece cs α)) (a : α) (rest : List Char) : Prop :=
  ∃ h, r = some ⟨a, rest, h⟩

lemma escaped_escape {c : Char} (h : ¬ (' ' ≤ c && c != '"' && c != '\\') = true) :
    ∃ es, (escape c).toList = '\\' :: es ∧ ∀ cs, Reads (escaped (es ++ cs)) c cs := by
  have hnamed : ∀ e : Char, e ≠ 'u' → named? e = some c → ∀ cs, Reads (escaped ([e] ++ cs)) c cs := by
    intro e hu he cs
    refine ⟨Nat.lt_succ_self _, ?_⟩
    change escaped (e :: cs) = _
    rw [escaped]
    · rw [he]
      rfl
    · rintro - - - - - rfl
      exact absurd rfl hu
  by_cases hquote : c = '"'
  · subst hquote
    exact ⟨['"'], rfl, hnamed '"' (by decide) rfl⟩
  by_cases hslash : c = '\\'
  · subst hslash
    exact ⟨['\\'], rfl, hnamed '\\' (by decide) rfl⟩
  by_cases hb : c = '\x08'
  · subst hb
    exact ⟨['b'], rfl, hnamed 'b' (by decide) rfl⟩
  by_cases hf : c = '\x0c'
  · subst hf
    exact ⟨['f'], rfl, hnamed 'f' (by decide) rfl⟩
  by_cases hn : c = '\n'
  · subst hn
    exact ⟨['n'], rfl, hnamed 'n' (by decide) rfl⟩
  by_cases hr : c = '\r'
  · subst hr
    exact ⟨['r'], rfl, hnamed 'r' (by decide) rfl⟩
  by_cases ht : c = '\t'
  · subst ht
    exact ⟨['t'], rfl, hnamed 't' (by decide) rfl⟩
  have hctrl : c < ' ' := by
    simp only [Bool.and_eq_true, bne_iff_ne, decide_eq_true_eq] at h
    exact Char.not_le.mp fun hle => h ⟨⟨hle, hquote⟩, hslash⟩
  have hlt : c.toNat < 32 := hctrl
  have hhex : ∀ n : Fin 32, hex4? '0' '0' (Nat.digitChar (n / 16)) (Nat.digitChar (n % 16)) = some n.val := by decide
  have hcode := hhex ⟨c.toNat, hlt⟩
  refine ⟨['u', '0', '0', Nat.digitChar (c.toNat / 16), Nat.digitChar (c.toNat % 16)], ?_, fun cs => ?_⟩
  · simp only [escape, beq_iff_eq]
    rw [if_neg hquote, if_neg hslash, if_neg hb, if_neg hf, if_neg hn, if_neg hr, if_neg ht, if_pos hctrl,
      String.toList_append, hexPair]
    simp only [String.toList_ofList]
    rfl
  · refine ⟨by simp only [List.cons_append, List.nil_append, List.length_cons]; omega, ?_⟩
    have hlead : isLead c.toNat = false := by simp [isLead]; omega
    have htrail : isTrail c.toNat = false := by simp [isTrail]; omega
    simp only [List.cons_append, List.nil_append, escaped, hcode, Option.bind_eq_bind, Option.bind_some, hlead, htrail,
      Bool.false_eq_true, if_false, Char.ofNat_toNat]
    rfl

lemma stringFrom_escape (cs₀ : List Char) (value : String) (c : Char) (cs : List Char)
    (h : ((escape c).toList ++ cs).length ≤ cs₀.length) :
    ∃ h', stringFrom cs₀ value ((escape c).toList ++ cs) h = stringFrom cs₀ (value.push c) cs h' := by
  by_cases hc : (' ' ≤ c && c != '"' && c != '\\') = true
  · have hone : (escape c).toList = [c] := by rw [escape_plain hc, Char.toString, String.toList_singleton]
    simp only [hone, List.singleton_append] at h ⊢
    simp only [Bool.and_eq_true, bne_iff_ne, decide_eq_true_eq] at hc
    obtain ⟨⟨hle, hquote⟩, hslash⟩ := hc
    refine ⟨Nat.le_of_succ_le h, ?_⟩
    rw [stringFrom, if_neg (Char.not_lt.mpr hle)]
    · exact hquote
    · exact hslash
  · obtain ⟨es, hes, hread⟩ := escaped_escape hc
    obtain ⟨hlt, hread⟩ := hread cs
    simp only [hes, List.cons_append] at h ⊢
    refine ⟨by simp only [List.length_cons] at h; omega, ?_⟩
    rw [stringFrom]
    simp only [hread]

lemma stringFrom_spell (cs₀ : List Char) (cs rest : List Char) (value : String)
    (h : (cs.flatMap (fun c => (escape c).toList) ++ '"' :: rest).length ≤ cs₀.length) :
    Reads (stringFrom cs₀ value (cs.flatMap (fun c => (escape c).toList) ++ '"' :: rest) h)
      (value ++ String.ofList cs) rest := by
  induction cs generalizing value with
  | nil =>
    refine ⟨h, ?_⟩
    simp only [List.flatMap_nil, List.nil_append, stringFrom, String.ofList_nil, String.append_empty]
  | cons c cs ih =>
    simp only [List.flatMap_cons, List.append_assoc] at h ⊢
    obtain ⟨h', hstep⟩ := stringFrom_escape cs₀ value c _ h
    rw [hstep]
    have hrest := ih (value.push c) h'
    have htext : value.push c ++ String.ofList cs = value ++ String.ofList (c :: cs) := by
      simp [← String.toList_inj]
    rwa [htext] at hrest

lemma isDigit_of_mem_toDigits {n : Nat} {c : Char} (h : c ∈ Nat.toDigits 10 n) : isDigit c = true := by
  have hc := Nat.isDigit_of_mem_toDigits (by decide) (by decide) h
  exact hc

lemma naturalOf_toDigits (n : Nat) : Number.naturalOf (Nat.toDigits 10 n) = n :=
  Nat.ofDigitChars_ten_toDigits

lemma foldlM_toDigits {s : NumberState} (hs : s = .start ∨ s = .minus) (n : Nat) :
    (Nat.toDigits 10 n).foldlM NumberState.step? s = some (if n = 0 then .zero else .digits) := by
  have hone : ∀ d < 10, [Nat.digitChar d].foldlM NumberState.step? s = some (if d = 0 then .zero else .digits) := by
    rcases hs with rfl | rfl <;> decide
  have hmore : ∀ d < 10, NumberState.digits.step? (Nat.digitChar d) = some .digits := by decide
  induction n using Nat.strongRecOn with
  | _ n ih =>
    by_cases hn : n < 10
    · rw [Nat.toDigits_of_lt_base hn, hone n hn]
    · have hpos : ¬ n / 10 = 0 := by omega
      rw [Nat.toDigits_of_base_le (by decide) (Nat.not_lt.mp hn), List.foldlM_append, ih _ (by omega), if_neg hpos,
        if_neg (by omega)]
      change [Nat.digitChar (n % 10)].foldlM NumberState.step? .digits = _
      rw [List.foldlM_cons, hmore _ (Nat.mod_lt n (by decide))]
      rfl

lemma number?_toString {v : Int} (hlo : -signedLimit ≤ v) (hhi : v < wordLimit) :
    number? (toString v).toList = some (.int v) := by
  have hcomplete : ∀ n : Nat, (if n = 0 then NumberState.zero else .digits).isComplete = true := by
    intro n
    split <;> rfl
  have hall : ∀ n : Nat, (Nat.toDigits 10 n).all isDigit = true := fun n =>
    List.all_eq_true.mpr fun c => isDigit_of_mem_toDigits
  rw [Int.toString_eq_repr, Int.repr_eq_if]
  by_cases hv : 0 ≤ v
  · have hint : Number.ofLiteral? (Nat.toDigits 10 v.toNat) = some (.int v) := by
      have hhead : ∀ cs, Nat.toDigits 10 v.toNat ≠ '-' :: cs := by
        intro cs heq
        have hdash := isDigit_of_mem_toDigits (heq ▸ List.mem_cons_self : '-' ∈ Nat.toDigits 10 v.toNat)
        cases hdash
      rw [Number.ofLiteral?, hall, naturalOf_toDigits, decide_eq_true (by omega), Bool.and_self, if_pos rfl,
        Int.toNat_of_nonneg hv]
      exact hhead
    rw [if_pos hv, Nat.toList_repr, number?, foldlM_toDigits (.inl rfl)]
    simp only [Option.bind_eq_bind, Option.bind_some, hcomplete, if_true, hint]
    rfl
  · have hint : Number.ofLiteral? ('-' :: Nat.toDigits 10 (-v).toNat) = some (.int v) := by
      rw [Number.ofLiteral?, hall, naturalOf_toDigits, decide_eq_true (by omega), decide_eq_true (by omega),
        Bool.and_self, Bool.and_self,
        if_pos rfl, Int.toNat_of_nonneg (by omega), Int.neg_neg]
    rw [if_neg hv, String.toList_append, Nat.toList_repr]
    have hread : ('-' :: Nat.toDigits 10 (-v).toNat).foldlM NumberState.step? .start =
        some (if (-v).toNat = 0 then .zero else .digits) := foldlM_toDigits (.inr rfl) _
    change number? ('-' :: Nat.toDigits 10 (-v).toNat) = _
    rw [number?, hread]
    simp only [Option.bind_eq_bind, Option.bind_some, hcomplete, if_true, hint]
    rfl

end ScriptHost.Json
