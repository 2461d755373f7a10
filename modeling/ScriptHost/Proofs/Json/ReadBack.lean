import ScriptHost.Proofs.Json.Spelt

/-!
Reading what has been written. The text of a value that has integers of one word only is read back as the value, on one
line or on many, and a value that has been read nests no deeper than there was room.
-/

namespace ScriptHost.Json

/-! Blanks, and what ends a number. -/

def Blanks (b : List Char) : Prop :=
  ∀ c ∈ b, isBlank c = true

def Ends (cs : List Char) : Prop :=
  ∀ c ∈ cs.head?, isNumberPart c = false

lemma isNumberPart_of_isBlank {c : Char} (h : isBlank c = true) : isNumberPart c = false := by
  simp only [isBlank, Bool.or_eq_true, beq_iff_eq] at h
  rcases h with ((rfl | rfl) | rfl) | rfl <;> rfl

lemma ends_blanks {b : List Char} (hb : Blanks b) {c : Char} (hc : isNumberPart c = false) (cs : List Char) :
    Ends (b ++ c :: cs) := by
  cases b with
  | nil =>
    rintro d ⟨⟩
    exact hc
  | cons d b =>
    rintro e ⟨⟩
    exact isNumberPart_of_isBlank (hb d List.mem_cons_self)

lemma skip_blanks {b : List Char} (hb : Blanks b) {c : Char} (hc : isBlank c = false) (cs : List Char) :
    skip (b ++ c :: cs) = c :: cs := by
  rw [skip, List.dropWhile_append_of_pos hb, List.dropWhile_cons_of_neg (by simp [hc])]

lemma next?_blanks {b : List Char} (hb : Blanks b) {c : Char} (hc : isBlank c = false) (cs : List Char) :
    Reads (Piece.next? (b ++ c :: cs)) c cs := by
  have hskip := skip_blanks hb hc cs
  rw [Piece.next?]
  split
  · next h =>
    rw [hskip] at h
    cases h
  · next d rest h =>
    rw [hskip] at h
    cases h
    exact ⟨_, rfl⟩

structure Layout.IsBlank (l : Layout) : Prop where
  indent : ∀ level, Blanks (l.indent level).toList
  colon : ∃ b, l.colon.toList = ':' :: b ∧ Blanks b

lemma Layout.compact_isBlank : Layout.compact.IsBlank where
  indent _ := by simp [Layout.compact, Blanks]
  colon := ⟨[], rfl, by simp [Blanks]⟩

lemma Layout.indented_isBlank : Layout.indented.IsBlank where
  indent level := by
    intro c hc
    simp only [Layout.indented, String.toList_append, String.toList_ofList, List.mem_append, List.mem_replicate] at hc
    rcases hc with hc | ⟨-, rfl⟩
    · obtain rfl := List.mem_singleton.mp hc
      rfl
    · rfl
  colon := ⟨[' '], rfl, by simp [Blanks, isBlank]⟩

/-! Values. -/

inductive Plain : Json → Prop
  | null : Plain null
  | bool (b : Bool) : Plain (bool b)
  | int (v : Int) : -signedLimit ≤ v → v < wordLimit → Plain (int v)
  | str (s : String) : Plain (str s)
  | arr (items : List Json) : (∀ j ∈ items, Plain j) → Plain (arr items)
  | obj (fields : List (String × Json)) : (∀ f ∈ fields, Plain f.2) → Plain (obj fields)

mutual

def depth : Json → Nat
  | arr items => itemsDepth items + 1
  | obj fields => fieldsDepth fields + 1
  | _ => 0

def itemsDepth : List Json → Nat
  | [] => 0
  | j :: js => max j.depth (itemsDepth js)

def fieldsDepth : List (String × Json) → Nat
  | [] => 0
  | (_, j) :: fields => max j.depth (fieldsDepth fields)

end

lemma itemsDepth_le_iff {items : List Json} {n : Nat} : itemsDepth items ≤ n ↔ ∀ j ∈ items, j.depth ≤ n := by
  induction items with
  | nil => simp [itemsDepth]
  | cons j js ih => rw [itemsDepth, Nat.max_le, ih, List.forall_mem_cons]

lemma fieldsDepth_le_iff {fields : List (String × Json)} {n : Nat} :
    fieldsDepth fields ≤ n ↔ ∀ f ∈ fields, f.2.depth ≤ n := by
  induction fields with
  | nil => simp [fieldsDepth]
  | cons f fields ih => rw [fieldsDepth, Nat.max_le, ih, List.forall_mem_cons]

lemma spell_head (l : Layout) (level : Nat) {j : Json} (hj : Plain j) :
    ∃ c cs, spell l level j = c :: cs ∧ isBlank c = false ∧ c ≠ ']' := by
  cases hj with
  | null => exact ⟨_, _, rfl, rfl, by decide⟩
  | bool b => cases b <;> exact ⟨_, _, rfl, rfl, by decide⟩
  | int v =>
    have hdigits : ∀ n : Nat, ∃ c cs, Nat.toDigits 10 n = c :: cs ∧ isBlank c = false ∧ c ≠ ']' := by
      intro n
      obtain ⟨c, cs, h⟩ := List.exists_cons_of_ne_nil (Nat.toDigits_ne_nil (n := n) (b := 10))
      have hc := isDigit_of_mem_toDigits (h ▸ List.mem_cons_self : c ∈ Nat.toDigits 10 n)
      refine ⟨c, cs, h, Bool.eq_false_iff.mpr fun hb => ?_, ?_⟩
      · have hpart := isNumberPart_of_isBlank hb
        rw [isNumberPart, hc] at hpart
        cases hpart
      · rintro rfl
        cases hc
    rw [spell, Int.toString_eq_repr, Int.repr_eq_if]
    split
    · rw [Nat.toList_repr]
      exact hdigits _
    · rw [String.toList_append]
      exact ⟨'-', _, rfl, rfl, by decide⟩
  | str s => exact ⟨_, _, rfl, rfl, by decide⟩
  | arr items => cases items <;> exact ⟨_, _, by rw [spell], rfl, by decide⟩
  | obj fields => rcases fields with _ | ⟨⟨name, j⟩, fields⟩ <;> exact ⟨_, _, by rw [spell], rfl, by decide⟩

lemma ends_spellItems {l : Layout} (hl : l.IsBlank) (level : Nat) (js : List Json) (rest : List Char) :
    Ends (spellItems l level js ++ rest) := by
  cases js with
  | nil =>
    rw [spellItems, List.append_assoc]
    exact ends_blanks (hl.indent level) rfl rest
  | cons j js =>
    rw [spellItems]
    exact ends_blanks (b := []) (by simp [Blanks]) rfl _

lemma ends_spellFields {l : Layout} (hl : l.IsBlank) (level : Nat) (fields : List (String × Json)) (rest : List Char) :
    Ends (spellFields l level fields ++ rest) := by
  rcases fields with _ | ⟨⟨name, j⟩, fields⟩
  · rw [spellFields, List.append_assoc]
    exact ends_blanks (hl.indent level) rfl rest
  · rw [spellFields]
    exact ends_blanks (b := []) (by simp [Blanks]) rfl _

/-! One part of a container after another. -/

section Parts

variable {item : Reader} {cs₀ cs rest rest' rest'' out : List Char} {j : Json}

lemma itemsFrom_last {found : List Json} (hitem : Reads (item cs) j rest) (hnext : Reads (Piece.next? rest) ']' rest')
    (h : cs.length ≤ cs₀.length) : Reads (itemsFrom item cs₀ found cs h) (found.reverse ++ [j]) rest' := by
  obtain ⟨h₁, hitem⟩ := hitem
  obtain ⟨h₂, hnext⟩ := hnext
  rw [itemsFrom, hitem]
  dsimp only
  rw [hnext]
  exact ⟨by omega, by simp only [List.reverse_cons]⟩

lemma itemsFrom_more {found items : List Json} (hitem : Reads (item cs) j rest)
    (hnext : Reads (Piece.next? rest) ',' rest') (h : cs.length ≤ cs₀.length)
    (hmore : ∀ h', Reads (itemsFrom item cs₀ (j :: found) rest' h') items out) :
    Reads (itemsFrom item cs₀ found cs h) items out := by
  obtain ⟨h₁, hitem⟩ := hitem
  obtain ⟨h₂, hnext⟩ := hnext
  rw [itemsFrom, hitem]
  dsimp only
  rw [hnext]
  exact hmore _

lemma fieldsFrom_last {name : String} {found : List (String × Json)} (hname : Reads (fieldName cs) name rest)
    (hitem : Reads (item rest) j rest') (hnext : Reads (Piece.next? rest') '\x7d' rest'') (h : cs.length ≤ cs₀.length) :
    Reads (fieldsFrom item cs₀ found cs h) (found.reverse ++ [(name, j)]) rest'' := by
  obtain ⟨h₁, hname⟩ := hname
  obtain ⟨h₂, hitem⟩ := hitem
  obtain ⟨h₃, hnext⟩ := hnext
  rw [fieldsFrom, hname]
  dsimp only
  rw [hitem]
  dsimp only
  rw [hnext]
  exact ⟨by omega, by simp only [List.reverse_cons]⟩

lemma fieldsFrom_more {name : String} {found fields : List (String × Json)} (hname : Reads (fieldName cs) name rest)
    (hitem : Reads (item rest) j rest') (hnext : Reads (Piece.next? rest') ',' rest'') (h : cs.length ≤ cs₀.length)
    (hmore : ∀ h', Reads (fieldsFrom item cs₀ ((name, j) :: found) rest'' h') fields out) :
    Reads (fieldsFrom item cs₀ found cs h) fields out := by
  obtain ⟨h₁, hname⟩ := hname
  obtain ⟨h₂, hitem⟩ := hitem
  obtain ⟨h₃, hnext⟩ := hnext
  rw [fieldsFrom, hname]
  dsimp only
  rw [hitem]
  dsimp only
  rw [hnext]
  exact hmore _

lemma array_nil (hnext : Reads (Piece.next? cs) ']' rest) : Reads (array item cs) (.arr []) rest := by
  obtain ⟨h, hnext⟩ := hnext
  rw [array, hnext]
  exact ⟨h, rfl⟩

lemma array_cons {c : Char} {items : List Json} (hnext : Reads (Piece.next? cs) c rest) (hc : c ≠ ']')
    (hitems : Reads (itemsFrom item cs [] cs (Piece.length_all cs)) items out) :
    Reads (array item cs) (.arr items) out := by
  obtain ⟨h, hnext⟩ := hnext
  obtain ⟨h', hitems⟩ := hitems
  rw [array]
  split
  · next heq =>
    rw [hnext] at heq
    cases heq
    exact absurd rfl hc
  · rw [hitems]
    exact ⟨h', rfl⟩

lemma object_nil (hnext : Reads (Piece.next? cs) '\x7d' rest) : Reads (object item cs) (.obj []) rest := by
  obtain ⟨h, hnext⟩ := hnext
  rw [object, hnext]
  exact ⟨h, rfl⟩

lemma object_cons {c : Char} {fields : List (String × Json)} (hnext : Reads (Piece.next? cs) c rest) (hc : c ≠ '\x7d')
    (hfields : Reads (fieldsFrom item cs [] cs (Piece.length_all cs)) fields out) :
    Reads (object item cs) (.obj fields) out := by
  obtain ⟨h, hnext⟩ := hnext
  obtain ⟨h', hfields⟩ := hfields
  rw [object]
  split
  · next heq =>
    rw [hnext] at heq
    cases heq
    exact absurd rfl hc
  · rw [hfields]
    exact ⟨h', rfl⟩

end Parts

/-- `item` reads the text of a value on some level, wherever it stands. -/
def ReadsBack (l : Layout) (level : Nat) (item : Reader) (j : Json) : Prop :=
  ∀ b rest, Blanks b → Ends rest → Reads (item (b ++ (spell l level j ++ rest))) j rest

section Containers

variable {l : Layout} (hl : l.IsBlank) {level : Nat} {item : Reader} (rest : List Char)

lemma next?_spellNil (hl : l.IsBlank) : Reads (Piece.next? (spellItems l level [] ++ rest)) ']' rest := by
  rw [spellItems, List.append_assoc]
  exact next?_blanks (hl.indent level) rfl rest

include hl

lemma itemsFrom_spell (cs₀ : List Char) {j : Json} {js : List Json}
    (hitems : ∀ x ∈ j :: js, ReadsBack l (level + 1) item x) (found : List Json) {b : List Char} (hb : Blanks b)
    (h : (b ++ (spell l (level + 1) j ++ (spellItems l level js ++ rest))).length ≤ cs₀.length) :
    Reads (itemsFrom item cs₀ found (b ++ (spell l (level + 1) j ++ (spellItems l level js ++ rest))) h)
      (found.reverse ++ j :: js) rest := by
  induction js generalizing j found b with
  | nil =>
    have hitem := hitems j List.mem_cons_self b _ hb (ends_spellItems hl level [] rest)
    exact itemsFrom_last hitem (next?_spellNil rest hl) h
  | cons k js ih =>
    have hitem := hitems j List.mem_cons_self b _ hb (ends_spellItems hl level (k :: js) rest)
    have hnext : Reads (Piece.next? (spellItems l level (k :: js) ++ rest)) ','
        ((l.indent (level + 1)).toList ++ (spell l (level + 1) k ++ (spellItems l level js ++ rest))) := by
      rw [spellItems, List.cons_append, List.append_assoc, List.append_assoc]
      exact next?_blanks (b := []) (by simp [Blanks]) rfl _
    refine itemsFrom_more hitem hnext h fun h' => ?_
    have hmore := ih (fun x hx => hitems x (List.mem_cons_of_mem _ hx)) (j :: found) (hl.indent (level + 1)) h'
    rwa [List.reverse_cons, List.append_assoc] at hmore

lemma array_spell {items : List Json} (hplain : ∀ j ∈ items, Plain j)
    (hitems : ∀ j ∈ items, ReadsBack l (level + 1) item j) {cs : List Char}
    (hspell : spell l level (.arr items) = '[' :: cs) : Reads (array item (cs ++ rest)) (.arr items) rest := by
  cases items with
  | nil =>
    obtain rfl : cs = [']'] := (List.cons_eq_cons.mp hspell).2.symm
    exact array_nil (next?_blanks (b := []) (by simp [Blanks]) rfl rest)
  | cons j js =>
    rw [spell] at hspell
    obtain rfl := (List.cons_eq_cons.mp hspell).2
    obtain ⟨d, ds, hhead, hblank, hclose⟩ := spell_head l (level + 1) (hplain j List.mem_cons_self)
    have hread := fun h => itemsFrom_spell hl rest
      ((l.indent (level + 1)).toList ++ (spell l (level + 1) j ++ (spellItems l level js ++ rest))) hitems []
      (hl.indent (level + 1)) h
    have hnext := next?_blanks (hl.indent (level + 1)) hblank (ds ++ (spellItems l level js ++ rest))
    rw [← List.cons_append, ← hhead] at hnext
    rw [List.append_assoc, List.append_assoc]
    exact array_cons hnext hclose (hread _)

omit hl in
lemma fieldName_spell {b : List Char} (hb : Blanks b) (name : String) (rest : List Char) :
    Reads (fieldName (b ++ (spellString name ++ ':' :: rest))) name rest := by
  let quoted := name.toList.flatMap (fun c => (escape c).toList) ++ '"' :: ':' :: rest
  obtain ⟨h₁, hquote⟩ := next?_blanks hb (c := '"') rfl quoted
  obtain ⟨h₂, hname⟩ := stringFrom_spell quoted name.toList (':' :: rest) "" (Nat.le_refl _)
  obtain ⟨h₃, hcolon⟩ : Reads (Piece.next? (':' :: rest)) ':' rest :=
    next?_blanks (b := []) (by simp [Blanks]) rfl rest
  rw [String.ofList_toList, String.empty_append] at hname
  have heq : b ++ (spellString name ++ ':' :: rest) = b ++ '"' :: quoted := by simp [spellString, quoted]
  rw [heq, fieldName, hquote]
  simp only [quoted, hname, hcolon]
  exact ⟨Piece.length_trans h₁ (Piece.length_trans h₂ h₃), rfl⟩

lemma fieldsFrom_spell (cs₀ : List Char) {name : String} {j : Json} {fields : List (String × Json)}
    (hitems : ∀ f ∈ (name, j) :: fields, ReadsBack l (level + 1) item f.2) (found : List (String × Json))
    {b : List Char} (hb : Blanks b)
    (h : (b ++ (spellString name ++ (l.colon.toList ++ (spell l (level + 1) j ++
      (spellFields l level fields ++ rest))))).length ≤ cs₀.length) :
    Reads (fieldsFrom item cs₀ found (b ++ (spellString name ++ (l.colon.toList ++ (spell l (level + 1) j ++
      (spellFields l level fields ++ rest))))) h) (found.reverse ++ (name, j) :: fields) rest := by
  obtain ⟨d, hcolon, hd⟩ := hl.colon
  have hname : ∀ {b}, Blanks b → ∀ name rest,
      Reads (fieldName (b ++ (spellString name ++ (l.colon.toList ++ rest)))) name (d ++ rest) := by
    intro b hb name rest
    rw [hcolon]
    exact fieldName_spell hb name (d ++ rest)
  clear hcolon
  induction fields generalizing name j found b with
  | nil =>
    have hitem := hitems (name, j) List.mem_cons_self d _ hd (ends_spellFields hl level [] rest)
    have hnext : Reads (Piece.next? (spellFields l level [] ++ rest)) '\x7d' rest := by
      rw [spellFields, List.append_assoc]
      exact next?_blanks (hl.indent level) rfl rest
    exact fieldsFrom_last (hname hb name _) hitem hnext h
  | cons f fields ih =>
    obtain ⟨name', k⟩ := f
    have hitem := hitems (name, j) List.mem_cons_self d _ hd (ends_spellFields hl level ((name', k) :: fields) rest)
    have hnext : Reads (Piece.next? (spellFields l level ((name', k) :: fields) ++ rest)) ','
        ((l.indent (level + 1)).toList ++ (spellString name' ++ (l.colon.toList ++ (spell l (level + 1) k ++
          (spellFields l level fields ++ rest))))) := by
      rw [spellFields, List.cons_append, List.append_assoc, List.append_assoc, List.append_assoc, List.append_assoc]
      exact next?_blanks (b := []) (by simp [Blanks]) rfl _
    refine fieldsFrom_more (hname hb name _) hitem hnext h fun h' => ?_
    have hmore := ih (fun x hx => hitems x (List.mem_cons_of_mem _ hx)) ((name, j) :: found) (hl.indent (level + 1)) h'
    rwa [List.reverse_cons, List.append_assoc] at hmore

lemma object_spell {fields : List (String × Json)} (hfields : ∀ f ∈ fields, ReadsBack l (level + 1) item f.2)
    {cs : List Char} (hspell : spell l level (.obj fields) = '\x7b' :: cs) :
    Reads (object item (cs ++ rest)) (.obj fields) rest := by
  rcases fields with _ | ⟨⟨name, j⟩, fields⟩
  · rw [spell] at hspell
    obtain rfl := (List.cons_eq_cons.mp hspell).2
    exact object_nil (next?_blanks (b := []) (by simp [Blanks]) rfl rest)
  · rw [spell] at hspell
    obtain rfl := (List.cons_eq_cons.mp hspell).2
    have hread := fun h => fieldsFrom_spell hl rest
      ((l.indent (level + 1)).toList ++ (spellString name ++ (l.colon.toList ++ (spell l (level + 1) j ++
        (spellFields l level fields ++ rest))))) hfields [] (hl.indent (level + 1)) h
    have hnext := next?_blanks (hl.indent (level + 1)) (c := '"') rfl
      (name.toList.flatMap (fun c => (escape c).toList) ++ ['"'] ++ (l.colon.toList ++ (spell l (level + 1) j ++
        (spellFields l level fields ++ rest))))
    rw [List.append_assoc, List.append_assoc, List.append_assoc, List.append_assoc]
    exact object_cons hnext (by decide) (hread _)

end Containers

lemma stringValue_spell (s : String) (rest : List Char) :
    Reads (stringValue (s.toList.flatMap (fun c => (escape c).toList) ++ '"' :: rest)) (.str s) rest := by
  obtain ⟨h, hread⟩ := stringFrom_spell (s.toList.flatMap (fun c => (escape c).toList) ++ '"' :: rest) s.toList rest ""
    (Nat.le_refl _)
  rw [String.ofList_toList, String.empty_append] at hread
  rw [stringValue, hread]
  exact ⟨Nat.lt_succ_of_lt h, rfl⟩

lemma isNumberPart_toString {v : Int} {c : Char} (hc : c ∈ (toString v).toList) : isNumberPart c = true := by
  have hdigit : ∀ n, c ∈ Nat.toDigits 10 n → isNumberPart c = true := fun n h => by
    rw [isNumberPart, isDigit_of_mem_toDigits h]
    rfl
  rw [Int.toString_eq_repr, Int.repr_eq_if] at hc
  split at hc
  · rw [Nat.toList_repr] at hc
    exact hdigit _ hc
  · rw [String.toList_append, Nat.toList_repr] at hc
    rcases List.mem_append.mp hc with h | h
    · obtain rfl := List.mem_singleton.mp h
      rfl
    · exact hdigit _ h

lemma bareValue_number (item : Option Reader) {c : Char} (hc : isNumberPart c = true) (cs : List Char) :
    bareValue item (c :: cs) = numberValue c cs := by
  have hne : ∀ d : Char, isNumberPart d = false → c ≠ d := by
    rintro d hd rfl
    rw [hc] at hd
    cases hd
  rw [bareValue]
  · exact hne 'n' rfl
  · exact hne 't' rfl
  · exact hne 'f' rfl
  · exact hne '"' rfl
  · exact hne '[' rfl
  · exact hne '\x7b' rfl

lemma bareValue_int (item : Option Reader) {v : Int} (hlo : -signedLimit ≤ v) (hhi : v < wordLimit) {rest : List Char}
    (hrest : Ends rest) : Reads (bareValue item ((toString v).toList ++ rest)) (.int v) rest := by
  have hread := number?_toString hlo hhi
  have hparts := fun c => isNumberPart_toString (v := v) (c := c)
  cases hdigits : (toString v).toList with
  | nil =>
    rw [hdigits] at hread
    cases hread
  | cons c ds =>
    rw [hdigits] at hread hparts
    obtain ⟨hc, hds⟩ := List.forall_mem_cons.mp hparts
    rw [List.cons_append, bareValue_number item hc]
    have hrun : (ds ++ rest).takeWhile isNumberPart = ds ∧ (ds ++ rest).dropWhile isNumberPart = rest := by
      rw [List.takeWhile_append_of_pos hds, List.dropWhile_append_of_pos hds]
      cases rest with
      | nil => simp
      | cons d rest => simp [hrest d rfl]
    refine ⟨by simp only [List.length_cons, List.length_append]; omega, ?_⟩
    rw [numberValue]
    simp only [hrun, hread]
    rfl

lemma wordRest?_append (ws rest : List Char) : wordRest? ws (ws ++ rest) = some rest := by
  induction ws with
  | nil => rfl
  | cons w ws ih =>
    rw [List.cons_append, wordRest?, if_pos (beq_self_eq_true w)]
    exact ih

lemma wordValue_append (j : Json) (c : Char) (ws rest : List Char) : Reads (wordValue j c ws (ws ++ rest)) j rest := by
  rw [wordValue]
  split
  · next r h =>
    rw [wordRest?_append] at h
    cases h
    exact ⟨_, rfl⟩
  · next h =>
    rw [wordRest?_append] at h
    cases h

section Values

variable {l : Layout} (hl : l.IsBlank) {level : Nat}

lemma bareValue_scalar (item : Option Reader) {j : Json} (hj : Plain j) (hdepth : j.depth = 0) {rest : List Char}
    (hrest : Ends rest) : Reads (bareValue item (spell l level j ++ rest)) j rest := by
  cases hj with
  | null => exact wordValue_append .null 'n' "ull".toList rest
  | bool b =>
    cases b with
    | true => exact wordValue_append (.bool true) 't' "rue".toList rest
    | false => exact wordValue_append (.bool false) 'f' "alse".toList rest
  | int v hlo hhi => exact bareValue_int item hlo hhi hrest
  | str s =>
    have hread := stringValue_spell s rest
    rw [spell, spellString, List.cons_append, List.cons_append, List.append_assoc]
    exact hread
  | arr => cases hdepth
  | obj => cases hdepth

lemma bareValue_array {item : Reader} {items : List Json} {cs rest : List Char}
    (h : Reads (array item cs) (.arr items) rest) : Reads (bareValue (some item) ('[' :: cs)) (.arr items) rest := by
  obtain ⟨hlt, h⟩ := h
  rw [bareValue, Option.bind_some, h]
  exact ⟨Nat.lt_succ_of_lt hlt, rfl⟩

lemma bareValue_object {item : Reader} {fields : List (String × Json)} {cs rest : List Char}
    (h : Reads (object item cs) (.obj fields) rest) :
    Reads (bareValue (some item) ('\x7b' :: cs)) (.obj fields) rest := by
  obtain ⟨hlt, h⟩ := h
  rw [bareValue, Option.bind_some, h]
  exact ⟨Nat.lt_succ_of_lt hlt, rfl⟩

lemma valueWith_blanks {item : Option Reader} {j : Json} (hj : Plain j) {b rest : List Char} (hb : Blanks b)
    (h : Reads (bareValue item (spell l level j ++ rest)) j rest) :
    Reads (valueWith item (b ++ (spell l level j ++ rest))) j rest := by
  obtain ⟨c, cs, hhead, hblank, -⟩ := spell_head l level hj
  have hskip : skip (b ++ (spell l level j ++ rest)) = spell l level j ++ rest := by
    rw [hhead]
    exact skip_blanks hb hblank _
  rw [← hskip] at h
  obtain ⟨hlt, h⟩ := h
  rw [valueWith, h]
  exact ⟨Nat.lt_of_lt_of_le hlt (Piece.length_skip _), rfl⟩

include hl

lemma value_spell {room : Nat} {j : Json} (hj : Plain j) (hdepth : j.depth ≤ room) :
    ReadsBack l level (value room) j := by
  -- on the room, which gets less by one where the level goes up by one
  induction room generalizing level j with
  | zero => exact fun b rest hb hrest => valueWith_blanks hj hb (bareValue_scalar none hj (Nat.le_zero.mp hdepth) hrest)
  | succ room ih =>
    intro b rest hb hrest
    refine valueWith_blanks hj hb ?_
    cases hj with
    | arr items hplain =>
      have hinner := itemsDepth_le_iff.mp (Nat.le_of_succ_le_succ hdepth)
      obtain ⟨cs, hspell⟩ : ∃ cs, spell l level (.arr items) = '[' :: cs := by
        cases items <;> exact ⟨_, by rw [spell]⟩
      rw [hspell, List.cons_append]
      exact bareValue_array (array_spell hl rest hplain (fun x hx => ih (hplain x hx) (hinner x hx)) hspell)
    | obj fields hplain =>
      have hinner := fieldsDepth_le_iff.mp (Nat.le_of_succ_le_succ hdepth)
      obtain ⟨cs, hspell⟩ : ∃ cs, spell l level (.obj fields) = '\x7b' :: cs := by
        rcases fields with _ | ⟨⟨name, j⟩, fields⟩ <;> exact ⟨_, by rw [spell]⟩
      rw [hspell, List.cons_append]
      exact bareValue_object (object_spell hl rest (fun f hf => ih (hplain f hf) (hinner f hf)) hspell)
    | null => exact bareValue_scalar _ .null rfl hrest
    | bool b => exact bareValue_scalar _ (.bool b) rfl hrest
    | int v hlo hhi => exact bareValue_scalar _ (.int v hlo hhi) rfl hrest
    | str s => exact bareValue_scalar _ (.str s) rfl hrest

theorem ofChars?_writeOnto {room : Nat} {j : Json} (hj : Plain j) (hdepth : j.depth ≤ room) :
    ofChars? room (writeOnto l 0 "" j).toList = some j := by
  have htext : (writeOnto l 0 "" j).toList = [] ++ (spell l 0 j ++ []) := by
    rw [toList_writeOnto, List.append_nil]
    rfl
  have hvalue : ReadsBack l 0 (value room) j := value_spell hl hj hdepth
  obtain ⟨h, hread⟩ := hvalue [] [] (by simp [Blanks]) (by simp [Ends])
  rw [htext, ofChars?, hread]
  rfl

end Values

/-! How deep a value nests that has been read. -/

section Depth

variable {item : Reader} {n : Nat} (hitem : ∀ cs p, item cs = some p → p.value.depth ≤ n)
include hitem

lemma itemsFrom_depth {cs₀ cs : List Char} {found : List Json} {h : cs.length ≤ cs₀.length}
    (hfound : ∀ j ∈ found, j.depth ≤ n) {p : Piece cs₀ (List Json)} (hp : itemsFrom item cs₀ found cs h = some p) :
    ∀ j ∈ p.value, j.depth ≤ n := by
  fun_induction itemsFrom item cs₀ found cs h with
  | case1 | case4 => cases hp
  | case2 found cs h j rest h₁ hj rest' h₂ hnext ih =>
    exact ih (List.forall_mem_cons.mpr ⟨hitem cs _ hj, hfound⟩) hp
  | case3 found cs h j rest h₁ hj rest' h₂ hnext =>
    cases hp
    intro x hx
    rcases List.mem_cons.mp (List.mem_reverse.mp hx) with rfl | hx
    · exact hitem cs _ hj
    · exact hfound x hx

lemma fieldsFrom_depth {cs₀ cs : List Char} {found : List (String × Json)} {h : cs.length ≤ cs₀.length}
    (hfound : ∀ f ∈ found, f.2.depth ≤ n) {p : Piece cs₀ (List (String × Json))}
    (hp : fieldsFrom item cs₀ found cs h = some p) : ∀ f ∈ p.value, f.2.depth ≤ n := by
  fun_induction fieldsFrom item cs₀ found cs h with
  | case1 | case2 | case5 => cases hp
  | case3 found cs h name rest h₁ hname j rest' h₂ hj rest'' h₃ hnext ih =>
    exact ih (List.forall_mem_cons.mpr ⟨hitem rest _ hj, hfound⟩) hp
  | case4 found cs h name rest h₁ hname j rest' h₂ hj rest'' h₃ hnext =>
    cases hp
    intro x hx
    rcases List.mem_cons.mp (List.mem_reverse.mp hx) with rfl | hx
    · exact hitem rest _ hj
    · exact hfound x hx

lemma array_depth {cs : List Char} {p : Piece cs Json} (hp : array item cs = some p) : p.value.depth ≤ n + 1 := by
  rw [array] at hp
  split at hp
  · cases hp
    exact Nat.succ_le_succ (Nat.zero_le n)
  · obtain ⟨q, hq, rfl⟩ := Option.map_eq_some_iff.mp hp
    exact Nat.succ_le_succ (itemsDepth_le_iff.mpr (itemsFrom_depth hitem (by simp) hq))

lemma object_depth {cs : List Char} {p : Piece cs Json} (hp : object item cs = some p) : p.value.depth ≤ n + 1 := by
  rw [object] at hp
  split at hp
  · cases hp
    exact Nat.succ_le_succ (Nat.zero_le n)
  · obtain ⟨q, hq, rfl⟩ := Option.map_eq_some_iff.mp hp
    exact Nat.succ_le_succ (fieldsDepth_le_iff.mpr (fieldsFrom_depth hitem (by simp) hq))

end Depth

lemma wordValue_value {j : Json} {c : Char} {ws cs : List Char} {p : Piece (c :: cs) Json}
    (hp : wordValue j c ws cs = some p) : p.value = j := by
  rw [wordValue] at hp
  split at hp
  · cases hp
    rfl
  · cases hp

lemma numberValue_depth {c : Char} {cs : List Char} {p : Piece (c :: cs) Json} (hp : numberValue c cs = some p) :
    p.value.depth = 0 := by
  obtain ⟨j, hj, rfl⟩ := Option.map_eq_some_iff.mp hp
  rw [number?] at hj
  obtain ⟨s, -, hj⟩ := Option.bind_eq_some_iff.mp hj
  split at hj
  · obtain ⟨v, -, hj⟩ := Option.bind_eq_some_iff.mp hj
    cases v <;> cases hj <;> rfl
  · cases hj

lemma bareValue_depth {item : Option Reader} {n : Nat} (hitem : ∀ r ∈ item, ∀ cs p, r cs = some p → p.value.depth ≤ n)
    {cs : List Char} {p : Piece cs Json} (hp : bareValue item cs = some p) :
    p.value.depth ≤ item.elim 0 fun _ => n + 1 := by
  have hscalar : p.value.depth = 0 → p.value.depth ≤ item.elim 0 fun _ => n + 1 := fun h =>
    Nat.le_trans (Nat.le_of_eq h) (Nat.zero_le _)
  cases cs with
  | nil => cases hp
  | cons c cs =>
    rw [bareValue.eq_def] at hp
    dsimp only at hp
    split at hp
    · exact hscalar (congrArg depth (wordValue_value hp))
    · exact hscalar (congrArg depth (wordValue_value hp))
    · exact hscalar (congrArg depth (wordValue_value hp))
    · obtain ⟨q, -, rfl⟩ := Option.map_eq_some_iff.mp hp
      exact hscalar rfl
    · obtain ⟨r, rfl, hp⟩ := Option.bind_eq_some_iff.mp hp
      obtain ⟨q, hq, rfl⟩ := Option.map_eq_some_iff.mp hp
      have hdepth := array_depth (hitem r rfl) hq
      exact hdepth
    · obtain ⟨r, rfl, hp⟩ := Option.bind_eq_some_iff.mp hp
      obtain ⟨q, hq, rfl⟩ := Option.map_eq_some_iff.mp hp
      have hdepth := object_depth (hitem r rfl) hq
      exact hdepth
    · exact hscalar (numberValue_depth hp)

lemma value_depth {room : Nat} {cs : List Char} {p : Piece cs Json} (hp : value room cs = some p) :
    p.value.depth ≤ room := by
  induction room generalizing cs with
  | zero =>
    obtain ⟨q, hq, rfl⟩ := Option.map_eq_some_iff.mp hp
    exact bareValue_depth (n := 0) (by simp) hq
  | succ room ih =>
    obtain ⟨q, hq, rfl⟩ := Option.map_eq_some_iff.mp hp
    have hinner : ∀ r ∈ some (value room), ∀ cs p, r cs = some p → p.value.depth ≤ room := by
      rintro r ⟨⟩ cs p hr
      exact ih hr
    have hdepth := bareValue_depth hinner hq
    exact hdepth

theorem ofChars?_depth {room : Nat} {cs : List Char} {j : Json} (h : ofChars? room cs = some j) : j.depth ≤ room := by
  rw [ofChars?] at h
  obtain ⟨p, hp, h⟩ := Option.bind_eq_some_iff.mp h
  dsimp only at h
  split at h
  · rw [← Option.some.inj h]
    exact value_depth hp
  · cases h

end ScriptHost.Json
