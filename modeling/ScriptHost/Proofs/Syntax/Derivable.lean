import ScriptHost.Proofs.Syntax.Lookahead

/-!
What is read is a phrase: its tokens are those that were taken, its value is what was made of them, and there was
room for its openings.
-/

namespace ScriptHost.Grammar

open ScriptHost.Parser

/-- What `p` gives and the tokens that it takes for it are related by `P`. -/
def Derives {α : Type} (p : Parser α) (P : List Token → α → Prop) : Prop :=
  ∀ ts r, p ts = .ok r → ∃ used, ts = used ++ r.rest ∧ P used r.value

section Derives

variable {α β : Type}

lemma Derives.bind {p : Parser α} {P : List Token → α → Prop} (hp : Derives p P) {ts : List Token}
    {k : Read ts α → Except Finding β} {b : β} (h : p ts >>= k = .ok b) :
    ∃ used a rest, ∃ hs : rest.length < ts.length, ts = used ++ rest ∧ P used a ∧ k ⟨a, rest, hs⟩ = .ok b := by
  obtain ⟨⟨a, rest, hs⟩, hr, hk⟩ := bind_ok h
  obtain ⟨used, hts, ha⟩ := hp ts _ hr
  exact ⟨used, a, rest, hs, hts, ha, hk⟩

lemma tooDeep_derives {P : List Token → α → Prop} : Derives tooDeep P := by
  intro ts r h
  cases h

lemma eat?_some {kind : TokenKind} {ts rest : List Token} {p : Position} {hs : rest.length < ts.length}
    (h : eat? kind ts = some ⟨p, rest, hs⟩) : ts = ⟨kind, p⟩ :: rest := by
  obtain ⟨⟨k, q⟩, hts, ht⟩ := take?_some h
  rw [hts]
  dsimp only at ht
  split at ht
  · next hk =>
    cases ht
    rw [hk]
  · cases ht

lemma expect_derives (kind : TokenKind) : Derives (expect kind) fun used p => used = [⟨kind, p⟩] := by
  intro ts r h
  rw [expect] at h
  split at h
  · next r' hr =>
    cases h
    exact ⟨_, eat?_some hr, rfl⟩
  · cases h

lemma identifier_derives : Derives identifier fun used n => used = [⟨.name n.1, n.2⟩] := by
  intro ts r h
  rw [identifier] at h
  split at h
  · next r' hr =>
    cases h
    obtain ⟨t, hts, ht⟩ := take?_some hr
    refine ⟨[t], hts, ?_⟩
    split at ht
    · rw [← Option.some.inj ht]
    · cases ht
  · cases h

end Derives

/-! Expressions. -/

/-- Some tokens are those of a phrase for a piece that fits, and this is its value. -/
def Piece.Spells (n : Piece) (room : Nat) (used : List Token) (v : n.Value) : Prop :=
  ∃ d : Phrase n, d.tokens = used ∧ d.value = v ∧ d.openings ≤ room

def SpellsWhole (room : Nat) (used : List Token) (e : Expr) : Prop :=
  ∃ d : Phrase .whole, d.tokens = used ∧ d.value = e ∧ d.openings + 1 ≤ room

section Expressions

variable {room : Nat} {whole prefixed : Parser Expr}

lemma itemsFrom_derives (hw : Derives whole (SpellsWhole room)) (b : Bracket) (ts₀ : List Token)
    (found : List Expr) (ts : List Token) (hs : ts.length ≤ ts₀.length) {r : Read ts₀ (List Expr)}
    (h : itemsFrom whole b.close ts₀ found ts hs = .ok r) :
    ∃ (e : Phrase .whole) (es : Phrase (.more b)), ts = e.tokens ++ (es.tokens ++ r.rest) ∧
      r.value = found.reverse ++ e.value :: es.value ∧ e.openings + 1 ≤ room ∧ es.openings ≤ room := by
  rw [itemsFrom] at h
  obtain ⟨-, -, rest, hlt, hts, ⟨e, rfl, rfl, he⟩, h⟩ := hw.bind h
  dsimp only at h
  split at h
  · next q rest' hlt' hr =>
    obtain ⟨e', es, hrest, hv, he', hes⟩ := itemsFrom_derives hw b ts₀ (e.value :: found) rest' _ h
    refine ⟨e, .next q e' es, ?_, ?_, he, Nat.max_le.mpr ⟨he', hes⟩⟩
    · rw [hts, eat?_some hr, hrest]
      simp
    · rw [hv]
      simp
  · obtain ⟨-, q, rest', hlt', hrest, rfl, h⟩ := (expect_derives _).bind h
    cases h
    exact ⟨e, .last q, hts.trans (congrArg (e.tokens ++ ·) hrest), by simp, he, Nat.zero_le _⟩
  termination_by ts.length

lemma items_derives (hw : Derives whole (SpellsWhole room)) (b : Bracket) :
    Derives (items whole b.close) ((Piece.items b).Spells room) := by
  intro ts r h
  rw [items] at h
  split at h
  · next q rest hlt hr =>
    cases h
    exact ⟨_, eat?_some hr, .empty q, rfl, rfl, Nat.zero_le _⟩
  · obtain ⟨e, es, hts, hv, he, hes⟩ := itemsFrom_derives hw b ts [] ts _ h
    refine ⟨e.tokens ++ es.tokens, ?_, .list e es, rfl, hv.symm, Nat.max_le.mpr ⟨he, hes⟩⟩
    rw [List.append_assoc]
    exact hts

lemma primary_derives (hw : Derives whole (SpellsWhole room)) :
    Derives (primary whole) (Piece.primary.Spells room) := by
  intro ts r h
  unfold primary at h
  split at h
  · next v p ts =>
    cases h
    exact ⟨_, rfl, .int p v, rfl, rfl, Nat.zero_le _⟩
  · next s p ts =>
    cases h
    exact ⟨_, rfl, .str p s, rfl, rfl, Nat.zero_le _⟩
  · next p ts =>
    cases h
    exact ⟨_, rfl, .yes p, rfl, rfl, Nat.zero_le _⟩
  · next p ts =>
    cases h
    exact ⟨_, rfl, .no p, rfl, rfl, Nat.zero_le _⟩
  · next p ts =>
    cases h
    exact ⟨_, rfl, .nil p, rfl, rfl, Nat.zero_le _⟩
  · next n p q ts =>
    obtain ⟨-, -, rest, hlt, rfl, ⟨args, rfl, rfl, hargs⟩, h⟩ := (items_derives hw .round).bind h
    cases h
    exact ⟨_, rfl, .call p n q args, rfl, rfl, hargs⟩
  · next n p ts _ =>
    cases h
    exact ⟨_, rfl, .var p n, rfl, rfl, Nat.zero_le _⟩
  · next q ts =>
    obtain ⟨-, -, rest, hlt, rfl, ⟨e, rfl, rfl, he⟩, h⟩ := hw.bind h
    obtain ⟨-, q', rest', hlt', rfl, rfl, h⟩ := (expect_derives _).bind h
    cases h
    exact ⟨(Phrase.parens q e q').tokens, by simp, .parens q e q', rfl, rfl, he⟩
  · next p ts =>
    obtain ⟨-, -, rest, hlt, rfl, ⟨es, rfl, rfl, hes⟩, h⟩ := (items_derives hw .square).bind h
    cases h
    exact ⟨_, rfl, .array p es, rfl, rfl, hes⟩
  · cases h

lemma indexes_derives (hw : Derives whole (SpellsWhole room)) (ts₀ : List Token) (target : Expr)
    (ts : List Token) (hs : ts.length < ts₀.length) {r : Read ts₀ Expr}
    (h : indexes whole ts₀ target ts hs = .ok r) :
    ∃ is : Phrase .indexes, ts = is.tokens ++ r.rest ∧ r.value = is.value target ∧ is.openings ≤ room := by
  rw [indexes] at h
  split at h
  · next q rest hlt hr =>
    obtain ⟨-, -, rest', hlt', hrest, ⟨i, rfl, rfl, hi⟩, h⟩ := hw.bind h
    obtain ⟨-, q', rest'', hlt'', hrest', rfl, h⟩ := (expect_derives _).bind h
    obtain ⟨is, hrest'', hv, his⟩ := indexes_derives hw ts₀ _ rest'' _ h
    refine ⟨.index q i q' is, ?_, hv, Nat.max_le.mpr ⟨hi, his⟩⟩
    rw [eat?_some hr, hrest, hrest', hrest'']
    simp
  · cases h
    exact ⟨.bare, rfl, rfl, Nat.zero_le _⟩
  termination_by ts.length

lemma operandWith_derives (hw : Derives whole (SpellsWhole room))
    (hp : Derives prefixed fun used e => ∃ r, room = r + 1 ∧ Piece.operand.Spells r used e) :
    Derives (operandWith prefixed whole) (Piece.operand.Spells room) := by
  intro ts r h
  unfold operandWith at h
  split at h
  · next p ts =>
    obtain ⟨-, -, rest, hlt, rfl, ⟨room', rfl, x, rfl, rfl, hx⟩, h⟩ := hp.bind h
    cases h
    exact ⟨_, rfl, .unary p .neg x, rfl, rfl, Nat.succ_le_succ hx⟩
  · next p ts =>
    obtain ⟨-, -, rest, hlt, rfl, ⟨room', rfl, x, rfl, rfl, hx⟩, h⟩ := hp.bind h
    cases h
    exact ⟨_, rfl, .unary p .not x, rfl, rfl, Nat.succ_le_succ hx⟩
  · obtain ⟨-, -, rest, hlt, hts, ⟨x, rfl, rfl, hx⟩, h⟩ := (primary_derives hw).bind h
    obtain ⟨is, hrest, hv, his⟩ := indexes_derives hw _ _ _ _ h
    refine ⟨x.tokens ++ is.tokens, hts.trans ?_, .indexed x is, rfl, hv.symm, Nat.max_le.mpr ⟨hx, his⟩⟩
    rw [List.append_assoc, hrest]

lemma chain_derives {level : Level} {tighter : List Level} (hl : level :: tighter <:+ Level.all)
    {operand : Parser Expr} (ho : Derives operand ((Piece.joined tighter.length).Spells room)) (ts₀ : List Token)
    (lhs : Expr) (ts : List Token) (hs : ts.length < ts₀.length) {r : Read ts₀ Expr}
    (h : chain level operand ts₀ lhs ts hs = .ok r) :
    ∃ xs : Phrase (.tail tighter.length), ts = xs.tokens ++ r.rest ∧ r.value = xs.value lhs ∧
      xs.openings ≤ room := by
  rw [chain] at h
  split at h
  · next join rest hlt hr =>
    obtain ⟨⟨kind, q⟩, hts, hj⟩ := take?_some hr
    obtain ⟨o, htier, rfl, rfl⟩ := operator_of_level hl hj
    change ts = _ :: rest at hts
    obtain ⟨-, -, rest', hlt', hrest, ⟨x, rfl, rfl, hx⟩, h⟩ := ho.bind h
    obtain ⟨xs, hrest', hv, hxs⟩ := chain_derives hl ho ts₀ _ rest' _ h
    refine ⟨.op o htier q x xs, ?_, hv, Nat.max_le.mpr ⟨hx, hxs⟩⟩
    rw [hts, hrest, hrest']
    simp
  · cases h
    exact ⟨.stop, rfl, rfl, Nat.zero_le _⟩
  termination_by ts.length

lemma climb_derives {operand : Parser Expr} (ho : Derives operand (Piece.operand.Spells room))
    (levels : List Level) (hl : levels <:+ Level.all) :
    Derives (climb operand levels) ((Piece.joined levels.length).Spells room) := by
  induction levels with
  | nil =>
    intro ts r h
    obtain ⟨used, hts, x, hx, hv, hroom⟩ := ho ts r h
    exact ⟨used, hts, .single x, hx, hv, hroom⟩
  | cons level tighter ih =>
    have htighter := ih ((List.suffix_cons level tighter).trans hl)
    intro ts r h
    obtain ⟨-, -, rest, hlt, hts, ⟨x, rfl, rfl, hx⟩, h⟩ := htighter.bind h
    obtain ⟨xs, hrest, hv, hxs⟩ := chain_derives hl htighter ts _ rest hlt h
    refine ⟨x.tokens ++ xs.tokens, hts.trans ?_, .run x xs, rfl, hv.symm, Nat.max_le.mpr ⟨hx, hxs⟩⟩
    rw [List.append_assoc, hrest]

lemma whole_derives {operand : Parser Expr} (ho : Derives operand (Piece.operand.Spells room)) :
    Derives (climb operand Level.all) (SpellsWhole (room + 1)) := by
  intro ts r h
  obtain ⟨used, hts, e, he, hv, hroom⟩ := climb_derives ho Level.all List.suffix_rfl ts r h
  exact ⟨used, hts, e, he, hv, Nat.succ_le_succ hroom⟩

lemma operand_derives (room : Nat) : Derives (operand room) (Piece.operand.Spells room) := by
  induction room with
  | zero => exact operandWith_derives tooDeep_derives tooDeep_derives
  | succ room ih =>
    refine operandWith_derives (whole_derives ih) fun ts r h => ?_
    obtain ⟨used, hts, hx⟩ := ih ts r h
    exact ⟨used, hts, room, rfl, hx⟩

theorem expression_derives (room : Nat) : Derives (expression room) (SpellsWhole room) := by
  cases room with
  | zero => exact tooDeep_derives
  | succ room => exact whole_derives (operand_derives room)

end Expressions

/-! Statements. -/

def Form.Spells (n : Form) (room : Nat) (used : List Token) (v : n.Value) : Prop :=
  ∃ d : Clause n, d.tokens = used ∧ d.value = v ∧ d.openings ≤ room

section Statements

variable {room : Nat} {expr : Parser Expr} {block : Parser (List Stmt)} {conditional statement : Parser Stmt}

lemma value_derives (he : Derives expr (SpellsWhole room)) :
    Derives (Parser.value expr) fun used v => ∃ (e : Phrase .whole) (q : Position),
      e.tokens ++ [⟨.sign .semicolon, q⟩] = used ∧ e.value = v ∧ e.openings + 1 ≤ room := by
  intro ts r h
  obtain ⟨-, -, rest, hlt, rfl, ⟨e, rfl, rfl, he⟩, h⟩ := he.bind h
  obtain ⟨-, q, rest', hlt', rfl, rfl, h⟩ := (expect_derives _).bind h
  cases h
  exact ⟨_, (List.append_assoc _ _ _).symm, e, q, rfl, rfl, he⟩

lemma simple_derives (he : Derives expr (SpellsWhole room)) :
    Derives (simple expr) (Form.statement.Spells room) := by
  intro ts r h
  obtain ⟨-, -, rest, hlt, rfl, ⟨e, rfl, rfl, hroom⟩, h⟩ := he.bind h
  dsimp only at h
  rw [e.current_whole] at h
  split at h
  · next q rest' hlt' hr =>
    obtain rfl := eat?_some hr
    split at h
    · cases h
    · next t ht =>
      obtain ⟨-, -, rest'', hlt'', rfl, ⟨v, q', rfl, rfl, hv⟩, h⟩ := (value_derives he).bind h
      cases h
      exact ⟨_, by simp, .assign e t (ofExpr?_eq_some.mp ht) q v q', rfl, rfl, Nat.max_le.mpr ⟨hroom, hv⟩⟩
  · obtain ⟨-, q, rest', hlt', rfl, rfl, h⟩ := (expect_derives _).bind h
    cases h
    exact ⟨_, (List.append_assoc _ _ _).symm, .eval e q, rfl, rfl, hroom⟩

lemma statementWith_derives (he : Derives expr (SpellsWhole room)) (hb : Derives block (Form.block.Spells room))
    (hc : Derives conditional (Form.conditional.Spells room)) :
    Derives (statementWith expr block conditional) (Form.statement.Spells room) := by
  intro ts r h
  unfold statementWith at h
  split at h
  · next p ts =>
    obtain ⟨-, ⟨n, q⟩, rest, _, rfl, rfl, h⟩ := identifier_derives.bind h
    obtain ⟨-, q₁, rest, _, rfl, rfl, h⟩ := (expect_derives _).bind h
    obtain ⟨-, -, rest, _, rfl, ⟨e, q₂, rfl, rfl, he⟩, h⟩ := (value_derives he).bind h
    cases h
    exact ⟨_, by simp, .declare p n q q₁ e q₂, rfl, rfl, he⟩
  · obtain ⟨used, hts, c, rfl, hv, hc⟩ := hc _ _ h
    exact ⟨_, hts, .conditional c, rfl, hv, hc⟩
  · next p ts =>
    obtain ⟨-, -, rest, _, rfl, ⟨c, rfl, rfl, hcond⟩, h⟩ := he.bind h
    obtain ⟨-, -, rest, _, rfl, ⟨b, rfl, rfl, hbody⟩, h⟩ := hb.bind h
    cases h
    exact ⟨_, by simp, .loop p c b, rfl, rfl, Nat.max_le.mpr ⟨hcond, hbody⟩⟩
  · next p ts =>
    obtain ⟨-, ⟨n, q⟩, rest, _, rfl, rfl, h⟩ := identifier_derives.bind h
    obtain ⟨-, q₁, rest, _, rfl, rfl, h⟩ := (expect_derives _).bind h
    obtain ⟨-, -, rest, _, rfl, ⟨e, rfl, rfl, hfirst⟩, h⟩ := he.bind h
    obtain ⟨-, q₂, rest, _, rfl, rfl, h⟩ := (expect_derives _).bind h
    obtain ⟨-, -, rest, _, rfl, ⟨u, rfl, rfl, hbound⟩, h⟩ := he.bind h
    obtain ⟨-, -, rest, _, rfl, ⟨b, rfl, rfl, hbody⟩, h⟩ := hb.bind h
    cases h
    exact ⟨_, by simp, .count p n q q₁ e q₂ u b, rfl, rfl,
      Nat.max_le.mpr ⟨Nat.max_le.mpr ⟨hfirst, hbound⟩, hbody⟩⟩
  · next p q ts =>
    cases h
    exact ⟨_, rfl, .give p q, rfl, rfl, Nat.zero_le _⟩
  · next p ts _ =>
    obtain ⟨-, -, rest, _, rfl, ⟨e, q, rfl, rfl, he⟩, h⟩ := (value_derives he).bind h
    cases h
    exact ⟨_, rfl, .giveValue p e q, rfl, rfl, he⟩
  · next p ts =>
    obtain ⟨-, q, rest, _, rfl, rfl, h⟩ := (expect_derives _).bind h
    cases h
    exact ⟨_, rfl, .leave p q, rfl, rfl, Nat.zero_le _⟩
  · next p ts =>
    obtain ⟨-, q, rest, _, rfl, rfl, h⟩ := (expect_derives _).bind h
    cases h
    exact ⟨_, rfl, .again p q, rfl, rfl, Nat.zero_le _⟩
  · next p ts =>
    obtain ⟨-, -, rest, _, hts, ⟨b, rfl, rfl, hbody⟩, h⟩ := hb.bind h
    cases h
    cases b with
    | braces q body =>
      cases (List.cons.inj hts).1
      exact ⟨_, hts, .block p body, rfl, rfl, hbody⟩
  · exact simple_derives he _ _ h

lemma statementsFrom_derives (hs : Derives statement (Form.statement.Spells room)) (ts₀ : List Token)
    (found : List Stmt) (ts : List Token) (hlen : ts.length ≤ ts₀.length) {r : Read ts₀ (List Stmt)}
    (h : statementsFrom statement ts₀ found ts hlen = .ok r) :
    ∃ ss : Clause .statements, ts = ss.tokens ++ r.rest ∧ r.value = found.reverse ++ ss.value ∧
      ss.openings ≤ room := by
  rw [statementsFrom] at h
  split at h
  · next q rest hlt hr =>
    cases h
    exact ⟨.close q, eat?_some hr, (List.append_nil _).symm, Nat.zero_le _⟩
  · split at h
    · cases h
    · obtain ⟨-, -, rest, hlt, hts, ⟨s, rfl, rfl, hstmt⟩, h⟩ := hs.bind h
      obtain ⟨ss, hrest, hv, hss⟩ := statementsFrom_derives hs ts₀ _ rest _ h
      refine ⟨.cons s ss, hts.trans ?_, by simp [hv], Nat.max_le.mpr ⟨hstmt, hss⟩⟩
      rw [hrest, ← List.append_assoc]
      rfl
  termination_by ts.length

lemma blockWith_derives (hs : Derives statement (Form.statement.Spells room)) :
    Derives (blockWith statement) (Form.block.Spells (room + 1)) := by
  intro ts r h
  obtain ⟨-, q, rest, hlt, rfl, rfl, h⟩ := (expect_derives _).bind h
  obtain ⟨⟨body, rest', hlt'⟩, hbody, h⟩ := bind_ok h
  obtain ⟨ss, hrest, hv, hss⟩ := statementsFrom_derives hs _ _ _ _ hbody
  cases h
  refine ⟨(Clause.braces q ss).tokens, ?_, .braces q ss, rfl, hv.symm, Nat.succ_le_succ hss⟩
  exact congrArg (⟨.sign .braceOpen, q⟩ :: ·) hrest

lemma closedBlock_derives {P : List Token → List Stmt → Prop} : Derives closedBlock P := by
  intro ts r h
  obtain ⟨-, q, rest, hlt, rfl, rfl, h⟩ := (expect_derives _).bind h
  cases h

lemma conditionalWith_derives {linked : Parser Stmt} (he : Derives expr (SpellsWhole room))
    (hb : Derives block (Form.block.Spells room))
    (hl : Derives linked fun used s => ∃ r, room = r + 1 ∧ Form.conditional.Spells r used s) :
    Derives (conditionalWith expr block linked) (Form.conditional.Spells room) := by
  intro ts r h
  obtain ⟨-, p, rest, _, rfl, rfl, h⟩ := (expect_derives _).bind h
  obtain ⟨-, -, rest, _, rfl, ⟨c, rfl, rfl, hcond⟩, h⟩ := he.bind h
  obtain ⟨-, -, rest, _, rfl, ⟨b, rfl, rfl, hbody⟩, h⟩ := hb.bind h
  have hfront := Nat.max_le.mpr ⟨hcond, hbody⟩
  dsimp only at h
  split at h
  · next q rest' hlt hr =>
    obtain rfl := eat?_some hr
    split at h
    · obtain ⟨-, -, rest, _, rfl, ⟨room', rfl, l, rfl, rfl, hlink⟩, h⟩ := hl.bind h
      cases h
      exact ⟨_, by simp, .branchLink p c b q l, rfl, rfl,
        Nat.max_le.mpr ⟨hfront, Nat.succ_le_succ hlink⟩⟩
    · obtain ⟨-, -, rest, _, rfl, ⟨o, rfl, rfl, hotherwise⟩, h⟩ := hb.bind h
      cases h
      exact ⟨_, by simp, .branchElse p c b q o, rfl, rfl,
        Nat.max_le.mpr ⟨hfront, hotherwise⟩⟩
  · cases h
    exact ⟨_, by simp, .branch p c b, rfl, rfl, hfront⟩

theorem nested_derives (room : Nat) :
    Derives (nested room).1 (Form.block.Spells room) ∧ Derives (nested room).2 (Form.conditional.Spells room) := by
  -- blocks and conditionals are read with the same openings left, so one induction gives both
  induction room with
  | zero =>
    exact ⟨closedBlock_derives,
      conditionalWith_derives (expression_derives 0) closedBlock_derives tooDeep_derives⟩
  | succ room ih =>
    obtain ⟨hblock, hconditional⟩ := ih
    have hnext := blockWith_derives (statementWith_derives (expression_derives room) hblock hconditional)
    refine ⟨hnext, conditionalWith_derives (expression_derives (room + 1)) hnext fun ts r h => ?_⟩
    obtain ⟨used, hts, hc⟩ := hconditional ts r h
    exact ⟨used, hts, room, rfl, hc⟩

end Statements

/-! Functions. -/

lemma paramsFrom_derives (ts₀ : List Token) (found : List (String × Position)) (ts : List Token)
    (hlen : ts.length ≤ ts₀.length) {r : Read ts₀ (List (String × Position))}
    (h : paramsFrom ts₀ found ts hlen = .ok r) :
    ∃ first more q, ts = (Parameters.list first more q).tokens ++ r.rest ∧
      r.value = found.reverse ++ (Parameters.list first more q).value := by
  rw [paramsFrom] at h
  obtain ⟨-, ⟨n, p⟩, rest, hlt, hts, rfl, h⟩ := identifier_derives.bind h
  dsimp only at h
  split at h
  · next q rest' hlt' hr =>
    obtain ⟨⟨n', p'⟩, more, q', hrest, hv⟩ := paramsFrom_derives ts₀ _ rest' _ h
    refine ⟨(n, p), (q, n', p') :: more, q', ?_, ?_⟩
    · rw [hts, eat?_some hr, hrest]
      simp [Parameters.tokens]
    · rw [hv]
      simp [Parameters.value]
  · obtain ⟨-, q, rest', hlt', hrest, rfl, h⟩ := (expect_derives _).bind h
    cases h
    exact ⟨(n, p), [], q, hts.trans (congrArg _ hrest), by simp [Parameters.value]⟩
  termination_by ts.length

lemma params_derives : Derives params fun used v => ∃ ps : Parameters, ps.tokens = used ∧ ps.value = v := by
  intro ts r h
  rw [params] at h
  split at h
  · next q rest hlt hr =>
    cases h
    exact ⟨_, eat?_some hr, .empty q, rfl, rfl⟩
  · obtain ⟨first, more, q, hts, hv⟩ := paramsFrom_derives _ _ _ _ h
    exact ⟨_, hts, .list first more q, rfl, hv.symm⟩

theorem function_derives :
    Derives function fun used v => ∃ f : Function, f.tokens = used ∧ f.value = v ∧ f.openings ≤ nestingLimit := by
  intro ts r h
  obtain ⟨-, p, rest, _, rfl, rfl, h⟩ := (expect_derives _).bind h
  obtain ⟨-, ⟨n, q⟩, rest, _, rfl, rfl, h⟩ := identifier_derives.bind h
  obtain ⟨-, q', rest, _, rfl, rfl, h⟩ := (expect_derives _).bind h
  obtain ⟨-, -, rest, _, rfl, ⟨ps, rfl, rfl⟩, h⟩ := params_derives.bind h
  obtain ⟨-, -, rest, _, rfl, ⟨b, rfl, rfl, hroom⟩, h⟩ := (nested_derives nestingLimit).1.bind h
  cases h
  exact ⟨_, by simp, ⟨p, n, q, q', ps, b⟩, rfl, rfl, hroom⟩

lemma ofTokensOnto_findings (functions : List FunctionDecl) {findings : List Finding} (h : findings ≠ [])
    (ts : List Token) : (Parsed.ofTokensOnto functions findings ts).findings ≠ [] := by
  fun_induction Parsed.ofTokensOnto functions findings ts with
  | case1 | case2 => simpa using h
  | case3 functions findings t ts _ _ f rest hlt _ ih => exact ih h
  | case4 functions findings t ts _ _ finding _ ih => exact ih (List.cons_ne_nil _ _)
  | case5 functions findings t ts _ _ ih => exact ih (List.cons_ne_nil _ _)

theorem ofTokensOnto_derives {functions fs : List FunctionDecl} {ts : List Token}
    (h : Parsed.ofTokensOnto functions [] ts = ⟨fs, []⟩) :
    ∃ (u : List Function) (rest : List Token), ts = u.flatMap Function.tokens ++ rest ∧ Ahead (· == .eof) rest ∧
      fs = functions.reverse ++ u.map Function.value ∧ ∀ f ∈ u, f.openings ≤ nestingLimit := by
  -- findings are never dropped, so there was none on the way either
  have hclean {functions : List FunctionDecl} {finding : Finding} {ts : List Token} :
      Parsed.ofTokensOnto functions [finding] ts ≠ ⟨fs, []⟩ :=
    fun h => ofTokensOnto_findings functions (List.cons_ne_nil finding []) ts (congrArg Parsed.findings h)
  cases ts with
  | nil =>
    rw [Parsed.ofTokensOnto] at h
    cases h
    exact ⟨[], [], rfl, ahead_nil, by simp, by simp⟩
  | cons t ts =>
    rw [Parsed.ofTokensOnto] at h
    split at h
    · next ht =>
      cases h
      exact ⟨[], t :: ts, rfl, ahead_cons.mpr (beq_iff_eq.mpr ht), by simp, by simp⟩
    · split at h
      · split at h
        · next f rest hlt hread =>
          obtain ⟨used, hts, f, rfl, rfl, hf⟩ := function_derives _ _ hread
          obtain ⟨u, rest', hrest, hend, rfl, hu⟩ := ofTokensOnto_derives h
          refine ⟨f :: u, rest', ?_, hend, by simp, List.forall_mem_cons.mpr ⟨hf, hu⟩⟩
          rw [hts, List.flatMap_cons, List.append_assoc, ← hrest]
        · exact absurd h hclean
      · exact absurd h hclean
  termination_by ts.length

end ScriptHost.Grammar
