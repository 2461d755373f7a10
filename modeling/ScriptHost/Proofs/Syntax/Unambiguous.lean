import ScriptHost.Proofs.Syntax.Lookahead

/-!
No text has two derivations. Two phrases for one piece that begin the same text are equal, and so is what they
leave of it, if neither can go on with what it leaves.
-/

namespace ScriptHost.Grammar

/-! Expressions. -/

section Phrases

variable {n : Piece} {r r' : List Token} {t : Token} {ts : List Token}

lemma Phrase.first_eq (d : Phrase n) (hn : n.nullable = false) (h : d.tokens ++ r = t :: ts) :
    n.first t.kind = true := by
  have := d.ahead (r := r) (fun _ hk => hk) (by simp [hn])
  rw [h] at this
  exact ahead_cons.mp this

/-- No other phrase for the piece begins the same text, or leaves something else of it. -/
def Phrase.Unique (d : Phrase n) : Prop :=
  ∀ ⦃r r' : List Token⦄ (d' : Phrase n), Ahead n.follow r → Ahead n.follow r' →
    d.tokens ++ r = d'.tokens ++ r' → d = d' ∧ r = r'

namespace Phrase.Unique

lemma ended {e e' : Phrase .whole} {u u' : Token} {us us' : List Token} (he : e.Unique) (hu : ends 6 u.kind = true)
    (hu' : ends 6 u'.kind = true) (h : e.tokens ++ u :: us = e'.tokens ++ u' :: us') : e = e' ∧ u = u' ∧ us = us' := by
  obtain ⟨he, hus⟩ := he e' (ahead_cons.mpr hu) (ahead_cons.mpr hu') h
  exact ⟨he, List.cons.inj hus⟩

lemma var (p : Position) (n : String) : (Phrase.var p n).Unique := by
  intro r r' d' hr hr' h
  cases d' with
  | var => simp_all
  | call p' n' q args =>
    obtain ⟨-, rfl⟩ := List.cons.inj h
    cases ahead_cons.mp hr
  | _ => simp at h

lemma call (p : Position) (n : String) (q : Position) {args : Phrase (.items .round)} (hargs : args.Unique) :
    (Phrase.call p n q args).Unique := by
  intro r r' d' hr hr' h
  cases d' with
  | var =>
    obtain ⟨-, rfl⟩ := List.cons.inj h
    cases ahead_cons.mp hr'
  | call p' n' q' args' =>
    simp only [tokens, List.cons_append, List.cons.injEq, Token.mk.injEq, TokenKind.name.injEq] at h
    obtain ⟨⟨rfl, rfl⟩, ⟨-, rfl⟩, h⟩ := h
    obtain ⟨rfl, rfl⟩ := hargs args' ahead_true ahead_true h
    exact ⟨rfl, rfl⟩
  | _ => simp at h

lemma parens (q : Position) {e : Phrase .whole} (q' : Position) (he : e.Unique) : (Phrase.parens q e q').Unique := by
  intro r r' d' _ _ h
  cases d' with
  | parens p e' p' =>
    simp only [tokens, List.cons_append, List.cons.injEq, List.append_assoc, List.nil_append,
      Token.mk.injEq] at h
    obtain ⟨⟨-, rfl⟩, h⟩ := h
    obtain ⟨rfl, hq, rfl⟩ := he.ended rfl rfl h
    cases hq
    exact ⟨rfl, rfl⟩
  | _ => simp at h

lemma array (p : Position) {es : Phrase (.items .square)} (hes : es.Unique) : (Phrase.array p es).Unique := by
  intro r r' d' _ _ h
  cases d' with
  | array p' es' =>
    simp only [tokens, List.cons_append, List.cons.injEq, Token.mk.injEq] at h
    obtain ⟨⟨-, rfl⟩, h⟩ := h
    obtain ⟨rfl, rfl⟩ := hes es' ahead_true ahead_true h
    exact ⟨rfl, rfl⟩
  | _ => simp at h

lemma empty (b : Bracket) (q : Position) : (Phrase.empty (b := b) q).Unique := by
  intro r r' d' _ _ h
  cases d' with
  | empty q' =>
    obtain ⟨hq, rfl⟩ := List.cons.inj h
    cases hq
    exact ⟨rfl, rfl⟩
  | list e es =>
    -- no expression begins with a closing bracket
    simp only [tokens, List.append_assoc] at h
    have hfirst := e.first_eq rfl h.symm
    cases b <;> cases hfirst

lemma list {b : Bracket} {e : Phrase .whole} {es : Phrase (.more b)} (he : e.Unique) (hes : es.Unique) :
    (Phrase.list e es).Unique := by
  intro r r' d' _ _ h
  cases d' with
  | empty q' =>
    simp only [tokens, List.append_assoc] at h
    have hfirst := e.first_eq rfl h
    cases b <;> cases hfirst
  | list e' es' =>
    simp only [tokens, List.append_assoc] at h
    obtain ⟨rfl, hrest⟩ := he e' (ahead_more es) (ahead_more es') h
    obtain ⟨rfl, rfl⟩ := hes es' ahead_true ahead_true hrest
    exact ⟨rfl, rfl⟩

lemma last (b : Bracket) (q : Position) : (Phrase.last (b := b) q).Unique := by
  intro r r' d' _ _ h
  cases d' with
  | last q' =>
    obtain ⟨hq, rfl⟩ := List.cons.inj h
    cases hq
    exact ⟨rfl, rfl⟩
  | next q' e es =>
    obtain ⟨hq, -⟩ := List.cons.inj h
    cases b <;> cases hq

lemma next {b : Bracket} (q : Position) {e : Phrase .whole} {es : Phrase (.more b)} (he : e.Unique)
    (hes : es.Unique) : (Phrase.next q e es).Unique := by
  intro r r' d' _ _ h
  cases d' with
  | last q' =>
    obtain ⟨hq, -⟩ := List.cons.inj h
    cases b <;> cases hq
  | next q' e' es' =>
    simp only [tokens, List.cons_append, List.cons.injEq, List.append_assoc, Token.mk.injEq] at h
    obtain ⟨⟨-, rfl⟩, h⟩ := h
    obtain ⟨rfl, hrest⟩ := he e' (ahead_more es) (ahead_more es') h
    obtain ⟨rfl, rfl⟩ := hes es' ahead_true ahead_true hrest
    exact ⟨rfl, rfl⟩

lemma unary (p : Position) (o : UnaryOp) {x : Phrase .operand} (hx : x.Unique) : (Phrase.unary p o x).Unique := by
  intro r r' d' hr hr' h
  cases d' with
  | unary p' o' x' =>
    obtain ⟨ho, h⟩ := List.cons.inj h
    obtain ⟨rfl, rfl⟩ := hx x' hr hr' h
    cases o <;> cases o' <;> cases ho <;> exact ⟨rfl, rfl⟩
  | indexed x' is =>
    simp only [tokens, List.append_assoc] at h
    have hfirst := x'.first_eq rfl h.symm
    cases o <;> cases hfirst

lemma indexed {x : Phrase .primary} {is : Phrase .indexes} (hx : x.Unique) (his : is.Unique) :
    (Phrase.indexed x is).Unique := by
  intro r r' d' hr hr' h
  cases d' with
  | unary p o x' =>
    simp only [tokens, List.append_assoc] at h
    have hfirst := x.first_eq rfl h
    cases o <;> cases hfirst
  | indexed x' is' =>
    simp only [tokens, List.append_assoc] at h
    obtain ⟨rfl, hrest⟩ := hx x' (ahead_indexes is hr) (ahead_indexes is' hr') h
    obtain ⟨rfl, rfl⟩ := his is' hr hr' hrest
    exact ⟨rfl, rfl⟩

lemma bare : Phrase.bare.Unique := by
  intro r r' d' hr _ h
  cases d' with
  | bare => exact ⟨rfl, h⟩
  | index q i q' is =>
    -- the bracket that follows would be one more index
    obtain rfl : r = _ := h
    cases ahead_cons.mp hr

lemma index (q : Position) {i : Phrase .whole} (q' : Position) {is : Phrase .indexes} (hi : i.Unique)
    (his : is.Unique) : (Phrase.index q i q' is).Unique := by
  intro r r' d' hr hr' h
  cases d' with
  | bare =>
    obtain rfl : _ = r' := h
    cases ahead_cons.mp hr'
  | index p i' p' is' =>
    simp only [tokens, List.cons_append, List.cons.injEq, List.append_assoc, Token.mk.injEq] at h
    obtain ⟨⟨-, rfl⟩, h⟩ := h
    obtain ⟨rfl, hq, hrest⟩ := hi.ended rfl rfl h
    obtain ⟨rfl, rfl⟩ := his is' hr hr' hrest
    cases hq
    exact ⟨rfl, rfl⟩

lemma single {x : Phrase .operand} (hx : x.Unique) : (Phrase.single x).Unique := by
  intro r r' d' hr hr' h
  cases d' with
  | single x' =>
    obtain ⟨rfl, rfl⟩ := hx x' hr hr' h
    exact ⟨rfl, rfl⟩

lemma run {k : Nat} {x : Phrase (.joined k)} {xs : Phrase (.tail k)} (hx : x.Unique) (hxs : xs.Unique) :
    (Phrase.run x xs).Unique := by
  intro r r' d' hr hr' h
  cases d' with
  | run x' xs' =>
    simp only [tokens, List.append_assoc] at h
    obtain ⟨rfl, hrest⟩ := hx x' (ahead_tail xs hr) (ahead_tail xs' hr') h
    obtain ⟨rfl, rfl⟩ := hxs xs' hr hr' hrest
    exact ⟨rfl, rfl⟩

lemma not_ends {k : Nat} {o : Operator} (ho : o.tier = k) {q : Position} {ts : List Token} :
    ¬ Ahead (Piece.tail k).follow (⟨.sign o.sign, q⟩ :: ts) := by
  intro hr
  have hend := ahead_cons.mp hr
  rw [Piece.follow, ends_sign, ho] at hend
  exact absurd (of_decide_eq_true hend) (Nat.not_succ_le_self _)

lemma stop (k : Nat) : (Phrase.stop (k := k)).Unique := by
  intro r r' d' hr _ h
  cases d' with
  | stop => exact ⟨rfl, h⟩
  | op o ho q x xs =>
    -- an operator of this tier would go on with the run
    obtain rfl : r = _ := h
    exact absurd hr (not_ends ho)

lemma op {k : Nat} (o : Operator) (ho : o.tier = k) (q : Position) {x : Phrase (.joined k)}
    {xs : Phrase (.tail k)} (hx : x.Unique) (hxs : xs.Unique) : (Phrase.op o ho q x xs).Unique := by
  intro r r' d' hr hr' h
  cases d' with
  | stop =>
    obtain rfl : _ = r' := h
    exact absurd hr' (not_ends ho)
  | op o' ho' q' x' xs' =>
    simp only [tokens, List.cons_append, List.cons.injEq, List.append_assoc, Token.mk.injEq,
      TokenKind.sign.injEq] at h
    obtain ⟨⟨hsign, rfl⟩, h⟩ := h
    obtain rfl := Operator.sign_injective hsign
    obtain ⟨rfl, hrest⟩ := hx x' (ahead_tail xs hr) (ahead_tail xs' hr') h
    obtain ⟨rfl, rfl⟩ := hxs xs' hr hr' hrest
    exact ⟨rfl, rfl⟩

end Phrase.Unique

theorem Phrase.unique (d : Phrase n) : d.Unique := by
  induction d with
  | int | str | yes | no | nil =>
    intro r r' d' _ _ h
    cases d' <;> simp_all
  | var p n => exact .var p n
  | call p n q args ih => exact .call p n q ih
  | parens q e q' ih => exact .parens q q' ih
  | array p es ih => exact .array p ih
  | @empty b q => exact .empty b q
  | list e es ihe ihes => exact .list ihe ihes
  | @last b q => exact .last b q
  | next q e es ihe ihes => exact .next q ihe ihes
  | unary p o x ih => exact .unary p o ih
  | indexed x is ihx ihis => exact .indexed ihx ihis
  | bare => exact .bare
  | index q i q' is ihi ihis => exact .index q q' ihi ihis
  | single x ih => exact .single ih
  | run x xs ihx ihxs => exact .run ihx ihxs
  | @stop k => exact .stop k
  | op o ho q x xs ihx ihxs => exact .op o ho q ihx ihxs

end Phrases

/-! Statements. -/

section Clauses

variable {n : Form} {r r' : List Token}

/-- The kind of the token that a statement begins with, unless that is an expression. -/
def Clause.leading : Clause .statement → Option TokenKind
  | declare _ _ _ _ _ _ => some (.word .declare)
  | conditional _ => some (.word .ifWord)
  | loop _ _ _ => some (.word .whileWord)
  | count _ _ _ _ _ _ _ _ => some (.word .forWord)
  | give _ _ | giveValue _ _ _ => some (.word .returnWord)
  | leave _ _ => some (.word .breakWord)
  | again _ _ => some (.word .continueWord)
  | block _ _ => some (.sign .braceOpen)
  | assign _ _ _ _ _ _ | eval _ _ => none

lemma Clause.leading_eq (d : Clause .statement) : ∃ t ts, d.tokens = t :: ts ∧
    (d.leading = some t.kind ∧ startsExpr t.kind = false ∨ d.leading = none ∧ startsExpr t.kind = true) := by
  cases d with
  | declare | loop | count | give | giveValue | leave | again | block => exact ⟨_, _, rfl, .inl ⟨rfl, rfl⟩⟩
  | assign e | eval e =>
    obtain ⟨t, ts, hts, ht⟩ := e.whole_first
    exact ⟨t, _, by rw [tokens, hts, List.cons_append], .inr ⟨rfl, ht⟩⟩
  | conditional c =>
    obtain ⟨⟨kind, p⟩, ts, hts, ht⟩ := c.first
    obtain rfl : kind = .word .ifWord := eq_of_beq ht
    exact ⟨_, ts, hts, .inl ⟨rfl, rfl⟩⟩

lemma Clause.leading_congr {d d' : Clause .statement} (h : d.tokens ++ r = d'.tokens ++ r') :
    d.leading = d'.leading := by
  obtain ⟨t, ts, hts, ht⟩ := d.leading_eq
  obtain ⟨t', ts', hts', ht'⟩ := d'.leading_eq
  rw [hts, hts'] at h
  obtain ⟨rfl, -⟩ := List.cons.inj h
  rcases ht with ⟨hd, ht⟩ | ⟨hd, ht⟩ <;> rcases ht' with ⟨hd', ht'⟩ | ⟨hd', ht'⟩ <;> simp_all

lemma Clause.first_eq (d : Clause n) {t : Token} {ts : List Token} (h : d.tokens ++ r = t :: ts) :
    n.first t.kind = true := by
  have := d.ahead (r := r) fun _ hk => hk
  rw [h] at this
  exact ahead_cons.mp this

lemma block_ne_conditional (b : Clause .block) (c : Clause .conditional) : b.tokens ++ r ≠ c.tokens ++ r' := by
  obtain ⟨⟨kind, p⟩, ts, hts, ht⟩ := c.first
  obtain rfl : kind = .word .ifWord := eq_of_beq ht
  intro h
  rw [hts] at h
  cases b.first_eq h

/-- No other clause of the form begins the same text, or leaves something else of it. -/
def Clause.Unique (d : Clause n) : Prop :=
  ∀ ⦃r r' : List Token⦄ (d' : Clause n), Ahead n.follow r → Ahead n.follow r' →
    d.tokens ++ r = d'.tokens ++ r' → d = d' ∧ r = r'

namespace Clause.Unique

lemma front {e e' : Phrase .whole} {b b' : Clause .block} {u u' : List Token} (hb : b.Unique)
    (h : e.tokens ++ (b.tokens ++ u) = e'.tokens ++ (b'.tokens ++ u')) : e = e' ∧ b = b' ∧ u = u' := by
  obtain ⟨he, h⟩ := e.unique e' (ahead_block b) (ahead_block b') h
  exact ⟨he, hb b' ahead_true ahead_true h⟩

lemma headed {e e' : Phrase .whole} {b b' : Clause .block} {k : Keyword} {p p' : Position} {u u' : List Token}
    (hb : b.Unique)
    (h : ⟨.word k, p⟩ :: (e.tokens ++ (b.tokens ++ u)) = ⟨.word k, p'⟩ :: (e'.tokens ++ (b'.tokens ++ u'))) :
    p = p' ∧ e = e' ∧ b = b' ∧ u = u' := by
  obtain ⟨hp, h⟩ := List.cons.inj h
  exact ⟨congrArg Token.place hp, hb.front h⟩

/-! Most pairs of statements begin with different kinds of token; only the others need a look at what follows. -/

lemma declare (p : Position) (n : String) (q q₁ : Position) (e : Phrase .whole) (q₂ : Position) :
    (Clause.declare p n q q₁ e q₂).Unique := by
  intro r r' d' _ _ h
  cases d' with
  | declare p' n' q' q₁' e' q₂' =>
    simp only [tokens, List.cons_append, List.cons.injEq, List.append_assoc, List.nil_append, Token.mk.injEq,
      TokenKind.name.injEq] at h
    obtain ⟨⟨-, rfl⟩, ⟨rfl, rfl⟩, ⟨-, rfl⟩, h⟩ := h
    obtain ⟨rfl, hq, rfl⟩ := e.unique.ended rfl rfl h
    cases hq
    exact ⟨rfl, rfl⟩
  | _ => cases leading_congr h

lemma assign (target : Phrase .whole) (t : Target) (ht : target.value = writtenAs t) (q : Position)
    (e : Phrase .whole) (q₁ : Position) : (Clause.assign target t ht q e q₁).Unique := by
  intro r r' d' _ _ h
  cases d' with
  | assign target' t' ht' q' e' q₁' =>
    simp only [tokens, List.cons_append, List.append_assoc, List.nil_append] at h
    obtain ⟨rfl, hq, hrest⟩ := target.unique.ended rfl rfl h
    obtain ⟨rfl, hq₁, rfl⟩ := e.unique.ended rfl rfl hrest
    obtain rfl : t = t' := writtenAs_injective (ht.symm.trans ht')
    cases hq
    cases hq₁
    exact ⟨rfl, rfl⟩
  | eval e' q' =>
    simp only [tokens, List.cons_append, List.append_assoc, List.nil_append] at h
    obtain ⟨-, hq, -⟩ := target.unique.ended rfl rfl h
    cases hq
  | _ => cases leading_congr h

lemma eval (e : Phrase .whole) (q : Position) : (Clause.eval e q).Unique := by
  intro r r' d' _ _ h
  cases d' with
  | assign target t ht q' e' q₁ =>
    simp only [tokens, List.cons_append, List.append_assoc, List.nil_append] at h
    obtain ⟨-, hq, -⟩ := e.unique.ended rfl rfl h
    cases hq
  | eval e' q' =>
    simp only [tokens, List.cons_append, List.append_assoc, List.nil_append] at h
    obtain ⟨rfl, hq, rfl⟩ := e.unique.ended rfl rfl h
    cases hq
    exact ⟨rfl, rfl⟩
  | _ => cases leading_congr h

lemma conditional {c : Clause .conditional} (hc : c.Unique) : (Clause.conditional c).Unique := by
  intro r r' d' hr hr' h
  cases d' with
  | conditional c' =>
    obtain ⟨rfl, rfl⟩ := hc c' hr hr' h
    exact ⟨rfl, rfl⟩
  | _ => cases leading_congr h

lemma loop (p : Position) (cond : Phrase .whole) {body : Clause .block} (hbody : body.Unique) :
    (Clause.loop p cond body).Unique := by
  intro r r' d' _ _ h
  cases d' with
  | loop p' cond' body' =>
    simp only [tokens, List.cons_append, List.append_assoc] at h
    obtain ⟨rfl, rfl, rfl, rfl⟩ := hbody.headed h
    exact ⟨rfl, rfl⟩
  | _ => cases leading_congr h

lemma count (p : Position) (n : String) (q q₁ : Position) (first : Phrase .whole) (q₂ : Position)
    (bound : Phrase .whole) {body : Clause .block} (hbody : body.Unique) :
    (Clause.count p n q q₁ first q₂ bound body).Unique := by
  intro r r' d' _ _ h
  cases d' with
  | count p' n' q' q₁' first' q₂' bound' body' =>
    simp only [tokens, List.cons_append, List.cons.injEq, List.append_assoc, Token.mk.injEq,
      TokenKind.name.injEq] at h
    obtain ⟨⟨-, rfl⟩, ⟨rfl, rfl⟩, ⟨-, rfl⟩, h⟩ := h
    obtain ⟨rfl, hq, hrest⟩ := first.unique.ended rfl rfl h
    obtain ⟨rfl, rfl, rfl⟩ := hbody.front hrest
    cases hq
    exact ⟨rfl, rfl⟩
  | _ => cases leading_congr h

lemma give (p q : Position) : (Clause.give p q).Unique := by
  intro r r' d' _ _ h
  cases d' with
  | give p' q' => simp_all
  | giveValue p' e q' =>
    -- no expression begins with a semicolon
    simp only [tokens, List.cons_append, List.append_assoc] at h
    cases e.first_eq rfl (List.cons.inj h).2.symm
  | _ => cases leading_congr h

lemma giveValue (p : Position) (e : Phrase .whole) (q : Position) : (Clause.giveValue p e q).Unique := by
  intro r r' d' _ _ h
  cases d' with
  | give p' q' =>
    simp only [tokens, List.cons_append, List.append_assoc] at h
    cases e.first_eq rfl (List.cons.inj h).2
  | giveValue p' e' q' =>
    simp only [tokens, List.cons_append, List.cons.injEq, List.append_assoc, List.nil_append, Token.mk.injEq] at h
    obtain ⟨⟨-, rfl⟩, h⟩ := h
    obtain ⟨rfl, hq, rfl⟩ := e.unique.ended rfl rfl h
    cases hq
    exact ⟨rfl, rfl⟩
  | _ => cases leading_congr h

lemma leave (p q : Position) : (Clause.leave p q).Unique := by
  intro r r' d' _ _ h
  cases d' with
  | leave p' q' => simp_all
  | _ => cases leading_congr h

lemma again (p q : Position) : (Clause.again p q).Unique := by
  intro r r' d' _ _ h
  cases d' with
  | again p' q' => simp_all
  | _ => cases leading_congr h

lemma block (q : Position) {body : Clause .statements} (hbody : body.Unique) : (Clause.block q body).Unique := by
  intro r r' d' _ _ h
  cases d' with
  | block q' body' =>
    simp only [tokens, List.cons_append, List.cons.injEq, Token.mk.injEq] at h
    obtain ⟨⟨-, rfl⟩, h⟩ := h
    obtain ⟨rfl, rfl⟩ := hbody body' ahead_true ahead_true h
    exact ⟨rfl, rfl⟩
  | _ => cases leading_congr h

lemma branch (p : Position) (cond : Phrase .whole) {body : Clause .block} (hbody : body.Unique) :
    (Clause.branch p cond body).Unique := by
  intro r r' d' hr _ h
  cases d' with
  | branch p' cond' body' =>
    simp only [tokens, List.cons_append, List.append_assoc] at h
    obtain ⟨rfl, rfl, rfl, rfl⟩ := hbody.headed h
    exact ⟨rfl, rfl⟩
  | branchElse p' cond' body' q' otherwise' | branchLink p' cond' body' q' c' =>
    simp only [tokens, List.cons_append, List.append_assoc] at h
    obtain ⟨-, -, -, rfl⟩ := hbody.headed h
    cases ahead_cons.mp hr

lemma branchElse (p : Position) (cond : Phrase .whole) {body : Clause .block} (q : Position)
    {otherwise : Clause .block} (hbody : body.Unique) (hotherwise : otherwise.Unique) :
    (Clause.branchElse p cond body q otherwise).Unique := by
  intro r r' d' _ hr' h
  cases d' with
  | branch p' cond' body' =>
    simp only [tokens, List.cons_append, List.append_assoc] at h
    obtain ⟨-, -, -, rfl⟩ := hbody.headed h
    cases ahead_cons.mp hr'
  | branchElse p' cond' body' q' otherwise' =>
    simp only [tokens, List.cons_append, List.append_assoc] at h
    obtain ⟨rfl, rfl, rfl, hrest⟩ := hbody.headed h
    obtain ⟨hq, hrest⟩ := List.cons.inj hrest
    obtain ⟨rfl, rfl⟩ := hotherwise otherwise' ahead_true ahead_true hrest
    cases hq
    exact ⟨rfl, rfl⟩
  | branchLink p' cond' body' q' c' =>
    simp only [tokens, List.cons_append, List.append_assoc] at h
    obtain ⟨-, -, -, hrest⟩ := hbody.headed h
    exact absurd (List.cons.inj hrest).2 (block_ne_conditional otherwise c')

lemma branchLink (p : Position) (cond : Phrase .whole) {body : Clause .block} (q : Position)
    {c : Clause .conditional} (hbody : body.Unique) (hc : c.Unique) : (Clause.branchLink p cond body q c).Unique := by
  intro r r' d' hr hr' h
  cases d' with
  | branch p' cond' body' =>
    simp only [tokens, List.cons_append, List.append_assoc] at h
    obtain ⟨-, -, -, rfl⟩ := hbody.headed h
    cases ahead_cons.mp hr'
  | branchElse p' cond' body' q' otherwise' =>
    simp only [tokens, List.cons_append, List.append_assoc] at h
    obtain ⟨-, -, -, hrest⟩ := hbody.headed h
    exact absurd (List.cons.inj hrest).2.symm (block_ne_conditional otherwise' c)
  | branchLink p' cond' body' q' c' =>
    simp only [tokens, List.cons_append, List.append_assoc] at h
    obtain ⟨rfl, rfl, rfl, hrest⟩ := hbody.headed h
    obtain ⟨hq, hrest⟩ := List.cons.inj hrest
    obtain ⟨rfl, rfl⟩ := hc c' hr hr' hrest
    cases hq
    exact ⟨rfl, rfl⟩

lemma braces (q : Position) {body : Clause .statements} (hbody : body.Unique) : (Clause.braces q body).Unique := by
  intro r r' d' _ _ h
  cases d' with
  | braces q' body' =>
    simp only [tokens, List.cons_append, List.cons.injEq, Token.mk.injEq] at h
    obtain ⟨⟨-, rfl⟩, h⟩ := h
    obtain ⟨rfl, rfl⟩ := hbody body' ahead_true ahead_true h
    exact ⟨rfl, rfl⟩

lemma close (q : Position) : (Clause.close q).Unique := by
  intro r r' d' _ _ h
  cases d' with
  | close q' => simp_all
  | cons s ss =>
    simp only [tokens, List.append_assoc] at h
    cases s.first_eq h.symm

lemma cons {s : Clause .statement} {ss : Clause .statements} (hs : s.Unique) (hss : ss.Unique) :
    (Clause.cons s ss).Unique := by
  intro r r' d' _ _ h
  cases d' with
  | close q =>
    simp only [tokens, List.append_assoc] at h
    cases s.first_eq h
  | cons s' ss' =>
    simp only [tokens, List.append_assoc] at h
    obtain ⟨rfl, hrest⟩ := hs s' (ahead_statements ss) (ahead_statements ss') h
    obtain ⟨rfl, rfl⟩ := hss ss' ahead_true ahead_true hrest
    exact ⟨rfl, rfl⟩

end Clause.Unique

theorem Clause.unique (d : Clause n) : d.Unique := by
  induction d with
  | declare p n q q₁ e q₂ => exact .declare p n q q₁ e q₂
  | assign target t ht q e q₁ => exact .assign target t ht q e q₁
  | conditional c ih => exact .conditional ih
  | loop p cond body ih => exact .loop p cond ih
  | count p n q q₁ first q₂ bound body ih => exact .count p n q q₁ first q₂ bound ih
  | give p q => exact .give p q
  | giveValue p e q => exact .giveValue p e q
  | leave p q => exact .leave p q
  | again p q => exact .again p q
  | block q body ih => exact .block q ih
  | eval e q => exact .eval e q
  | branch p cond body ih => exact .branch p cond ih
  | branchElse p cond body q otherwise ihb iho => exact .branchElse p cond q ihb iho
  | branchLink p cond body q c ihb ihc => exact .branchLink p cond q ihb ihc
  | braces q body ih => exact .braces q ih
  | close q => exact .close q
  | cons s ss ihs ihss => exact .cons ihs ihss

end Clauses

/-! Functions. -/

section Functions

variable {r r' : List Token}

lemma more_unique (more more' : List (Position × String × Position)) {q q' : Position}
    (h : (more.flatMap fun (q, n, p) => [⟨.sign .comma, q⟩, ⟨.name n, p⟩]) ++ ⟨.sign .parenClose, q⟩ :: r =
      (more'.flatMap fun (q, n, p) => [⟨.sign .comma, q⟩, ⟨.name n, p⟩]) ++ ⟨.sign .parenClose, q'⟩ :: r') :
    more = more' ∧ q = q' ∧ r = r' := by
  induction more generalizing more' with
  | nil =>
    cases more' with
    | nil => simpa using h
    | cons param more' => simp at h
  | cons param more ih =>
    cases more' with
    | nil => simp at h
    | cons param' more' =>
      obtain ⟨q₁, n, p⟩ := param
      obtain ⟨q₁', n', p'⟩ := param'
      simp only [List.flatMap_cons, List.cons_append, List.nil_append, List.cons.injEq,
        Token.mk.injEq, TokenKind.name.injEq] at h
      obtain ⟨⟨-, rfl⟩, ⟨rfl, rfl⟩, h⟩ := h
      obtain ⟨rfl, rfl, rfl⟩ := ih more' h
      exact ⟨rfl, rfl, rfl⟩

lemma Parameters.unique (ps ps' : Parameters) (h : ps.tokens ++ r = ps'.tokens ++ r') : ps = ps' ∧ r = r' := by
  cases ps with
  | empty q =>
    cases ps' with
    | empty q' => simpa [tokens] using h
    | list first more q' => cases (List.cons.inj h).1
  | list first more q =>
    cases ps' with
    | empty q' => cases (List.cons.inj h).1
    | list first' more' q' =>
      obtain ⟨n, p⟩ := first
      obtain ⟨n', p'⟩ := first'
      simp only [tokens, List.cons_append, List.append_assoc, List.nil_append, List.cons.injEq, Token.mk.injEq,
        TokenKind.name.injEq] at h
      obtain ⟨⟨rfl, rfl⟩, h⟩ := h
      obtain ⟨rfl, rfl, rfl⟩ := more_unique more more' h
      exact ⟨rfl, rfl⟩

lemma Function.unique (f f' : Function) (h : f.tokens ++ r = f'.tokens ++ r') : f = f' ∧ r = r' := by
  obtain ⟨p, n, p₁, p₂, ps, body⟩ := f
  obtain ⟨p', n', p₁', p₂', ps', body'⟩ := f'
  simp only [tokens, List.cons_append, List.append_assoc, List.cons.injEq, Token.mk.injEq,
    TokenKind.name.injEq] at h
  obtain ⟨⟨-, rfl⟩, ⟨rfl, rfl⟩, ⟨-, rfl⟩, h⟩ := h
  obtain ⟨rfl, hbody⟩ := ps.unique ps' h
  obtain ⟨rfl, rfl⟩ := body.unique body' ahead_true ahead_true hbody
  exact ⟨rfl, rfl⟩

theorem unit_unique (u v : List Function) (h : u.flatMap Function.tokens = v.flatMap Function.tokens) : u = v := by
  induction u generalizing v with
  | nil =>
    cases v with
    | nil => rfl
    | cons g v => simp at h
  | cons f u ih =>
    cases v with
    | nil => simp at h
    | cons g v =>
      rw [List.flatMap_cons, List.flatMap_cons] at h
      obtain ⟨rfl, hv⟩ := f.unique g h
      rw [ih v hv]

end Functions

end ScriptHost.Grammar
