import ScriptHost.Proofs.Syntax.Grammar

/-!
What a phrase can begin with, and what must not come right after it for its end to be seen.
-/

namespace ScriptHost.Grammar

open ScriptHost.Parser

/-- The first token, if there is one, is of a kind that passes a test. -/
def Ahead (f : TokenKind → Bool) (ts : List Token) : Prop :=
  ∀ t ∈ ts.head?, f t.kind = true

section Ahead

variable {f g : TokenKind → Bool} {t : Token} {ts : List Token}

@[simp]
lemma ahead_nil : Ahead f [] := by
  simp [Ahead]

@[simp]
lemma ahead_cons : Ahead f (t :: ts) ↔ f t.kind = true := by
  simp [Ahead]

lemma ahead_true : Ahead (fun _ => true) ts :=
  fun _ _ => rfl

lemma Ahead.mono (h : Ahead f ts) (hfg : ∀ k, f k = true → g k = true) : Ahead g ts :=
  fun t ht => hfg t.kind (h t ht)

lemma ne_of_passes {k k' : TokenKind} (hk : f k = true) (hk' : f k' = false) : (k != k') = true := by
  rw [bne_iff_ne]
  rintro rfl
  cases hk.symm.trans hk'

end Ahead

/-! Expressions. -/

def startsPrimary : TokenKind → Bool
  | .int _ | .str _ | .name _ | .word .trueWord | .word .falseWord | .word .nilWord | .sign .parenOpen
  | .sign .bracketOpen => true
  | _ => false

def startsExpr : TokenKind → Bool
  | .sign .minus | .sign .bang => true
  | k => startsPrimary k

def joins (level : Nat) : TokenKind → Bool
  | .sign s => (Operator.ofSign? s).any (·.tier == level)
  | _ => false

/-- Whether what the operators below a level join ends before a token of some kind. -/
def ends (level : Nat) : TokenKind → Bool
  | .sign .parenOpen | .sign .bracketOpen => false
  | .sign s => (Operator.ofSign? s).all (level ≤ ·.tier)
  | _ => true

lemma ends_mono {level : Nat} {k : TokenKind} (h : ends (level + 1) k = true) : ends level k = true := by
  unfold ends at h ⊢
  split at h
  · cases h
  · cases h
  · next s h₁ h₂ =>
    cases ho : Operator.ofSign? s with
    | none => rfl
    | some o =>
      rw [ho] at h
      simpa using Nat.le_of_succ_le (by simpa using h)
  · rfl

lemma ends_sign (level : Nat) (o : Operator) : ends level (.sign o.sign) = decide (level ≤ o.tier) := by
  rcases o with op | op <;> cases op <;> rfl

lemma exists_of_joins {level : Nat} {k : TokenKind} (h : joins level k = true) :
    ∃ o : Operator, k = .sign o.sign ∧ o.tier = level := by
  unfold joins at h
  split at h
  · next s =>
    cases ho : Operator.ofSign? s with
    | none =>
      rw [ho] at h
      cases h
    | some o =>
      rw [ho, Option.any_some, beq_iff_eq] at h
      exact ⟨o, by rw [Operator.eq_sign ho], h⟩
  · cases h

lemma ends_of_joins {level : Nat} {k : TokenKind} (h : joins level k = true) : ends level k = true := by
  obtain ⟨o, rfl, rfl⟩ := exists_of_joins h
  simp [ends_sign]

namespace Piece

def first : Piece → TokenKind → Bool
  | primary => startsPrimary
  | items b => fun k => startsExpr k || k == .sign b.close
  | more b => fun k => k == .sign .comma || k == .sign b.close
  | operand | joined _ => startsExpr
  | indexes => (· == .sign .bracketOpen)
  | tail level => joins level

def nullable : Piece → Bool
  | indexes | tail _ => true
  | _ => false

def follow : Piece → TokenKind → Bool
  | primary => (· != .sign .parenOpen)
  | items _ | more _ => fun _ => true
  | operand | indexes => ends 0
  | joined level => ends level
  | tail level => ends (level + 1)

end Piece

lemma joins_sign (o : Operator) : joins o.tier (.sign o.sign) = true := by
  simp [joins, Operator.ofSign?_sign]

lemma startsExpr_of_startsPrimary {k : TokenKind} (h : startsPrimary k = true) : startsExpr k = true := by
  unfold startsExpr
  split <;> simp_all

theorem Phrase.first {n : Piece} (d : Phrase n) :
    n.nullable = true ∧ d.tokens = [] ∨ ∃ t ts, d.tokens = t :: ts ∧ n.first t.kind = true := by
  induction d with
  | int | str | yes | no | nil | var => exact .inr ⟨_, _, rfl, rfl⟩
  | call | parens | array => exact .inr ⟨_, _, rfl, rfl⟩
  | empty q => exact .inr ⟨_, _, rfl, by simp [Piece.first]⟩
  | list e es ih _ =>
    obtain ⟨h, -⟩ | ⟨t, ts, hts, ht⟩ := ih
    · cases h
    · exact .inr ⟨t, ts ++ es.tokens, by simp [hts], by simp_all [Piece.first]⟩
  | last q => exact .inr ⟨_, _, rfl, by simp [Piece.first]⟩
  | next q e es => exact .inr ⟨_, _, rfl, rfl⟩
  | unary p o x => exact .inr ⟨_, _, rfl, by cases o <;> rfl⟩
  | indexed x is ih _ =>
    obtain ⟨h, -⟩ | ⟨t, ts, hts, ht⟩ := ih
    · cases h
    · exact .inr ⟨t, ts ++ is.tokens, by simp [hts], startsExpr_of_startsPrimary ht⟩
  | bare => exact .inl ⟨rfl, rfl⟩
  | index q i q' is => exact .inr ⟨_, _, rfl, rfl⟩
  | single x ih => exact ih
  | run x xs ih _ =>
    obtain ⟨h, -⟩ | ⟨t, ts, hts, ht⟩ := ih
    · cases h
    · exact .inr ⟨t, ts ++ xs.tokens, by simp [hts], ht⟩
  | stop => exact .inl ⟨rfl, rfl⟩
  | op o ho q x xs =>
    subst ho
    exact .inr ⟨_, _, rfl, joins_sign o⟩

section Phrases

variable {n : Piece} {f : TokenKind → Bool} {r : List Token}

lemma Phrase.ahead (d : Phrase n) (hf : ∀ k, n.first k = true → f k = true)
    (hr : n.nullable = true → Ahead f r) : Ahead f (d.tokens ++ r) := by
  rcases d.first with ⟨hn, hd⟩ | ⟨t, ts, hd, ht⟩
  · rw [hd]
    exact hr hn
  · rw [hd]
    exact ahead_cons.mpr (hf _ ht)

lemma ahead_tail {k : Nat} (xs : Phrase (.tail k)) (hr : Ahead (ends (k + 1)) r) :
    Ahead (ends k) (xs.tokens ++ r) :=
  xs.ahead (fun _ => ends_of_joins) fun _ => hr.mono fun _ => ends_mono

lemma ahead_indexes (is : Phrase .indexes) (hr : Ahead (ends 0) r) :
    Ahead Piece.primary.follow (is.tokens ++ r) := by
  refine is.ahead (fun k hk => ?_) fun _ => hr.mono fun k hk => ne_of_passes hk rfl
  rw [eq_of_beq hk]
  rfl

lemma ahead_more {b : Bracket} (es : Phrase (.more b)) : Ahead (ends 6) (es.tokens ++ r) := by
  refine es.ahead (fun k hk => ?_) nofun
  rcases Bool.or_eq_true_iff.mp hk with hk | hk
  · rw [eq_of_beq hk]
    rfl
  · rw [eq_of_beq hk]
    cases b <;> rfl

end Phrases

/-! Levels of operators. -/

section Levels

variable {level : Level} {tighter : List Level} (hl : level :: tighter <:+ Level.all)
include hl

lemma level_eq (t : Token) : level t = match t.kind with
    | .sign s => ((Operator.ofSign? s).filter (·.tier == tighter.length)).map (·.join t.place)
    | _ => none := by
  simp only [Level.all, List.suffix_cons_iff, List.cons.injEq, List.suffix_nil, reduceCtorEq, or_false] at hl
  obtain ⟨kind, p⟩ := t
  rcases hl with ⟨rfl, rfl⟩ | ⟨rfl, rfl⟩ | ⟨rfl, rfl⟩ | ⟨rfl, rfl⟩ | ⟨rfl, rfl⟩ | ⟨rfl, rfl⟩
  all_goals
    cases kind with
    | sign s => cases s <;> rfl
    | _ => rfl

lemma level_operator {o : Operator} (ho : o.tier = tighter.length) (q : Position) :
    level ⟨.sign o.sign, q⟩ = some (o.join q) := by
  rw [level_eq hl]
  simp only [Operator.ofSign?_sign, Option.filter_some, ho, beq_self_eq_true, if_true, Option.map_some]

lemma level_ends {t : Token} (h : ends (tighter.length + 1) t.kind = true) : level t = none := by
  rw [level_eq hl]
  split
  · next s hs =>
    rw [hs] at h
    cases ho : Operator.ofSign? s with
    | none => rfl
    | some o =>
      rw [Operator.eq_sign ho, ends_sign, decide_eq_true_iff] at h
      simp [Nat.ne_of_gt h]
  · rfl

lemma take?_operator {o : Operator} (ho : o.tier = tighter.length) (q : Position) (ts : List Token) :
    take? level (⟨.sign o.sign, q⟩ :: ts) = some ⟨o.join q, ts, Nat.lt_add_one _⟩ := by
  rw [take?, level_operator hl ho]
  rfl

lemma take?_ends {ts : List Token} (h : Ahead (ends (tighter.length + 1)) ts) : take? level ts = none := by
  cases ts with
  | nil => rfl
  | cons t ts => rw [take?, level_ends hl (ahead_cons.mp h), Option.map_none]

lemma operator_of_level {t : Token} {join : Expr → Expr → Expr} (h : level t = some join) :
    ∃ o : Operator, o.tier = tighter.length ∧ t.kind = .sign o.sign ∧ join = o.join t.place := by
  rw [level_eq hl] at h
  split at h
  · next s hs =>
    obtain ⟨o, ho, hjoin⟩ := Option.map_eq_some_iff.mp h
    obtain ⟨hsign, htier⟩ := Option.filter_eq_some_iff.mp ho
    exact ⟨o, eq_of_beq htier, by rw [hs, Operator.eq_sign hsign], hjoin.symm⟩
  · cases h

end Levels

/-! Statements. -/

def startsStatement : TokenKind → Bool
  | .word .declare | .word .ifWord | .word .whileWord | .word .forWord | .word .returnWord | .word .breakWord
  | .word .continueWord | .sign .braceOpen => true
  | k => startsExpr k

namespace Form

def first : Form → TokenKind → Bool
  | statement => startsStatement
  | conditional => (· == .word .ifWord)
  | block => (· == .sign .braceOpen)
  | statements => fun k => startsStatement k || k == .sign .braceClose

def follow : Form → TokenKind → Bool
  | statement | conditional => (· != .word .elseWord)
  | block | statements => fun _ => true

end Form

lemma startsStatement_of_startsExpr {k : TokenKind} (h : startsExpr k = true) : startsStatement k = true := by
  unfold startsStatement
  split <;> simp_all

lemma Phrase.whole_first (e : Phrase .whole) : ∃ t ts, e.tokens = t :: ts ∧ startsExpr t.kind = true := by
  rcases e.first with ⟨h, -⟩ | h
  · cases h
  · exact h

lemma Phrase.current_whole (e : Phrase .whole) (rest : List Token) :
    current (e.tokens ++ rest) = current e.tokens := by
  obtain ⟨t, ts, hts, -⟩ := e.whole_first
  rw [hts]
  rfl

theorem Clause.first {n : Form} (d : Clause n) : ∃ t ts, d.tokens = t :: ts ∧ n.first t.kind = true := by
  induction d with
  | declare | loop | count | give | giveValue | leave | again | block | branch | branchElse | branchLink | braces
  | close => exact ⟨_, _, rfl, rfl⟩
  | assign target =>
    obtain ⟨t, ts, hts, ht⟩ := target.whole_first
    exact ⟨t, _, by rw [tokens, hts, List.cons_append], startsStatement_of_startsExpr ht⟩
  | eval e =>
    obtain ⟨t, ts, hts, ht⟩ := e.whole_first
    exact ⟨t, _, by rw [tokens, hts, List.cons_append], startsStatement_of_startsExpr ht⟩
  | conditional c ih =>
    obtain ⟨t, ts, hts, ht⟩ := ih
    exact ⟨t, ts, hts, by rw [eq_of_beq ht]; rfl⟩
  | cons s ss ih _ =>
    obtain ⟨t, ts, hts, ht⟩ := ih
    exact ⟨t, _, by rw [tokens, hts, List.cons_append], Bool.or_eq_true_iff.mpr (.inl ht)⟩

section Clauses

variable {r : List Token}

lemma Clause.ahead {n : Form} {f : TokenKind → Bool} (d : Clause n)
    (hf : ∀ k, n.first k = true → f k = true) : Ahead f (d.tokens ++ r) := by
  obtain ⟨t, ts, hd, ht⟩ := d.first
  rw [hd]
  exact ahead_cons.mpr (hf _ ht)

lemma ahead_block (b : Clause .block) : Ahead (ends 6) (b.tokens ++ r) := by
  refine b.ahead fun k hk => ?_
  rw [eq_of_beq hk]
  rfl

lemma ahead_statements (ss : Clause .statements) : Ahead Form.statement.follow (ss.tokens ++ r) :=
  ss.ahead fun _ hk => ne_of_passes hk rfl

end Clauses

end ScriptHost.Grammar
