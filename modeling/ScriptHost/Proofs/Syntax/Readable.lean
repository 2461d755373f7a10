import ScriptHost.Proofs.Syntax.Lookahead

/-!
Every phrase is read: the parser gives its value, and leaves what comes after its tokens, if it has room for the
openings of the phrase and what comes after does not go on with it.
-/

namespace ScriptHost.Grammar

open ScriptHost.Parser

def Takes {ts : List Token} {α : Type} (x : Except Finding (Read ts α)) (a : α) (r : List Token) : Prop :=
  ∃ h, x = .ok ⟨a, r, h⟩

section Takes

variable {ts ts' r r' : List Token} {α β : Type} {a : α} {b : β}

lemma Takes.bind {x : Except Finding (Read ts α)} {k : Read ts α → Except Finding (Read ts' β)}
    (hx : Takes x a r) (hk : ∀ h, Takes (k ⟨a, r, h⟩) b r') : Takes (x >>= k) b r' := by
  obtain ⟨h, rfl⟩ := hx
  exact hk h

lemma eat?_cons (kind : TokenKind) (p : Position) (ts : List Token) :
    eat? kind (⟨kind, p⟩ :: ts) = some ⟨p, ts, Nat.lt_add_one _⟩ := by
  simp [eat?, take?]

lemma eat?_eq_none {kind : TokenKind} (h : Ahead (· != kind) ts) : eat? kind ts = none := by
  cases ts with
  | nil => rfl
  | cons t ts => simpa [eat?, take?] using h

lemma expect_takes (kind : TokenKind) (p : Position) (ts : List Token) :
    Takes (expect kind (⟨kind, p⟩ :: ts)) p ts := by
  rw [expect, eat?_cons]
  exact ⟨_, rfl⟩

lemma identifier_takes (n : String) (p : Position) (ts : List Token) :
    Takes (identifier (⟨.name n, p⟩ :: ts)) (n, p) ts :=
  ⟨by simp, rfl⟩

end Takes

/-! Expressions. -/

/-- That some tokens are read with some openings left, as what the part of the parser for a piece makes of them. -/
def Piece.Reads (room : Nat) : (n : Piece) → List Token → n.Value → List Token → Prop
  | primary, used, v, r => Takes (Parser.primary (expression room) (used ++ r)) v r
  | items b, used, v, r => Takes (Parser.items (expression room) b.close (used ++ r)) v r
  | more b, used, v, r => ∀ ts₀ found ts h x, Takes (expression room ts) x (used ++ r) →
      Takes (itemsFrom (expression room) b.close ts₀ found ts h) (found.reverse ++ x :: v) r
  | operand, used, v, r => Takes (Parser.operand room (used ++ r)) v r
  | indexes, used, v, r => ∀ ts₀ target h,
      Takes (Parser.indexes (expression room) ts₀ target (used ++ r) h) (v target) r
  | joined k, used, v, r => ∀ levels, levels <:+ Level.all → levels.length = k →
      Takes (climb (Parser.operand room) levels (used ++ r)) v r
  | tail k, used, v, r => ∀ level tighter, level :: tighter <:+ Level.all → tighter.length = k →
      ∀ ts₀ lhs h, Takes (chain level (climb (Parser.operand room) tighter) ts₀ lhs (used ++ r) h) (v lhs) r

lemma operandWith_eq (prefixed nested : Parser Expr) {t : Token} {ts : List Token}
    (h : startsPrimary t.kind = true) : operandWith prefixed nested (t :: ts) =
      primary nested (t :: ts) >>= fun ⟨e, r, h⟩ => indexes nested (t :: ts) e r h := by
  obtain ⟨kind, p⟩ := t
  cases kind with
  | sign s => cases s <;> first | rfl | cases h
  | _ => rfl

lemma operand_eq (room : Nat) {t : Token} {ts : List Token} (h : startsPrimary t.kind = true) :
    operand room (t :: ts) =
      primary (expression room) (t :: ts) >>= fun ⟨e, r, h⟩ => indexes (expression room) (t :: ts) e r h := by
  cases room <;> exact operandWith_eq _ _ h

lemma primary_var (nested : Parser Expr) (n : String) (p : Position) {r : List Token}
    (h : Ahead (· != .sign .parenOpen) r) : Takes (primary nested (⟨.name n, p⟩ :: r)) (.var p n) r := by
  rcases r with - | ⟨⟨kind, q⟩, r⟩
  · exact ⟨by simp, rfl⟩
  · cases kind with
    | sign s =>
      cases s with
      | parenOpen => cases ahead_cons.mp h
      | _ => exact ⟨by simp, rfl⟩
    | _ => exact ⟨by simp, rfl⟩

lemma Phrase.eat?_close (b : Bracket) (e : Phrase .whole) (ts : List Token) :
    eat? (.sign b.close) (e.tokens ++ ts) = none :=
  eat?_eq_none (e.ahead (fun _ hk => ne_of_passes hk (by cases b <;> rfl)) nofun)

/-- Where there is room for its openings and nothing goes on with it, a phrase is read as its value. -/
def Phrase.Readable {n : Piece} (d : Phrase n) : Prop :=
  ∀ ⦃room : Nat⦄ ⦃r : List Token⦄, d.openings ≤ room → Ahead n.follow r → n.Reads room d.tokens d.value r

namespace Phrase.Readable

lemma takes {e : Phrase .whole} (he : e.Readable) {room : Nat} {r : List Token} (hroom : e.openings + 1 ≤ room)
    (hrest : Ahead (ends 6) r) : Takes (expression room (e.tokens ++ r)) e.value r := by
  obtain ⟨k, rfl⟩ := Nat.exists_eq_succ_of_ne_zero (Nat.ne_zero_of_lt hroom)
  exact he (Nat.le_of_succ_le_succ hroom) hrest Level.all List.suffix_rfl rfl

lemma var (p : Position) (n : String) : (Phrase.var p n).Readable :=
  fun _ _ _ hrest => primary_var _ n p hrest

lemma call (p : Position) (n : String) (q : Position) {args : Phrase (.items .round)} (hargs : args.Readable) :
    (Phrase.call p n q args).Readable :=
  fun _ _ hroom _ => (hargs hroom ahead_true).bind fun _ => ⟨_, rfl⟩

lemma parens (q : Position) {e : Phrase .whole} (q' : Position) (he : e.Readable) :
    (Phrase.parens q e q').Readable := by
  intro room r hroom _
  have he := he.takes hroom (r := ⟨.sign .parenClose, q'⟩ :: r) (ahead_cons.mpr rfl)
  change Takes (Parser.primary _ (_ :: ((e.tokens ++ [_]) ++ r))) _ _
  rw [List.append_assoc]
  exact he.bind fun h => (expect_takes _ _ _).bind fun h' => ⟨_, rfl⟩

lemma array (p : Position) {es : Phrase (.items .square)} (hes : es.Readable) : (Phrase.array p es).Readable :=
  fun _ _ hroom _ => (hes hroom ahead_true).bind fun _ => ⟨_, rfl⟩

lemma empty (b : Bracket) (q : Position) : (Phrase.empty (b := b) q).Readable := by
  intro room r _ _
  change Takes (Parser.items _ _ (⟨.sign b.close, q⟩ :: r)) _ _
  rw [Parser.items, eat?_cons]
  exact ⟨_, rfl⟩

lemma list {b : Bracket} {e : Phrase .whole} {es : Phrase (.more b)} (he : e.Readable) (hes : es.Readable) :
    (Phrase.list e es).Readable := by
  intro room r hroom _
  obtain ⟨hfirst, hmore⟩ := Nat.max_le.mp hroom
  have he := he.takes hfirst (ahead_more es (r := r))
  change Takes (Parser.items _ _ ((e.tokens ++ es.tokens) ++ r)) _ _
  rw [List.append_assoc, Parser.items, e.eat?_close]
  exact hes hmore ahead_true _ [] _ _ _ he

lemma last (b : Bracket) (q : Position) : (Phrase.last (b := b) q).Readable := by
  intro room r _ _ ts₀ found ts h x hx
  have hcomma : eat? (.sign .comma) ((Phrase.last (b := b) q).tokens ++ r) = none :=
    eat?_eq_none (ahead_cons.mpr (by cases b <;> rfl))
  have hfound : found.reverse ++ x :: (Phrase.last (b := b) q).value = (x :: found).reverse :=
    List.reverse_cons.symm
  rw [itemsFrom, hfound]
  refine hx.bind fun h' => ?_
  dsimp only
  rw [hcomma]
  exact (expect_takes (.sign b.close) q r).bind fun h => ⟨_, rfl⟩

lemma next {b : Bracket} (q : Position) {e : Phrase .whole} {es : Phrase (.more b)} (he : e.Readable)
    (hes : es.Readable) : (Phrase.next q e es).Readable := by
  intro room r hroom _ ts₀ found ts h x hx
  obtain ⟨hnext, hmore⟩ := Nat.max_le.mp hroom
  have he := he.takes hnext (ahead_more es (r := r))
  have hcomma : eat? (.sign .comma) ((Phrase.next q e es).tokens ++ r) =
      some ⟨q, (e.tokens ++ es.tokens) ++ r, by simp⟩ := eat?_cons _ _ _
  have hfound : found.reverse ++ x :: (Phrase.next q e es).value = (x :: found).reverse ++ e.value :: es.value := by
    simp
  rw [← List.append_assoc] at he
  rw [itemsFrom, hfound]
  refine hx.bind fun h' => ?_
  dsimp only
  rw [hcomma]
  exact hes hmore ahead_true ts₀ (x :: found) _ _ _ he

lemma unary (p : Position) (o : UnaryOp) {x : Phrase .operand} (hx : x.Readable) :
    (Phrase.unary p o x).Readable := by
  intro room r hroom hrest
  obtain ⟨k, rfl⟩ := Nat.exists_eq_succ_of_ne_zero (Nat.ne_zero_of_lt hroom)
  have hx := hx (Nat.le_of_succ_le_succ hroom) hrest
  cases o <;> exact hx.bind fun h => ⟨_, rfl⟩

lemma indexed {x : Phrase .primary} {is : Phrase .indexes} (hx : x.Readable) (his : is.Readable) :
    (Phrase.indexed x is).Readable := by
  intro room r hroom hrest
  obtain ⟨hprimary, hindexes⟩ := Nat.max_le.mp hroom
  have hx := hx hprimary (ahead_indexes is hrest)
  have his := his hindexes hrest
  -- what begins like a primary expression is not taken for a prefix operator
  change Takes (Parser.operand room ((x.tokens ++ is.tokens) ++ r)) _ _
  obtain ⟨h, -⟩ | ⟨t, ts, hts, ht⟩ := x.first
  · cases h
  · rw [hts] at hx
    rw [List.append_assoc, hts, List.cons_append, operand_eq room ht]
    exact hx.bind fun h => his _ _ _

lemma bare : Phrase.bare.Readable := by
  intro room r _ hrest ts₀ target h
  have hbracket : eat? (.sign .bracketOpen) (Phrase.bare.tokens ++ r) = none :=
    eat?_eq_none (hrest.mono fun _ hk => ne_of_passes hk rfl)
  rw [Parser.indexes, hbracket]
  exact ⟨_, rfl⟩

lemma index (q : Position) {i : Phrase .whole} (q' : Position) {is : Phrase .indexes} (hi : i.Readable)
    (his : is.Readable) : (Phrase.index q i q' is).Readable := by
  intro room r hroom hrest ts₀ target h
  obtain ⟨hindex, hindexes⟩ := Nat.max_le.mp hroom
  have hi := hi.takes hindex (r := ⟨.sign .bracketClose, q'⟩ :: (is.tokens ++ r)) (ahead_cons.mpr rfl)
  have his := his hindexes hrest
  have hbracket : eat? (.sign .bracketOpen) ((Phrase.index q i q' is).tokens ++ r) =
      some ⟨q, (i.tokens ++ ⟨.sign .bracketClose, q'⟩ :: is.tokens) ++ r, by simp⟩ :=
    eat?_cons _ _ _
  rw [← List.cons_append, ← List.append_assoc] at hi
  rw [Parser.indexes, hbracket]
  exact hi.bind fun h => (expect_takes _ _ _).bind fun h' => his _ _ _

lemma single {x : Phrase .operand} (hx : x.Readable) : (Phrase.single x).Readable := by
  intro room r hroom hrest levels _ hlen
  rw [List.length_eq_zero_iff.mp hlen]
  exact hx hroom hrest

lemma run {k : Nat} {x : Phrase (.joined k)} {xs : Phrase (.tail k)} (hx : x.Readable) (hxs : xs.Readable) :
    (Phrase.run x xs).Readable := by
  intro room r hroom hrest levels hl hlen
  obtain ⟨level, tighter, rfl⟩ := List.exists_cons_of_length_eq_add_one hlen
  obtain ⟨hoperand, htail⟩ := Nat.max_le.mp hroom
  have hlen' : tighter.length = k := Nat.succ.inj hlen
  have hx := hx hoperand (ahead_tail xs hrest) tighter ((List.suffix_cons _ _).trans hl) hlen'
  have hxs := hxs htail hrest level tighter hl hlen'
  rw [← List.append_assoc] at hx
  exact hx.bind fun h => hxs _ _ _

lemma stop (k : Nat) : (Phrase.stop (k := k)).Readable := by
  intro room r _ hrest level tighter hl hlen ts₀ lhs h
  have htake : take? level ((Phrase.stop (k := k)).tokens ++ r) = none :=
    take?_ends hl (by rw [hlen]; exact hrest)
  rw [chain, htake]
  exact ⟨_, rfl⟩

lemma op {k : Nat} (o : Operator) (ho : o.tier = k) (q : Position) {x : Phrase (.joined k)}
    {xs : Phrase (.tail k)} (hx : x.Readable) (hxs : xs.Readable) : (Phrase.op o ho q x xs).Readable := by
  intro room r hroom hrest level tighter hl hlen ts₀ lhs h
  obtain ⟨hoperand, htail⟩ := Nat.max_le.mp hroom
  have hx := hx hoperand (ahead_tail xs hrest) tighter ((List.suffix_cons _ _).trans hl) hlen
  have hxs := hxs htail hrest level tighter hl hlen
  have htake : take? level ((Phrase.op o ho q x xs).tokens ++ r) =
      some ⟨o.join q, (x.tokens ++ xs.tokens) ++ r, by simp⟩ :=
    take?_operator hl (ho.trans hlen.symm) q _
  rw [← List.append_assoc] at hx
  rw [chain, htake]
  exact hx.bind fun h => hxs _ _ _

end Phrase.Readable

theorem Phrase.readable {n : Piece} (d : Phrase n) : d.Readable := by
  -- what comes behind a part is the parts after it, and whole expressions have less room: both are left open
  induction d with
  | int | str | yes | no | nil => exact fun _ _ _ _ => ⟨by simp, rfl⟩
  | var p n => exact .var p n
  | call p n q args ih => exact .call p n q ih
  | parens q e q' ih => exact .parens q q' ih
  | array p es ih => exact .array p ih
  | @empty b q => exact .empty b q
  | list e es ihe ihes => exact .list ihe ihes
  | @last b q => exact .last b q
  | next q e es ihe ihes => exact .next q ihe ihes
  | unary p o x ih => exact .unary p o ih
  | indexed x is ihx ihis => exact .indexed ihx ihis
  | bare => exact .bare
  | index q i q' is ihi ihis => exact .index q q' ihi ihis
  | single x ih => exact .single ih
  | run x xs ihx ihxs => exact .run ihx ihxs
  | @stop k => exact .stop k
  | op o ho q x xs ihx ihxs => exact .op o ho q ihx ihxs

lemma Phrase.takes (e : Phrase .whole) {room : Nat} {r : List Token} (hroom : e.openings + 1 ≤ room)
    (hrest : Ahead (ends 6) r) : Takes (expression room (e.tokens ++ r)) e.value r :=
  e.readable.takes hroom hrest

/-! Statements. -/

def statementAt (room : Nat) : Parser Stmt :=
  statementWith (expression room) (nested room).1 (nested room).2

def Form.Reads (room : Nat) : (n : Form) → List Token → n.Value → List Token → Prop
  | statement, used, v, r => Takes (statementAt room (used ++ r)) v r
  | conditional, used, v, r => Takes ((nested room).2 (used ++ r)) v r
  | block, used, v, r => Takes ((nested room).1 (used ++ r)) v r
  | statements, used, v, r => ∀ ts₀ found h,
      Takes (statementsFrom (statementAt room) ts₀ found (used ++ r) h) (found.reverse ++ v) r

section Statements

variable {room : Nat} {r : List Token}

lemma value_takes (e : Phrase .whole) (hroom : e.openings + 1 ≤ room) (q : Position) :
    Takes (Parser.value (expression room) ((e.tokens ++ [⟨.sign .semicolon, q⟩]) ++ r)) e.value r := by
  have he := e.takes hroom (r := ⟨.sign .semicolon, q⟩ :: r) (ahead_cons.mpr rfl)
  rw [List.append_assoc]
  exact he.bind fun h => (expect_takes _ _ _).bind fun h' => ⟨_, rfl⟩

lemma statementAt_whole (e : Phrase .whole) (ts : List Token) :
    statementAt room (e.tokens ++ ts) = simple (expression room) (e.tokens ++ ts) := by
  obtain ⟨⟨kind, p⟩, us, hus, h⟩ := e.whole_first
  rw [hus]
  cases kind with
  | sign s => cases s <;> first | rfl | cases h
  | word k => cases k <;> first | rfl | cases h
  | _ => rfl

lemma statementWith_give (expr : Parser Expr) (block : Parser (List Stmt)) (conditional : Parser Stmt)
    (p : Position) {ts : List Token} (h : Ahead startsExpr ts) (hts : ts ≠ []) {e : Expr}
    (he : Takes (Parser.value expr ts) e r) :
    Takes (statementWith expr block conditional (⟨.word .returnWord, p⟩ :: ts)) (.give p (some e)) r := by
  obtain ⟨⟨kind, q⟩, ts, rfl⟩ := List.exists_cons_of_ne_nil hts
  cases kind with
  | sign s =>
    cases s with
    | semicolon => cases ahead_cons.mp h
    | _ => exact he.bind fun h => ⟨_, rfl⟩
  | _ => exact he.bind fun h => ⟨_, rfl⟩

lemma simple_assign {target : Phrase .whole} {t : Target} (ht : target.value = writtenAs t)
    (htarget : target.openings + 1 ≤ room) {ts : List Token} {q : Position} {e : Expr}
    (he : Takes (Parser.value (expression room) ts) e r) :
    Takes (simple (expression room) (target.tokens ++ ⟨.sign .assign, q⟩ :: ts))
      (.assign (current target.tokens).place t e) r := by
  have hread := target.takes htarget (r := ⟨.sign .assign, q⟩ :: ts) (ahead_cons.mpr rfl)
  rw [← target.current_whole]
  refine hread.bind fun h => ?_
  dsimp only
  rw [eat?_cons]
  dsimp only
  rw [ofExpr?_eq_some.mpr ht]
  exact he.bind fun h => ⟨_, rfl⟩

lemma simple_eval {e : Phrase .whole} (he : e.openings + 1 ≤ room) (q : Position) :
    Takes (simple (expression room) (e.tokens ++ ⟨.sign .semicolon, q⟩ :: r))
      (.eval (current e.tokens).place e.value) r := by
  have hread := e.takes he (r := ⟨.sign .semicolon, q⟩ :: r) (ahead_cons.mpr rfl)
  have hassign : eat? (.sign .assign) (⟨.sign .semicolon, q⟩ :: r) = none :=
    eat?_eq_none (ahead_cons.mpr rfl)
  rw [← e.current_whole]
  refine hread.bind fun h => ?_
  dsimp only
  rw [hassign]
  exact (expect_takes _ _ _).bind fun h => ⟨_, rfl⟩

/-- Where there is room for its openings and nothing goes on with it, a clause is read as its value. -/
def Clause.Readable {n : Form} (d : Clause n) : Prop :=
  ∀ ⦃room : Nat⦄ ⦃r : List Token⦄, d.openings ≤ room → Ahead n.follow r → n.Reads room d.tokens d.value r

namespace Clause.Readable

lemma declare (p : Position) (n : String) (q q₁ : Position) (e : Phrase .whole) (q₂ : Position) :
    (Clause.declare p n q q₁ e q₂).Readable :=
  fun _ _ hroom _ => (identifier_takes _ _ _).bind fun _ => (expect_takes _ _ _).bind fun _ =>
    (value_takes e hroom q₂).bind fun _ => ⟨_, rfl⟩

lemma assign (target : Phrase .whole) (t : Target) (ht : target.value = writtenAs t) (q : Position)
    (e : Phrase .whole) (q₁ : Position) : (Clause.assign target t ht q e q₁).Readable := by
  intro room r hroom _
  obtain ⟨htarget, he⟩ := Nat.max_le.mp hroom
  change Takes (statementAt room ((target.tokens ++ _ :: _) ++ r)) _ _
  rw [List.append_assoc, statementAt_whole]
  exact simple_assign ht htarget (value_takes e he q₁)

lemma eval (e : Phrase .whole) (q : Position) : (Clause.eval e q).Readable := by
  intro room r hroom _
  change Takes (statementAt room ((e.tokens ++ [_]) ++ r)) _ _
  rw [List.append_assoc, statementAt_whole]
  exact simple_eval hroom q

lemma conditional {c : Clause .conditional} (hc : c.Readable) : (Clause.conditional c).Readable := by
  intro room r hroom hrest
  have hc := hc hroom hrest
  obtain ⟨⟨kind, p⟩, ts, hts, hkind⟩ := c.first
  obtain rfl : kind = .word .ifWord := eq_of_beq hkind
  change Takes (statementAt room (c.tokens ++ r)) _ _
  rw [hts] at hc ⊢
  exact hc

lemma loop (p : Position) (cond : Phrase .whole) {body : Clause .block} (hbody : body.Readable) :
    (Clause.loop p cond body).Readable := by
  intro room r hroom _
  obtain ⟨hcond, hinner⟩ := Nat.max_le.mp hroom
  have hread := cond.takes hcond (ahead_block body (r := r))
  rw [← List.append_assoc] at hread
  exact hread.bind fun h => (hbody hinner ahead_true).bind fun h => ⟨_, rfl⟩

lemma count (p : Position) (n : String) (q q₁ : Position) (first : Phrase .whole) (q₂ : Position)
    (bound : Phrase .whole) {body : Clause .block} (hbody : body.Readable) :
    (Clause.count p n q q₁ first q₂ bound body).Readable := by
  intro room r hroom _
  obtain ⟨hexprs, hinner⟩ := Nat.max_le.mp hroom
  obtain ⟨hfirst, hbound⟩ := Nat.max_le.mp hexprs
  have hread := first.takes hfirst (r := ⟨.sign .dotDot, q₂⟩ :: ((bound.tokens ++ body.tokens) ++ r))
    (ahead_cons.mpr rfl)
  have hread' := bound.takes hbound (ahead_block body (r := r))
  rw [← List.append_assoc] at hread'
  rw [← List.cons_append, ← List.append_assoc] at hread
  exact (identifier_takes _ _ _).bind fun h => (expect_takes _ _ _).bind fun h => hread.bind fun h =>
    (expect_takes _ _ _).bind fun h => hread'.bind fun h => (hbody hinner ahead_true).bind fun h => ⟨_, rfl⟩

lemma give (p q : Position) : (Clause.give p q).Readable := by
  intro room r _ _
  have hlen : r.length < ((Clause.give p q).tokens ++ r).length := Nat.lt_add_of_pos_right (by decide : 0 < 2)
  exact ⟨hlen, rfl⟩

lemma giveValue (p : Position) (e : Phrase .whole) (q : Position) : (Clause.giveValue p e q).Readable := by
  intro room r hroom _
  obtain ⟨t, ts, hts, ht⟩ := e.whole_first
  have he := value_takes (r := r) e hroom q
  refine statementWith_give _ _ _ p ?_ ?_ he
  · rw [hts]
    exact ahead_cons.mpr ht
  · simp [hts]

lemma leave (p q : Position) : (Clause.leave p q).Readable :=
  fun _ _ _ _ => (expect_takes _ _ _).bind fun _ => ⟨_, rfl⟩

lemma again (p q : Position) : (Clause.again p q).Readable :=
  fun _ _ _ _ => (expect_takes _ _ _).bind fun _ => ⟨_, rfl⟩

lemma braces (q : Position) {body : Clause .statements} (hbody : body.Readable) :
    (Clause.braces q body).Readable := by
  intro room r hroom _
  obtain ⟨k, rfl⟩ := Nat.exists_eq_succ_of_ne_zero (Nat.ne_zero_of_lt hroom)
  have hinner := hbody (Nat.le_of_succ_le_succ hroom) ahead_true (r := r)
  exact (expect_takes _ _ _).bind fun h => (hinner _ [] _).bind fun h => ⟨_, rfl⟩

lemma block (q : Position) {body : Clause .statements} (hbody : body.Readable) : (Clause.block q body).Readable :=
  fun _ _ hroom _ => (braces q hbody hroom ahead_true).bind fun _ => ⟨_, rfl⟩

lemma branch (p : Position) (cond : Phrase .whole) {body : Clause .block} (hbody : body.Readable) :
    (Clause.branch p cond body).Readable := by
  intro room r hroom hrest
  obtain ⟨hcond, hinner⟩ := Nat.max_le.mp hroom
  obtain ⟨k, rfl⟩ := Nat.exists_eq_succ_of_ne_zero (Nat.ne_zero_of_lt hcond)
  have hread := cond.takes hcond (ahead_block body (r := r))
  rw [← List.append_assoc] at hread
  refine (expect_takes _ _ _).bind fun h => hread.bind fun h => (hbody hinner ahead_true).bind fun h => ?_
  dsimp only
  rw [eat?_eq_none hrest]
  exact ⟨_, rfl⟩

/-! After an `else` the next token tells whether a block or a further conditional follows. -/

lemma branchElse (p : Position) (cond : Phrase .whole) {body : Clause .block} (q : Position)
    {otherwise : Clause .block} (hbody : body.Readable) (hotherwise : otherwise.Readable) :
    (Clause.branchElse p cond body q otherwise).Readable := by
  intro room r hroom _
  obtain ⟨hfront, helse⟩ := Nat.max_le.mp hroom
  obtain ⟨hcond, hinner⟩ := Nat.max_le.mp hfront
  obtain ⟨k, rfl⟩ := Nat.exists_eq_succ_of_ne_zero (Nat.ne_zero_of_lt hcond)
  have htokens : (Clause.branchElse p cond body q otherwise).tokens ++ r = ⟨.word .ifWord, p⟩ ::
      (cond.tokens ++ (body.tokens ++ ⟨.word .elseWord, q⟩ :: (otherwise.tokens ++ r))) := by
    simp
  have hplain : startsWith (.word .ifWord) (otherwise.tokens ++ r) = false := by
    obtain ⟨⟨kind, q⟩, ts, hts, hkind⟩ := otherwise.first
    obtain rfl : kind = .sign .braceOpen := eq_of_beq hkind
    rw [hts]
    rfl
  change Takes ((nested (k + 1)).2 (_ ++ r)) _ _
  rw [htokens]
  refine (expect_takes _ _ _).bind fun h => (cond.takes hcond (ahead_block body)).bind fun h =>
    (hbody hinner ahead_true).bind fun h => ?_
  dsimp only
  rw [eat?_cons]
  dsimp only
  rw [if_neg (by rw [hplain]; simp)]
  exact (hotherwise helse ahead_true).bind fun h => ⟨_, rfl⟩

lemma branchLink (p : Position) (cond : Phrase .whole) {body : Clause .block} (q : Position)
    {c : Clause .conditional} (hbody : body.Readable) (hc : c.Readable) :
    (Clause.branchLink p cond body q c).Readable := by
  intro room r hroom hrest
  obtain ⟨hfront, hlink⟩ := Nat.max_le.mp hroom
  obtain ⟨hcond, hinner⟩ := Nat.max_le.mp hfront
  obtain ⟨k, rfl⟩ := Nat.exists_eq_succ_of_ne_zero (Nat.ne_zero_of_lt hcond)
  have htokens : (Clause.branchLink p cond body q c).tokens ++ r = ⟨.word .ifWord, p⟩ ::
      (cond.tokens ++ (body.tokens ++ ⟨.word .elseWord, q⟩ :: (c.tokens ++ r))) := by
    simp
  have hlinked : startsWith (.word .ifWord) (c.tokens ++ r) = true := by
    obtain ⟨⟨kind, q⟩, ts, hts, hkind⟩ := c.first
    obtain rfl : kind = .word .ifWord := eq_of_beq hkind
    rw [hts]
    rfl
  change Takes ((nested (k + 1)).2 (_ ++ r)) _ _
  rw [htokens]
  refine (expect_takes _ _ _).bind fun h => (cond.takes hcond (ahead_block body)).bind fun h =>
    (hbody hinner ahead_true).bind fun h => ?_
  dsimp only
  rw [eat?_cons]
  dsimp only
  rw [if_pos hlinked]
  exact (hc (Nat.le_of_succ_le_succ hlink) hrest).bind fun h => ⟨_, rfl⟩

lemma close (q : Position) : (Clause.close q).Readable := by
  intro room r _ _ ts₀ found h
  have hclose : eat? (.sign .braceClose) ((Clause.close q).tokens ++ r) = some ⟨q, r, by simp⟩ :=
    eat?_cons _ _ _
  have hfound : found.reverse ++ (Clause.close q).value = found.reverse := List.append_nil _
  rw [statementsFrom, hclose, hfound]
  exact ⟨_, rfl⟩

lemma cons {s : Clause .statement} {ss : Clause .statements} (hs : s.Readable) (hss : ss.Readable) :
    (Clause.cons s ss).Readable := by
  intro room r hroom hrest
  obtain ⟨hfirst, hmore⟩ := Nat.max_le.mp hroom
  have htokens : (Clause.cons s ss).tokens ++ r = s.tokens ++ (ss.tokens ++ r) := List.append_assoc _ _ _
  change ∀ ts₀ found h, Takes (statementsFrom _ ts₀ found (_ ++ r) h) _ _
  rw [htokens]
  intro ts₀ found h
  have hread := hs hfirst (ahead_statements ss (r := r))
  have hnext := hss hmore hrest ts₀ (s.value :: found)
  have hfound : found.reverse ++ (Clause.cons s ss).value = (s.value :: found).reverse ++ ss.value := by
    simp
  have hclose : eat? (.sign .braceClose) (s.tokens ++ (ss.tokens ++ r)) = none :=
    eat?_eq_none (s.ahead fun _ hk => ne_of_passes hk rfl)
  have heof : (current (s.tokens ++ (ss.tokens ++ r))).kind ≠ .eof := by
    obtain ⟨t, ts, hts, ht⟩ := s.first
    rw [hts]
    rintro hk
    rw [show t.kind = .eof from hk] at ht
    cases ht
  rw [statementsFrom, hclose, hfound]
  dsimp only
  rw [if_neg heof]
  exact hread.bind fun h => hnext _

end Clause.Readable

theorem Clause.readable {n : Form} (d : Clause n) : d.Readable := by
  induction d with
  | declare p n q q₁ e q₂ => exact .declare p n q q₁ e q₂
  | assign target t ht q e q₁ => exact .assign target t ht q e q₁
  | conditional c ih => exact .conditional ih
  | loop p cond body ih => exact .loop p cond ih
  | count p n q q₁ first q₂ bound body ih => exact .count p n q q₁ first q₂ bound ih
  | give p q => exact .give p q
  | giveValue p e q => exact .giveValue p e q
  | leave p q => exact .leave p q
  | again p q => exact .again p q
  | block q body ih => exact .block q ih
  | eval e q => exact .eval e q
  | branch p cond body ih => exact .branch p cond ih
  | branchElse p cond body q otherwise ihb iho => exact .branchElse p cond q ihb iho
  | branchLink p cond body q c ihb ihc => exact .branchLink p cond q ihb ihc
  | braces q body ih => exact .braces q ih
  | close q => exact .close q
  | cons s ss ihs ihss => exact .cons ihs ihss

end Statements

/-! Functions. -/

section Functions

variable {r : List Token}

lemma paramsFrom_takes (ts₀ : List Token) (found : List (String × Position)) (n : String) (p : Position)
    (more : List (Position × String × Position)) (q : Position) {ts : List Token}
    (hts : ts = (Parameters.list (n, p) more q).tokens ++ r) (h : ts.length ≤ ts₀.length) :
    Takes (paramsFrom ts₀ found ts h) (found.reverse ++ (n, p) :: more.map Prod.snd) r := by
  induction more generalizing found n p ts with
  | nil =>
    obtain rfl : ts = ⟨.name n, p⟩ :: ⟨.sign .parenClose, q⟩ :: r := hts
    have hcomma : eat? (.sign .comma) (⟨.sign .parenClose, q⟩ :: r) = none :=
      eat?_eq_none (ahead_cons.mpr rfl)
    rw [paramsFrom, List.map_nil, ← List.reverse_cons]
    refine (identifier_takes n p _).bind fun h => ?_
    dsimp only
    rw [hcomma]
    exact (expect_takes _ _ _).bind fun h => ⟨_, rfl⟩
  | cons param more ih =>
    obtain ⟨q', n', p'⟩ := param
    obtain rfl : ts = ⟨.name n, p⟩ :: ⟨.sign .comma, q'⟩ :: ((Parameters.list (n', p') more q).tokens ++ r) := by
      simpa [Parameters.tokens] using hts
    have hfound : found.reverse ++ (n, p) :: ((q', n', p') :: more).map Prod.snd =
        ((n, p) :: found).reverse ++ (n', p') :: more.map Prod.snd := by
      simp
    rw [paramsFrom, hfound]
    refine (identifier_takes n p _).bind fun h => ?_
    dsimp only
    rw [eat?_cons]
    exact ih _ _ _ rfl _

lemma params_takes (ps : Parameters) : Takes (params (ps.tokens ++ r)) ps.value r := by
  cases ps with
  | empty q => exact ⟨by simp [Parameters.tokens], rfl⟩
  | list first more q =>
    have hclose : eat? (.sign .parenClose) ((Parameters.list first more q).tokens ++ r) = none :=
      eat?_eq_none (ahead_cons.mpr rfl)
    rw [params, hclose]
    exact paramsFrom_takes _ [] _ _ more q rfl _

theorem Function.takes (f : Function) (hroom : f.openings ≤ nestingLimit) :
    Takes (function (f.tokens ++ r)) f.value r := by
  have hparams := params_takes f.params (r := f.body.tokens ++ r)
  have hbody := f.body.readable hroom ahead_true (r := r)
  rw [← List.append_assoc] at hparams
  exact (expect_takes _ _ _).bind fun h => (identifier_takes _ _ _).bind fun h => (expect_takes _ _ _).bind fun h =>
    hparams.bind fun h => hbody.bind fun h => ⟨_, rfl⟩

lemma ofTokensOnto_function {functions : List FunctionDecl} {findings : List Finding} {t : Token} {ts : List Token}
    {f : FunctionDecl} (ht : t.kind = .word .function) (hf : Takes (function (t :: ts)) f r) :
    Parsed.ofTokensOnto functions findings (t :: ts) = Parsed.ofTokensOnto (f :: functions) findings r := by
  obtain ⟨h, hread⟩ := hf
  rw [Parsed.ofTokensOnto, if_neg (by simp [ht]), if_pos ht, hread]

theorem ofTokensOnto_eq (u : List Function) (hroom : ∀ f ∈ u, f.openings ≤ nestingLimit)
    (functions : List FunctionDecl) (hrest : Ahead (· == .eof) r) :
    Parsed.ofTokensOnto functions [] (u.flatMap Function.tokens ++ r) =
      ⟨functions.reverse ++ u.map Function.value, []⟩ := by
  induction u generalizing functions with
  | nil =>
    cases r with
    | nil => simp [Parsed.ofTokensOnto]
    | cons t ts =>
      have ht : t.kind = .eof := eq_of_beq (ahead_cons.mp hrest)
      simp [Parsed.ofTokensOnto, ht]
  | cons f u ih =>
    obtain ⟨hf, hu⟩ := List.forall_mem_cons.mp hroom
    have hread := f.takes hf (r := u.flatMap Function.tokens ++ r)
    have hnext := ih hu (f.value :: functions)
    rw [List.flatMap_cons, List.append_assoc]
    refine (ofTokensOnto_function rfl hread).trans ?_
    simpa using hnext

end Functions

end ScriptHost.Grammar
