import Mathlib.Tactic.Lemma
import ScriptHost.Syntax.Parser

/-!
What holds of every tree that is read. A property that each construction of the parser keeps holds of
the functions of any unit, given what it asks of single tokens.
-/

namespace ScriptHost

def BinaryOp.tier : BinaryOp → Nat
  | mul | div | rem => 0
  | add | sub => 1
  | lt | le | gt | ge => 2
  | eq | ne => 3

def LogicOp.tier : LogicOp → Nat
  | and => 4
  | or => 5

namespace Parser

/-- Off tokens of kinds that satisfy `T`, `p` gives only values that satisfy `P`, and leaves such tokens. -/
def Gives (T : TokenKind → Prop) {α : Type} (p : Parser α) (P : α → Prop) : Prop :=
  ∀ ts r, (∀ t ∈ ts, T t.kind) → p ts = .ok r → P r.value ∧ ∀ t ∈ r.rest, T t.kind

lemma bind_ok {ε α β : Type} {x : Except ε α} {f : α → Except ε β} {b : β}
    (h : x >>= f = .ok b) : ∃ a, x = .ok a ∧ f a = .ok b := by
  cases x with
  | error e => cases h
  | ok a => exact ⟨a, rfl, h⟩

variable {T : TokenKind → Prop} {α β : Type}

lemma Gives.bind {p : Parser α} {P : α → Prop} (hp : Gives T p P) {ts : List Token}
    (ht : ∀ t ∈ ts, T t.kind) {k : Read ts α → Except Finding β} {b : β} (h : p ts >>= k = .ok b) :
    ∃ a rest, ∃ hs : rest.length < ts.length,
      P a ∧ (∀ t ∈ rest, T t.kind) ∧ k ⟨a, rest, hs⟩ = .ok b := by
  obtain ⟨⟨a, rest, hs⟩, hr, hk⟩ := bind_ok h
  obtain ⟨ha, hrest⟩ := hp ts _ ht hr
  exact ⟨a, rest, hs, ha, hrest, hk⟩

lemma Gives.mono {p : Parser α} {P Q : α → Prop} (hp : Gives T p P) (h : ∀ a, P a → Q a) :
    Gives T p Q := by
  intro ts r ht hr
  obtain ⟨ha, hrest⟩ := hp ts r ht hr
  exact ⟨h _ ha, hrest⟩

/-! Single tokens. -/

lemma take?_some {f : Token → Option α} {ts : List Token} {r : Read ts α}
    (h : take? f ts = some r) : ∃ t, ts = t :: r.rest ∧ f t = some r.value := by
  cases ts with
  | nil => cases h
  | cons t ts =>
    obtain ⟨a, ha, rfl⟩ := Option.map_eq_some_iff.mp h
    exact ⟨t, rfl, ha⟩

lemma take?_rest {f : Token → Option α} {ts rest : List Token} {a : α} {hs : rest.length < ts.length}
    (ht : ∀ t ∈ ts, T t.kind) (h : take? f ts = some ⟨a, rest, hs⟩) : ∀ t ∈ rest, T t.kind := by
  obtain ⟨t, hts, -⟩ := take?_some h
  intro u hu
  exact ht u (by rw [hts]; exact List.mem_cons_of_mem _ hu)

lemma expect_gives (kind : TokenKind) : Gives T (expect kind) (fun _ => True) := by
  intro ts r ht h
  rw [expect] at h
  split at h
  · next r' hr =>
    cases h
    exact ⟨trivial, take?_rest ht hr⟩
  · cases h

lemma sign_gives (s : Sign) : Gives T (sign s) (fun _ => True) :=
  expect_gives _

lemma word_gives (k : Keyword) : Gives T (word k) (fun _ => True) :=
  expect_gives _

lemma identifier_gives : Gives T identifier (fun p => T (.name p.1)) := by
  intro ts r ht h
  rw [identifier] at h
  split at h
  · next r' hr =>
    cases h
    obtain ⟨t, hts, hf⟩ := take?_some hr
    refine ⟨?_, take?_rest ht hr⟩
    have hm : t ∈ ts := by
      rw [hts]
      exact List.mem_cons_self
    split at hf
    · next n p =>
      rw [← Option.some.inj hf]
      exact ht _ hm
    · cases hf
  · cases h

lemma tooDeep_gives {P : α → Prop} : Gives T tooDeep P := by
  intro ts r ht h
  cases h

/-! Expressions. -/

section Expressions

variable {E O : Expr → Prop}

lemma itemsFrom_gives {nested : Parser Expr} (hn : Gives T nested E) (close : Sign)
    (ts₀ : List Token) (found : List Expr) (ts : List Token) (hs : ts.length ≤ ts₀.length)
    {r : Read ts₀ (List Expr)} (hf : ∀ e ∈ found, E e) (ht : ∀ t ∈ ts, T t.kind)
    (h : itemsFrom nested close ts₀ found ts hs = .ok r) :
    (∀ e ∈ r.value, E e) ∧ ∀ t ∈ r.rest, T t.kind := by
  rw [itemsFrom] at h
  obtain ⟨item, rest, hlt, hi, hrest, h⟩ := hn.bind ht h
  have hf' : ∀ e ∈ item :: found, E e :=
    List.forall_mem_cons.mpr ⟨hi, hf⟩
  dsimp only at h
  split at h
  · next p rest' hlt' hr =>
    exact itemsFrom_gives hn close ts₀ (item :: found) rest' _ hf' (take?_rest hrest hr) h
  · obtain ⟨p, rest', hlt', -, hrest', h⟩ := (sign_gives close).bind hrest h
    cases h
    exact ⟨fun e he => hf' e (List.mem_reverse.mp he), hrest'⟩
  termination_by ts.length

lemma items_gives {nested : Parser Expr} (hn : Gives T nested E) (close : Sign) :
    Gives T (items nested close) (fun es => ∀ e ∈ es, E e) := by
  intro ts r ht h
  rw [items] at h
  split at h
  · next p rest hlt hr =>
    cases h
    exact ⟨by simp, take?_rest ht hr⟩
  · exact itemsFrom_gives hn close ts [] ts _ (by simp) ht h

end Expressions

/-- `E` of a whole expression that is read with some openings left: it takes one of them. -/
def Whole (E : Nat → Nat → Expr → Prop) : Nat → Expr → Prop
  | 0, _ => False
  | room + 1, e => E room Level.all.length e

/-- A property of expressions that the parser keeps. `E room k e` is about what the `k` tightest levels
of operators join, read with `room` openings left. -/
structure KeepsExpr (T : TokenKind → Prop) (E : Nat → Nat → Expr → Prop) : Prop where
  int {room p v} : T (.int v) → E room 0 (.int p v)
  str {room p s} : T (.str s) → E room 0 (.str p s)
  bool {room p b} : E room 0 (.bool p b)
  nil {room p} : E room 0 (.nil p)
  var {room p n} : T (.name n) → E room 0 (.var p n)
  parens {room e} : Whole E room e → E room 0 e
  array {room p es} : (∀ e ∈ es, Whole E room e) → E room 0 (.array p es)
  call {room p n es} : T (.name n) → (∀ e ∈ es, Whole E room e) → E room 0 (.call p n es)
  index {room p t i} : E room 0 t → Whole E room i → E room 0 (.index p t i)
  unary {room p op e} : E room 0 e → E (room + 1) 0 (.unary p op e)
  loosen {room k e} : E room k e → E room (k + 1) e
  binary {room p op l r} : E room (op.tier + 1) l → E room op.tier r →
    E room (op.tier + 1) (.binary p op l r)
  logic {room p op l r} : E room (op.tier + 1) l → E room op.tier r →
    E room (op.tier + 1) (.logic p op l r)

section Expressions

variable {E : Nat → Nat → Expr → Prop} (hE : KeepsExpr T E)
include hE

lemma primary_gives {room : Nat} {nested : Parser Expr} (hn : Gives T nested (Whole E room)) :
    Gives T (primary nested) (E room 0) := by
  intro ts r ht h
  have hmem {t u : Token} {us : List Token} (hu : u ∈ us) : u ∈ t :: us := List.mem_cons_of_mem t hu
  unfold primary at h
  split at h
  · next v p ts =>
    cases h
    exact ⟨hE.int (ht _ List.mem_cons_self), fun u hu => ht u (hmem hu)⟩
  · next s p ts =>
    cases h
    exact ⟨hE.str (ht _ List.mem_cons_self), fun u hu => ht u (hmem hu)⟩
  · next p ts =>
    cases h
    exact ⟨hE.bool, fun u hu => ht u (hmem hu)⟩
  · next p ts =>
    cases h
    exact ⟨hE.bool, fun u hu => ht u (hmem hu)⟩
  · next p ts =>
    cases h
    exact ⟨hE.nil, fun u hu => ht u (hmem hu)⟩
  · next n p q ts =>
    have hts : ∀ t ∈ ts, T t.kind := fun u hu => ht u (hmem (hmem hu))
    obtain ⟨args, rest, hlt, ha, hrest, h⟩ := (items_gives hn .parenClose).bind hts h
    cases h
    exact ⟨hE.call (ht _ List.mem_cons_self) ha, hrest⟩
  · next n p ts _ =>
    cases h
    exact ⟨hE.var (ht _ List.mem_cons_self), fun u hu => ht u (hmem hu)⟩
  · next p ts =>
    have hts : ∀ t ∈ ts, T t.kind := fun u hu => ht u (hmem hu)
    obtain ⟨inner, rest, hlt, hi, hrest, h⟩ := hn.bind hts h
    obtain ⟨q, rest', hlt', -, hrest', h⟩ := (sign_gives .parenClose).bind hrest h
    cases h
    exact ⟨hE.parens hi, hrest'⟩
  · next p ts =>
    have hts : ∀ t ∈ ts, T t.kind := fun u hu => ht u (hmem hu)
    obtain ⟨es, rest, hlt, he, hrest, h⟩ := (items_gives hn .bracketClose).bind hts h
    cases h
    exact ⟨hE.array he, hrest⟩
  · cases h

lemma indexes_gives {room : Nat} {nested : Parser Expr} (hn : Gives T nested (Whole E room))
    (ts₀ : List Token) (target : Expr) (ts : List Token) (hs : ts.length < ts₀.length)
    {r : Read ts₀ Expr} (he : E room 0 target) (ht : ∀ t ∈ ts, T t.kind)
    (h : indexes nested ts₀ target ts hs = .ok r) : E room 0 r.value ∧ ∀ t ∈ r.rest, T t.kind := by
  rw [indexes] at h
  split at h
  · next p rest hlt hr =>
    obtain ⟨i, rest', hlt', hi, hrest, h⟩ := hn.bind (take?_rest ht hr) h
    obtain ⟨q, rest'', hlt'', -, hrest', h⟩ := (sign_gives .bracketClose).bind hrest h
    exact indexes_gives hn ts₀ _ rest'' _ (hE.index he hi) hrest' h
  · cases h
    exact ⟨he, ht⟩
  termination_by ts.length

lemma operandWith_gives {room : Nat} {prefixed nested : Parser Expr}
    (hp : Gives T prefixed fun e => ∃ r, room = r + 1 ∧ E r 0 e)
    (hn : Gives T nested (Whole E room)) : Gives T (operandWith prefixed nested) (E room 0) := by
  intro ts r ht h
  unfold operandWith at h
  split at h
  · next p ts =>
    have hts : ∀ t ∈ ts, T t.kind := fun u hu => ht u (List.mem_cons_of_mem _ hu)
    obtain ⟨e, rest, hlt, ⟨room', rfl, he⟩, hrest, h⟩ := hp.bind hts h
    cases h
    exact ⟨hE.unary he, hrest⟩
  · next p ts =>
    have hts : ∀ t ∈ ts, T t.kind := fun u hu => ht u (List.mem_cons_of_mem _ hu)
    obtain ⟨e, rest, hlt, ⟨room', rfl, he⟩, hrest, h⟩ := hp.bind hts h
    cases h
    exact ⟨hE.unary he, hrest⟩
  · obtain ⟨e, rest, hlt, he, hrest, h⟩ := (primary_gives hE hn).bind ht h
    exact indexes_gives hE hn _ _ _ _ he hrest h

omit hE in
lemma level_join {level : Level} {tighter : List Level} (hl : level :: tighter <:+ Level.all)
    {t : Token} {join : Expr → Expr → Expr} (h : level t = some join) :
    (∃ op : BinaryOp, op.tier = tighter.length ∧ join = .binary t.place op) ∨
      ∃ op : LogicOp, op.tier = tighter.length ∧ join = .logic t.place op := by
  simp only [Level.all, List.suffix_cons_iff, List.cons.injEq, List.suffix_nil,
    reduceCtorEq, or_false] at hl
  rcases hl with ⟨rfl, rfl⟩ | ⟨rfl, rfl⟩ | ⟨rfl, rfl⟩ | ⟨rfl, rfl⟩ | ⟨rfl, rfl⟩ | ⟨rfl, rfl⟩
  all_goals
    simp only [Level.or, Level.and, Level.equality, Level.order, Level.sum, Level.product] at h
    split at h <;> cases h <;> first | exact .inl ⟨_, rfl, rfl⟩ | exact .inr ⟨_, rfl, rfl⟩

lemma chain_gives {room : Nat} {level : Level} {tighter : List Level}
    (hl : level :: tighter <:+ Level.all) {operand : Parser Expr}
    (ho : Gives T operand (E room tighter.length)) (ts₀ : List Token) (lhs : Expr) (ts : List Token)
    (hs : ts.length < ts₀.length) {r : Read ts₀ Expr} (he : E room (tighter.length + 1) lhs)
    (ht : ∀ t ∈ ts, T t.kind) (h : chain level operand ts₀ lhs ts hs = .ok r) :
    E room (tighter.length + 1) r.value ∧ ∀ t ∈ r.rest, T t.kind := by
  rw [chain] at h
  split at h
  · next join rest hlt hr =>
    obtain ⟨rhs, rest', hlt', hrhs, hrest, h⟩ := ho.bind (take?_rest ht hr) h
    obtain ⟨t, -, hj⟩ := take?_some hr
    have hjoin : E room (tighter.length + 1) (join lhs rhs) := by
      rcases level_join hl hj with ⟨op, htier, rfl⟩ | ⟨op, htier, rfl⟩
      · rw [← htier] at he hrhs ⊢
        exact hE.binary he hrhs
      · rw [← htier] at he hrhs ⊢
        exact hE.logic he hrhs
    exact chain_gives hl ho ts₀ _ rest' _ hjoin hrest h
  · cases h
    exact ⟨he, ht⟩
  termination_by ts.length

lemma climb_gives {room : Nat} {operand : Parser Expr} (ho : Gives T operand (E room 0))
    (levels : List Level) (hl : levels <:+ Level.all) :
    Gives T (climb operand levels) (E room levels.length) := by
  induction levels with
  | nil => exact ho
  | cons level tighter ih =>
    have htighter := ih ((List.suffix_cons level tighter).trans hl)
    intro ts r ht h
    obtain ⟨lhs, rest, hlt, he, hrest, h⟩ := htighter.bind ht h
    exact chain_gives hE hl htighter ts lhs rest hlt (hE.loosen he) hrest h

lemma operand_gives (room : Nat) : Gives T (operand room) (E room 0) := by
  induction room with
  | zero => exact operandWith_gives hE tooDeep_gives tooDeep_gives
  | succ room ih =>
    refine operandWith_gives hE (ih.mono fun e he => ⟨room, rfl, he⟩) ?_
    exact climb_gives hE ih Level.all List.suffix_rfl

lemma expression_gives (room : Nat) : Gives T (expression room) (Whole E room) := by
  cases room with
  | zero => exact tooDeep_gives
  | succ room => exact climb_gives hE (operand_gives hE room) Level.all List.suffix_rfl

end Expressions

/-! Statements. -/

def Body (S : Nat → Stmt → Prop) : Nat → List Stmt → Prop
  | 0, _ => False
  | room + 1, body => ∀ s ∈ body, S room s

/-- A property of statements that the parser keeps, given one of expressions; `S room s` is about
statements read with `room` openings left. -/
structure KeepsStmt (T : TokenKind → Prop) (E : Nat → Nat → Expr → Prop) (S : Nat → Stmt → Prop) :
    Prop where
  declare {room p n e} : T (.name n) → Whole E room e → S room (.declare p n e)
  assign {room p e t v} : Target.ofExpr? e = some t → Whole E room e → Whole E room v →
    S room (.assign p t v)
  branch {room p c b o} : Whole E room c → Body S room b → (∀ x ∈ o, Body S room x) →
    S room (.branch p c b o)
  loop {room p c b} : Whole E room c → Body S room b → S room (.loop p c b)
  count {room p n e u b} : T (.name n) → Whole E room e → Whole E room u → Body S room b →
    S room (.count p n e u b)
  give {room p o} : (∀ e ∈ o, Whole E room e) → S room (.give p o)
  leave {room p} : S room (.leave p)
  again {room p} : S room (.again p)
  block {room p b} : Body S room b → S room (.block p b)
  eval {room p e} : Whole E room e → S room (.eval p e)

section Statements

variable {E : Nat → Nat → Expr → Prop} {S : Nat → Stmt → Prop} (hS : KeepsStmt T E S)
include hS

omit hS in
lemma value_gives {expr : Parser Expr} {P : Expr → Prop} (he : Gives T expr P) :
    Gives T (value expr) P := by
  intro ts r ht h
  obtain ⟨e, rest, hlt, he, hrest, h⟩ := he.bind ht h
  obtain ⟨q, rest', hlt', -, hrest', h⟩ := (sign_gives .semicolon).bind hrest h
  cases h
  exact ⟨he, hrest'⟩

lemma simple_gives {room : Nat} {expr : Parser Expr} (he : Gives T expr (Whole E room)) :
    Gives T (simple expr) (S room) := by
  intro ts r ht h
  obtain ⟨e, rest, hlt, hw, hrest, h⟩ := he.bind ht h
  dsimp only at h
  split at h
  · next q rest' hlt' hr =>
    split at h
    · cases h
    · next t htarget =>
      obtain ⟨v, rest'', hlt'', hv, hrest', h⟩ := (value_gives he).bind (take?_rest hrest hr) h
      cases h
      exact ⟨hS.assign htarget hw hv, hrest'⟩
  · obtain ⟨q, rest', hlt', -, hrest', h⟩ := (sign_gives .semicolon).bind hrest h
    cases h
    exact ⟨hS.eval hw, hrest'⟩

lemma statementWith_gives {room : Nat} {expr : Parser Expr} {block : Parser (List Stmt)}
    {conditional : Parser Stmt} (he : Gives T expr (Whole E room)) (hb : Gives T block (Body S room))
    (hc : Gives T conditional (S room)) :
    Gives T (statementWith expr block conditional) (S room) := by
  intro ts r ht h
  have htail {t : Token} {us : List Token} (hu : ∀ v ∈ t :: us, T v.kind) : ∀ v ∈ us, T v.kind :=
    fun v hv => hu v (List.mem_cons_of_mem t hv)
  unfold statementWith at h
  split at h
  · next p ts =>
    obtain ⟨⟨n, q⟩, rest, _, hn, hrest, h⟩ := identifier_gives.bind (htail ht) h
    obtain ⟨q, rest, _, -, hrest, h⟩ := (sign_gives .assign).bind hrest h
    obtain ⟨e, rest, _, hw, hrest, h⟩ := (value_gives he).bind hrest h
    cases h
    exact ⟨hS.declare hn hw, hrest⟩
  · exact hc _ _ ht h
  · next p ts =>
    obtain ⟨c, rest, _, hw, hrest, h⟩ := he.bind (htail ht) h
    obtain ⟨body, rest, _, hbody, hrest, h⟩ := hb.bind hrest h
    cases h
    exact ⟨hS.loop hw hbody, hrest⟩
  · next p ts =>
    obtain ⟨⟨n, q⟩, rest, _, hn, hrest, h⟩ := identifier_gives.bind (htail ht) h
    obtain ⟨q, rest, _, -, hrest, h⟩ := (word_gives .inWord).bind hrest h
    obtain ⟨e, rest, _, hw, hrest, h⟩ := he.bind hrest h
    obtain ⟨q, rest, _, -, hrest, h⟩ := (sign_gives .dotDot).bind hrest h
    obtain ⟨u, rest, _, hw', hrest, h⟩ := he.bind hrest h
    obtain ⟨body, rest, _, hbody, hrest, h⟩ := hb.bind hrest h
    cases h
    exact ⟨hS.count hn hw hw' hbody, hrest⟩
  · next p q ts =>
    cases h
    exact ⟨hS.give (by simp), htail (htail ht)⟩
  · next p ts _ =>
    obtain ⟨e, rest, _, hw, hrest, h⟩ := (value_gives he).bind (htail ht) h
    cases h
    exact ⟨hS.give (by simpa using hw), hrest⟩
  · next p ts =>
    obtain ⟨q, rest, _, -, hrest, h⟩ := (sign_gives .semicolon).bind (htail ht) h
    cases h
    exact ⟨hS.leave, hrest⟩
  · next p ts =>
    obtain ⟨q, rest, _, -, hrest, h⟩ := (sign_gives .semicolon).bind (htail ht) h
    cases h
    exact ⟨hS.again, hrest⟩
  · next p ts =>
    obtain ⟨body, rest, _, hbody, hrest, h⟩ := hb.bind ht h
    cases h
    exact ⟨hS.block hbody, hrest⟩
  · exact simple_gives hS he _ _ ht h

omit hS in
lemma statementsFrom_gives {room : Nat} {statement : Parser Stmt} (hs : Gives T statement (S room))
    (ts₀ : List Token) (found : List Stmt) (ts : List Token) (hlen : ts.length ≤ ts₀.length)
    {r : Read ts₀ (List Stmt)} (hf : ∀ s ∈ found, S room s) (ht : ∀ t ∈ ts, T t.kind)
    (h : statementsFrom statement ts₀ found ts hlen = .ok r) :
    (∀ s ∈ r.value, S room s) ∧ ∀ t ∈ r.rest, T t.kind := by
  rw [statementsFrom] at h
  split at h
  · next p rest hlt hr =>
    cases h
    exact ⟨fun s hs => hf s (List.mem_reverse.mp hs), take?_rest ht hr⟩
  · split at h
    · cases h
    · obtain ⟨s, rest, hlt, hread, hrest, h⟩ := hs.bind ht h
      have hf' : ∀ x ∈ s :: found, S room x :=
        List.forall_mem_cons.mpr ⟨hread, hf⟩
      exact statementsFrom_gives hs ts₀ (s :: found) rest _ hf' hrest h
  termination_by ts.length

omit hS in
lemma blockWith_gives {room : Nat} {statement : Parser Stmt} (hs : Gives T statement (S room)) :
    Gives T (blockWith statement) (Body S (room + 1)) := by
  intro ts r ht h
  obtain ⟨p, rest, hlt, -, hrest, h⟩ := (sign_gives .braceOpen).bind ht h
  obtain ⟨r', hr, h⟩ := bind_ok h
  cases h
  exact statementsFrom_gives hs rest [] rest _ (by simp) hrest hr

omit hS in
lemma closedBlock_gives {P : List Stmt → Prop} : Gives T closedBlock P := by
  intro ts r ht h
  obtain ⟨p, rest, hlt, -, hrest, h⟩ := (sign_gives .braceOpen).bind ht h
  obtain ⟨r', hr, h⟩ := bind_ok h
  cases hr

lemma conditionalWith_gives {room : Nat} {expr : Parser Expr} {block : Parser (List Stmt)}
    {linked : Parser Stmt} (he : Gives T expr (Whole E room)) (hb : Gives T block (Body S room))
    (hl : Gives T linked fun s => Body S room [s]) :
    Gives T (conditionalWith expr block linked) (S room) := by
  intro ts r ht h
  obtain ⟨p, rest, _, -, hrest, h⟩ := (word_gives .ifWord).bind ht h
  obtain ⟨c, rest, _, hw, hrest, h⟩ := he.bind hrest h
  obtain ⟨body, rest, _, hbody, hrest, h⟩ := hb.bind hrest h
  dsimp only at h
  split at h
  · next q rest' hlt' hr =>
    have hrest' := take?_rest hrest hr
    split at h
    · obtain ⟨link, rest, _, hlink, hrest, h⟩ := hl.bind hrest' h
      cases h
      exact ⟨hS.branch hw hbody (by simpa using hlink), hrest⟩
    · obtain ⟨otherwise, rest, _, ho, hrest, h⟩ := hb.bind hrest' h
      cases h
      exact ⟨hS.branch hw hbody (by simpa using ho), hrest⟩
  · cases h
    exact ⟨hS.branch hw hbody (by simp), hrest⟩

lemma nested_gives (hE : KeepsExpr T E) (room : Nat) :
    Gives T (nested room).1 (Body S room) ∧ Gives T (nested room).2 (S room) := by
  induction room with
  | zero =>
    exact ⟨closedBlock_gives, conditionalWith_gives hS (expression_gives hE 0) closedBlock_gives tooDeep_gives⟩
  | succ room ih =>
    obtain ⟨hblock, hconditional⟩ := ih
    have hb := blockWith_gives (statementWith_gives hS (expression_gives hE room) hblock hconditional)
    have hl : Gives T (nested room).2 fun s => Body S (room + 1) [s] :=
      hconditional.mono fun s hs => by simpa [Body] using hs
    exact ⟨hb, conditionalWith_gives hS (expression_gives hE (room + 1)) hb hl⟩

end Statements

/-! Functions. -/

lemma paramsFrom_gives (ts₀ : List Token) (found : List (String × Position)) (ts : List Token)
    (hs : ts.length ≤ ts₀.length) {r : Read ts₀ (List (String × Position))}
    (hf : ∀ q ∈ found, T (.name q.1)) (ht : ∀ t ∈ ts, T t.kind)
    (h : paramsFrom ts₀ found ts hs = .ok r) :
    (∀ q ∈ r.value, T (.name q.1)) ∧ ∀ t ∈ r.rest, T t.kind := by
  rw [paramsFrom] at h
  obtain ⟨param, rest, _, hp, hrest, h⟩ := identifier_gives.bind ht h
  have hf' : ∀ q ∈ param :: found, T (.name q.1) :=
    List.forall_mem_cons.mpr ⟨hp, hf⟩
  dsimp only at h
  split at h
  · next p rest' hlt hr =>
    exact paramsFrom_gives ts₀ (param :: found) rest' _ hf' (take?_rest hrest hr) h
  · obtain ⟨p, rest', _, -, hrest', h⟩ := (sign_gives .parenClose).bind hrest h
    cases h
    exact ⟨fun q hq => hf' q (List.mem_reverse.mp hq), hrest'⟩
  termination_by ts.length

lemma params_gives : Gives T params (fun ps => ∀ q ∈ ps, T (.name q.1)) := by
  intro ts r ht h
  rw [params] at h
  split at h
  · next p rest hlt hr =>
    cases h
    exact ⟨by simp, take?_rest ht hr⟩
  · exact paramsFrom_gives ts [] ts _ (by simp) ht h

def Holds (T : TokenKind → Prop) (S : Nat → Stmt → Prop) (f : FunctionDecl) : Prop :=
  (∀ q ∈ f.params, T (.name q.1)) ∧ Body S nestingLimit f.body

variable {E : Nat → Nat → Expr → Prop} {S : Nat → Stmt → Prop}

lemma function_gives (hE : KeepsExpr T E) (hS : KeepsStmt T E S) :
    Gives T function (Holds T S) := by
  intro ts r ht h
  obtain ⟨p, rest, _, -, hrest, h⟩ := (word_gives .function).bind ht h
  obtain ⟨⟨n, q⟩, rest, _, -, hrest, h⟩ := identifier_gives.bind hrest h
  obtain ⟨q, rest, _, -, hrest, h⟩ := (sign_gives .parenOpen).bind hrest h
  obtain ⟨ps, rest, _, hps, hrest, h⟩ := params_gives.bind hrest h
  obtain ⟨body, rest, _, hbody, hrest, h⟩ := (nested_gives hS hE nestingLimit).1.bind hrest h
  cases h
  exact ⟨⟨hps, hbody⟩, hrest⟩

lemma ofTokensOnto_holds (hE : KeepsExpr T E) (hS : KeepsStmt T E S) (functions : List FunctionDecl)
    (findings : List Finding) (ts : List Token) (hf : ∀ f ∈ functions, Holds T S f)
    (ht : ∀ t ∈ ts, T t.kind) :
    ∀ f ∈ (Parsed.ofTokensOnto functions findings ts).functions, Holds T S f := by
  have hnext (us : List Token) (hu : ∀ t ∈ us, T t.kind) : ∀ t ∈ Parsed.nextItem us, T t.kind :=
    fun t h => hu t ((List.dropWhile_sublist _).subset h)
  fun_induction Parsed.ofTokensOnto functions findings ts with
  | case1 functions findings => simpa using hf
  | case2 functions findings t ts _ => simpa using hf
  | case3 functions findings t ts _ _ f rest hlt hread ih =>
    obtain ⟨hfun, hrest⟩ := function_gives hE hS _ _ ht hread
    exact ih (List.forall_mem_cons.mpr ⟨hfun, hf⟩) hrest
  | case4 functions findings t ts _ _ finding _ ih =>
    exact ih hf (hnext ts fun u hu => ht u (List.mem_cons_of_mem t hu))
  | case5 functions findings t ts _ _ ih =>
    exact ih hf (hnext ts fun u hu => ht u (List.mem_cons_of_mem t hu))

theorem ofTokens_holds (hE : KeepsExpr T E) (hS : KeepsStmt T E S) {ts : List Token}
    (ht : ∀ t ∈ ts, T t.kind) : ∀ f ∈ (Parsed.ofTokens ts).functions, Holds T S f :=
  ofTokensOnto_holds hE hS [] [] ts (by simp) ht

end Parser

end ScriptHost
