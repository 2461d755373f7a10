import ScriptHost.Proofs.Syntax.Trees

/-!
How high trees get. Openings bound the height of a tree up to runs: operators of one level joined to the
left, and index brackets one after another, open nothing and can go on for ever.
-/

namespace ScriptHost

/-- Expressions of one rank above zero can make a run. -/
def Expr.rank : Expr → Nat
  | .index _ _ _ => 1
  | .binary _ op _ _ => op.tier + 2
  | .logic _ op _ _ => op.tier + 2
  | _ => 0

mutual

/-- Nodes on the longest way from an expression to a leaf, when going on in a run counts `run`. -/
def Expr.heightBy (run : Nat) : Expr → Nat
  | .array _ items => 1 + Expr.heightsBy run items
  | .index _ target i =>
    max ((if target.rank = 1 then run else 1) + target.heightBy run) (1 + i.heightBy run)
  | .call _ _ args => 1 + Expr.heightsBy run args
  | .unary _ _ operand => 1 + operand.heightBy run
  | .binary _ op lhs rhs =>
    max ((if lhs.rank = op.tier + 2 then run else 1) + lhs.heightBy run) (1 + rhs.heightBy run)
  | .logic _ op lhs rhs =>
    max ((if lhs.rank = op.tier + 2 then run else 1) + lhs.heightBy run) (1 + rhs.heightBy run)
  | _ => 1

def Expr.heightsBy (run : Nat) : List Expr → Nat
  | [] => 0
  | e :: es => max (e.heightBy run) (Expr.heightsBy run es)

end

def Target.heightBy (run : Nat) : Target → Nat
  | .var p name => (Expr.var p name).heightBy run
  | .index p target i => (Expr.index p target i).heightBy run

mutual

def Stmt.heightBy (run : Nat) : Stmt → Nat
  | .declare _ _ init => 1 + init.heightBy run
  | .assign _ t value => 1 + max (t.heightBy run) (value.heightBy run)
  | .branch _ cond body none => 1 + max (cond.heightBy run) (1 + Stmt.heightsBy run body)
  | .branch _ cond body (some otherwise) =>
    1 + max (cond.heightBy run)
      (max (1 + Stmt.heightsBy run body) (1 + Stmt.heightsBy run otherwise))
  | .loop _ cond body => 1 + max (cond.heightBy run) (1 + Stmt.heightsBy run body)
  | .count _ _ first bound body =>
    1 + max (first.heightBy run) (max (bound.heightBy run) (1 + Stmt.heightsBy run body))
  | .give _ none => 1
  | .give _ (some value) => 1 + value.heightBy run
  | .leave _ => 1
  | .again _ => 1
  | .block _ body => 1 + (1 + Stmt.heightsBy run body)
  | .eval _ value => 1 + value.heightBy run

def Stmt.heightsBy (run : Nat) : List Stmt → Nat
  | [] => 0
  | s :: body => max (s.heightBy run) (Stmt.heightsBy run body)

end

namespace FunctionDecl

/-- Blocks, statements and expressions on the longest way from the body to a leaf, when going on in a run
counts `run`; the height of the tree is the one by 1. -/
def heightBy (run : Nat) (f : FunctionDecl) : Nat :=
  1 + Stmt.heightsBy run f.body

end FunctionDecl

lemma Expr.heightsBy_le {run n : Nat} {es : List Expr} (h : ∀ e ∈ es, e.heightBy run ≤ n) :
    Expr.heightsBy run es ≤ n := by
  induction es with
  | nil => exact Nat.zero_le _
  | cons e es ih =>
    obtain ⟨he, hes⟩ := List.forall_mem_cons.mp h
    exact Nat.max_le.mpr ⟨he, ih hes⟩

lemma Stmt.heightsBy_le {run n : Nat} {body : List Stmt} (h : ∀ s ∈ body, s.heightBy run ≤ n) :
    Stmt.heightsBy run body ≤ n := by
  induction body with
  | nil => exact Nat.zero_le _
  | cons s body ih =>
    obtain ⟨hs, hbody⟩ := List.forall_mem_cons.mp h
    exact Nat.max_le.mpr ⟨hs, ih hbody⟩

lemma Target.heightBy_ofExpr? {run : Nat} {e : Expr} {t : Target} (h : Target.ofExpr? e = some t) :
    t.heightBy run = e.heightBy run := by
  unfold ofExpr? at h
  split at h <;> cases h <;> rfl

namespace Parser

/-- An expression of a tighter rank than the level it is read at is in parentheses, or lower. -/
def Low (room k : Nat) (e : Expr) : Prop :=
  e.heightBy 0 ≤ 8 * room + 1 + if e.rank ≤ k + 1 then e.rank else 0

lemma Low.whole {room : Nat} {e : Expr} (h : Whole Low room e) : e.heightBy 0 ≤ 8 * room := by
  cases room with
  | zero => exact h.elim
  | succ room =>
    have hlen : Level.all.length = 6 := rfl
    simp only [Whole, Low, hlen] at h
    split at h <;> omega

lemma low_keeps (T : TokenKind → Prop) : KeepsExpr T Low where
  int _ := by simp [Low, Expr.heightBy, Expr.rank]
  str _ := by simp [Low, Expr.heightBy, Expr.rank]
  bool := by simp [Low, Expr.heightBy, Expr.rank]
  nil := by simp [Low, Expr.heightBy, Expr.rank]
  var _ := by simp [Low, Expr.heightBy, Expr.rank]
  parens h := by
    have := Low.whole h
    rw [Low]
    omega
  array h := by
    have := Expr.heightsBy_le fun e he => Low.whole (h e he)
    simp only [Low, Expr.heightBy, Expr.rank]
    omega
  call _ h := by
    have := Expr.heightsBy_le fun e he => Low.whole (h e he)
    simp only [Low, Expr.heightBy, Expr.rank]
    omega
  index {room p t i} ht hi := by
    have := Low.whole hi
    have hrank : (Expr.index p t i).rank = 1 := rfl
    simp only [Low, Expr.heightBy, hrank] at ht ⊢
    grind
  unary {room p op e} h := by
    have hrank : (Expr.unary p op e).rank = 0 := rfl
    simp only [Low, Expr.heightBy, hrank] at h ⊢
    split at h <;> omega
  loosen {room k e} h := by
    simp only [Low] at h ⊢
    split at h <;> split <;> omega
  binary {room p op l r} hl hr := by
    have hrank : (Expr.binary p op l r).rank = op.tier + 2 := rfl
    simp only [Low, Expr.heightBy, hrank] at hl hr ⊢
    grind
  logic {room p op l r} hl hr := by
    have hrank : (Expr.logic p op l r).rank = op.tier + 2 := rfl
    simp only [Low, Expr.heightBy, hrank] at hl hr ⊢
    grind

lemma Low.body {room : Nat} {b : List Stmt}
    (h : Body (fun room s => s.heightBy 0 ≤ 8 * room + 2) room b) :
    1 + Stmt.heightsBy 0 b ≤ 8 * room := by
  cases room with
  | zero => exact h.elim
  | succ room =>
    have := Stmt.heightsBy_le h
    omega

lemma low_keeps_stmt (T : TokenKind → Prop) :
    KeepsStmt T Low fun room s => s.heightBy 0 ≤ 8 * room + 2 where
  declare _ he := by
    have := Low.whole he
    simp only [Stmt.heightBy]
    omega
  assign ht he hv := by
    have := Low.whole he
    have := Low.whole hv
    simp only [Stmt.heightBy, Target.heightBy_ofExpr? ht]
    omega
  branch {room p c b o} hc hb ho := by
    have := Low.whole hc
    have := Low.body hb
    cases o with
    | none =>
      simp only [Stmt.heightBy]
      omega
    | some o =>
      have := Low.body (ho o rfl)
      simp only [Stmt.heightBy]
      omega
  loop hc hb := by
    have := Low.whole hc
    have := Low.body hb
    simp only [Stmt.heightBy]
    omega
  count _ he hu hb := by
    have := Low.whole he
    have := Low.whole hu
    have := Low.body hb
    simp only [Stmt.heightBy]
    omega
  give {room p o} h := by
    cases o with
    | none => simp [Stmt.heightBy]
    | some e =>
      have := Low.whole (h e rfl)
      simp only [Stmt.heightBy]
      omega
  leave := by simp [Stmt.heightBy]
  again := by simp [Stmt.heightBy]
  block hb := by
    have := Low.body hb
    simp only [Stmt.heightBy]
    omega
  eval he := by
    have := Low.whole he
    simp only [Stmt.heightBy]
    omega

lemma function_low {ts : List Token} {f : FunctionDecl} (hf : f ∈ (Parsed.ofTokens ts).functions) :
    f.heightBy 0 ≤ 8 * nestingLimit := by
  obtain ⟨-, hbody⟩ := ofTokens_holds (low_keeps fun _ => True) (low_keeps_stmt _) (fun _ _ => trivial) f hf
  exact Low.body hbody

/-! Sums. One opening is enough for a sum of any length, and each of its signs adds a node. -/

abbrev one : Token := ⟨.int 1, .start⟩

def terms (n : Nat) (rest : List Token) : List Token :=
  match n with
  | 0 => rest
  | n + 1 => ⟨.sign .plus, .start⟩ :: one :: terms n rest

def sumOnto (lhs : Expr) : Nat → Expr
  | 0 => lhs
  | n + 1 => sumOnto (.binary .start .add lhs (.int .start 1)) n

/-- The tokens of `{ return 1 + .. + 1; }`. -/
def sumBody (n : Nat) : List Token :=
  ⟨.sign .braceOpen, .start⟩ :: ⟨.word .returnWord, .start⟩ :: one ::
    terms n [⟨.sign .semicolon, .start⟩, ⟨.sign .braceClose, .start⟩, ⟨.eof, .start⟩]

/-- The tokens of `fn f() { return 1 + .. + 1; }`. -/
def sumTokens (n : Nat) : List Token :=
  ⟨.word .function, .start⟩ :: ⟨.name "f", .start⟩ :: ⟨.sign .parenOpen, .start⟩ ::
    ⟨.sign .parenClose, .start⟩ :: sumBody n

def sumFunction (n : Nat) : FunctionDecl :=
  ⟨"f", [], [.give .start (some (sumOnto (.int .start 1) n))], .start⟩

lemma chain_stop {level : Level} {p : Parser Expr} {ts₀ : List Token} {lhs : Expr} {t : Token}
    {rest : List Token} (hs : (t :: rest).length < ts₀.length) (ht : level t = none) :
    chain level p ts₀ lhs (t :: rest) hs = .ok ⟨lhs, t :: rest, hs⟩ := by
  rw [chain]
  simp only [take?, ht]
  rfl

lemma operand_one (room : Nat) {t : Token} (ht : t.kind ≠ .sign .bracketOpen) (rest : List Token) :
    operand room (one :: t :: rest) = .ok ⟨.int .start 1, t :: rest, Nat.lt_succ_self _⟩ := by
  have hi (nested : Parser Expr) (ts₀ : List Token) (e : Expr) (hs : (t :: rest).length < ts₀.length) :
      indexes nested ts₀ e (t :: rest) hs = .ok ⟨e, t :: rest, hs⟩ := by
    rw [indexes]
    simp only [eat?, take?, if_neg ht]
    rfl
  cases room with
  | zero => exact hi _ _ _ _
  | succ room => exact hi _ _ _ _

lemma product_one (room : Nat) {t : Token} (ht : t.kind ≠ .sign .bracketOpen)
    (hp : Level.product t = none) (rest : List Token) :
    climb (operand room) [Level.product] (one :: t :: rest) =
      .ok ⟨.int .start 1, t :: rest, Nat.lt_succ_self _⟩ := by
  simp only [climb, operand_one room ht rest]
  exact chain_stop _ hp

lemma product_terms (room n : Nat) (rest : List Token) :
    climb (operand room) [Level.product] (one :: terms n (⟨.sign .semicolon, .start⟩ :: rest)) =
      .ok ⟨.int .start 1, terms n (⟨.sign .semicolon, .start⟩ :: rest), Nat.lt_succ_self _⟩ := by
  cases n with
  | zero => exact product_one room (by simp) rfl rest
  | succ n => exact product_one room (by simp) rfl _

lemma chain_terms (room n : Nat) (rest ts₀ : List Token) (lhs : Expr)
    (hs : (terms n (⟨.sign .semicolon, .start⟩ :: rest)).length < ts₀.length)
    (hs' : (⟨.sign .semicolon, .start⟩ :: rest : List Token).length < ts₀.length) :
    chain Level.sum (climb (operand room) [Level.product]) ts₀ lhs
        (terms n (⟨.sign .semicolon, .start⟩ :: rest)) hs =
      .ok ⟨sumOnto lhs n, ⟨.sign .semicolon, .start⟩ :: rest, hs'⟩ := by
  induction n generalizing lhs with
  | zero => exact chain_stop _ rfl
  | succ n ih =>
    rw [chain]
    simp only [terms, take?, Level.sum, Option.map_some, product_terms]
    exact ih _ (by simp only [terms, List.length_cons] at hs; omega)

lemma climb_stop {level : Level} {tighter : List Level} {p : Parser Expr} {ts : List Token} {e : Expr}
    {t : Token} {rest : List Token} {hs : (t :: rest).length < ts.length}
    (h : climb p tighter ts = .ok ⟨e, t :: rest, hs⟩) (ht : level t = none) :
    climb p (level :: tighter) ts = .ok ⟨e, t :: rest, hs⟩ := by
  simp only [climb, h]
  exact chain_stop hs ht

lemma expression_sum (room n : Nat) (rest : List Token) :
    ∃ hs, expression (room + 1) (one :: terms n (⟨.sign .semicolon, .start⟩ :: rest)) =
      .ok ⟨sumOnto (.int .start 1) n, ⟨.sign .semicolon, .start⟩ :: rest, hs⟩ := by
  have hs : (⟨.sign .semicolon, .start⟩ :: rest : List Token).length <
      (one :: terms n (⟨.sign .semicolon, .start⟩ :: rest)).length := by
    induction n with
    | zero => simp [terms]
    | succ n ih => simp only [terms, List.length_cons] at ih ⊢; omega
  refine ⟨hs, ?_⟩
  iterate 4 apply climb_stop _ rfl
  change (climb (operand room) [Level.product] _ >>= _) = _
  rw [product_terms]
  exact chain_terms room n rest _ _ _ hs

lemma block_sum (n : Nat) :
    ∃ hs, block nestingLimit (sumBody n) = .ok ⟨(sumFunction n).body, [⟨.eof, .start⟩], hs⟩ := by
  obtain ⟨hs, he⟩ := expression_sum 126 n [⟨.sign .braceClose, .start⟩, ⟨.eof, .start⟩]
  refine ⟨by simp [sumBody], ?_⟩
  change (statementsFrom _ _ _ _ _ >>= _) = _
  rw [statementsFrom]
  change ((((expression 127 _ >>= _) >>= _) >>= _) >>= _) = _
  rw [he]
  change (statementsFrom _ _ _ [⟨.sign .braceClose, .start⟩, ⟨.eof, .start⟩] _ >>= _) = _
  rw [statementsFrom]
  rfl

lemma function_sum (n : Nat) :
    ∃ hs, function (sumTokens n) = .ok ⟨sumFunction n, [⟨.eof, .start⟩], hs⟩ := by
  obtain ⟨hs, hb⟩ := block_sum n
  refine ⟨by simp [sumTokens, sumBody], ?_⟩
  change (block nestingLimit (sumBody n) >>= _) = _
  rw [hb]
  rfl

lemma ofTokens_sum (n : Nat) : Parsed.ofTokens (sumTokens n) = ⟨[sumFunction n], []⟩ := by
  obtain ⟨hs, hf⟩ := function_sum n
  unfold sumTokens at hf ⊢
  rw [Parsed.ofTokens, Parsed.ofTokensOnto]
  simp [hf, Parsed.ofTokensOnto]

lemma heightBy_sumOnto (lhs : Expr) (n : Nat) :
    lhs.heightBy 1 + n ≤ (sumOnto lhs n).heightBy 1 := by
  induction n generalizing lhs with
  | zero => exact Nat.le_refl _
  | succ n ih =>
    have := ih (.binary .start .add lhs (.int .start 1))
    simp only [sumOnto, Expr.heightBy, ite_self] at this ⊢
    omega

lemma mem_ofTokens_sum (n : Nat) : sumFunction n ∈ (Parsed.ofTokens (sumTokens n)).functions := by
  rw [ofTokens_sum]
  exact List.mem_singleton_self _

lemma le_heightBy_sum (n : Nat) : n + 3 ≤ (sumFunction n).heightBy 1 := by
  have := heightBy_sumOnto (.int .start 1) n
  simp only [FunctionDecl.heightBy, sumFunction, Stmt.heightsBy, Stmt.heightBy, Expr.heightBy] at this ⊢
  omega

/-! The bound, and why it leaves out runs. -/

/-- With each run counted as one node, openings bound the height of every function, however long its
text is. -/
theorem height_without_runs (ts : List Token) :
    ∀ f ∈ (Parsed.ofTokens ts).functions, f.heightBy 0 ≤ 16 * nestingLimit := by
  intro f hf
  have := function_low hf
  omega

theorem height_without_runs_long_sum :
    sumFunction 2048 ∈ (Parsed.ofTokens (sumTokens 2048)).functions ∧
      (sumFunction 2048).heightBy 0 ≤ 16 * nestingLimit :=
  ⟨mem_ofTokens_sum 2048, height_without_runs (sumTokens 2048) _ (mem_ofTokens_sum 2048)⟩

/-- With every node counted it is higher than sixteen nodes for each opening that is allowed. -/
theorem long_sum_exceeds_height :
    ∃ f ∈ (Parsed.ofTokens (sumTokens 2048)).functions, 16 * nestingLimit < f.heightBy 1 :=
  ⟨sumFunction 2048, mem_ofTokens_sum 2048, le_heightBy_sum 2048 |> Nat.lt_of_lt_of_le (by decide)⟩

end Parser

end ScriptHost
