import ScriptHost.Problem
import ScriptHost.Syntax.Token
import ScriptHost.Syntax.Tree

/-!
Reading trees off tokens. A parser takes at least one token or fails with the first finding; how
deep it may nest is a number of openings still allowed, and recursion is on that number.
-/

namespace ScriptHost

structure Read (ts : List Token) (α : Type) where
  value : α
  rest : List Token
  shorter : rest.length < ts.length

abbrev Parser (α : Type) := (ts : List Token) → Except Finding (Read ts α)

namespace Parser

def current (ts : List Token) : Token :=
  ts.headD ⟨.eof, .start⟩

def unexpected (wanted : String) (ts : List Token) : Finding :=
  ⟨(current ts).place, .unexpected wanted (current ts).kind.describe⟩

def tooDeep {α : Type} : Parser α := fun ts =>
  .error ⟨(current ts).place, .nestingTooDeep⟩

def take? {α : Type} (f : Token → Option α) : (ts : List Token) → Option (Read ts α)
  | [] => none
  | t :: ts => (f t).map (⟨·, ts, by simp⟩)

def eat? (kind : TokenKind) (ts : List Token) : Option (Read ts Position) :=
  take? (fun t => if t.kind = kind then some t.place else none) ts

def expect (kind : TokenKind) : Parser Position := fun ts =>
  match eat? kind ts with
  | some r => .ok r
  | none => .error (unexpected kind.describe ts)

def sign (s : Sign) : Parser Position :=
  expect (.sign s)

def word (k : Keyword) : Parser Position :=
  expect (.word k)

def identifier : Parser (String × Position) := fun ts =>
  match take? (fun | ⟨.name n, p⟩ => some (n, p) | _ => none) ts with
  | some r => .ok r
  | none => .error (unexpected "identifier" ts)

def startsWith (kind : TokenKind) (ts : List Token) : Bool :=
  (current ts).kind = kind

/-! Expressions. `nested` reads a whole expression one opening deeper. -/

def itemsFrom (nested : Parser Expr) (close : Sign) (ts₀ : List Token) (found : List Expr)
    (ts : List Token) (h : ts.length ≤ ts₀.length) : Except Finding (Read ts₀ (List Expr)) := do
  let ⟨item, rest, h₁⟩ ← nested ts
  match eat? (.sign .comma) rest with
  | some ⟨_, rest, h₂⟩ => itemsFrom nested close ts₀ (item :: found) rest (by omega)
  | none =>
    let ⟨_, rest, h₂⟩ ← sign close rest
    return ⟨(item :: found).reverse, rest, by omega⟩
  termination_by ts.length
  decreasing_by omega

def items (nested : Parser Expr) (close : Sign) : Parser (List Expr) := fun ts =>
  match eat? (.sign close) ts with
  | some ⟨_, rest, h⟩ => .ok ⟨[], rest, h⟩
  | none => itemsFrom nested close ts [] ts (Nat.le_refl _)

def primary (nested : Parser Expr) : Parser Expr
  | ⟨.int v, p⟩ :: ts => .ok ⟨.int p v, ts, by simp⟩
  | ⟨.str s, p⟩ :: ts => .ok ⟨.str p s, ts, by simp⟩
  | ⟨.word .trueWord, p⟩ :: ts => .ok ⟨.bool p true, ts, by simp⟩
  | ⟨.word .falseWord, p⟩ :: ts => .ok ⟨.bool p false, ts, by simp⟩
  | ⟨.word .nilWord, p⟩ :: ts => .ok ⟨.nil p, ts, by simp⟩
  | ⟨.name n, p⟩ :: ⟨.sign .parenOpen, _⟩ :: ts => do
    let ⟨args, rest, h⟩ ← items nested .parenClose ts
    return ⟨.call p n args, rest, by simp only [List.length_cons]; omega⟩
  | ⟨.name n, p⟩ :: ts => .ok ⟨.var p n, ts, by simp⟩
  | ⟨.sign .parenOpen, _⟩ :: ts => do
    let ⟨inner, rest, h₁⟩ ← nested ts
    let ⟨_, rest, h₂⟩ ← sign .parenClose rest
    return ⟨inner, rest, by simp only [List.length_cons]; omega⟩
  | ⟨.sign .bracketOpen, p⟩ :: ts => do
    let ⟨elements, rest, h⟩ ← items nested .bracketClose ts
    return ⟨.array p elements, rest, by simp only [List.length_cons]; omega⟩
  | ts => .error (unexpected "expression" ts)

def indexes (nested : Parser Expr) (ts₀ : List Token) (target : Expr) (ts : List Token)
    (h : ts.length < ts₀.length) : Except Finding (Read ts₀ Expr) := do
  match eat? (.sign .bracketOpen) ts with
  | some ⟨p, rest, h₁⟩ =>
    let ⟨i, rest, h₂⟩ ← nested rest
    let ⟨_, rest, h₃⟩ ← sign .bracketClose rest
    indexes nested ts₀ (.index p target i) rest (by omega)
  | none => return ⟨target, ts, h⟩
  termination_by ts.length
  decreasing_by omega

def operandWith (prefixed nested : Parser Expr) : Parser Expr
  | ⟨.sign .minus, p⟩ :: ts => do
    let ⟨e, rest, h⟩ ← prefixed ts
    return ⟨.unary p .neg e, rest, by simp only [List.length_cons]; omega⟩
  | ⟨.sign .bang, p⟩ :: ts => do
    let ⟨e, rest, h⟩ ← prefixed ts
    return ⟨.unary p .not e, rest, by simp only [List.length_cons]; omega⟩
  | ts => do
    let ⟨e, rest, h⟩ ← primary nested ts
    indexes nested ts e rest h

abbrev Level := Token → Option (Expr → Expr → Expr)

namespace Level

def or : Level
  | ⟨.sign .orOr, p⟩ => some (.logic p .or)
  | _ => none

def and : Level
  | ⟨.sign .andAnd, p⟩ => some (.logic p .and)
  | _ => none

def equality : Level
  | ⟨.sign .equal, p⟩ => some (.binary p .eq)
  | ⟨.sign .notEqual, p⟩ => some (.binary p .ne)
  | _ => none

def order : Level
  | ⟨.sign .less, p⟩ => some (.binary p .lt)
  | ⟨.sign .lessEqual, p⟩ => some (.binary p .le)
  | ⟨.sign .greater, p⟩ => some (.binary p .gt)
  | ⟨.sign .greaterEqual, p⟩ => some (.binary p .ge)
  | _ => none

def sum : Level
  | ⟨.sign .plus, p⟩ => some (.binary p .add)
  | ⟨.sign .minus, p⟩ => some (.binary p .sub)
  | _ => none

def product : Level
  | ⟨.sign .star, p⟩ => some (.binary p .mul)
  | ⟨.sign .slash, p⟩ => some (.binary p .div)
  | ⟨.sign .percent, p⟩ => some (.binary p .rem)
  | _ => none

def all : List Level :=
  [or, and, equality, order, sum, product]

end Level

/-- The operators of one level and their right operands, joined to the left. -/
def chain (level : Level) (operand : Parser Expr) (ts₀ : List Token) (lhs : Expr)
    (ts : List Token) (h : ts.length < ts₀.length) : Except Finding (Read ts₀ Expr) := do
  match take? level ts with
  | some ⟨join, rest, h₁⟩ =>
    let ⟨rhs, rest, h₂⟩ ← operand rest
    chain level operand ts₀ (join lhs rhs) rest (by omega)
  | none => return ⟨lhs, ts, h⟩
  termination_by ts.length
  decreasing_by omega

def climb (operand : Parser Expr) : List Level → Parser Expr
  | [] => operand
  | level :: tighter => fun ts => do
    let ⟨lhs, rest, h⟩ ← climb operand tighter ts
    chain level (climb operand tighter) ts lhs rest h

def operand : Nat → Parser Expr
  | 0 => operandWith tooDeep tooDeep
  | room + 1 => operandWith (operand room) (climb (operand room) Level.all)

def expression : Nat → Parser Expr
  | 0 => tooDeep
  | room + 1 => climb (operand room) Level.all

/-! Statements. A block is an opening, and so is the second `if` of an `else if`. -/

def value (expr : Parser Expr) : Parser Expr := fun ts => do
  let ⟨e, rest, h₁⟩ ← expr ts
  let ⟨_, rest, h₂⟩ ← sign .semicolon rest
  return ⟨e, rest, by omega⟩

def simple (expr : Parser Expr) : Parser Stmt := fun ts => do
  let ⟨e, rest, h₁⟩ ← expr ts
  match eat? (.sign .assign) rest with
  | some ⟨_, rest, h₂⟩ =>
    match Target.ofExpr? e with
    | none => throw ⟨e.place, .invalidAssignmentTarget⟩
    | some target =>
      let ⟨v, rest, h₃⟩ ← value expr rest
      return ⟨.assign (current ts).place target v, rest, by omega⟩
  | none =>
    let ⟨_, rest, h₂⟩ ← sign .semicolon rest
    return ⟨.eval (current ts).place e, rest, by omega⟩

def statementWith (expr : Parser Expr) (block : Parser (List Stmt)) (conditional : Parser Stmt) :
    Parser Stmt
  | ⟨.word .declare, p⟩ :: ts => do
    let ⟨(name, _), rest, h₁⟩ ← identifier ts
    let ⟨_, rest, h₂⟩ ← sign .assign rest
    let ⟨init, rest, h₃⟩ ← value expr rest
    return ⟨.declare p name init, rest, by simp only [List.length_cons]; omega⟩
  | ⟨.word .ifWord, p⟩ :: ts => conditional (⟨.word .ifWord, p⟩ :: ts)
  | ⟨.word .whileWord, p⟩ :: ts => do
    let ⟨cond, rest, h₁⟩ ← expr ts
    let ⟨body, rest, h₂⟩ ← block rest
    return ⟨.loop p cond body, rest, by simp only [List.length_cons]; omega⟩
  | ⟨.word .forWord, p⟩ :: ts => do
    let ⟨(name, _), rest, h₁⟩ ← identifier ts
    let ⟨_, rest, h₂⟩ ← word .inWord rest
    let ⟨first, rest, h₃⟩ ← expr rest
    let ⟨_, rest, h₄⟩ ← sign .dotDot rest
    let ⟨bound, rest, h₅⟩ ← expr rest
    let ⟨body, rest, h₆⟩ ← block rest
    return ⟨.count p name first bound body, rest, by simp only [List.length_cons]; omega⟩
  | ⟨.word .returnWord, p⟩ :: ⟨.sign .semicolon, _⟩ :: ts =>
    .ok ⟨.give p none, ts, by simp only [List.length_cons]; omega⟩
  | ⟨.word .returnWord, p⟩ :: ts => do
    let ⟨e, rest, h⟩ ← value expr ts
    return ⟨.give p (some e), rest, by simp only [List.length_cons]; omega⟩
  | ⟨.word .breakWord, p⟩ :: ts => do
    let ⟨_, rest, h⟩ ← sign .semicolon ts
    return ⟨.leave p, rest, by simp only [List.length_cons]; omega⟩
  | ⟨.word .continueWord, p⟩ :: ts => do
    let ⟨_, rest, h⟩ ← sign .semicolon ts
    return ⟨.again p, rest, by simp only [List.length_cons]; omega⟩
  | ⟨.sign .braceOpen, p⟩ :: ts => do
    let ⟨body, rest, h⟩ ← block (⟨.sign .braceOpen, p⟩ :: ts)
    return ⟨.block p body, rest, h⟩
  | ts => simple expr ts

def statementsFrom (statement : Parser Stmt) (ts₀ : List Token) (found : List Stmt)
    (ts : List Token) (h : ts.length ≤ ts₀.length) : Except Finding (Read ts₀ (List Stmt)) := do
  match eat? (.sign .braceClose) ts with
  | some ⟨_, rest, h₁⟩ => return ⟨found.reverse, rest, by omega⟩
  | none =>
    if (current ts).kind = .eof then throw (unexpected (TokenKind.sign .braceClose).describe ts)
    let ⟨s, rest, h₁⟩ ← statement ts
    statementsFrom statement ts₀ (s :: found) rest (by omega)
  termination_by ts.length
  decreasing_by omega

def blockWith (statement : Parser Stmt) : Parser (List Stmt) := fun ts => do
  let ⟨_, rest, h₁⟩ ← sign .braceOpen ts
  let ⟨body, rest, h₂⟩ ← statementsFrom statement rest [] rest (Nat.le_refl _)
  return ⟨body, rest, by omega⟩

def closedBlock : Parser (List Stmt) := fun ts => do
  let ⟨_, rest, h₁⟩ ← sign .braceOpen ts
  let ⟨body, rest, h₂⟩ ← tooDeep rest
  return ⟨body, rest, by omega⟩

def conditionalWith (expr : Parser Expr) (block : Parser (List Stmt)) (linked : Parser Stmt) :
    Parser Stmt := fun ts => do
  let ⟨p, rest, h₁⟩ ← word .ifWord ts
  let ⟨cond, rest, h₂⟩ ← expr rest
  let ⟨body, rest, h₃⟩ ← block rest
  match eat? (.word .elseWord) rest with
  | some ⟨_, rest, h₄⟩ =>
    if startsWith (.word .ifWord) rest then
      let ⟨link, rest, h₅⟩ ← linked rest
      return ⟨.branch p cond body (some [link]), rest, by omega⟩
    else
      let ⟨otherwise, rest, h₅⟩ ← block rest
      return ⟨.branch p cond body (some otherwise), rest, by omega⟩
  | none => return ⟨.branch p cond body none, rest, by omega⟩

def nested : Nat → Parser (List Stmt) × Parser Stmt
  | 0 => (closedBlock, conditionalWith (expression 0) closedBlock tooDeep)
  | room + 1 =>
    let inner := nested room
    let block := blockWith (statementWith (expression room) inner.1 inner.2)
    (block, conditionalWith (expression (room + 1)) block inner.2)

def block (room : Nat) : Parser (List Stmt) :=
  (nested room).1

/-! Functions. -/

def paramsFrom (ts₀ : List Token) (found : List (String × Position)) (ts : List Token)
    (h : ts.length ≤ ts₀.length) : Except Finding (Read ts₀ (List (String × Position))) := do
  let ⟨param, rest, h₁⟩ ← identifier ts
  match eat? (.sign .comma) rest with
  | some ⟨_, rest, h₂⟩ => paramsFrom ts₀ (param :: found) rest (by omega)
  | none =>
    let ⟨_, rest, h₂⟩ ← sign .parenClose rest
    return ⟨(param :: found).reverse, rest, by omega⟩
  termination_by ts.length
  decreasing_by omega

def params : Parser (List (String × Position)) := fun ts =>
  match eat? (.sign .parenClose) ts with
  | some ⟨_, rest, h⟩ => .ok ⟨[], rest, h⟩
  | none => paramsFrom ts [] ts (Nat.le_refl _)

def function : Parser FunctionDecl := fun ts => do
  let ⟨p, rest, h₁⟩ ← word .function ts
  let ⟨(name, _), rest, h₂⟩ ← identifier rest
  let ⟨_, rest, h₃⟩ ← sign .parenOpen rest
  let ⟨params, rest, h₄⟩ ← params rest
  let ⟨body, rest, h₅⟩ ← block nestingLimit rest
  return ⟨⟨name, params, body, p⟩, rest, by omega⟩

end Parser

structure Parsed where
  functions : List FunctionDecl
  findings : List Finding
deriving Repr

namespace Parsed

def startsItem (t : Token) : Bool :=
  t.kind == .word .function || t.kind == .eof

def nextItem (ts : List Token) : List Token :=
  ts.dropWhile (!startsItem ·)

theorem length_nextItem (ts : List Token) : (nextItem ts).length ≤ ts.length :=
  (List.dropWhile_sublist _).length_le

/-- Adds what the tokens hold to what is found so far, newest first. A broken item is left at once,
and reading goes on at the next one; an item holds no second `fn`. -/
def ofTokensOnto (functions : List FunctionDecl) (findings : List Finding) : List Token → Parsed
  | [] => ⟨functions.reverse, findings.reverse⟩
  | t :: ts =>
    if t.kind = .eof then ⟨functions.reverse, findings.reverse⟩
    else if t.kind = .word .function then
      match Parser.function (t :: ts) with
      | .ok ⟨f, rest, _⟩ => ofTokensOnto (f :: functions) findings rest
      | .error finding => ofTokensOnto functions (finding :: findings) (nextItem ts)
    else ofTokensOnto functions (Parser.unexpected "'fn'" (t :: ts) :: findings) (nextItem ts)
  termination_by ts => ts.length
  decreasing_by
  · assumption
  · exact Nat.lt_succ_of_le (length_nextItem ts)
  · exact Nat.lt_succ_of_le (length_nextItem ts)

def ofTokens (ts : List Token) : Parsed :=
  ofTokensOnto [] [] ts

end Parsed

end ScriptHost
