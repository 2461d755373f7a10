import Mathlib.Tactic.Lemma
import ScriptHost.Proofs.Syntax.Trees

/-!
The grammar of the language. A phrase is a derivation: a tree over the tokens it spells, places included, with
one constructor for each production. It has a value, which is the tree that is read off it, and a number of
openings, the most blocks, whole expressions, prefix operators and links of conditionals that are open at once.
-/

namespace ScriptHost.Grammar

/-! Operators between two operands. -/

inductive Operator where
  | binary (op : BinaryOp)
  | logic (op : LogicOp)
deriving DecidableEq, Repr

namespace Operator

def sign : Operator → Sign
  | binary .add => .plus
  | binary .sub => .minus
  | binary .mul => .star
  | binary .div => .slash
  | binary .rem => .percent
  | binary .eq => .equal
  | binary .ne => .notEqual
  | binary .lt => .less
  | binary .le => .lessEqual
  | binary .gt => .greater
  | binary .ge => .greaterEqual
  | logic .and => .andAnd
  | logic .or => .orOr

def ofSign? : Sign → Option Operator
  | .plus => some (binary .add)
  | .minus => some (binary .sub)
  | .star => some (binary .mul)
  | .slash => some (binary .div)
  | .percent => some (binary .rem)
  | .equal => some (binary .eq)
  | .notEqual => some (binary .ne)
  | .less => some (binary .lt)
  | .lessEqual => some (binary .le)
  | .greater => some (binary .gt)
  | .greaterEqual => some (binary .ge)
  | .andAnd => some (logic .and)
  | .orOr => some (logic .or)
  | _ => none

def tier : Operator → Nat
  | binary op => op.tier
  | logic op => op.tier

def join (p : Position) : Operator → Expr → Expr → Expr
  | binary op => .binary p op
  | logic op => .logic p op

lemma ofSign?_sign (o : Operator) : ofSign? o.sign = some o := by
  rcases o with op | op <;> cases op <;> rfl

lemma eq_sign {o : Operator} {s : Sign} (h : ofSign? s = some o) : s = o.sign := by
  cases s <;> cases h <;> rfl

lemma sign_injective {o o' : Operator} (h : o.sign = o'.sign) : o = o' := by
  have := ofSign?_sign o
  rw [h, ofSign?_sign] at this
  exact (Option.some.inj this).symm

end Operator

def unarySign : UnaryOp → Sign
  | .neg => .minus
  | .not => .bang

inductive Bracket where
  | round
  | square
deriving DecidableEq, Repr

def Bracket.close : Bracket → Sign
  | round => .parenClose
  | square => .bracketClose

/-! Expressions. -/

inductive Piece where
  | primary
  | items (b : Bracket)
  | more (b : Bracket)
  | operand
  | indexes
  /-- What the operators of so many tightest levels join. -/
  | joined (level : Nat)
  | tail (level : Nat)

namespace Piece

abbrev whole : Piece :=
  joined 6

abbrev Value : Piece → Type
  | primary | operand | joined _ => Expr
  | items _ | more _ => List Expr
  | indexes | tail _ => Expr → Expr

end Piece

/-- Derivations. The places are those of the tokens, in the order of the text. -/
inductive Phrase : Piece → Type where
  | int (p : Position) (v : Int64) : Phrase .primary
  | str (p : Position) (s : String) : Phrase .primary
  | yes (p : Position) : Phrase .primary
  | no (p : Position) : Phrase .primary
  | nil (p : Position) : Phrase .primary
  | var (p : Position) (n : String) : Phrase .primary
  | call (p : Position) (n : String) (q : Position) (args : Phrase (.items .round)) : Phrase .primary
  | parens (q : Position) (e : Phrase .whole) (q' : Position) : Phrase .primary
  | array (p : Position) (es : Phrase (.items .square)) : Phrase .primary
  | empty {b : Bracket} (q : Position) : Phrase (.items b)
  | list {b : Bracket} (e : Phrase .whole) (es : Phrase (.more b)) : Phrase (.items b)
  | last {b : Bracket} (q : Position) : Phrase (.more b)
  | next {b : Bracket} (q : Position) (e : Phrase .whole) (es : Phrase (.more b)) : Phrase (.more b)
  | unary (p : Position) (op : UnaryOp) (x : Phrase .operand) : Phrase .operand
  | indexed (x : Phrase .primary) (is : Phrase .indexes) : Phrase .operand
  | bare : Phrase .indexes
  | index (q : Position) (i : Phrase .whole) (q' : Position) (is : Phrase .indexes) : Phrase .indexes
  | single (x : Phrase .operand) : Phrase (.joined 0)
  | run {k : Nat} (x : Phrase (.joined k)) (xs : Phrase (.tail k)) : Phrase (.joined (k + 1))
  | stop {k : Nat} : Phrase (.tail k)
  | op {k : Nat} (o : Operator) (ho : o.tier = k) (q : Position) (x : Phrase (.joined k))
      (xs : Phrase (.tail k)) : Phrase (.tail k)

namespace Phrase

@[simp]
def tokens : {n : Piece} → Phrase n → List Token
  | _, int p v => [⟨.int v, p⟩]
  | _, str p s => [⟨.str s, p⟩]
  | _, yes p => [⟨.word .trueWord, p⟩]
  | _, no p => [⟨.word .falseWord, p⟩]
  | _, nil p => [⟨.word .nilWord, p⟩]
  | _, var p n => [⟨.name n, p⟩]
  | _, call p n q args => ⟨.name n, p⟩ :: ⟨.sign .parenOpen, q⟩ :: args.tokens
  | _, parens q e q' => ⟨.sign .parenOpen, q⟩ :: (e.tokens ++ [⟨.sign .parenClose, q'⟩])
  | _, array p es => ⟨.sign .bracketOpen, p⟩ :: es.tokens
  | .items b, empty q => [⟨.sign b.close, q⟩]
  | _, list e es => e.tokens ++ es.tokens
  | .more b, last q => [⟨.sign b.close, q⟩]
  | _, next q e es => ⟨.sign .comma, q⟩ :: (e.tokens ++ es.tokens)
  | _, unary p o x => ⟨.sign (unarySign o), p⟩ :: x.tokens
  | _, indexed x is => x.tokens ++ is.tokens
  | _, bare => []
  | _, index q i q' is => ⟨.sign .bracketOpen, q⟩ :: (i.tokens ++ ⟨.sign .bracketClose, q'⟩ :: is.tokens)
  | _, single x => x.tokens
  | _, run x xs => x.tokens ++ xs.tokens
  | _, stop => []
  | _, op o _ q x xs => ⟨.sign o.sign, q⟩ :: (x.tokens ++ xs.tokens)

/-- The tree. Parentheses leave no trace in it, and operators of one level are joined to the left. -/
@[simp]
def value : {n : Piece} → Phrase n → n.Value
  | _, int p v => .int p v
  | _, str p s => .str p s
  | _, yes p => .bool p true
  | _, no p => .bool p false
  | _, nil p => .nil p
  | _, var p n => .var p n
  | _, call p n _ args => .call p n args.value
  | _, parens _ e _ => e.value
  | _, array p es => .array p es.value
  | _, empty _ => []
  | _, list e es => e.value :: es.value
  | _, last _ => []
  | _, next _ e es => e.value :: es.value
  | _, unary p o x => .unary p o x.value
  | _, indexed x is => is.value x.value
  | _, bare => fun target => target
  | _, index q i _ is => fun target => is.value (.index q target i.value)
  | _, single x => x.value
  | _, run x xs => xs.value x.value
  | _, stop => fun lhs => lhs
  | _, op o _ q x xs => fun lhs => xs.value (o.join q lhs x.value)

@[simp]
def openings : {n : Piece} → Phrase n → Nat
  | _, int _ _ | _, str _ _ | _, yes _ | _, no _ | _, nil _ | _, var _ _ => 0
  | _, call _ _ _ args => args.openings
  | _, parens _ e _ => e.openings + 1
  | _, array _ es => es.openings
  | _, empty _ | _, last _ | _, bare | _, stop => 0
  | _, list e es | _, next _ e es => max (e.openings + 1) es.openings
  | _, unary _ _ x => x.openings + 1
  | _, indexed x is => max x.openings is.openings
  | _, index _ i _ is => max (i.openings + 1) is.openings
  | _, single x => x.openings
  | _, run x xs | _, op _ _ _ x xs => max x.openings xs.openings

end Phrase

/-! Statements. -/

/-- The expression that a target is written as, but for parentheses around it. -/
def writtenAs : Target → Expr
  | .var p n => .var p n
  | .index p t i => .index p t i

lemma ofExpr?_eq_some {e : Expr} {t : Target} : Target.ofExpr? e = some t ↔ e = writtenAs t := by
  cases e <;> cases t <;> simp [Target.ofExpr?, writtenAs]

lemma writtenAs_injective {t t' : Target} (h : writtenAs t = writtenAs t') : t = t' :=
  Option.some.inj ((ofExpr?_eq_some.mpr h).symm.trans (ofExpr?_eq_some.mpr rfl)).symm

inductive Form where
  | statement
  | conditional
  | block
  | statements

abbrev Form.Value : Form → Type
  | statement | conditional => Stmt
  | block | statements => List Stmt

inductive Clause : Form → Type where
  | declare (p : Position) (n : String) (q q₁ : Position) (e : Phrase .whole) (q₂ : Position) : Clause .statement
  | assign (target : Phrase .whole) (t : Target) (ht : target.value = writtenAs t) (q : Position)
      (e : Phrase .whole) (q₁ : Position) : Clause .statement
  | conditional (c : Clause .conditional) : Clause .statement
  | loop (p : Position) (cond : Phrase .whole) (body : Clause .block) : Clause .statement
  | count (p : Position) (n : String) (q q₁ : Position) (first : Phrase .whole) (q₂ : Position)
      (bound : Phrase .whole) (body : Clause .block) : Clause .statement
  | give (p q : Position) : Clause .statement
  | giveValue (p : Position) (e : Phrase .whole) (q : Position) : Clause .statement
  | leave (p q : Position) : Clause .statement
  | again (p q : Position) : Clause .statement
  | block (q : Position) (body : Clause .statements) : Clause .statement
  | eval (e : Phrase .whole) (q : Position) : Clause .statement
  | branch (p : Position) (cond : Phrase .whole) (body : Clause .block) : Clause .conditional
  | branchElse (p : Position) (cond : Phrase .whole) (body : Clause .block) (q : Position)
      (otherwise : Clause .block) : Clause .conditional
  | branchLink (p : Position) (cond : Phrase .whole) (body : Clause .block) (q : Position)
      (c : Clause .conditional) : Clause .conditional
  | braces (q : Position) (body : Clause .statements) : Clause .block
  | close (q : Position) : Clause .statements
  | cons (s : Clause .statement) (ss : Clause .statements) : Clause .statements

namespace Clause

@[simp]
def tokens : {n : Form} → Clause n → List Token
  | _, declare p n q q₁ e q₂ =>
    ⟨.word .declare, p⟩ :: ⟨.name n, q⟩ :: ⟨.sign .assign, q₁⟩ :: (e.tokens ++ [⟨.sign .semicolon, q₂⟩])
  | _, assign target _ _ q e q₁ => target.tokens ++ ⟨.sign .assign, q⟩ :: (e.tokens ++ [⟨.sign .semicolon, q₁⟩])
  | _, conditional c => c.tokens
  | _, loop p cond body => ⟨.word .whileWord, p⟩ :: (cond.tokens ++ body.tokens)
  | _, count p n q q₁ first q₂ bound body =>
    ⟨.word .forWord, p⟩ :: ⟨.name n, q⟩ :: ⟨.word .inWord, q₁⟩ ::
      (first.tokens ++ ⟨.sign .dotDot, q₂⟩ :: (bound.tokens ++ body.tokens))
  | _, give p q => [⟨.word .returnWord, p⟩, ⟨.sign .semicolon, q⟩]
  | _, giveValue p e q => ⟨.word .returnWord, p⟩ :: (e.tokens ++ [⟨.sign .semicolon, q⟩])
  | _, leave p q => [⟨.word .breakWord, p⟩, ⟨.sign .semicolon, q⟩]
  | _, again p q => [⟨.word .continueWord, p⟩, ⟨.sign .semicolon, q⟩]
  | _, block q body => ⟨.sign .braceOpen, q⟩ :: body.tokens
  | _, eval e q => e.tokens ++ [⟨.sign .semicolon, q⟩]
  | _, branch p cond body => ⟨.word .ifWord, p⟩ :: (cond.tokens ++ body.tokens)
  | _, branchElse p cond body q otherwise =>
    ⟨.word .ifWord, p⟩ :: (cond.tokens ++ (body.tokens ++ ⟨.word .elseWord, q⟩ :: otherwise.tokens))
  | _, branchLink p cond body q c =>
    ⟨.word .ifWord, p⟩ :: (cond.tokens ++ (body.tokens ++ ⟨.word .elseWord, q⟩ :: c.tokens))
  | _, braces q body => ⟨.sign .braceOpen, q⟩ :: body.tokens
  | _, close q => [⟨.sign .braceClose, q⟩]
  | _, cons s ss => s.tokens ++ ss.tokens

/-- The tree. A statement that begins with an expression stands where the expression does. -/
@[simp]
def value : {n : Form} → Clause n → n.Value
  | _, declare p n _ _ e _ => .declare p n e.value
  | _, assign target t _ _ e _ => .assign (Parser.current target.tokens).place t e.value
  | _, conditional c => c.value
  | _, loop p cond body => .loop p cond.value body.value
  | _, count p n _ _ first _ bound body => .count p n first.value bound.value body.value
  | _, give p _ => .give p none
  | _, giveValue p e _ => .give p (some e.value)
  | _, leave p _ => .leave p
  | _, again p _ => .again p
  | _, block q body => .block q body.value
  | _, eval e _ => .eval (Parser.current e.tokens).place e.value
  | _, branch p cond body => .branch p cond.value body.value none
  | _, branchElse p cond body _ otherwise => .branch p cond.value body.value (some otherwise.value)
  | _, branchLink p cond body _ c => .branch p cond.value body.value (some [c.value])
  | _, braces _ body => body.value
  | _, close _ => []
  | _, cons s ss => s.value :: ss.value

@[simp]
def openings : {n : Form} → Clause n → Nat
  | _, declare _ _ _ _ e _ | _, giveValue _ e _ | _, eval e _ => e.openings + 1
  | _, assign target _ _ _ e _ => max (target.openings + 1) (e.openings + 1)
  | _, conditional c => c.openings
  | _, loop _ cond body | _, branch _ cond body => max (cond.openings + 1) body.openings
  | _, count _ _ _ _ first _ bound body => max (max (first.openings + 1) (bound.openings + 1)) body.openings
  | _, give _ _ | _, leave _ _ | _, again _ _ | _, close _ => 0
  | _, block _ body | _, braces _ body => body.openings + 1
  | _, branchElse _ cond body _ otherwise => max (max (cond.openings + 1) body.openings) otherwise.openings
  | _, branchLink _ cond body _ c => max (max (cond.openings + 1) body.openings) (c.openings + 1)
  | _, cons s ss => max s.openings ss.openings

end Clause

/-! Functions. -/

inductive Parameters where
  | empty (q : Position)
  | list (first : String × Position) (more : List (Position × String × Position)) (q : Position)

namespace Parameters

def tokens : Parameters → List Token
  | empty q => [⟨.sign .parenClose, q⟩]
  | list (n, p) more q =>
    ⟨.name n, p⟩ :: (more.flatMap fun (q, n, p) => [⟨.sign .comma, q⟩, ⟨.name n, p⟩]) ++ [⟨.sign .parenClose, q⟩]

def value : Parameters → List (String × Position)
  | empty _ => []
  | list first more _ => first :: more.map Prod.snd

end Parameters

structure Function where
  place : Position
  name : String
  namePlace : Position
  openPlace : Position
  params : Parameters
  body : Clause .block

namespace Function

@[simp]
def tokens (f : Function) : List Token :=
  ⟨.word .function, f.place⟩ :: ⟨.name f.name, f.namePlace⟩ :: ⟨.sign .parenOpen, f.openPlace⟩ ::
    (f.params.tokens ++ f.body.tokens)

@[simp]
def value (f : Function) : FunctionDecl :=
  { name := f.name, params := f.params.value, body := f.body.value, place := f.place }

@[simp]
def openings (f : Function) : Nat :=
  f.body.openings

end Function

end ScriptHost.Grammar
