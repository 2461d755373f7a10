import Mathlib.Tactic.Lemma
import ScriptHost.Compile.Literals
import ScriptHost.Problem

/-!
Trees with their places moved. A text that stands elsewhere in a unit has the same trees but for their places.
-/

namespace ScriptHost

variable (f : Position → Position)

mutual

def Expr.move : Expr → Expr
  | .int p v => .int (f p) v
  | .str p v => .str (f p) v
  | .bool p b => .bool (f p) b
  | .nil p => .nil (f p)
  | .var p name => .var (f p) name
  | .array p items => .array (f p) (Expr.moveAll items)
  | .index p target i => .index (f p) target.move i.move
  | .call p name args => .call (f p) name (Expr.moveAll args)
  | .unary p op operand => .unary (f p) op operand.move
  | .binary p op lhs rhs => .binary (f p) op lhs.move rhs.move
  | .logic p op lhs rhs => .logic (f p) op lhs.move rhs.move

def Expr.moveAll : List Expr → List Expr
  | [] => []
  | e :: es => e.move :: Expr.moveAll es

end

def Target.move : Target → Target
  | .var p name => .var (f p) name
  | .index p target i => .index (f p) (target.move f) (i.move f)

mutual

def Stmt.move : Stmt → Stmt
  | .declare p name init => .declare (f p) name (init.move f)
  | .assign p t value => .assign (f p) (t.move f) (value.move f)
  | .branch p cond body none => .branch (f p) (cond.move f) (Stmt.moveAll body) none
  | .branch p cond body (some otherwise) =>
    .branch (f p) (cond.move f) (Stmt.moveAll body) (some (Stmt.moveAll otherwise))
  | .loop p cond body => .loop (f p) (cond.move f) (Stmt.moveAll body)
  | .count p name first bound body => .count (f p) name (first.move f) (bound.move f) (Stmt.moveAll body)
  | .give p none => .give (f p) none
  | .give p (some e) => .give (f p) (some (e.move f))
  | .leave p => .leave (f p)
  | .again p => .again (f p)
  | .block p body => .block (f p) (Stmt.moveAll body)
  | .eval p e => .eval (f p) (e.move f)

def Stmt.moveAll : List Stmt → List Stmt
  | [] => []
  | x :: xs => x.move :: Stmt.moveAll xs

end

def FunctionDecl.move (d : FunctionDecl) : FunctionDecl :=
  ⟨d.name, d.params.map fun p => (p.1, f p.2), Stmt.moveAll f d.body, f d.place⟩

def Finding.move (x : Finding) : Finding :=
  ⟨f x.place, x.problem⟩

lemma Expr.moveAll_eq_map (es : List Expr) : moveAll f es = es.map (move f) := by
  induction es with
  | nil => rfl
  | cons e es ih => rw [moveAll, ih, List.map_cons]

lemma Stmt.moveAll_eq_map (xs : List Stmt) : moveAll f xs = xs.map (move f) := by
  induction xs with
  | nil => rfl
  | cons x xs ih => rw [moveAll, ih, List.map_cons]

lemma Expr.place_move (e : Expr) : (e.move f).place = f e.place := by
  cases e <;> rw [move, place, place]

lemma Stmt.place_move (x : Stmt) : (x.move f).place = f x.place := by
  cases x with
  | branch _ _ _ otherwise => cases otherwise <;> rw [move, place, place]
  | give _ value => cases value <;> rw [move, place, place]
  | _ => rw [move, place, place]

lemma FunctionDecl.params_move (d : FunctionDecl) : (d.move f).params.map (·.1) = d.params.map (·.1) := by
  rw [move, List.map_map]
  rfl

lemma FunctionDecl.arity_move (d : FunctionDecl) : (d.move f).arity = d.arity :=
  List.length_map _

/-! Nothing is moved. -/

mutual

lemma Expr.move_id (e : Expr) : e.move id = e := by
  cases e with
  | array _ items => rw [move, moveAll_id items, id]
  | index _ target i => rw [move, target.move_id, i.move_id, id]
  | call _ _ args => rw [move, moveAll_id args, id]
  | unary _ _ operand => rw [move, operand.move_id, id]
  | binary _ _ lhs rhs => rw [move, lhs.move_id, rhs.move_id, id]
  | logic _ _ lhs rhs => rw [move, lhs.move_id, rhs.move_id, id]
  | _ => rw [move, id]

lemma Expr.moveAll_id (es : List Expr) : moveAll id es = es := by
  cases es with
  | nil => rfl
  | cons e es => rw [moveAll, e.move_id, moveAll_id es]

end

lemma Target.move_id (t : Target) : t.move id = t := by
  cases t with
  | var => rfl
  | index _ target i => rw [move, target.move_id, i.move_id, id]

mutual

lemma Stmt.move_id (x : Stmt) : x.move id = x := by
  cases x with
  | declare _ _ init => rw [move, init.move_id, id]
  | assign _ t value => rw [move, t.move_id, value.move_id, id]
  | branch _ cond body otherwise =>
    cases otherwise with
    | none => rw [move, cond.move_id, moveAll_id body, id]
    | some otherwise => rw [move, cond.move_id, moveAll_id body, moveAll_id otherwise, id]
  | loop _ cond body => rw [move, cond.move_id, moveAll_id body, id]
  | count _ _ first bound body => rw [move, first.move_id, bound.move_id, moveAll_id body, id]
  | give _ value =>
    cases value with
    | none => rfl
    | some e => rw [move, e.move_id, id]
  | leave => rfl
  | again => rfl
  | block _ body => rw [move, moveAll_id body, id]
  | eval _ e => rw [move, e.move_id, id]

lemma Stmt.moveAll_id (xs : List Stmt) : moveAll id xs = xs := by
  cases xs with
  | nil => rfl
  | cons x xs => rw [moveAll, x.move_id, moveAll_id xs]

end

lemma FunctionDecl.move_id (d : FunctionDecl) : d.move id = d := by
  obtain ⟨name, params, body, place⟩ := d
  simp [move, Stmt.moveAll_id]

/-! The literals are the same. -/

namespace Literals

mutual

lemma expr_move (found : List String) (e : Expr) : expr found (e.move f) = expr found e := by
  cases e with
  | array _ items => rw [Expr.move, expr, expr, exprs_move]
  | index _ target i => rw [Expr.move, expr, expr, expr_move _ target, expr_move _ i]
  | call _ _ args => rw [Expr.move, expr, expr, exprs_move]
  | unary _ _ operand => rw [Expr.move, expr, expr, expr_move _ operand]
  | binary _ _ lhs rhs => rw [Expr.move, expr, expr, expr_move _ lhs, expr_move _ rhs]
  | logic _ _ lhs rhs => rw [Expr.move, expr, expr, expr_move _ lhs, expr_move _ rhs]
  | _ => rw [Expr.move, expr, expr]

lemma exprs_move (found : List String) (es : List Expr) : exprs found (Expr.moveAll f es) = exprs found es := by
  cases es with
  | nil => rfl
  | cons e es => rw [Expr.moveAll, exprs, exprs, expr_move _ e, exprs_move _ es]

end

lemma target_move (found : List String) (t : Target) : target found (t.move f) = target found t := by
  cases t with
  | var => rfl
  | index _ t i => rw [Target.move, target, target, expr_move, expr_move]

mutual

lemma stmt_move (found : List String) (x : Stmt) : stmt found (x.move f) = stmt found x := by
  cases x with
  | declare _ _ init => rw [Stmt.move, stmt, stmt, expr_move]
  | assign _ t value => rw [Stmt.move, stmt, stmt, target_move, expr_move]
  | branch _ cond body otherwise =>
    cases otherwise with
    | none => rw [Stmt.move, stmt, stmt, expr_move, stmts_move]
    | some otherwise => rw [Stmt.move, stmt, stmt, expr_move, stmts_move _ body, stmts_move _ otherwise]
  | loop _ cond body => rw [Stmt.move, stmt, stmt, expr_move, stmts_move]
  | count _ _ first bound body => rw [Stmt.move, stmt, stmt, expr_move, expr_move, stmts_move]
  | give _ value =>
    cases value with
    | none => rfl
    | some e => rw [Stmt.move, stmt, stmt, expr_move]
  | leave => rfl
  | again => rfl
  | block _ body => rw [Stmt.move, stmt, stmt, stmts_move]
  | eval _ e => rw [Stmt.move, stmt, stmt, expr_move]

lemma stmts_move (found : List String) (xs : List Stmt) : stmts found (Stmt.moveAll f xs) = stmts found xs := by
  cases xs with
  | nil => rfl
  | cons x xs => rw [Stmt.moveAll, stmts, stmts, stmt_move _ x, stmts_move _ xs]

end

end Literals

end ScriptHost
