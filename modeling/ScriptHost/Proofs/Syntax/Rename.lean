import Mathlib.Logic.Function.Basic
import ScriptHost.Proofs.Syntax.Move

/-!
Trees with variables renamed. A declaration keeps its name and takes the variable out of the renaming for the rest of
its scope; the variable of a counting loop is there in the end bound and in the body.
-/

open Function (update)

namespace ScriptHost

mutual

def Expr.rename (σ : String → String) : Expr → Expr
  | .int p v => .int p v
  | .str p v => .str p v
  | .bool p b => .bool p b
  | .nil p => .nil p
  | .var p name => .var p (σ name)
  | .array p items => .array p (Expr.renameAll σ items)
  | .index p target i => .index p (target.rename σ) (i.rename σ)
  | .call p name args => .call p name (Expr.renameAll σ args)
  | .unary p op operand => .unary p op (operand.rename σ)
  | .binary p op lhs rhs => .binary p op (lhs.rename σ) (rhs.rename σ)
  | .logic p op lhs rhs => .logic p op (lhs.rename σ) (rhs.rename σ)

def Expr.renameAll (σ : String → String) : List Expr → List Expr
  | [] => []
  | e :: es => e.rename σ :: Expr.renameAll σ es

end

def Target.rename (σ : String → String) : Target → Target
  | .var p name => .var p (σ name)
  | .index p target i => .index p (target.rename σ) (i.rename σ)

def Stmt.renaming (σ : String → String) : Stmt → String → String
  | .declare _ name _ => update σ name name
  | _ => σ

mutual

def Stmt.rename (σ : String → String) : Stmt → Stmt
  | .declare p name init => .declare p name (init.rename σ)
  | .assign p t value => .assign p (t.rename σ) (value.rename σ)
  | .branch p cond body none => .branch p (cond.rename σ) (Stmt.renameAll σ body) none
  | .branch p cond body (some otherwise) =>
    .branch p (cond.rename σ) (Stmt.renameAll σ body) (some (Stmt.renameAll σ otherwise))
  | .loop p cond body => .loop p (cond.rename σ) (Stmt.renameAll σ body)
  | .count p name first bound body =>
    .count p name (first.rename σ) (bound.rename (update σ name name)) (Stmt.renameAll (update σ name name) body)
  | .give p none => .give p none
  | .give p (some e) => .give p (some (e.rename σ))
  | .leave p => .leave p
  | .again p => .again p
  | .block p body => .block p (Stmt.renameAll σ body)
  | .eval p e => .eval p (e.rename σ)

def Stmt.renameAll (σ : String → String) : List Stmt → List Stmt
  | [] => []
  | x :: xs => x.rename σ :: Stmt.renameAll (x.renaming σ) xs

end

lemma Expr.renameAll_eq_map (σ : String → String) (es : List Expr) : renameAll σ es = es.map (rename σ) := by
  induction es with
  | nil => rfl
  | cons e es ih => rw [renameAll, ih, List.map_cons]

mutual

def Expr.mentions : Expr → List String
  | .var _ name => [name]
  | .array _ items => Expr.allMentions items
  | .index _ target i => target.mentions ++ i.mentions
  | .call _ _ args => Expr.allMentions args
  | .unary _ _ operand => operand.mentions
  | .binary _ _ lhs rhs => lhs.mentions ++ rhs.mentions
  | .logic _ _ lhs rhs => lhs.mentions ++ rhs.mentions
  | _ => []

def Expr.allMentions : List Expr → List String
  | [] => []
  | e :: es => e.mentions ++ Expr.allMentions es

end

def Target.mentions : Target → List String
  | .var _ name => [name]
  | .index _ target i => target.mentions ++ i.mentions

mutual

def Stmt.mentions : Stmt → List String
  | .declare _ name init => name :: init.mentions
  | .assign _ t value => t.mentions ++ value.mentions
  | .branch _ cond body none => cond.mentions ++ Stmt.allMentions body
  | .branch _ cond body (some otherwise) => cond.mentions ++ Stmt.allMentions body ++ Stmt.allMentions otherwise
  | .loop _ cond body => cond.mentions ++ Stmt.allMentions body
  | .count _ name first bound body => name :: first.mentions ++ bound.mentions ++ Stmt.allMentions body
  | .give _ none => []
  | .give _ (some e) => e.mentions
  | .leave _ => []
  | .again _ => []
  | .block _ body => Stmt.allMentions body
  | .eval _ e => e.mentions

def Stmt.allMentions : List Stmt → List String
  | [] => []
  | x :: xs => x.mentions ++ Stmt.allMentions xs

end

mutual

lemma Expr.mentions_rename (σ : String → String) (e : Expr) : (e.rename σ).mentions = e.mentions.map σ := by
  cases e with
  | var => rfl
  | array _ items => exact allMentions_renameAll σ items
  | index _ target i =>
    rw [rename, mentions, mentions, target.mentions_rename σ, i.mentions_rename σ, List.map_append]
  | call _ _ args => exact allMentions_renameAll σ args
  | unary _ _ operand => exact operand.mentions_rename σ
  | binary _ _ lhs rhs =>
    rw [rename, mentions, mentions, lhs.mentions_rename σ, rhs.mentions_rename σ, List.map_append]
  | logic _ _ lhs rhs =>
    rw [rename, mentions, mentions, lhs.mentions_rename σ, rhs.mentions_rename σ, List.map_append]
  | _ => rfl

lemma Expr.allMentions_renameAll (σ : String → String) (es : List Expr) :
    allMentions (renameAll σ es) = (allMentions es).map σ := by
  cases es with
  | nil => rfl
  | cons e es =>
    rw [renameAll, allMentions, allMentions, e.mentions_rename σ, allMentions_renameAll σ es, List.map_append]

end

mutual

lemma Expr.rename_eq_self {σ : String → String} (e : Expr) (h : ∀ n ∈ e.mentions, σ n = n) : e.rename σ = e := by
  cases e with
  | var p name => rw [rename, h name (List.mem_singleton_self name)]
  | array _ items => rw [rename, renameAll_eq_self items h]
  | index _ target i =>
    obtain ⟨htarget, hi⟩ := List.forall_mem_append.mp h
    rw [rename, target.rename_eq_self htarget, i.rename_eq_self hi]
  | call _ _ args => rw [rename, renameAll_eq_self args h]
  | unary _ _ operand => rw [rename, operand.rename_eq_self h]
  | binary _ _ lhs rhs =>
    obtain ⟨hlhs, hrhs⟩ := List.forall_mem_append.mp h
    rw [rename, lhs.rename_eq_self hlhs, rhs.rename_eq_self hrhs]
  | logic _ _ lhs rhs =>
    obtain ⟨hlhs, hrhs⟩ := List.forall_mem_append.mp h
    rw [rename, lhs.rename_eq_self hlhs, rhs.rename_eq_self hrhs]
  | _ => rw [rename]

lemma Expr.renameAll_eq_self {σ : String → String} (es : List Expr) (h : ∀ n ∈ allMentions es, σ n = n) :
    renameAll σ es = es := by
  cases es with
  | nil => rfl
  | cons e es =>
    obtain ⟨he, hes⟩ := List.forall_mem_append.mp h
    rw [renameAll, e.rename_eq_self he, renameAll_eq_self es hes]

end

lemma Expr.rename_single_eq_self {v w : String} (hne : v ≠ w) {e : Expr} :
    e.rename (update id v w) = e ↔ v ∉ e.mentions := by
  constructor
  · intro hsame hv
    rw [← hsame, mentions_rename, List.mem_map] at hv
    obtain ⟨x, -, hx⟩ := hv
    by_cases hxv : x = v
    · rw [hxv, Function.update_self] at hx
      exact hne hx.symm
    · rw [Function.update_of_ne hxv] at hx
      exact hxv hx
  · intro hv
    refine e.rename_eq_self fun n hn => Function.update_of_ne (fun hnv => hv ?_) w id
    exact hnv ▸ hn

/-! The literals are the same. -/

namespace Literals

mutual

lemma expr_rename (σ : String → String) (found : List String) (e : Expr) :
    expr found (e.rename σ) = expr found e := by
  cases e with
  | var => rfl
  | array _ items => rw [Expr.rename, expr, expr, exprs_rename]
  | index _ target i => rw [Expr.rename, expr, expr, expr_rename σ _ target, expr_rename σ _ i]
  | call _ _ args => rw [Expr.rename, expr, expr, exprs_rename]
  | unary _ _ operand => rw [Expr.rename, expr, expr, expr_rename σ _ operand]
  | binary _ _ lhs rhs => rw [Expr.rename, expr, expr, expr_rename σ _ lhs, expr_rename σ _ rhs]
  | logic _ _ lhs rhs => rw [Expr.rename, expr, expr, expr_rename σ _ lhs, expr_rename σ _ rhs]
  | _ => rw [Expr.rename]

lemma exprs_rename (σ : String → String) (found : List String) (es : List Expr) :
    exprs found (Expr.renameAll σ es) = exprs found es := by
  cases es with
  | nil => rfl
  | cons e es => rw [Expr.renameAll, exprs, exprs, expr_rename σ _ e, exprs_rename σ _ es]

end

lemma target_rename (σ : String → String) (found : List String) (t : Target) :
    target found (t.rename σ) = target found t := by
  cases t with
  | var => rfl
  | index _ t i => rw [Target.rename, target, target, expr_rename, expr_rename]

mutual

lemma stmt_rename (σ : String → String) (found : List String) (x : Stmt) :
    stmt found (x.rename σ) = stmt found x := by
  cases x with
  | declare _ _ init => rw [Stmt.rename, stmt, stmt, expr_rename]
  | assign _ t value => rw [Stmt.rename, stmt, stmt, target_rename, expr_rename]
  | branch _ cond body otherwise =>
    cases otherwise with
    | none => rw [Stmt.rename, stmt, stmt, expr_rename, stmts_rename]
    | some otherwise => rw [Stmt.rename, stmt, stmt, expr_rename, stmts_rename σ _ body, stmts_rename σ _ otherwise]
  | loop _ cond body => rw [Stmt.rename, stmt, stmt, expr_rename, stmts_rename]
  | count _ name first bound body =>
    rw [Stmt.rename, stmt, stmt, expr_rename, expr_rename, stmts_rename (update σ name name)]
  | give _ value =>
    cases value with
    | none => rfl
    | some e => rw [Stmt.rename, stmt, stmt, expr_rename]
  | leave => rfl
  | again => rfl
  | block _ body => rw [Stmt.rename, stmt, stmt, stmts_rename]
  | eval _ e => rw [Stmt.rename, stmt, stmt, expr_rename]

lemma stmts_rename (σ : String → String) (found : List String) (xs : List Stmt) :
    stmts found (Stmt.renameAll σ xs) = stmts found xs := by
  cases xs with
  | nil => rfl
  | cons x xs => rw [Stmt.renameAll, stmts, stmts, stmt_rename σ _ x, stmts_rename (x.renaming σ) _ xs]

end

end Literals

end ScriptHost
