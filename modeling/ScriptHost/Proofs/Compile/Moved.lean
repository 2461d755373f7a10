import ScriptHost.Compile.Check
import ScriptHost.Proofs.Syntax.Move

/-!
The check of trees whose places are moved. What it finds is moved with them, and of the catalog it only needs to know
which calls are wrong.
-/

namespace ScriptHost.Check

variable (f : Position → Position)

def Variable.move (v : Variable) : Variable :=
  ⟨v.name, f v.place, v.used⟩

def State.move (s : State) : State :=
  ⟨s.scopes.map (·.map (Variable.move f)), s.findings.map (Finding.move f)⟩

lemma useIn_move (name : String) (vs : List Variable) :
    useIn name (vs.map (Variable.move f)) = (useIn name vs).map (·.map (Variable.move f)) := by
  induction vs with
  | nil => rfl
  | cons v vs ih =>
    rw [List.map_cons, useIn, useIn]
    by_cases hv : (v.name == name) = true
    · rw [if_pos hv]
      exact if_pos hv
    · rw [if_neg hv]
      refine (if_neg hv).trans ?_
      rw [ih]
      cases useIn name vs <;> rfl

lemma useAmong_move (name : String) (scopes : List (List Variable)) :
    useAmong name (scopes.map (·.map (Variable.move f))) =
      (useAmong name scopes).map (·.map (·.map (Variable.move f))) := by
  induction scopes with
  | nil => rfl
  | cons vs scopes ih =>
    rw [List.map_cons, useAmong, useAmong, useIn_move]
    cases useIn name vs with
    | some us => rfl
    | none =>
      rw [Option.map_none]
      dsimp only
      rw [ih]
      cases useAmong name scopes <;> rfl

namespace State

variable (s : State)

lemma report_move (p : Position) (problem : Problem) :
    (s.move f).report (f p) problem = (s.report p problem).move f := rfl

lemma openScope_move : (s.move f).openScope = s.openScope.move f := rfl

lemma declare_move (name : String) (p : Position) (used : Bool) :
    (s.move f).declare name (f p) used = (s.declare name p used).move f := by
  obtain ⟨scopes, findings⟩ := s
  cases scopes <;> rfl

lemma closeScope_move : (s.move f).closeScope = s.closeScope.move f := by
  obtain ⟨scopes, findings⟩ := s
  cases scopes with
  | nil => rfl
  | cons scope scopes =>
    have hfilter : (scope.map (Variable.move f)).filter isNeglected =
        (scope.filter isNeglected).map (Variable.move f) := by
      rw [List.filter_map]
      rfl
    simp only [move, closeScope, List.map_cons, List.map_append, List.map_map, hfilter]
    rfl

lemma inScope_move (name : String) : (s.move f).inScope name = s.inScope name := by
  simp only [inScope, move, List.any_map]
  congr 1
  funext scope
  exact List.any_map

lemma inInnermost_move (name : String) : (s.move f).inInnermost name = s.inInnermost name := by
  obtain ⟨scopes, findings⟩ := s
  cases scopes with
  | nil => rfl
  | cons scope scopes => exact List.any_map

lemma readVariable_move (p : Position) (name : String) :
    (s.move f).readVariable (f p) name = (s.readVariable p name).move f := by
  have hscopes : (s.move f).scopes = s.scopes.map (·.map (Variable.move f)) := rfl
  rw [readVariable, readVariable, hscopes, useAmong_move]
  cases useAmong name s.scopes <;> rfl

end State

def SameCalls (known known' : Catalog) : Prop :=
  ∀ name argc, callProblem? known' name argc = callProblem? known name argc

variable {known known' : Catalog}

mutual

lemma expr_move (hk : SameCalls known known') (s : State) (e : Expr) :
    expr known' (s.move f) (e.move f) = (expr known s e).move f := by
  cases e with
  | var => exact s.readVariable_move f _ _
  | array _ items => exact exprs_move hk s items
  | index _ target i =>
    rw [Expr.move, expr, expr]
    rw [expr_move hk s target, expr_move hk _ i]
  | call p name args =>
    rw [Expr.move, expr, expr]
    rw [exprs_move hk s args, hk, Expr.moveAll_eq_map, List.length_map]
    cases callProblem? known name args.length <;> rfl
  | unary _ _ operand => exact expr_move hk s operand
  | binary _ _ lhs rhs =>
    rw [Expr.move, expr, expr]
    rw [expr_move hk s lhs, expr_move hk _ rhs]
  | logic _ _ lhs rhs =>
    rw [Expr.move, expr, expr]
    rw [expr_move hk s lhs, expr_move hk _ rhs]
  | _ => rfl

lemma exprs_move (hk : SameCalls known known') (s : State) (es : List Expr) :
    exprs known' (s.move f) (Expr.moveAll f es) = (exprs known s es).move f := by
  cases es with
  | nil => rfl
  | cons e es =>
    rw [Expr.moveAll, exprs, exprs]
    rw [expr_move hk s e, exprs_move hk _ es]

end

lemma target_move (hk : SameCalls known known') (s : State) (t : Target) :
    target known' (s.move f) (t.move f) = (target known s t).move f := by
  cases t with
  | var => rfl
  | index _ t i =>
    rw [Target.move, target, target]
    rw [expr_move f hk s t, expr_move f hk _ i]

lemma written_move (s : State) (t : Target) : written (s.move f) (t.move f) = (written s t).move f := by
  cases t with
  | var p name =>
    rw [Target.move, written, written]
    rw [s.inScope_move]
    split <;> rfl
  | index => rfl

lemma jump_move (inLoop : Bool) (s : State) (p : Position) (keyword : String) :
    jump inLoop (s.move f) (f p) keyword = ((jump inLoop s p keyword).1.move f, (jump inLoop s p keyword).2) := by
  cases inLoop <;> rfl

mutual

lemma stmt_move (hk : SameCalls known known') (inLoop : Bool) (s : State) (x : Stmt) :
    stmt known' inLoop (s.move f) (x.move f) =
      ((stmt known inLoop s x).1.move f, (stmt known inLoop s x).2) := by
  cases x with
  | declare p name init =>
    rw [Stmt.move, stmt, stmt]
    rw [s.inInnermost_move]
    cases s.inInnermost name with
    | true =>
      simp only [if_true]
      rw [s.report_move, expr_move f hk, State.declare_move]
    | false =>
      simp only [Bool.false_eq_true, if_false]
      rw [expr_move f hk, State.declare_move]
  | assign _ t value =>
    rw [Stmt.move, stmt, stmt]
    rw [target_move f hk, expr_move f hk, written_move]
  | branch _ cond body otherwise =>
    cases otherwise with
    | none =>
      rw [Stmt.move, stmt, stmt]
      rw [expr_move f hk, State.openScope_move, stmts_move hk]
      dsimp only
      rw [State.closeScope_move]
    | some otherwise =>
      rw [Stmt.move, stmt, stmt]
      rw [expr_move f hk, State.openScope_move, stmts_move hk _ _ _ _ body]
      dsimp only
      rw [State.closeScope_move, State.openScope_move, stmts_move hk _ _ _ _ otherwise]
      dsimp only
      rw [State.closeScope_move]
  | loop _ cond body =>
    rw [Stmt.move, stmt, stmt]
    rw [expr_move f hk, State.openScope_move, stmts_move hk]
    dsimp only
    rw [State.closeScope_move]
  | count p name first bound body =>
    rw [Stmt.move, stmt, stmt]
    dsimp only
    rw [State.openScope_move, expr_move f hk, State.declare_move, expr_move f hk, State.openScope_move, stmts_move hk]
    dsimp only
    rw [State.closeScope_move, State.closeScope_move]
  | give _ value =>
    cases value with
    | none => rfl
    | some e =>
      rw [Stmt.move, stmt, stmt]
      rw [expr_move f hk]
  | leave p => exact jump_move f inLoop s p "break"
  | again p => exact jump_move f inLoop s p "continue"
  | block _ body =>
    rw [Stmt.move, stmt, stmt]
    rw [State.openScope_move, stmts_move hk]
    dsimp only
    rw [State.closeScope_move]
  | eval _ e =>
    rw [Stmt.move, stmt, stmt]
    rw [expr_move f hk]

lemma stmts_move (hk : SameCalls known known') (inLoop ended warned : Bool) (s : State) (xs : List Stmt) :
    stmts known' inLoop ended warned (s.move f) (Stmt.moveAll f xs) =
      ((stmts known inLoop ended warned s xs).1.move f, (stmts known inLoop ended warned s xs).2) := by
  cases xs with
  | nil => rfl
  | cons x xs =>
    rw [Stmt.moveAll, stmts, stmts]
    have hreport : (if (ended && !warned) = true then (s.move f).report (x.move f).place .unreachable else s.move f) =
        (if (ended && !warned) = true then s.report x.place .unreachable else s).move f := by
      rw [x.place_move]
      split <;> rfl
    dsimp only
    rw [hreport, stmt_move hk]
    exact stmts_move hk inLoop _ _ _ xs

end

lemma param_move (s : State) (p : String × Position) :
    param (s.move f) (p.1, f p.2) = (param s p).move f := by
  rw [param, param, s.inInnermost_move]
  split
  · rfl
  · exact s.declare_move f _ _ _

theorem function_move (hk : SameCalls known known') (d : FunctionDecl) :
    function known' (d.move f) = (function known d).map (Finding.move f) := by
  have hparams : ∀ (ps : List (String × Position)) (s : State),
      (ps.map fun p => (p.1, f p.2)).foldl param (s.move f) = (ps.foldl param s).move f := by
    intro ps
    induction ps with
    | nil => exact fun s => rfl
    | cons p ps ih =>
      intro s
      rw [List.map_cons, List.foldl_cons, List.foldl_cons, param_move, ih]
  have hstart : (⟨[[]], []⟩ : State) = (⟨[[]], []⟩ : State).move f := rfl
  rw [function, function]
  rw [hstart]
  simp only [FunctionDecl.move]
  rw [hparams, stmts_move f hk]
  dsimp only
  rw [State.closeScope_move, ← hstart, State.move, List.map_reverse]

end ScriptHost.Check
