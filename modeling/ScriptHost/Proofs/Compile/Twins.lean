import ScriptHost.Compile.Capacity
import ScriptHost.Proofs.Compile.Layout
import ScriptHost.Proofs.Machine.Simulation
import ScriptHost.Proofs.Syntax.Move

/-!
The code of the same trees in two submissions. It differs only in the numbers that functions and strings go by, and in
the lines it names.
-/

namespace ScriptHost

namespace Emit

variable (functions strings : Nat → Nat → Prop) (f : Position → Position)

inductive Op.Alike : Op → Op → Prop
  | plain {i i' : Instr} : i.Alike functions strings i' → Op.Alike (.plain i) (.plain i')
  | leave : Op.Alike .leave .leave
  | again : Op.Alike .again .again

structure Line.Alike (l l' : Line) : Prop where
  op : Op.Alike functions strings l.op l'.op
  place : ∃ p : Position, l.line = p.line ∧ l'.line = (f p).line

def Alike (code code' : Code) : Prop :=
  List.Forall₂ (Line.Alike functions strings f) code.toList code'.toList

structure Context.Twins (c c' : Context) : Prop where
  literals (v : String) : strings (c.strings.idxOf v) (c'.strings.idxOf v)
  calls (name : String) : Option.Rel (fun x x' => functions x.1 x'.1 ∧ x.2.decl.arity = x'.2.decl.arity)
    (c.known.find? name) (c'.known.find? name)

variable {functions strings : Nat → Nat → Prop} {f : Position → Position}

section Code

variable {code code' more more' : Code}

lemma Alike.size (h : Alike functions strings f code code') : code.size = code'.size :=
  h.length_eq

lemma Alike.append (h : Alike functions strings f code code') (h' : Alike functions strings f more more') :
    Alike functions strings f (code ++ more) (code' ++ more') := by
  rw [Alike, Array.toList_append, Array.toList_append]
  exact List.rel_append h h'

lemma alike_nil : Alike functions strings f #[] #[] := List.Forall₂.nil

lemma alike_line {op op' : Op} (h : Op.Alike functions strings op op') (p : Position) :
    Alike functions strings f #[⟨op, p.line⟩] #[⟨op', (f p).line⟩] :=
  List.Forall₂.cons ⟨h, p, rfl, rfl⟩ .nil

lemma alike_one {i i' : Instr} (h : i.Alike functions strings i') (p : Position) :
    Alike functions strings f (one i p) (one i' (f p)) :=
  alike_line (.plain h) p

lemma alike_same {i : Instr} (p : Position) (hstr : ∀ k, i ≠ .str k := by rintro _ ⟨⟩)
    (hcall : ∀ id argc, i ≠ .call id argc := by rintro _ _ ⟨⟩) :
    Alike functions strings f (one i p) (one i (f p)) :=
  alike_one (.same hstr hcall) p

lemma Alike.settle (h : Alike functions strings f code code') (exit round : Nat) :
    Alike functions strings f (code.map (Line.settle exit round)) (code'.map (Line.settle exit round)) := by
  rw [Alike, Array.toList_map, Array.toList_map]
  rw [List.forall₂_map_left_iff, List.forall₂_map_right_iff]
  refine List.Forall₂.imp ?_ h
  rintro ⟨op, line⟩ ⟨op', line'⟩ ⟨hop, hplace⟩
  cases hop with
  | plain hi => exact ⟨.plain hi, hplace⟩
  | leave => exact ⟨.plain (.same (by rintro _ ⟨⟩) (by rintro _ _ ⟨⟩)), hplace⟩
  | again => exact ⟨.plain (.same (by rintro _ ⟨⟩) (by rintro _ _ ⟨⟩)), hplace⟩

end Code

section Trees

variable (f) {c c' : Context}

lemma callCode_alike (hc : Context.Twins functions strings c c') (p : Position) (name : String) (argc : Nat) :
    Alike functions strings f (callCode c p name argc) (callCode c' (f p) name argc) := by
  rw [callCode, callCode]
  by_cases ha : argc > argumentLimit
  · rw [if_pos ha, if_pos ha]
    exact alike_nil
  · rw [if_neg ha, if_neg ha]
    cases Builtin.ofName? name with
    | some b => exact alike_same p
    | none =>
      have hcall := hc.calls name
      dsimp only
      generalize c.known.find? name = x at hcall ⊢
      generalize c'.known.find? name = y at hcall ⊢
      cases hcall with
      | none => exact alike_nil
      | @some x y hxy =>
        obtain ⟨hid, harity⟩ := hxy
        dsimp only
        rw [harity]
        by_cases hargc : y.2.decl.arity = argc
        · rw [if_pos hargc, if_pos hargc]
          exact alike_one (.call hid) p
        · rw [if_neg hargc, if_neg hargc]
          exact alike_nil

lemma logicJump_alike (op : LogicOp) (target : Nat) (p : Position) :
    Alike functions strings f (one (logicJump op target) p) (one (logicJump op target) (f p)) := by
  cases op <;> exact alike_same p

mutual

lemma expr_alike (hc : Context.Twins functions strings c c') (s : Slots) (start : Nat) (e : Expr) :
    Alike functions strings f (expr c s start e) (expr c' s start (e.move f)) := by
  cases e with
  | int p v => exact alike_same p
  | str p v => exact alike_one (.str (hc.literals v)) p
  | bool p b => exact alike_same p
  | nil p => exact alike_same p
  | var p name =>
    rw [Expr.move, expr, expr]
    cases s.find? name with
    | none => exact alike_same p
    | some slot => exact alike_same p
  | array p items =>
    rw [Expr.move, expr, expr]
    rw [Expr.moveAll_eq_map, List.length_map, ← Expr.moveAll_eq_map]
    exact (exprs_alike hc s start items).append (alike_same p)
  | index p target i =>
    have htarget := expr_alike hc s start target
    rw [Expr.move, expr, expr]
    rw [← htarget.size]
    exact (htarget.append (expr_alike hc s _ i)).append (alike_same p)
  | call p name args =>
    rw [Expr.move, expr, expr]
    rw [Expr.moveAll_eq_map, List.length_map, ← Expr.moveAll_eq_map]
    exact (exprs_alike hc s start args).append (callCode_alike f hc p name args.length)
  | unary p op operand =>
    by_cases hneg : ∃ q v, op = .neg ∧ operand = .int q v
    · obtain ⟨q, v, rfl, rfl⟩ := hneg
      exact alike_same p
    · have hneg' : ¬ ∃ q v, op = .neg ∧ operand.move f = .int q v := by
        rintro ⟨q, v, hop, hv⟩
        cases operand with
        | int q v => exact hneg ⟨q, v, hop, rfl⟩
        | _ => cases hv
      rw [Expr.move, expr_unary c s start p hneg, expr_unary c' s start (f p) hneg']
      exact (expr_alike hc s start operand).append (alike_same p)
  | binary p op lhs rhs =>
    have hlhs := expr_alike hc s start lhs
    rw [Expr.move, expr, expr]
    rw [← hlhs.size]
    exact (hlhs.append (expr_alike hc s _ rhs)).append (alike_same p)
  | logic p op lhs rhs =>
    have hlhs := expr_alike hc s start lhs
    have hrhs := expr_alike hc s (start + (expr c s start lhs).size + 1) rhs
    rw [Expr.move, expr, expr]
    rw [← hlhs.size, ← hrhs.size]
    exact ((hlhs.append (logicJump_alike f op _ p)).append hrhs).append (alike_same p)

lemma exprs_alike (hc : Context.Twins functions strings c c') (s : Slots) (start : Nat) (es : List Expr) :
    Alike functions strings f (exprs c s start #[] es) (exprs c' s start #[] (Expr.moveAll f es)) := by
  cases es with
  | nil => exact alike_nil
  | cons e es =>
    have he := expr_alike hc s start e
    rw [Expr.moveAll, exprs_cons, exprs_cons, ← he.size]
    exact he.append (exprs_alike hc s _ es)

end

lemma countTest_alike (counter exit : Nat) (p : Position) :
    Alike functions strings f
      (one (.load counter) p ++ one (.load (counter + 1)) p ++ one (.binary .lt) p ++ one (.jumpIfFalse exit) p)
      (one (.load counter) (f p) ++ one (.load (counter + 1)) (f p) ++ one (.binary .lt) (f p)
        ++ one (.jumpIfFalse exit) (f p)) :=
  (((alike_same p).append (alike_same p)).append (alike_same p)).append (alike_same p)

lemma countStep_alike (counter check : Nat) (p : Position) :
    Alike functions strings f
      (one (.load counter) p ++ one (.int 1) p ++ one (.binary .add) p ++ one (.store counter) p
        ++ one (.jump check) p)
      (one (.load counter) (f p) ++ one (.int 1) (f p) ++ one (.binary .add) (f p) ++ one (.store counter) (f p)
        ++ one (.jump check) (f p)) :=
  ((((alike_same p).append (alike_same p)).append (alike_same p)).append (alike_same p)).append (alike_same p)

lemma slots_move (s : Slots) (x : Stmt) : (x.move f).slots s = x.slots s := by
  cases x with
  | branch _ _ _ otherwise => cases otherwise <;> rfl
  | give _ value => cases value <;> rfl
  | _ => rfl

mutual

lemma stmt_alike (hc : Context.Twins functions strings c c') (s : Slots) (start : Nat) (x : Stmt) :
    Alike functions strings f (stmt c s start x).1 (stmt c' s start (x.move f)).1 := by
  cases x with
  | declare p name init => exact (expr_alike f hc s start init).append (alike_same p)
  | assign p t value =>
    cases t with
    | var q name =>
      have hvalue := expr_alike f hc s start value
      rw [Stmt.move, Target.move, stmt, stmt]
      cases s.find? name with
      | none => exact hvalue.append alike_nil
      | some slot => exact hvalue.append (alike_same p)
    | index q t i =>
      have htarget := expr_alike f hc s start t
      have hindex := expr_alike f hc s (start + (expr c s start t).size) i
      have hvalue := expr_alike f hc s (start + (expr c s start t).size
        + (expr c s (start + (expr c s start t).size) i).size) value
      rw [Stmt.move, Target.move, stmt, stmt]
      dsimp only
      rw [← htarget.size, ← hindex.size]
      exact ((htarget.append hindex).append hvalue).append (alike_same p)
  | branch p cond body otherwise =>
    have hcond := expr_alike f hc s start cond
    have hbody := stmts_alike hc s (start + (expr c s start cond).size + 1) body
    cases otherwise with
    | none =>
      rw [Stmt.move, stmt, stmt]
      dsimp only
      rw [← hcond.size, ← hbody.size]
      exact (hcond.append (alike_same p)).append hbody
    | some otherwise =>
      have hotherwise := stmts_alike hc s (start + (expr c s start cond).size + 1
        + (stmts c s (start + (expr c s start cond).size + 1) #[] body).size + 1) otherwise
      rw [Stmt.move, stmt, stmt]
      dsimp only
      rw [← hcond.size, ← hbody.size, ← hotherwise.size]
      exact (((hcond.append (alike_same p)).append hbody).append (alike_same p)).append hotherwise
  | loop p cond body =>
    have hcond := expr_alike f hc s start cond
    have hbody := stmts_alike hc s (start + (expr c s start cond).size + 1) body
    rw [Stmt.move, stmt, stmt]
    dsimp only
    rw [← hcond.size, ← hbody.size]
    exact ((hcond.append (alike_same p)).append (hbody.settle _ _)).append (alike_same p)
  | count p name first bound body =>
    have hfirst := (expr_alike f hc s start first).append (alike_same (i := .store s.next) p)
    have hbound := (expr_alike f hc (s.declare name) (start + (expr c s start first ++ one (.store s.next) p).size)
      bound).append (alike_same (i := .store (s.next + 1)) p)
    have hbody := stmts_alike hc ((s.declare name).declare "") (start
      + (expr c s start first ++ one (.store s.next) p).size
      + (expr c (s.declare name) (start + (expr c s start first ++ one (.store s.next) p).size) bound
        ++ one (.store (s.next + 1)) p).size + 4) body
    rw [Stmt.move, stmt, stmt]
    dsimp only
    rw [← hfirst.size, ← hbound.size, ← hbody.size]
    exact (((hfirst.append hbound).append (countTest_alike f s.next _ p)).append (hbody.settle _ _)).append
      (countStep_alike f s.next _ p)
  | give p value =>
    cases value with
    | none => exact (alike_same p).append (alike_same p)
    | some e => exact (expr_alike f hc s start e).append (alike_same p)
  | leave p => exact alike_line .leave p
  | again p => exact alike_line .again p
  | block _ body => exact stmts_alike hc s start body
  | eval p e => exact (expr_alike f hc s start e).append (alike_same p)

lemma stmts_alike (hc : Context.Twins functions strings c c') (s : Slots) (start : Nat) (xs : List Stmt) :
    Alike functions strings f (stmts c s start #[] xs) (stmts c' s start #[] (Stmt.moveAll f xs)) := by
  cases xs with
  | nil => exact alike_nil
  | cons x xs =>
    have hx := stmt_alike hc s start x
    rw [Stmt.moveAll, stmts_cons, stmts_cons, ← hx.size, stmt_slots, stmt_slots, slots_move f]
    exact hx.append (stmts_alike hc _ _ xs)

end

end Trees

section Functions

variable {code code' : Code}

lemma Line.Alike.instr? {l l' : Line} (h : Line.Alike functions strings f l l') :
    Option.Rel (Instr.Alike functions strings) l.instr? l'.instr? := by
  obtain ⟨op, line⟩ := l
  obtain ⟨op', line'⟩ := l'
  obtain ⟨hop, -⟩ := h
  cases hop with
  | plain hi => exact .some hi
  | leave => exact .none
  | again => exact .none

lemma Line.Alike.isSome {l l' : Line} (h : Line.Alike functions strings f l l') :
    l.instr?.isSome = true ↔ l'.instr?.isSome = true := by
  have hinstr := h.instr?
  generalize l.instr? = i at hinstr ⊢
  generalize l'.instr? = i' at hinstr ⊢
  cases hinstr <;> rfl

lemma Alike.settled (h : Alike functions strings f code code') :
    Alike functions strings f (code.filter (·.instr?.isSome)) (code'.filter (·.instr?.isSome)) := by
  rw [Alike, Array.toList_filter, Array.toList_filter]
  exact List.rel_filter (fun _ _ hl => hl.isSome) h

lemma Alike.instrs (h : Alike functions strings f code code') :
    List.Forall₂ (Instr.Alike functions strings) (code.filterMap Line.instr?).toList
      (code'.filterMap Line.instr?).toList := by
  rw [Array.toList_filterMap, Array.toList_filterMap]
  exact List.rel_filterMap (fun _ _ hl => hl.instr?) h

lemma Alike.usedSlots (h : Alike functions strings f code code') : usedSlots code = usedSlots code' := by
  rw [Emit.usedSlots, Emit.usedSlots, ← Array.foldl_toList, ← Array.foldl_toList]
  refine List.rel_foldl (P := Eq) ?_ rfl h
  rintro n _ rfl ⟨op, line⟩ ⟨op', line'⟩ ⟨hop, -⟩
  cases hop with
  | plain hi => cases hi <;> rfl
  | leave => rfl
  | again => rfl

lemma Alike.lines (h : Alike functions strings f code code') (hf : ∀ p : Position, (f p).line = p.line) :
    code.map (·.line) = code'.map (·.line) := by
  apply Array.toList_inj.mp
  rw [Array.toList_map, Array.toList_map]
  refine List.forall₂_eq_eq_eq ▸ List.rel_map ?_ h
  rintro l l' ⟨-, p, hp, hp'⟩
  exact hp.trans ((hf p).symm.trans hp'.symm)

variable {c c' : Context} {d d' : Definition}

lemma body_alike (hc : Context.Twins functions strings c c') (hd : d'.decl = d.decl.move f) :
    Alike functions strings f (body c d.decl) (body c' d'.decl) := by
  rw [body, body, hd, d.decl.params_move]
  exact ((stmts_alike f hc _ 0 d.decl.body).append (alike_same d.decl.place)).append (alike_same d.decl.place)

theorem function_alike (hc : Context.Twins functions strings c c') (hd : d'.decl = d.decl.move f) :
    Function.Alike functions strings (function c d) (function c' d') where
  locals := by
    rw [function, function]
    dsimp only
    rw [(body_alike hc hd).settled.usedSlots, hd, d.decl.params_move]
  code := (body_alike hc hd).settled.instrs

end Functions

end Emit

lemma Instr.Alike.storesBeyond {functions strings : Nat → Nat → Prop} {i i' : Instr}
    (h : i.Alike functions strings i') : Capacity.storesBeyond i = Capacity.storesBeyond i' := by
  cases h <;> rfl

lemma Function.Alike.storesBeyond {functions strings : Nat → Nat → Prop} {g g' : Function}
    (h : g.Alike functions strings g') :
    g.code.findIdx? Capacity.storesBeyond = g'.code.findIdx? Capacity.storesBeyond := by
  have hmap : g.code.map Capacity.storesBeyond = g'.code.map Capacity.storesBeyond := by
    apply Array.toList_inj.mp
    rw [Array.toList_map, Array.toList_map]
    exact List.forall₂_eq_eq_eq ▸ List.rel_map (fun _ _ hi => hi.storesBeyond) h.code
  have hfind (code : Array Instr) : code.findIdx? Capacity.storesBeyond =
      (code.map Capacity.storesBeyond).findIdx? id := by
    rw [Array.findIdx?_map]
    rfl
  rw [hfind, hfind, hmap]

lemma Compiler.shortage_alike {functions strings : Nat → Nat → Prop} {f : Position → Position}
    {c c' : Emit.Context} {d d' : Definition} (limits : CompilerLimits) (hc : c.Twins functions strings c')
    (hd : d'.decl = d.decl.move f) :
    shortage? limits d' (Emit.function c' d') = shortage? limits d (Emit.function c d) := by
  have h := Emit.function_alike hc hd
  have hname : (Emit.function c' d').name = (Emit.function c d).name := congrArg (·.name) hd
  have harity : (Emit.function c' d').arity = (Emit.function c d).arity := by
    rw [Emit.function, Emit.function]
    dsimp only
    rw [hd, d.decl.arity_move]
  rw [shortage?, shortage?, Capacity.shortage?, Capacity.shortage?, h.storesBeyond, h.locals, hname, harity,
    ← Array.length_toList, ← Array.length_toList, h.code.length_eq, hd, d.decl.params_move]

end ScriptHost
