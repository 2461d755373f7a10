import ScriptHost.Proofs.Compile.Layout
import ScriptHost.Proofs.Syntax.Rename

/-!
What renaming variables leaves alone. Code names slots and not variables, so it is the same for trees whose variables
have the same slots under other names; and such trees keep the same rules.
-/

open Function (update)

namespace ScriptHost

structure Renames (w : String) (σ : String → String) : Prop where
  only (x : String) : σ x = x ∨ σ x = w
  hidden : σ "" = ""
  named : w ≠ ""

namespace Renames

variable {w : String} {σ : String → String}

lemma shadow (h : Renames w σ) (name : String) : Renames w (update σ name name) where
  only x := by
    by_cases hx : x = name
    · rw [hx, Function.update_self]
      exact .inl rfl
    · rw [Function.update_of_ne hx]
      exact h.only x
  hidden := by
    by_cases hx : "" = name
    · rw [← hx, Function.update_self]
    · rw [Function.update_of_ne hx]
      exact h.hidden
  named := h.named

lemma ne (h : Renames w σ) {x name : String} (hname : name ≠ w) (hx : x ≠ name) : σ x ≠ name := by
  rcases h.only x with heq | heq
  · rwa [heq]
  · rw [heq]
    exact hname.symm

lemma single {v w : String} (hv : v ≠ "") (hw : w ≠ "") : Renames w (update id v w) where
  only x := by
    by_cases hx : x = v
    · rw [hx, Function.update_self]
      exact .inr rfl
    · rw [Function.update_of_ne hx]
      exact .inl rfl
  hidden := Function.update_of_ne hv.symm w id
  named := hw

end Renames

/-- The variables other than `w` have the same slots, under their new names. -/
structure Slots.Renamed (w : String) (σ : String → String) (s s' : Slots) : Prop where
  names : Renames w σ
  next : s'.next = s.next
  find (x : String) : x ≠ w → s'.find? (σ x) = s.find? x

namespace Slots.Renamed

variable {w : String} {σ : String → String} {s s' : Slots}

lemma declare (h : Renamed w σ s s') {name : String} (hname : name ≠ w) :
    Renamed w (update σ name name) (s.declare name) (s'.declare name) where
  names := h.names.shadow name
  next := congrArg (· + 1) h.next
  find x hx := by
    rw [Slots.find?_declare, Slots.find?_declare]
    by_cases hn : x = name
    · rw [hn, Function.update_self, if_pos rfl, if_pos rfl, h.next]
    · rw [Function.update_of_ne hn, if_neg (h.names.ne hname hn).symm, if_neg (Ne.symm hn)]
      exact h.find x hx

lemma hide (h : Renamed w σ s s') : Renamed w σ (s.declare "") (s'.declare "") := by
  have hdeclare := h.declare h.names.named.symm
  rwa [Function.update_eq_self_iff.mpr h.names.hidden.symm] at hdeclare

lemma single {v : String} (hv : v ≠ "") (hw : w ≠ "") (s : Slots) :
    Renamed w (update id v w) (s.declare v) (s.declare w) where
  names := Renames.single hv hw
  next := rfl
  find x hx := by
    rw [Slots.find?_declare, Slots.find?_declare]
    by_cases hn : x = v
    · rw [hn, Function.update_self, if_pos rfl, if_pos rfl]
    · rw [Function.update_of_ne hn, id, if_neg hx.symm, if_neg (Ne.symm hn)]

end Slots.Renamed

/-! The code is the same. -/

namespace Emit

variable {c : Context} {w : String}

mutual

lemma expr_rename {σ : String → String} {s s' : Slots} (h : s.Renamed w σ s') (start : Nat)
    (e : Expr) (he : w ∉ e.mentions) :
    expr c s' start (e.rename σ) = expr c s start e := by
  cases e with
  | var p name =>
    have hname : name ≠ w := fun heq => he (heq ▸ List.mem_singleton_self name)
    rw [Expr.rename, expr, expr, h.find name hname]
  | array p items =>
    rw [Expr.rename, expr, expr, exprs_rename h start items he, Expr.renameAll_eq_map, List.length_map]
  | index p target i =>
    rw [Expr.mentions, List.mem_append, not_or] at he
    rw [Expr.rename, expr, expr]
    rw [expr_rename h start target he.1, expr_rename h _ i he.2]
  | call p name args =>
    rw [Expr.rename, expr, expr, exprs_rename h start args he, Expr.renameAll_eq_map, List.length_map]
  | unary p op operand =>
    by_cases hneg : ∃ q v, op = .neg ∧ operand = .int q v
    · obtain ⟨q, v, rfl, rfl⟩ := hneg
      rfl
    · have hneg' : ¬ ∃ q v, op = .neg ∧ operand.rename σ = .int q v := by
        rintro ⟨q, v, hop, hv⟩
        cases operand with
        | int q v => exact hneg ⟨q, v, hop, rfl⟩
        | _ => cases hv
      rw [Expr.rename, expr_unary c s start p hneg, expr_unary c s' start p hneg', expr_rename h start operand he]
  | binary p op lhs rhs =>
    rw [Expr.mentions, List.mem_append, not_or] at he
    rw [Expr.rename, expr, expr]
    rw [expr_rename h start lhs he.1, expr_rename h _ rhs he.2]
  | logic p op lhs rhs =>
    rw [Expr.mentions, List.mem_append, not_or] at he
    rw [Expr.rename, expr, expr]
    rw [expr_rename h start lhs he.1, expr_rename h _ rhs he.2]
  | _ => rw [Expr.rename, expr, expr]

lemma exprs_rename {σ : String → String} {s s' : Slots} (h : s.Renamed w σ s') (start : Nat)
    (es : List Expr) (hes : w ∉ Expr.allMentions es) :
    exprs c s' start #[] (Expr.renameAll σ es) = exprs c s start #[] es := by
  cases es with
  | nil => rfl
  | cons e es =>
    rw [Expr.allMentions, List.mem_append, not_or] at hes
    rw [Expr.renameAll, exprs_cons, exprs_cons, expr_rename h start e hes.1, exprs_rename h _ es hes.2]

end

lemma slots_rename {σ : String → String} {s s' : Slots} (h : s.Renamed w σ s') (x : Stmt) (hx : w ∉ x.mentions) :
    (x.slots s).Renamed w (x.renaming σ) ((x.rename σ).slots s') := by
  cases x with
  | declare p name init => exact h.declare fun heq => hx (heq ▸ List.mem_cons_self)
  | branch _ _ _ otherwise => cases otherwise <;> exact h
  | give _ value => cases value <;> exact h
  | _ => exact h

mutual

lemma stmt_rename {σ : String → String} {s s' : Slots} (h : s.Renamed w σ s') (start : Nat)
    (x : Stmt) (hx : w ∉ x.mentions) :
    (stmt c s' start (x.rename σ)).1 = (stmt c s start x).1 := by
  cases x with
  | declare p name init =>
    rw [Stmt.mentions, List.mem_cons, not_or] at hx
    rw [Stmt.rename, stmt, stmt]
    dsimp only
    rw [expr_rename h start init hx.2, h.next]
  | assign p t value =>
    rw [Stmt.mentions, List.mem_append, not_or] at hx
    cases t with
    | var q name =>
      have hname : name ≠ w := fun heq => hx.1 (heq ▸ List.mem_singleton_self name)
      rw [Stmt.rename, Target.rename, stmt, stmt]
      dsimp only
      rw [expr_rename h start value hx.2, h.find name hname]
    | index q t i =>
      obtain ⟨ht, hvalue⟩ := hx
      rw [Target.mentions, List.mem_append, not_or] at ht
      rw [Stmt.rename, Target.rename, stmt, stmt]
      dsimp only
      rw [expr_rename h start t ht.1, expr_rename h _ i ht.2, expr_rename h _ value hvalue]
  | branch p cond body otherwise =>
    cases otherwise with
    | none =>
      rw [Stmt.mentions, List.mem_append, not_or] at hx
      rw [Stmt.rename, stmt, stmt]
      dsimp only
      rw [expr_rename h start cond hx.1, stmts_rename h _ body hx.2]
    | some otherwise =>
      rw [Stmt.mentions, List.mem_append, List.mem_append, not_or, not_or] at hx
      rw [Stmt.rename, stmt, stmt]
      dsimp only
      rw [expr_rename h start cond hx.1.1, stmts_rename h _ body hx.1.2, stmts_rename h _ otherwise hx.2]
  | loop p cond body =>
    rw [Stmt.mentions, List.mem_append, not_or] at hx
    rw [Stmt.rename, stmt, stmt]
    dsimp only
    rw [expr_rename h start cond hx.1, stmts_rename h _ body hx.2]
  | count p name first bound body =>
    simp only [Stmt.mentions, List.cons_append, List.mem_cons, List.mem_append, not_or] at hx
    obtain ⟨hname, ⟨hfirst, hbound⟩, hbody⟩ := hx
    have hinner := h.declare (Ne.symm hname)
    rw [Stmt.rename, stmt, stmt]
    dsimp only
    rw [expr_rename h start first hfirst, h.next, expr_rename hinner _ bound hbound,
      stmts_rename hinner.hide _ body hbody]
  | give p value =>
    cases value with
    | none => rfl
    | some e =>
      rw [Stmt.rename, stmt, stmt]
      dsimp only
      rw [expr_rename h start e hx]
  | leave => rfl
  | again => rfl
  | block _ body =>
    rw [Stmt.rename, stmt, stmt]
    exact stmts_rename h start body hx
  | eval p e =>
    rw [Stmt.rename, stmt, stmt]
    dsimp only
    rw [expr_rename h start e hx]

lemma stmts_rename {σ : String → String} {s s' : Slots} (h : s.Renamed w σ s') (start : Nat)
    (xs : List Stmt) (hxs : w ∉ Stmt.allMentions xs) :
    stmts c s' start #[] (Stmt.renameAll σ xs) = stmts c s start #[] xs := by
  cases xs with
  | nil => rfl
  | cons x xs =>
    rw [Stmt.allMentions, List.mem_append, not_or] at hxs
    rw [Stmt.renameAll, stmts_cons, stmts_cons, stmt_rename h start x hxs.1, stmt_slots, stmt_slots,
      stmts_rename (slots_rename h x hxs.1) _ xs hxs.2]

end

end Emit

/-! The rules are kept. -/

structure Scopes.Renamed (w : String) (σ : String → String) (scopes scopes' : Scopes) : Prop where
  names : Renames w σ
  fresh : ∀ n ∈ scopes'.headD [], n ≠ w → n ∈ scopes.headD []
  there : ∀ x ∈ scopes.flatten, x ≠ w → σ x ∈ scopes'.flatten
  opened : scopes ≠ []
  opened' : scopes' ≠ []

namespace Scopes.Renamed

variable {w : String} {σ : String → String} {scopes scopes' : Scopes}

lemma enter (h : Renamed w σ scopes scopes') : Renamed w σ ([] :: scopes) ([] :: scopes') :=
  ⟨h.names, fun _ hn => (List.not_mem_nil hn).elim, h.there, List.cons_ne_nil _ _, List.cons_ne_nil _ _⟩

lemma declare (h : Renamed w σ scopes scopes') {name : String} (hname : name ≠ w) :
    Renamed w (update σ name name) (scopes.declare name) (scopes'.declare name) := by
  obtain ⟨scope, rest, rfl⟩ := List.exists_cons_of_ne_nil h.opened
  obtain ⟨scope', rest', rfl⟩ := List.exists_cons_of_ne_nil h.opened'
  refine ⟨h.names.shadow name, fun n hn hw => ?_, fun x hx hw => ?_, List.cons_ne_nil _ _, List.cons_ne_nil _ _⟩
  · rcases List.mem_cons.mp hn with rfl | hn
    · exact List.mem_cons_self
    · exact List.mem_cons_of_mem _ (h.fresh n hn hw)
  · by_cases hxn : x = name
    · rw [hxn, Function.update_self]
      exact List.mem_cons_self
    · rw [Function.update_of_ne hxn]
      exact List.mem_cons_of_mem _ (h.there x (List.mem_of_ne_of_mem hxn hx) hw)

lemma single {v : String} (hv : v ≠ "") (hw : w ≠ "") (scopes : Scopes) :
    Renamed w (update id v w) ([v] :: scopes) ([w] :: scopes) where
  names := Renames.single hv hw
  fresh n hn hne := absurd (List.mem_singleton.mp hn) hne
  there x hx _ := by
    by_cases hxv : x = v
    · rw [hxv, Function.update_self]
      exact List.mem_cons_self
    · rw [Function.update_of_ne hxv]
      exact List.mem_cons_of_mem _ (List.mem_of_ne_of_mem hxv hx)
  opened := List.cons_ne_nil _ _
  opened' := List.cons_ne_nil _ _

end Scopes.Renamed

section Rules

variable {known : Catalog} {w : String}

mutual

lemma Expr.Proper.rename {σ : String → String} {names names' : List String}
    (hn : ∀ x ∈ names, x ≠ w → σ x ∈ names') {e : Expr} (he : w ∉ e.mentions) (hp : e.Proper known names) :
    (e.rename σ).Proper known names' := by
  cases e with
  | var p name => exact hn name hp fun heq => he (heq ▸ List.mem_singleton_self name)
  | array p items => exact Expr.AllProper.rename hn he hp
  | index p target i =>
    rw [Expr.mentions, List.mem_append, not_or] at he
    exact ⟨Expr.Proper.rename hn he.1 hp.1, Expr.Proper.rename hn he.2 hp.2⟩
  | call p name args =>
    refine ⟨Expr.AllProper.rename hn he hp.1, ?_⟩
    rw [Expr.renameAll_eq_map, List.length_map]
    exact hp.2
  | unary p op operand => exact Expr.Proper.rename (e := operand) hn he hp
  | binary p op lhs rhs =>
    rw [Expr.mentions, List.mem_append, not_or] at he
    exact ⟨Expr.Proper.rename hn he.1 hp.1, Expr.Proper.rename hn he.2 hp.2⟩
  | logic p op lhs rhs =>
    rw [Expr.mentions, List.mem_append, not_or] at he
    exact ⟨Expr.Proper.rename hn he.1 hp.1, Expr.Proper.rename hn he.2 hp.2⟩
  | _ => trivial

lemma Expr.AllProper.rename {σ : String → String} {names names' : List String}
    (hn : ∀ x ∈ names, x ≠ w → σ x ∈ names') {es : List Expr} (hes : w ∉ Expr.allMentions es)
    (hp : Expr.AllProper known names es) : Expr.AllProper known names' (Expr.renameAll σ es) := by
  cases es with
  | nil => trivial
  | cons e es =>
    rw [Expr.allMentions, List.mem_append, not_or] at hes
    exact ⟨Expr.Proper.rename hn hes.1 hp.1, Expr.AllProper.rename hn hes.2 hp.2⟩

end

lemma Target.Proper.rename {σ : String → String} {names names' : List String}
    (hn : ∀ x ∈ names, x ≠ w → σ x ∈ names') {t : Target} (ht : w ∉ t.mentions) (hp : t.Proper known names) :
    (t.rename σ).Proper known names' := by
  cases t with
  | var p name => exact hn name hp fun heq => ht (heq ▸ List.mem_singleton_self name)
  | index p target i =>
    rw [Target.mentions, List.mem_append, not_or] at ht
    exact ⟨hp.1.rename hn ht.1, hp.2.rename hn ht.2⟩

lemma Scopes.Renamed.after {σ : String → String} {scopes scopes' : Scopes} (h : scopes.Renamed w σ scopes')
    {x : Stmt} (hx : w ∉ x.mentions) : (x.scopes scopes).Renamed w (x.renaming σ) ((x.rename σ).scopes scopes') := by
  cases x with
  | declare p name init => exact h.declare fun heq => hx (heq ▸ List.mem_cons_self)
  | branch _ _ _ otherwise => cases otherwise <;> exact h
  | give _ value => cases value <;> exact h
  | _ => exact h

mutual

lemma Stmt.Proper.rename {σ : String → String} {inLoop : Bool} {scopes scopes' : Scopes}
    (h : scopes.Renamed w σ scopes') {x : Stmt} (hx : w ∉ x.mentions) (hp : x.Proper known inLoop scopes) :
    (x.rename σ).Proper known inLoop scopes' := by
  cases x with
  | declare p name init =>
    rw [Stmt.mentions, List.mem_cons, not_or] at hx
    exact ⟨fun hmem => hp.1 (h.fresh name hmem (Ne.symm hx.1)), hp.2.rename h.there hx.2⟩
  | assign p t value =>
    rw [Stmt.mentions, List.mem_append, not_or] at hx
    exact ⟨hp.1.rename h.there hx.1, hp.2.rename h.there hx.2⟩
  | branch p cond body otherwise =>
    cases otherwise with
    | none =>
      rw [Stmt.mentions, List.mem_append, not_or] at hx
      exact ⟨hp.1.rename h.there hx.1, Stmt.AllProper.rename h.enter hx.2 hp.2⟩
    | some otherwise =>
      rw [Stmt.mentions, List.mem_append, List.mem_append, not_or, not_or] at hx
      exact ⟨hp.1.rename h.there hx.1.1, Stmt.AllProper.rename h.enter hx.1.2 hp.2.1,
        Stmt.AllProper.rename h.enter hx.2 hp.2.2⟩
  | loop p cond body =>
    rw [Stmt.mentions, List.mem_append, not_or] at hx
    exact ⟨hp.1.rename h.there hx.1, Stmt.AllProper.rename h.enter hx.2 hp.2⟩
  | count p name first bound body =>
    simp only [Stmt.mentions, List.cons_append, List.mem_cons, List.mem_append, not_or] at hx
    obtain ⟨hname, ⟨hfirst, hbound⟩, hbody⟩ := hx
    have hinner := h.enter.declare (Ne.symm hname)
    exact ⟨hp.1.rename h.there hfirst, hp.2.1.rename hinner.there hbound,
      Stmt.AllProper.rename hinner.enter hbody hp.2.2⟩
  | give p value =>
    cases value with
    | none => trivial
    | some e => exact Expr.Proper.rename (e := e) h.there hx hp
  | leave => exact hp
  | again => exact hp
  | block _ body =>
    change w ∉ Stmt.allMentions body at hx
    exact Stmt.AllProper.rename h.enter hx hp
  | eval p e => exact Expr.Proper.rename (e := e) h.there hx hp

lemma Stmt.AllProper.rename {σ : String → String} {inLoop : Bool} {scopes scopes' : Scopes}
    (h : scopes.Renamed w σ scopes') {xs : List Stmt} (hxs : w ∉ Stmt.allMentions xs)
    (hp : Stmt.AllProper known inLoop scopes xs) : Stmt.AllProper known inLoop scopes' (Stmt.renameAll σ xs) := by
  cases xs with
  | nil => trivial
  | cons x xs =>
    rw [Stmt.allMentions, List.mem_append, not_or] at hxs
    exact ⟨Stmt.Proper.rename h hxs.1 hp.1, Stmt.AllProper.rename (h.after hxs.1) hxs.2 hp.2⟩

end

end Rules

end ScriptHost
