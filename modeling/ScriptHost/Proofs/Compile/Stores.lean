import ScriptHost.Proofs.Compile.Stations
import ScriptHost.Proofs.Compile.Statics

/-!
Where code stores. Expressions never store, and a statement stores to slots that were free before it and to those of the
variables from outside that it assigns.
-/

namespace ScriptHost

/-- Those of some variables that are still the ones from before a statement. -/
def Stmt.outside (names : List String) : Stmt → List String
  | .declare _ name _ => names.filter (· ≠ name)
  | _ => names

mutual

def Stmt.assigned : Stmt → List String
  | .assign _ (.var _ name) _ => [name]
  | .branch _ _ body none => Stmt.allAssigned body
  | .branch _ _ body (some otherwise) => Stmt.allAssigned body ++ Stmt.allAssigned otherwise
  | .loop _ _ body => Stmt.allAssigned body
  | .count _ name _ _ body => (Stmt.allAssigned body).filter (· ≠ name)
  | .block _ body => Stmt.allAssigned body
  | _ => []

def Stmt.allAssigned : List Stmt → List String
  | [] => []
  | x :: xs => x.assigned ++ x.outside (Stmt.allAssigned xs)

end

section Ready

variable {c : Emit.Context}

mutual

lemma Stmt.assigned_subset {inLoop : Bool} {names : List String} (x : Stmt) (hx : x.Ready c inLoop names) :
    x.assigned ⊆ names := by
  cases x with
  | assign p t value =>
    cases t with
    | var => exact List.cons_subset.mpr ⟨hx.1, List.nil_subset _⟩
    | index => exact List.nil_subset _
  | branch p cond body otherwise =>
    cases otherwise with
    | none => exact Stmt.allAssigned_subset body hx.2
    | some otherwise =>
      exact List.append_subset.mpr ⟨Stmt.allAssigned_subset body hx.2.1, Stmt.allAssigned_subset otherwise hx.2.2⟩
  | loop p cond body => exact Stmt.allAssigned_subset body hx.2
  | count p name first bound body =>
    intro n hn
    obtain ⟨hn, hne⟩ := List.mem_filter.mp hn
    exact (List.mem_cons.mp (Stmt.allAssigned_subset body hx.2.2.2 hn)).resolve_left (by simpa using hne)
  | block p body => exact Stmt.allAssigned_subset body hx
  | declare | give | leave | again | eval => exact List.nil_subset _

lemma Stmt.allAssigned_subset {inLoop : Bool} {names : List String} (xs : List Stmt)
    (hxs : Stmt.AllReady c inLoop names xs) : Stmt.allAssigned xs ⊆ names := by
  cases xs with
  | nil => exact List.nil_subset _
  | cons x xs =>
    have hrest := Stmt.allAssigned_subset xs hxs.2
    refine List.append_subset.mpr ⟨Stmt.assigned_subset x hxs.1, ?_⟩
    cases x with
    | declare p name init =>
      intro n hn
      obtain ⟨hn, hne⟩ := List.mem_filter.mp hn
      exact (List.mem_cons.mp (hrest hn)).resolve_left (by simpa using hne)
    | _ => exact hrest

end

end Ready

namespace Emit

variable {c : Context}

lemma callCode_stores (P : Nat → Prop) (p : Position) (name : String) (argc : Nat) :
    StoresIn P (callCode c p name argc) := by
  have hnone : StoresIn P #[] := by simp [StoresIn]
  rw [callCode]
  split
  · exact hnone
  · split
    · simp [storesIn_one]
    · split
      · split
        · simp [storesIn_one]
        · exact hnone
      · exact hnone

mutual

lemma expr_stores (P : Nat → Prop) (s : Slots) (start : Nat) (e : Expr) : StoresIn P (expr c s start e) := by
  cases e with
  | int | str | bool | nil => simp [expr, storesIn_one]
  | var p name =>
    rw [expr, storesIn_one]
    cases s.find? name <;> simp
  | array p items =>
    rw [expr, storesIn_append, storesIn_one]
    exact ⟨exprs_stores P s start items, by simp⟩
  | index p target i =>
    simp only [expr, storesIn_append, storesIn_one]
    exact ⟨⟨expr_stores P s _ target, expr_stores P s _ i⟩, by simp⟩
  | call p name args =>
    rw [expr, storesIn_append]
    exact ⟨exprs_stores P s start args, callCode_stores P p name args.length⟩
  | unary p op operand =>
    by_cases hlit : ∃ q v, op = .neg ∧ operand = .int q v
    · obtain ⟨q, v, rfl, rfl⟩ := hlit
      simp [expr, storesIn_one]
    · rw [expr_unary c s start p hlit, storesIn_append, storesIn_one]
      exact ⟨expr_stores P s start operand, by simp⟩
  | binary p op lhs rhs =>
    simp only [expr, storesIn_append, storesIn_one]
    exact ⟨⟨expr_stores P s _ lhs, expr_stores P s _ rhs⟩, by simp⟩
  | logic p op lhs rhs =>
    simp only [expr, storesIn_append, storesIn_one]
    exact ⟨⟨⟨expr_stores P s _ lhs, by cases op <;> simp [logicJump]⟩, expr_stores P s _ rhs⟩, by simp⟩

lemma exprs_stores (P : Nat → Prop) (s : Slots) (start : Nat) (es : List Expr) :
    StoresIn P (exprs c s start #[] es) := by
  cases es with
  | nil => simp [exprs, StoresIn]
  | cons e es =>
    rw [exprs_cons, storesIn_append]
    exact ⟨expr_stores P s start e, exprs_stores P s _ es⟩

end

def Open (s : Slots) (names : List String) (slot : Nat) : Prop :=
  s.next ≤ slot ∨ ∃ name ∈ names, s.find? name = some slot

lemma Open.mono {s : Slots} {names names' : List String} (h : names ⊆ names') {slot : Nat}
    (ho : Open s names slot) : Open s names' slot :=
  ho.imp_right fun ⟨name, hn, hf⟩ => ⟨name, h hn, hf⟩

lemma Open.declare {s : Slots} {names : List String} {name : String} {slot : Nat}
    (ho : Open (s.declare name) names slot) : Open s (names.filter (· ≠ name)) slot := by
  rcases ho with hle | ⟨other, hn, hf⟩
  · exact .inl (Nat.le_of_succ_le hle)
  · rw [Slots.find?_declare] at hf
    split at hf
    · exact .inl (Nat.le_of_eq (Option.some.inj hf))
    · next hne => exact .inr ⟨other, List.mem_filter.mpr ⟨hn, by simpa using Ne.symm hne⟩, hf⟩

mutual

lemma stmt_stores (s : Slots) (start : Nat) (x : Stmt) : StoresIn (Open s x.assigned) (stmt c s start x).1 := by
  cases x with
  | declare p name init =>
    rw [stmt, storesIn_append, storesIn_one]
    exact ⟨expr_stores _ s start init, by rintro _ ⟨⟩; exact .inl (Nat.le_refl _)⟩
  | assign p t value =>
    cases t with
    | var q name =>
      rw [stmt, storesIn_append]
      refine ⟨expr_stores _ s start value, ?_⟩
      cases hf : s.find? name with
      | none => simp [StoresIn]
      | some slot =>
        rw [Option.elim_some, storesIn_one]
        rintro _ ⟨⟩
        exact .inr ⟨name, List.mem_singleton_self name, hf⟩
    | index q t i =>
      simp only [stmt, storesIn_append, storesIn_one]
      exact ⟨⟨⟨expr_stores _ s _ t, expr_stores _ s _ i⟩, expr_stores _ s _ value⟩, by simp⟩
  | branch p cond body otherwise =>
    cases otherwise with
    | none =>
      simp only [stmt, storesIn_append, storesIn_one]
      exact ⟨⟨expr_stores _ s _ cond, by simp⟩, stmts_stores s _ body⟩
    | some otherwise =>
      simp only [stmt, storesIn_append, storesIn_one]
      have hbody := (stmts_stores s (start + (expr c s start cond).size + 1) body).mono fun _ =>
        Open.mono (List.subset_append_left _ (Stmt.allAssigned otherwise))
      exact ⟨⟨⟨⟨expr_stores _ s _ cond, by simp⟩, hbody⟩, by simp⟩, (stmts_stores s _ otherwise).mono fun _ =>
        Open.mono (List.subset_append_right (Stmt.allAssigned body) _)⟩
  | loop p cond body =>
    simp only [stmt, storesIn_append, storesIn_one, storesIn_settle]
    exact ⟨⟨⟨expr_stores _ s _ cond, by simp⟩, stmts_stores s _ body⟩, by simp⟩
  | count p name first bound body =>
    have hcounter : Open s (Stmt.count p name first bound body).assigned s.next := .inl (Nat.le_refl _)
    have hlimit : Open s (Stmt.count p name first bound body).assigned (s.next + 1) := .inl (Nat.le_succ _)
    simp only [stmt, storesIn_append, storesIn_one, storesIn_settle]
    refine ⟨⟨⟨⟨⟨expr_stores _ s _ first, ?_⟩, expr_stores _ _ _ bound, ?_⟩, by simp⟩, ?_⟩, by simpa using hcounter⟩
    · rintro _ ⟨⟩
      exact hcounter
    · rintro _ ⟨⟩
      exact hlimit
    · refine (stmts_stores ((s.declare name).declare "") _ body).mono fun slot ho => ?_
      exact (ho.declare.mono (List.filter_subset_self _)).declare
  | give p value =>
    cases value with
    | none => simp [stmt, storesIn_append, storesIn_one]
    | some value =>
      rw [stmt, storesIn_append, storesIn_one]
      exact ⟨expr_stores _ s start value, by simp⟩
  | leave p => simp [stmt, StoresIn]
  | again p => simp [stmt, StoresIn]
  | block p body => exact stmts_stores s start body
  | eval p value =>
    rw [stmt, storesIn_append, storesIn_one]
    exact ⟨expr_stores _ s start value, by simp⟩

lemma stmts_stores (s : Slots) (start : Nat) (xs : List Stmt) :
    StoresIn (Open s (Stmt.allAssigned xs)) (stmts c s start #[] xs) := by
  cases xs with
  | nil => simp [stmts, StoresIn]
  | cons x xs =>
    rw [stmts_cons, storesIn_append, stmt_slots]
    refine ⟨(stmt_stores s start x).mono fun _ => Open.mono (List.subset_append_left _ _), ?_⟩
    refine (stmts_stores (x.slots s) _ xs).mono fun slot ho => Open.mono (List.subset_append_right x.assigned _) ?_
    cases x with
    | declare => exact ho.declare
    | _ => exact ho

end

lemma StoresIn.laid {P : Nat → Prop} {code : Code} (h : StoresIn P code) {g : Function} {exit round start : Nat}
    (hl : Laid g exit round start code) {pc slot : Nat} (hlo : start ≤ pc) (hhi : pc < start + code.size)
    (hi : g.code[pc]? = some (.store slot)) : P slot := by
  have hlt : pc - start < code.size := by omega
  have hline := Array.getElem?_eq_getElem hlt
  have hcode := hl (pc - start) _ hline
  rw [show start + (pc - start) = pc by omega, hi] at hcode
  refine h _ (Array.getElem_mem hlt) slot ?_
  generalize code[pc - start] = l at hcode
  obtain ⟨op, line⟩ := l
  cases op with
  | plain i => rw [Option.some.inj hcode]
  | leave | again => cases hcode

end Emit

/-! Where the code of a statement stands. -/

section Laid

variable {c : Emit.Context}

open Emit

lemma Stmt.exists_block {w w' : Site} {x : Stmt} {body : List Stmt} (hb : (w', body) ∈ x.blocks w)
    {u : Station} (hu : u.inLoop = w.inLoop) : ∃ u', (u', body) ∈ u.blocks c x ∧ u'.inLoop = w'.inLoop := by
  cases x with
  | branch p cond body otherwise =>
    cases otherwise with
    | none =>
      obtain ⟨rfl, rfl⟩ := Prod.mk.inj (List.mem_singleton.mp hb)
      exact ⟨_, .head _, hu⟩
    | some otherwise =>
      rcases List.mem_cons.mp hb with hb | hb
      · obtain ⟨rfl, rfl⟩ := Prod.mk.inj hb
        exact ⟨_, .head _, hu⟩
      · obtain ⟨rfl, rfl⟩ := Prod.mk.inj (List.mem_singleton.mp hb)
        exact ⟨_, .tail _ (.head _), hu⟩
  | loop | count =>
    obtain ⟨rfl, rfl⟩ := Prod.mk.inj (List.mem_singleton.mp hb)
    exact ⟨_, .head _, rfl⟩
  | block p body =>
    obtain ⟨rfl, rfl⟩ := Prod.mk.inj (List.mem_singleton.mp hb)
    exact ⟨_, .head _, hu⟩
  | give p value => cases value <;> exact (List.not_mem_nil hb).elim
  | declare | assign | leave | again | eval => exact (List.not_mem_nil hb).elim

lemma Stmt.Stands.exists_station {w v : Site} {body : List Stmt} {x : Stmt} (h : Stmt.Stands w body v x)
    {u : Station} (hu : u.inLoop = w.inLoop) :
    ∃ u' ys, Emit.Stands c u body u' (x :: ys) ∧ u'.inLoop = v.inLoop := by
  induction h generalizing u with
  | here => exact ⟨_, _, .here, hu⟩
  | @later w v y x rest _ ih =>
    have hafter : (u.after c y).inLoop = (y.after w).inLoop := by cases y <;> exact hu
    obtain ⟨u', ys, hstands, hu'⟩ := ih hafter
    exact ⟨u', ys, .later hstands, hu'⟩
  | inside hb _ ih =>
    obtain ⟨u₁, hblock, hu₁⟩ := Stmt.exists_block (c := c) hb hu
    obtain ⟨u', ys, hstands, hu'⟩ := ih hu₁
    exact ⟨u', ys, .inside hblock hstands, hu'⟩

namespace Compiler

variable {known : Catalog} {p : Program} (hc : Compiled known p) {d : Definition} (hd : d ∈ known.definitions)

include hc hd

lemma Compiled.body_laid (exit round : Nat) : Laid (Emit.function (context known) d) exit round 0
    (stmts (context known) (.ofParams d.decl.paramNames) 0 #[] d.decl.body) := by
  have hlaid := function_laid (c := context known) (body_settled hc (hc.ready d hd)) exit round
  rw [Emit.body, laid_append, laid_append] at hlaid
  exact hlaid.1.1

lemma Compiled.laid {w : Site} {x : Stmt} (hx : d.decl.Has w x) :
    ∃ s names inLoop exit round start, s.Shows names ∧ x.Ready (context known) inLoop names ∧
      Laid (Emit.function (context known) d) exit round start (stmt (context known) s start x).1 := by
  have hready := hc.ready d hd
  obtain ⟨v, ys, hstands, -⟩ := hx.exists_station (c := context known) (u := .outset (context known) d.decl) rfl
  obtain ⟨names, hs, hr⟩ := hstands.ready (Slots.ofParams_shows hready.params hready.named) hready.body
  have hlaid := hstands.laid (hc.body_laid hd _ _)
  rw [Station.code_cons, laid_append] at hlaid
  exact ⟨v.slots, names, v.inLoop, v.exit, v.round, v.start, hs, hr.1, hlaid.1⟩

end Compiler

end Laid

end ScriptHost
