import ScriptHost.Proofs.Compile.Levels
import ScriptHost.Proofs.Evaluation.Loops

/-!
The code of a function follows its body, and the instructions that call functions answer like the evaluator.
-/

namespace ScriptHost.Evaluation

open Machine

namespace Site

section Code

variable {σ : Site} {known : Catalog} {call : Call}

lemma assign_follows (hc : Compiler.Compiled known σ.host.program) (hcall : σ.Answers known call)
    {s : Slots} {names : List String} (hs : s.Shows names) (hl : s.next ≤ σ.size) (inLoop : Bool)
    (exit round start : Nat) (q : Position)
    (t : Target) (value : Expr) (ht : t.Ready (Compiler.context known) names)
    (hv : value.Ready (Compiler.context known) names)
    (hcode : Emit.Laid σ.function exit round start
      (Emit.stmt (Compiler.context known) s start (.assign q t value)).1) :
    σ.Follows exit round inLoop s.names s.names start
      (start + (Emit.stmt (Compiler.context known) s start (.assign q t value)).1.size)
      fun vars => Evaluation.stmt call σ.rounds vars (.assign q t value) := by
  cases t with
  | var _ name =>
    obtain ⟨slot, hslot, hlt⟩ := hs.find? ht
    simp only [Emit.stmt, hslot, Option.elim_some, Emit.laid_append, Emit.laid_one, Array.size_append,
      Emit.size_one, ← Nat.add_assoc] at hcode ⊢
    simp only [Evaluation.stmt]
    exact (expr_computes hc hcall hs hl start value hv hcode.1).assign (hs.named ht) hslot
      (Nat.lt_of_lt_of_le hlt hl) hcode.2
  | index _ target i =>
    simp only [Emit.stmt, Emit.laid_append, Emit.laid_one, Array.size_append, Emit.size_one,
      ← Nat.add_assoc] at hcode ⊢
    obtain ⟨⟨⟨htarget, hi⟩, hvalue⟩, hinstr⟩ := hcode
    simp only [Evaluation.stmt]
    exact (expr_computes hc hcall hs hl start target ht.1 htarget).storeIndex
      (expr_computes hc hcall hs hl _ i ht.2 hi) (expr_computes hc hcall hs hl _ value hv hvalue) hinstr

/-- The code of a block follows it, wherever it is laid out. -/
def BlockFollows (σ : Site) (known : Catalog) (call : Call) (inLoop : Bool) (s : Slots) (xs : List Stmt) : Prop :=
  s.next ≤ σ.size → ∀ exit round start,
    Emit.StoresBelow σ.size (Emit.stmts (Compiler.context known) s start #[] xs) →
    Emit.Laid σ.function exit round start (Emit.stmts (Compiler.context known) s start #[] xs) →
    ∃ names', σ.Follows exit round inLoop s.names names' start
      (start + (Emit.stmts (Compiler.context known) s start #[] xs).size)
      fun vars => Evaluation.stmts call σ.rounds vars xs

section Blocks

variable (hc : Compiler.Compiled known σ.host.program) (hcall : σ.Answers known call) {s : Slots}
  {names : List String} (hs : s.Shows names) (hl : s.next ≤ σ.size) (inLoop : Bool) (exit round start : Nat)
  (q : Position) {cond : Expr} (hcond : cond.Ready (Compiler.context known) names) {body otherwise : List Stmt}

include hc hcall hs hl hcond

lemma branch_follows (hbody : σ.BlockFollows known call inLoop s body)
    (hst : Emit.StoresBelow σ.size (Emit.stmt (Compiler.context known) s start (.branch q cond body none)).1)
    (hcode : Emit.Laid σ.function exit round start
      (Emit.stmt (Compiler.context known) s start (.branch q cond body none)).1) :
    σ.Follows exit round inLoop s.names s.names start
      (start + (Emit.stmt (Compiler.context known) s start (.branch q cond body none)).1.size)
      fun vars => Evaluation.stmt call σ.rounds vars (.branch q cond body none) := by
  simp only [Emit.stmt] at hst hcode ⊢
  generalize hcode₁ : Emit.expr (Compiler.context known) s start cond = code at hst hcode ⊢
  generalize hcode₂ : Emit.stmts (Compiler.context known) s (start + code.size + 1) #[] body = code' at hst hcode ⊢
  simp only [Emit.storesBelow_append, Emit.laid_append, Emit.laid_one, Array.size_append, Emit.size_one,
    ← Nat.add_assoc] at hst hcode ⊢
  obtain ⟨⟨hcode, hjump⟩, hcode'⟩ := hcode
  have he := expr_computes hc hcall hs hl start cond hcond (hcode₁ ▸ hcode)
  obtain ⟨names', hb⟩ := hbody hl exit round _ (hcode₂ ▸ hst.2) (hcode₂ ▸ hcode')
  rw [hcode₁] at he
  rw [hcode₂] at hb
  simp only [Evaluation.stmt]
  exact he.branch hjump hb.block.follows

lemma branchElse_follows (hbody : σ.BlockFollows known call inLoop s body)
    (hotherwise : σ.BlockFollows known call inLoop s otherwise)
    (hst : Emit.StoresBelow σ.size
      (Emit.stmt (Compiler.context known) s start (.branch q cond body (some otherwise))).1)
    (hcode : Emit.Laid σ.function exit round start
      (Emit.stmt (Compiler.context known) s start (.branch q cond body (some otherwise))).1) :
    σ.Follows exit round inLoop s.names s.names start
      (start + (Emit.stmt (Compiler.context known) s start (.branch q cond body (some otherwise))).1.size)
      fun vars => Evaluation.stmt call σ.rounds vars (.branch q cond body (some otherwise)) := by
  simp only [Emit.stmt] at hst hcode ⊢
  generalize hcode₁ : Emit.expr (Compiler.context known) s start cond = code at hst hcode ⊢
  generalize hcode₂ : Emit.stmts (Compiler.context known) s (start + code.size + 1) #[] body = code' at hst hcode ⊢
  generalize hcode₃ : Emit.stmts (Compiler.context known) s (start + code.size + 1 + code'.size + 1) #[]
    otherwise = code'' at hst hcode ⊢
  simp only [Emit.storesBelow_append, Emit.laid_append, Emit.laid_one, Array.size_append, Emit.size_one,
    ← Nat.add_assoc] at hst hcode ⊢
  obtain ⟨⟨⟨⟨hcode, hjump⟩, hcode'⟩, hover⟩, hcode''⟩ := hcode
  obtain ⟨⟨⟨-, hst⟩, -⟩, hst'⟩ := hst
  have he := expr_computes hc hcall hs hl start cond hcond (hcode₁ ▸ hcode)
  obtain ⟨names', hb⟩ := hbody hl exit round _ (hcode₂ ▸ hst) (hcode₂ ▸ hcode')
  obtain ⟨names'', hb'⟩ := hotherwise hl exit round _ (hcode₃ ▸ hst') (hcode₃ ▸ hcode'')
  rw [hcode₁] at he
  rw [hcode₂] at hb
  rw [hcode₃] at hb'
  simp only [Evaluation.stmt]
  exact he.branchElse hjump hb.block.follows hover hb'.block.follows

lemma loop_follows (hbody : σ.BlockFollows known call true s body)
    (hst : Emit.StoresBelow σ.size (Emit.stmt (Compiler.context known) s start (.loop q cond body)).1)
    (hcode : Emit.Laid σ.function exit round start
      (Emit.stmt (Compiler.context known) s start (.loop q cond body)).1) :
    σ.Encloses exit round inLoop s.names start
      (start + (Emit.stmt (Compiler.context known) s start (.loop q cond body)).1.size)
      fun vars => Evaluation.stmt call σ.rounds vars (.loop q cond body) := by
  simp only [Emit.stmt] at hst hcode ⊢
  generalize hcode₁ : Emit.expr (Compiler.context known) s start cond = code at hst hcode ⊢
  generalize hcode₂ : Emit.stmts (Compiler.context known) s (start + code.size + 1) #[] body = code' at hst hcode ⊢
  simp only [Emit.storesBelow_append, Emit.storesBelow_settle, Emit.laid_append, Emit.laid_one,
    Array.size_append, Array.size_map, Emit.size_one, ← Nat.add_assoc] at hst hcode ⊢
  obtain ⟨⟨⟨hcode, hjump⟩, hcode'⟩, hback⟩ := hcode
  have he := expr_computes hc hcall hs hl start cond hcond (hcode₁ ▸ hcode)
  obtain ⟨names', hb⟩ := hbody hl _ _ _ (hcode₂ ▸ hst.1.2) (hcode₂ ▸ Emit.laid_settle hcode')
  rw [hcode₁] at he
  rw [hcode₂] at hb
  simp only [Evaluation.stmt]
  exact he.loop hjump hb.block hback

end Blocks

lemma count_follows (hc : Compiler.Compiled known σ.host.program) (hcall : σ.Answers known call)
    {s : Slots} {names : List String} (hs : s.Shows names) (hl : s.next ≤ σ.size) {inLoop : Bool}
    (exit round start : Nat) (q : Position) {name : String} {first bound : Expr} {body : List Stmt}
    (hn : name ≠ "") (hfirst : first.Ready (Compiler.context known) names)
    (hbound : bound.Ready (Compiler.context known) (name :: names))
    (hbody : σ.BlockFollows known call true ((s.declare name).declare "") body)
    (hst : Emit.StoresBelow σ.size
      (Emit.stmt (Compiler.context known) s start (.count q name first bound body)).1)
    (hcode : Emit.Laid σ.function exit round start
      (Emit.stmt (Compiler.context known) s start (.count q name first bound body)).1) :
    σ.Encloses exit round inLoop s.names start
      (start + (Emit.stmt (Compiler.context known) s start (.count q name first bound body)).1.size)
      fun vars => Evaluation.stmt call σ.rounds vars (.count q name first bound body) := by
  simp only [Emit.stmt, Array.size_append, Array.size_map, Emit.size_one, ← Nat.add_assoc] at hst hcode ⊢
  generalize hcode₁ : Emit.expr (Compiler.context known) s start first = code at hst hcode ⊢
  generalize hcode₂ : Emit.expr (Compiler.context known) (s.declare name) (start + code.size + 1) bound = code'
    at hst hcode ⊢
  generalize hcode₃ : Emit.stmts (Compiler.context known) ((s.declare name).declare "")
    (start + code.size + 1 + code'.size + 1 + 4) #[] body = code'' at hst hcode ⊢
  simp only [Emit.storesBelow_append, Emit.storesBelow_one, Emit.storesBelow_settle] at hst
  obtain ⟨⟨⟨⟨-, -, hlimit⟩, -⟩, hst⟩, -⟩ := hst
  simp only [Emit.laid_append, Emit.laid_one, Array.size_append, Array.size_map, Emit.size_one,
    ← Nat.add_assoc] at hcode
  obtain ⟨⟨⟨⟨⟨hcode, hstore⟩, hcode', hstore'⟩, ⟨⟨hload, hload'⟩, hlt⟩, htest⟩, hcode''⟩,
    ⟨⟨⟨hagain, hone⟩, hadd⟩, hset⟩, hjump⟩ := hcode
  have hroom : s.next + 1 < σ.size := hlimit _ rfl
  have he := expr_computes hc hcall hs hl start first hfirst (hcode₁ ▸ hcode)
  have he' := expr_computes hc hcall (hs.declare hn) (Nat.le_of_lt hroom) _ bound hbound (hcode₂ ▸ hcode')
  obtain ⟨names', hb⟩ := hbody hroom _ _ _ (hcode₃ ▸ hst) (hcode₃ ▸ Emit.laid_settle hcode'')
  rw [hcode₁] at he
  rw [hcode₂] at he'
  rw [hcode₃] at hb
  simp only [Evaluation.stmt]
  exact he.count hn hroom hstore he' hstore' hload hload' hlt htest hb.block hagain hone hadd hset hjump

mutual

lemma stmt_follows (hc : Compiler.Compiled known σ.host.program) (hcall : σ.Answers known call)
    {s : Slots} {names : List String} (hs : s.Shows names) (hl : s.next ≤ σ.size) (inLoop : Bool)
    (exit round start : Nat) (x : Stmt)
    (hx : x.Ready (Compiler.context known) inLoop names)
    (hst : Emit.StoresBelow σ.size (Emit.stmt (Compiler.context known) s start x).1)
    (hcode : Emit.Laid σ.function exit round start (Emit.stmt (Compiler.context known) s start x).1) :
    σ.Follows exit round inLoop s.names (x.slots s).names start
      (start + (Emit.stmt (Compiler.context known) s start x).1.size)
      fun vars => Evaluation.stmt call σ.rounds vars x := by
  cases x with
  | declare q name init =>
    simp only [Emit.stmt, Emit.storesBelow_append, Emit.storesBelow_one, Emit.laid_append, Emit.laid_one,
      Array.size_append, Emit.size_one, ← Nat.add_assoc] at hst hcode ⊢
    have hslot := hst.2 _ rfl
    rw [s.next_eq] at hslot hcode
    simp only [Evaluation.stmt]
    exact (expr_computes hc hcall hs hl start init hx.2 hcode.1).declare hx.1 hslot hcode.2
  | assign q t value => exact assign_follows hc hcall hs hl inLoop exit round start q t value hx.1 hx.2 hcode
  | branch q cond body otherwise =>
    cases otherwise with
    | none =>
      exact branch_follows hc hcall hs hl inLoop exit round start q hx.1 (stmts_follows hc hcall hs inLoop body hx.2)
        hst hcode
    | some otherwise =>
      exact branchElse_follows hc hcall hs hl inLoop exit round start q hx.1
        (stmts_follows hc hcall hs inLoop body hx.2.1) (stmts_follows hc hcall hs inLoop otherwise hx.2.2) hst hcode
  | loop q cond body =>
    exact (loop_follows hc hcall hs hl inLoop exit round start q hx.1 (stmts_follows hc hcall hs true body hx.2)
      hst hcode).follows
  | count q name first bound body =>
    exact (count_follows hc hcall hs hl exit round start q hx.1 hx.2.1 hx.2.2.1
      (stmts_follows hc hcall (hs.declare hx.1).hide true body hx.2.2.2) hst hcode).follows
  | give q value =>
    cases value with
    | none =>
      simp only [Emit.stmt, Emit.laid_append, Emit.laid_one, Emit.size_one] at hcode
      have he : σ.Computes s.names start (start + 1) fun _ => pure .nil :=
        computes_const hcode.1 fun _ _ => exec_nil _ _ _ _ _ _
      have h : ∀ fin, σ.Follows exit round inLoop s.names s.names start fin _ := fun fin => he.give hcode.2
      simp only [pure_bind] at h
      simp only [Evaluation.stmt]
      exact h _
    | some value =>
      simp only [Emit.stmt, Emit.laid_append, Emit.laid_one] at hcode
      simp only [Evaluation.stmt]
      exact (expr_computes hc hcall hs hl start value hx hcode.1).give hcode.2
  | leave q => exact follows_leave hx (Emit.laid_single.mp hcode)
  | again q => exact follows_again hx (Emit.laid_single.mp hcode)
  | block q body =>
    obtain ⟨names', hb⟩ := stmts_follows hc hcall hs inLoop body hx hl exit round start hst hcode
    simp only [Evaluation.stmt]
    exact hb.block.follows
  | eval q value =>
    simp only [Emit.stmt, Emit.laid_append, Emit.laid_one, Array.size_append, Emit.size_one,
      ← Nat.add_assoc] at hcode ⊢
    simp only [Evaluation.stmt]
    exact (expr_computes hc hcall hs hl start value hx hcode.1).eval hcode.2

lemma stmts_follows (hc : Compiler.Compiled known σ.host.program) (hcall : σ.Answers known call)
    {s : Slots} {names : List String} (hs : s.Shows names) (inLoop : Bool) (xs : List Stmt)
    (hx : Stmt.AllReady (Compiler.context known) inLoop names xs) : σ.BlockFollows known call inLoop s xs := by
  intro hl exit round start hst hcode
  cases xs with
  | nil => exact ⟨s.names, follows_nil⟩
  | cons x xs =>
    rw [Emit.stmts_cons, Emit.storesBelow_append] at hst
    rw [Emit.stmts_cons, Emit.laid_append] at hcode
    rw [Emit.stmts_cons, Array.size_append, ← Nat.add_assoc]
    have h := stmt_follows hc hcall hs hl inLoop exit round start x hx.1 hst.1 hcode.1
    have hl' := Emit.next_slots hl hst.1
    have hs' := x.shows hs hx.1
    rw [Emit.stmt_slots] at hst hcode ⊢
    obtain ⟨names', h'⟩ := stmts_follows hc hcall hs' inLoop xs hx.2 hl' exit round _ hst.2 hcode.2
    simp only [Evaluation.stmts]
    exact ⟨names', h.cons h'⟩

end

end Code

end Site

end ScriptHost.Evaluation
