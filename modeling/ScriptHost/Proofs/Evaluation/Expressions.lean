import ScriptHost.Proofs.Compile.Layout
import ScriptHost.Proofs.Evaluation.From
import ScriptHost.Proofs.Evaluation.Variables

/-!
The code of an expression computes its value on top of the operands.
-/

namespace ScriptHost.Evaluation

open Machine

/-- A call under way on a quiet host: its function and slots, the calls that wait for it, how many calls there are,
and how many rounds the evaluator gives a loop. -/
structure Site where
  host : Host
  quiet : host.Quiet
  id : Nat
  function : Function
  found : host.program.functions[id]? = some function
  size : Nat
  rest : List Frame
  depth : Nat
  rounds : Nat

namespace Site

abbrev From (σ : Site) (least pc : Nat) (locals : Array Datum) (ops : List Datum) (w : World)
    (r : EStateM.Result Halt World Datum) : Prop :=
  Evaluation.From σ.host least (⟨σ.id, pc, locals, ops⟩ :: σ.rest) σ.depth w r

def Computes (σ : Site) (names : List String) (start fin : Nat) (x : Variables → Eval Datum) : Prop :=
  ∀ (locals : Array Datum) (ops : List Datum) (w : World) (least : Nat) (k : Datum → Eval Datum),
    locals.size = σ.size → least ≤ σ.rounds →
    (∀ d w, σ.From least fin locals (d :: ops) w (k d w)) →
    σ.From least start locals ops w ((x (shown locals names) >>= k) w)

def Pushes (σ : Site) (names : List String) (count start fin : Nat)
    (x : Variables → Eval (List Datum)) : Prop :=
  ∀ (locals : Array Datum) (ops : List Datum) (w : World) (least : Nat) (k : List Datum → Eval Datum),
    locals.size = σ.size → least ≤ σ.rounds →
    (∀ ds w, ds.length = count → σ.From least fin locals (ds.reverse ++ ops) w (k ds w)) →
    σ.From least start locals ops w ((x (shown locals names) >>= k) w)

def Answers (σ : Site) (known : Catalog) (call : Call) : Prop :=
  ∀ (name : String) (callee : Nat) (d : Definition) (args : List Datum) (pc : Nat) (locals : Array Datum)
    (ops : List Datum) (w : World) (least : Nat) (k : Datum → Eval Datum),
    known.find? name = some (callee, d) → args.length = d.decl.arity →
    σ.function.code[pc]? = some (.call callee args.length) → least ≤ σ.rounds →
    (∀ d w, σ.From least (pc + 1) locals (d :: ops) w (k d w)) →
    σ.From least pc locals (args.reverse ++ ops) w ((call name args >>= k) w)

end Site

/-! Single instructions. -/

lemma neg?_literal {v : Int64} (h : 0 ≤ v) : Arithmetic.neg? v = some (-v) := by
  have hv : 0 ≤ v.toInt := Int64.le_iff_toInt_le.mp h
  have hlt := v.toInt_lt
  rw [Arithmetic.neg?, Arithmetic.whenExact, Int64.toInt_neg, if_pos]
  rw [Int.bmod_eq_of_le] <;> omega

lemma act_neg {v : Int64} (h : 0 ≤ v) : (act fun g => unary g .neg (.int v)) = pure (.int (-v)) := by
  have hneg : ∀ g, unary g .neg (.int v) = exactly g (Arithmetic.neg? v) := fun _ => rfl
  simp only [hneg, neg?_literal h]
  rfl

lemma act_newString (text : String) : (act fun g => newString g text) = pure (.str text) := rfl

namespace Site

variable {σ : Site} {names : List String} {pc : Nat}

lemma computes_const {i : Instr} {d : Datum} (hi : σ.function.code[pc]? = some i)
    (hexec : ∀ locals ops, exec σ.host ⟨σ.id, pc + 1, locals, ops⟩ σ.rest i =
      resume ⟨σ.id, pc + 1, locals, d :: ops⟩ σ.rest) :
    σ.Computes names pc (pc + 1) fun _ => pure d := by
  intro locals ops w least k _ _ hnext
  rw [pure_bind]
  exact (From.resume σ.quiet σ.found hi (hexec locals ops) (hnext d w)).weaken

lemma computes_str {i : Nat} {text : String} (hi : σ.function.code[pc]? = some (.str i))
    (htext : σ.host.program.strings[i]? = some text) :
    σ.Computes names pc (pc + 1) fun _ => pure (.str text) := by
  intro locals ops w least k _ _ hnext
  rw [← act_newString]
  exact (From.pushing σ.quiet σ.found hi (newString_agree text) (exec_str _ _ _ _ _ _ htext) hnext).weaken

lemma computes_var {s : Slots} {name : String} {slot : Nat} (hn : name ≠ "")
    (hslot : s.find? name = some slot) (hlt : slot < σ.size)
    (hi : σ.function.code[pc]? = some (.load slot)) :
    σ.Computes s.names pc (pc + 1) fun vars => read vars name := by
  intro locals ops w least k hsize _ hnext
  have hd : locals[slot]? = some locals[slot] := Array.getElem?_eq_getElem (hsize ▸ hlt)
  have hread : read (shown locals s.names) name = pure locals[slot] := by
    rw [read, lookup_shown locals hn hslot, hd, Option.getD_some]
  simp only [hread, pure_bind]
  exact (From.resume σ.quiet σ.found hi (exec_load _ _ _ _ _ _ hd) (hnext _ w)).weaken

/-! Operators on computed values. -/

section Operators

variable {start mid fin : Nat} {x y : Variables → Eval Datum}

lemma Computes.unary {op : UnaryOp} (hx : σ.Computes names start mid x)
    (hi : σ.function.code[mid]? = some (.unary op)) :
    σ.Computes names start (mid + 1) fun vars => (do
      let d ← x vars
      act fun h => Machine.unary h op d) := by
  intro locals ops w least k hsize hle hnext
  simp only [bind_assoc]
  apply hx locals ops w least _ hsize hle
  intro d w
  exact (From.pushing σ.quiet σ.found hi (unary_agree op d) (exec_unary _ _ _ _ _ _ op d) hnext).weaken

lemma Computes.binary {op : BinaryOp} (hx : σ.Computes names start mid x)
    (hy : σ.Computes names mid fin y) (hi : σ.function.code[fin]? = some (.binary op)) :
    σ.Computes names start (fin + 1) fun vars => (do
      let lhs ← x vars
      let rhs ← y vars
      act fun h => Machine.binary h op lhs rhs) := by
  intro locals ops w least k hsize hle hnext
  simp only [bind_assoc]
  apply hx locals ops w least _ hsize hle
  intro lhs w
  apply hy locals _ w least _ hsize hle
  intro rhs w
  exact (From.pushing σ.quiet σ.found hi (binary_agree op lhs rhs)
    (exec_binary _ _ _ _ _ _ op lhs rhs) hnext).weaken

lemma Computes.index (hx : σ.Computes names start mid x) (hy : σ.Computes names mid fin y)
    (hi : σ.function.code[fin]? = some .index) :
    σ.Computes names start (fin + 1) fun vars => (do
      let target ← x vars
      let i ← y vars
      act fun h => Machine.index h target i) := by
  intro locals ops w least k hsize hle hnext
  simp only [bind_assoc]
  apply hx locals ops w least _ hsize hle
  intro target w
  apply hy locals _ w least _ hsize hle
  intro i w
  exact (From.pushing σ.quiet σ.found hi (index_agree target i) (exec_index _ _ _ _ _ _ target i)
    hnext).weaken

lemma Computes.logic {op : LogicOp} (hx : σ.Computes names start mid x)
    (hjump : σ.function.code[mid]? = some (Emit.logicJump op (fin + 1)))
    (hy : σ.Computes names (mid + 1) fin y) (hi : σ.function.code[fin]? = some .expectBool) :
    σ.Computes names start (fin + 1) fun vars => (do
      let b ← truth (← x vars)
      if b = settles op then return .bool b
      else return .bool (← truth (← y vars))) := by
  intro locals ops w least k hsize hle hnext
  simp only [bind_assoc]
  apply hx locals ops w least _ hsize hle
  intro d w
  have hexec : exec σ.host ⟨σ.id, mid + 1, locals, d :: ops⟩ σ.rest (Emit.logicJump op (fin + 1)) =
      whenBool σ.host σ.rest ⟨σ.id, mid + 1, locals, d :: ops⟩ d fun b =>
        resume (if b = settles op then ⟨σ.id, fin + 1, locals, .bool b :: ops⟩
          else ⟨σ.id, mid + 1, locals, ops⟩) σ.rest := by
    cases op with
    | and => exact exec_jumpKeep _ _ _ _ _ _ false _ d
    | or => exact exec_jumpKeep _ _ _ _ _ _ true _ d
  refine (From.truth σ.quiet σ.found hjump hexec fun b => ?_).weaken
  by_cases hb : b = settles op
  · simp only [hb, if_true, pure_bind]
    exact hnext _ w
  · simp only [hb, if_false, bind_assoc, pure_bind]
    apply hy locals ops w least _ hsize hle
    intro d w
    exact (From.truth σ.quiet σ.found hi (exec_expectBool _ _ _ _ _ _ d) fun b => hnext _ w).weaken

end Operators

/-! Lists of values. -/

section Lists

variable {count start mid fin : Nat} {x : Variables → Eval Datum} {xs : Variables → Eval (List Datum)}

lemma pushes_nil : σ.Pushes names 0 start start fun _ => pure [] := by
  intro locals ops w least k _ _ hnext
  rw [pure_bind]
  exact hnext [] w rfl

lemma Computes.cons (hx : σ.Computes names start mid x) (hxs : σ.Pushes names count mid fin xs) :
    σ.Pushes names (count + 1) start fin fun vars => (do
      let d ← x vars
      return d :: (← xs vars)) := by
  intro locals ops w least k hsize hle hnext
  simp only [bind_assoc, pure_bind]
  apply hx locals ops w least _ hsize hle
  intro d w
  apply hxs locals _ w least _ hsize hle
  intro ds w hlen
  have h := hnext (d :: ds) w (by rw [List.length_cons, hlen])
  rwa [List.reverse_cons, List.append_assoc] at h

lemma Pushes.array (hxs : σ.Pushes names count start fin xs)
    (hi : σ.function.code[fin]? = some (.makeArray count)) :
    σ.Computes names start (fin + 1) fun vars => (do
      let ds ← xs vars
      act fun h => newArray h ds.toArray) := by
  intro locals ops w least k hsize hle hnext
  simp only [bind_assoc]
  apply hxs locals ops w least _ hsize hle
  intro ds w hlen
  have hexec := exec_makeArray σ.host σ.rest σ.id (fin + 1) locals (ds.reverse ++ ops) (length_le hlen)
  rw [take_reverse hlen, drop_reverse hlen] at hexec
  exact (From.pushing σ.quiet σ.found hi (newArray_agree ds.toArray) hexec hnext).weaken

lemma Pushes.builtin {b : Builtin} (hxs : σ.Pushes names count start fin xs)
    (hi : σ.function.code[fin]? = some (.callBuiltin b count)) :
    σ.Computes names start (fin + 1) fun vars => (do
      let ds ← xs vars
      act fun h => Machine.builtin h b ds) := by
  intro locals ops w least k hsize hle hnext
  simp only [bind_assoc]
  apply hxs locals ops w least _ hsize hle
  intro ds w hlen
  have hexec := exec_callBuiltin σ.host σ.rest σ.id (fin + 1) locals (ds.reverse ++ ops) b (length_le hlen)
  rw [take_reverse hlen, drop_reverse hlen] at hexec
  exact (From.pushing σ.quiet σ.found hi (builtin_agree b ds) hexec hnext).weaken

lemma Pushes.call {known : Catalog} {call : Call} (hcall : σ.Answers known call) {name : String}
    {callee : Nat} {d : Definition} (hf : known.find? name = some (callee, d))
    (ha : d.decl.arity = count) (hxs : σ.Pushes names count start fin xs)
    (hi : σ.function.code[fin]? = some (.call callee count)) :
    σ.Computes names start (fin + 1) fun vars => (do
      let ds ← xs vars
      call name ds) := by
  intro locals ops w least k hsize hle hnext
  simp only [bind_assoc]
  apply hxs locals ops w least _ hsize hle
  intro ds w hlen
  subst hlen
  exact hcall name callee d ds fin locals ops w least k hf ha.symm hi hle hnext

end Lists

/-! Whole expressions. -/

section Code

variable {known : Catalog} {call : Call} {s : Slots} {exit round : Nat}

lemma call_computes (hcall : σ.Answers known call)
    {name : String} {start fin count : Nat} {xs : Variables → Eval (List Datum)} (q : Position)
    (hfits : CallFits known name count) (hxs : σ.Pushes names count start fin xs)
    (hcode : Emit.Laid σ.function exit round fin (Emit.callCode (Compiler.context known) q name count)) :
    σ.Computes names start (fin + (Emit.callCode (Compiler.context known) q name count).size)
      fun vars => (do
        let ds ← xs vars
        match Builtin.ofName? name with
        | some b => act fun h => Machine.builtin h b ds
        | none => call name ds) := by
  obtain ⟨hle, hfits⟩ := hfits
  rw [Emit.callCode, if_neg (Nat.not_lt.mpr hle)] at hcode ⊢
  cases hb : Builtin.ofName? name with
  | some b =>
    rw [hb] at hcode
    exact hxs.builtin (Emit.laid_one.mp hcode)
  | none =>
    rw [hb] at hcode hfits
    obtain ⟨callee, d, hf, ha⟩ := hfits
    simp only [Compiler.context, hf, ha, if_true] at hcode ⊢
    exact hxs.call hcall hf ha (Emit.laid_one.mp hcode)

mutual

lemma expr_computes (hc : Compiler.Compiled known σ.host.program) (hcall : σ.Answers known call)
    (hs : s.Shows names) (hl : s.next ≤ σ.size) (start : Nat) (e : Expr)
    (he : e.Ready (Compiler.context known) names)
    (hcode : Emit.Laid σ.function exit round start (Emit.expr (Compiler.context known) s start e)) :
    σ.Computes s.names start (start + (Emit.expr (Compiler.context known) s start e).size)
      fun vars => Evaluation.expr call vars e := by
  cases e with
  | int q v => exact computes_const (Emit.laid_one.mp hcode) fun _ _ => exec_int _ _ _ _ _ _ v
  | str q v => exact computes_str (Emit.laid_one.mp hcode) (hc.literal he)
  | bool q b => exact computes_const (Emit.laid_one.mp hcode) fun _ _ => exec_bool _ _ _ _ _ _ b
  | nil q => exact computes_const (Emit.laid_one.mp hcode) fun _ _ => exec_nil _ _ _ _ _ _
  | var q name =>
    obtain ⟨slot, hslot, hlt⟩ := hs.find? he
    rw [Emit.expr, hslot] at hcode ⊢
    exact computes_var (hs.named he) hslot (Nat.lt_of_lt_of_le hlt hl) (Emit.laid_one.mp hcode)
  | array q items =>
    simp only [Emit.expr, Emit.laid_append, Emit.laid_one, Array.size_append, Emit.size_one,
      ← Nat.add_assoc] at hcode ⊢
    simp only [Evaluation.expr]
    exact (exprs_pushes hc hcall hs hl start items he hcode.1).array hcode.2
  | index q target i =>
    simp only [Emit.expr, Emit.laid_append, Emit.laid_one, Array.size_append, Emit.size_one,
      ← Nat.add_assoc] at hcode ⊢
    obtain ⟨⟨htarget, hi⟩, hinstr⟩ := hcode
    simp only [Evaluation.expr]
    exact (expr_computes hc hcall hs hl start target he.1 htarget).index
      (expr_computes hc hcall hs hl _ i he.2 hi) hinstr
  | call q name args =>
    simp only [Emit.expr, Emit.laid_append, Array.size_append, ← Nat.add_assoc] at hcode ⊢
    simp only [Evaluation.expr]
    exact call_computes hcall q he.2 (exprs_pushes hc hcall hs hl start args he.1 hcode.1) hcode.2
  | unary q op operand =>
    by_cases hlit : ∃ p v, op = .neg ∧ operand = .int p v
    · obtain ⟨p, v, rfl, rfl⟩ := hlit
      simp only [Evaluation.expr, pure_bind, act_neg he]
      exact computes_const (Emit.laid_one.mp hcode) fun _ _ => exec_int _ _ _ _ _ _ (-v)
    · rw [Emit.expr_unary _ _ _ _ hlit] at hcode ⊢
      simp only [Emit.laid_append, Emit.laid_one, Array.size_append, Emit.size_one,
        ← Nat.add_assoc] at hcode ⊢
      simp only [Evaluation.expr]
      exact (expr_computes hc hcall hs hl start operand he hcode.1).unary hcode.2
  | binary q op lhs rhs =>
    simp only [Emit.expr, Emit.laid_append, Emit.laid_one, Array.size_append, Emit.size_one,
      ← Nat.add_assoc] at hcode ⊢
    obtain ⟨⟨hlhs, hrhs⟩, hinstr⟩ := hcode
    simp only [Evaluation.expr]
    exact (expr_computes hc hcall hs hl start lhs he.1 hlhs).binary
      (expr_computes hc hcall hs hl _ rhs he.2 hrhs) hinstr
  | logic q op lhs rhs =>
    simp only [Emit.expr] at hcode ⊢
    generalize hleft : Emit.expr (Compiler.context known) s start lhs = left at hcode ⊢
    generalize hright : Emit.expr (Compiler.context known) s (start + left.size + 1) rhs = right at hcode ⊢
    simp only [Emit.laid_append, Emit.laid_one, Array.size_append, Emit.size_one,
      ← Nat.add_assoc] at hcode ⊢
    obtain ⟨⟨⟨hlhs, hjump⟩, hrhs⟩, hinstr⟩ := hcode
    have hx := expr_computes hc hcall hs hl start lhs he.1 (hleft ▸ hlhs)
    have hy := expr_computes hc hcall hs hl _ rhs he.2 (hright ▸ hrhs)
    rw [hleft] at hx
    rw [hright] at hy
    simp only [Evaluation.expr]
    have hfin : start + left.size + right.size + 2 = start + left.size + 1 + right.size + 1 := by omega
    exact hx.logic (hfin ▸ hjump) hy hinstr

lemma exprs_pushes (hc : Compiler.Compiled known σ.host.program) (hcall : σ.Answers known call)
    (hs : s.Shows names) (hl : s.next ≤ σ.size) (start : Nat) (es : List Expr)
    (he : Expr.AllReady (Compiler.context known) names es)
    (hcode : Emit.Laid σ.function exit round start (Emit.exprs (Compiler.context known) s start #[] es)) :
    σ.Pushes s.names es.length start (start + (Emit.exprs (Compiler.context known) s start #[] es).size)
      fun vars => Evaluation.exprs call vars es := by
  cases es with
  | nil => exact pushes_nil
  | cons e es =>
    simp only [Emit.exprs_cons, Emit.laid_append, Array.size_append, ← Nat.add_assoc] at hcode ⊢
    simp only [Evaluation.exprs]
    exact (expr_computes hc hcall hs hl start e he.1 hcode.1).cons
      (exprs_pushes hc hcall hs hl _ es he.2 hcode.2)

end

end Code

end Site

end ScriptHost.Evaluation
