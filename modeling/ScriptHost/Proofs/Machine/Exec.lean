import Mathlib.Tactic.Lemma
import ScriptHost.Machine.Step
import ScriptHost.Proofs.Machine.Yields

/-!
What each instruction does where its operands are there, and where they are not.
-/

namespace ScriptHost.Machine

variable (h : Host) (rest : List Frame)

section Operands

variable (id pc : Nat) (locals : Array Datum) (ops : List Datum)

lemma exec_int (v : Int64) :
    exec h ⟨id, pc, locals, ops⟩ rest (.int v) = resume ⟨id, pc, locals, .int v :: ops⟩ rest := rfl

lemma exec_nil : exec h ⟨id, pc, locals, ops⟩ rest .nil = resume ⟨id, pc, locals, .nil :: ops⟩ rest := rfl

lemma exec_bool (b : Bool) :
    exec h ⟨id, pc, locals, ops⟩ rest (.bool b) = resume ⟨id, pc, locals, .bool b :: ops⟩ rest := rfl

lemma exec_str {i : Nat} {text : String} (hi : h.program.strings[i]? = some text) :
    exec h ⟨id, pc, locals, ops⟩ rest (.str i) =
      pushing ⟨id, pc, locals, ops⟩ rest (newString h text) := by
  unfold exec
  simp only [hi]

lemma exec_str_none {i : Nat} (hi : h.program.strings[i]? = none) :
    exec h ⟨id, pc, locals, ops⟩ rest (.str i) = (do
      modify fun s => { s with frames := ⟨id, pc, locals, ops⟩ :: rest }
      broken h) := by
  unfold exec
  simp only [hi]

lemma exec_load {slot : Nat} {d : Datum} (hd : locals[slot]? = some d) :
    exec h ⟨id, pc, locals, ops⟩ rest (.load slot) = resume ⟨id, pc, locals, d :: ops⟩ rest := by
  unfold exec
  simp only [hd]

lemma exec_load_none {slot : Nat} (hd : locals[slot]? = none) :
    exec h ⟨id, pc, locals, ops⟩ rest (.load slot) = (do
      modify fun s => { s with frames := ⟨id, pc, locals, ops⟩ :: rest }
      broken h) := by
  unfold exec
  simp only [hd]

lemma exec_store {slot : Nat} (d : Datum) (hs : slot < locals.size) :
    exec h ⟨id, pc, locals, d :: ops⟩ rest (.store slot) =
      resume ⟨id, pc, locals.setIfInBounds slot d, ops⟩ rest :=
  if_pos hs

lemma exec_store_none {slot : Nat} (d : Datum) (hs : ¬ slot < locals.size) :
    exec h ⟨id, pc, locals, d :: ops⟩ rest (.store slot) = (do
      modify fun s => { s with frames := ⟨id, pc, locals, ops⟩ :: rest }
      broken h) :=
  if_neg hs

lemma exec_pop (d : Datum) :
    exec h ⟨id, pc, locals, d :: ops⟩ rest .pop = resume ⟨id, pc, locals, ops⟩ rest := rfl

lemma exec_unary (op : UnaryOp) (d : Datum) :
    exec h ⟨id, pc, locals, d :: ops⟩ rest (.unary op) =
      pushing ⟨id, pc, locals, ops⟩ rest (unary h op d) := rfl

lemma exec_binary (op : BinaryOp) (lhs rhs : Datum) :
    exec h ⟨id, pc, locals, rhs :: lhs :: ops⟩ rest (.binary op) =
      pushing ⟨id, pc, locals, ops⟩ rest (binary h op lhs rhs) := rfl

lemma exec_jump (target : Nat) :
    exec h ⟨id, pc, locals, ops⟩ rest (.jump target) = resume ⟨id, target, locals, ops⟩ rest := rfl

lemma exec_index (target i : Datum) :
    exec h ⟨id, pc, locals, i :: target :: ops⟩ rest .index =
      pushing ⟨id, pc, locals, ops⟩ rest (index h target i) := rfl

lemma exec_storeIndex (target i value : Datum) :
    exec h ⟨id, pc, locals, value :: i :: target :: ops⟩ rest .storeIndex = (do
      modify fun s => { s with frames := ⟨id, pc, locals, ops⟩ :: rest }
      storeIndex h target i value
      return none) := rfl

lemma exec_call {callee argc : Nat} (ha : argc ≤ ops.length) :
    exec h ⟨id, pc, locals, ops⟩ rest (.call callee argc) = (do
      modify fun s => { s with frames := ⟨id, pc, locals, ops.drop argc⟩ :: rest }
      enter h callee (ops.take argc).reverse) :=
  if_pos ha

lemma exec_call_few {callee argc : Nat} (ha : ¬ argc ≤ ops.length) :
    exec h ⟨id, pc, locals, ops⟩ rest (.call callee argc) = (do
      modify fun s => { s with frames := ⟨id, pc, locals, ops⟩ :: rest }
      broken h) :=
  if_neg ha

lemma exec_callBuiltin (b : Builtin) {argc : Nat} (ha : argc ≤ ops.length) :
    exec h ⟨id, pc, locals, ops⟩ rest (.callBuiltin b argc) =
      pushing ⟨id, pc, locals, ops.drop argc⟩ rest (builtin h b (ops.take argc).reverse) :=
  if_pos ha

lemma exec_callBuiltin_few (b : Builtin) {argc : Nat} (ha : ¬ argc ≤ ops.length) :
    exec h ⟨id, pc, locals, ops⟩ rest (.callBuiltin b argc) = (do
      modify fun s => { s with frames := ⟨id, pc, locals, ops⟩ :: rest }
      broken h) :=
  if_neg ha

lemma exec_makeArray {count : Nat} (hc : count ≤ ops.length) :
    exec h ⟨id, pc, locals, ops⟩ rest (.makeArray count) =
      pushing ⟨id, pc, locals, ops.drop count⟩ rest
        (newArray h (ops.take count).reverse.toArray) :=
  if_pos hc

lemma exec_makeArray_few {count : Nat} (hc : ¬ count ≤ ops.length) :
    exec h ⟨id, pc, locals, ops⟩ rest (.makeArray count) = (do
      modify fun s => { s with frames := ⟨id, pc, locals, ops⟩ :: rest }
      broken h) :=
  if_neg hc

def whenBool (f : Frame) (d : Datum) (k : Bool → Run (Option Datum)) : Run (Option Datum) :=
  match d with
  | .bool b => k b
  | d => do
    modify fun s => { s with frames := f :: rest }
    notTruth h d

lemma exec_expectBool (d : Datum) :
    exec h ⟨id, pc, locals, d :: ops⟩ rest .expectBool =
      whenBool h rest ⟨id, pc, locals, d :: ops⟩ d fun b =>
        resume ⟨id, pc, locals, .bool b :: ops⟩ rest := by
  cases d <;> rfl

lemma exec_jumpIfFalse (target : Nat) (d : Datum) :
    exec h ⟨id, pc, locals, d :: ops⟩ rest (.jumpIfFalse target) =
      whenBool h rest ⟨id, pc, locals, d :: ops⟩ d fun b =>
        resume ⟨id, if b then pc else target, locals, ops⟩ rest := by
  cases d with
  | bool b => cases b <;> rfl
  | _ => rfl

lemma exec_jumpKeep (settled : Bool) (target : Nat) (d : Datum) :
    exec h ⟨id, pc, locals, d :: ops⟩ rest (.jumpKeep settled target) =
      whenBool h rest ⟨id, pc, locals, d :: ops⟩ d fun b =>
        resume (if b = settled then ⟨id, target, locals, .bool b :: ops⟩ else ⟨id, pc, locals, ops⟩)
          rest := by
  cases d with
  | bool b => cases b <;> cases settled <;> rfl
  | _ => rfl

lemma exec_ret_last (d : Datum) :
    exec h ⟨id, pc, locals, d :: ops⟩ [] .ret = (do
      modify fun s => { s with frames := [], depth := s.depth - 1 }
      return some d) := rfl

lemma exec_ret (d : Datum) (g : Frame) :
    exec h ⟨id, pc, locals, d :: ops⟩ (g :: rest) .ret = (do
      modify fun s =>
        { s with frames := { g with operands := d :: g.operands } :: rest, depth := s.depth - 1 }
      return none) := rfl

end Operands

/-! Calls. -/

section Enter

variable {h} {s : State} {id : Nat} {args : List Datum}

lemma enter_deep (hd : h.callDepth ≤ s.depth) :
    enter h id args s = .error ⟨.stackOverflow, "call depth exceeds " ++ toString h.callDepth,
      trace h.program s.frames⟩ s := by
  rw [enter, bind_get]
  simp only [hd, if_true]
  rfl

lemma enter_ok {g : Function} (hd : ¬ h.callDepth ≤ s.depth)
    (hg : h.program.functions[id]? = some g) :
    enter h id args s =
      .ok none { s with frames := frameOf g id args :: s.frames, depth := s.depth + 1 } := by
  rw [enter, bind_get]
  simp only [hd, if_false, hg]
  rfl

lemma enter_none (hd : ¬ h.callDepth ≤ s.depth) (hg : h.program.functions[id]? = none) :
    enter h id args s = broken h s := by
  rw [enter, bind_get]
  simp only [hd, if_false, hg]

end Enter

end ScriptHost.Machine
