import Mathlib.Tactic.Lemma
import ScriptHost.Bytecode.Program

/-!
Operands before each instruction. Code has heights when every instruction has one number of operands,
whichever way control came to it, and all that it names is there.
-/

namespace ScriptHost

namespace Instr

def takes : Instr → Nat
  | store _ | pop | unary _ | expectBool | jumpIfFalse _ | jumpKeep _ _ | ret => 1
  | binary _ | index => 2
  | storeIndex => 3
  | call _ n | callBuiltin _ n | makeArray n => n
  | int _ | str _ | nil | bool _ | load _ | jump _ => 0

def gives : Instr → Nat
  | store _ | pop | jump _ | jumpIfFalse _ | jumpKeep _ _ | ret | storeIndex => 0
  | _ => 1

/-- Where control goes from an address, and with how many operands if there are `k`. -/
def next (i : Instr) (pc k : Nat) : List (Nat × Nat) :=
  match i with
  | jump target => [(target, k)]
  | jumpIfFalse target => [(pc + 1, k - 1), (target, k - 1)]
  | jumpKeep _ target => [(pc + 1, k - 1), (target, k)]
  | ret => []
  | i => [(pc + 1, k - i.takes + i.gives)]

def targets (i : Instr) (pc : Nat) : List Nat :=
  (i.next pc 0).map Prod.fst

lemma map_next (i : Instr) (pc k : Nat) : (i.next pc k).map Prod.fst = i.targets pc := by
  cases i <;> rfl

def InRange (p : Program) (locals : Nat) : Instr → Prop
  | str i => i < p.strings.size
  | load slot => slot < locals
  | store slot => slot < locals
  | call id n => ∃ f, p.functions[id]? = some f ∧ f.arity = n
  | callBuiltin b n => b.arity.1 ≤ n ∧ n ≤ b.arity.2
  | _ => True

lemma InRange.mono {p : Program} {n m : Nat} (h : n ≤ m) {i : Instr} (hi : i.InRange p n) :
    i.InRange p m := by
  cases i with
  | load => exact Nat.lt_of_lt_of_le hi h
  | store => exact Nat.lt_of_lt_of_le hi h
  | _ => exact hi

end Instr

/-- `H` gives the operands before each instruction of a function; a call starts with none. -/
structure Function.Heights (p : Program) (g : Function) (H : Nat → Nat) : Prop where
  nonempty : 0 < g.code.size
  first : H 0 = 0
  range : ∀ (pc : Nat) (i : Instr), g.code[pc]? = some i → i.InRange p g.locals
  enough : ∀ (pc : Nat) (i : Instr), g.code[pc]? = some i → i.takes ≤ H pc
  next : ∀ (pc : Nat) (i : Instr), g.code[pc]? = some i → ∀ s ∈ i.next pc (H pc), s.1 < g.code.size ∧ H s.1 = s.2

/-- Control can come to an address with `k` operands. -/
inductive Function.Reaches (g : Function) : Nat → Nat → Prop where
  | start : g.Reaches 0 0
  | step {pc k pc' k' : Nat} {i : Instr} : g.Reaches pc k → g.code[pc]? = some i →
      (pc', k') ∈ i.next pc k → g.Reaches pc' k'

lemma Function.Heights.reaches {p : Program} {g : Function} {H : Nat → Nat} (h : g.Heights p H)
    {pc k : Nat} (hr : g.Reaches pc k) : pc < g.code.size ∧ k = H pc := by
  induction hr with
  | start => exact ⟨h.nonempty, h.first.symm⟩
  | step _ hi hnext ih =>
    rw [ih.2] at hnext
    obtain ⟨hlt, hH⟩ := h.next _ _ hi _ hnext
    exact ⟨hlt, hH.symm⟩

end ScriptHost
