import Mathlib.Data.List.Permutation
import ScriptHost.Proofs.Compile.Statics
import ScriptHost.Proofs.Evaluation.Expressions
import ScriptHost.Proofs.Machine.Limits
import ScriptHost.Proofs.Syntax.Legible

/-!
Operations on integers. Each gives the exact result or a fault, so none wraps; and a literal that is negated while the
program is compiled is one that can be negated.
-/

namespace ScriptHost

namespace Arithmetic

def InRange (v : Int) : Prop :=
  Int64.minValue.toInt ≤ v ∧ v ≤ Int64.maxValue.toInt

instance (v : Int) : Decidable (InRange v) :=
  inferInstanceAs (Decidable (_ ∧ _))

lemma inRange_iff {v : Int} : InRange v ↔ -9223372036854775808 ≤ v ∧ v ≤ 9223372036854775807 := Iff.rfl

def ofExact (v : Int) : Option Int64 :=
  if InRange v then some (.ofInt v) else none

lemma toInt_ofInt_of_inRange {v : Int} (h : InRange v) : (Int64.ofInt v).toInt = v :=
  Int64.toInt_ofInt_of_le (inRange_iff.mp h).1 (Int.lt_add_one_of_le h.2)

lemma inRange_toInt (a : Int64) : InRange a.toInt :=
  ⟨a.minValue_le_toInt, a.toInt_le⟩

lemma ofExact_toInt (a : Int64) : ofExact a.toInt = some a := by
  rw [ofExact, if_pos (inRange_toInt a), Int64.ofInt_toInt]

lemma whenExact_eq {wrapped : Int64} {exact : Int} (h : wrapped.toInt = exact.bmod (2 ^ 64)) :
    whenExact wrapped exact = ofExact exact := by
  have hwrapped : wrapped = .ofInt exact :=
    Int64.toInt_inj.mp (h.trans Int64.toInt_ofInt.symm)
  rw [whenExact, ofExact]
  by_cases hrange : InRange exact
  · rw [hwrapped, if_pos (toInt_ofInt_of_inRange hrange), if_pos hrange]
  · have hne : wrapped.toInt ≠ exact := fun heq => hrange (heq ▸ inRange_toInt wrapped)
    rw [if_neg hne, if_neg hrange]

section Operations

variable (a b : Int64)

lemma add?_eq : add? a b = ofExact (a.toInt + b.toInt) :=
  whenExact_eq (Int64.toInt_add a b)

lemma sub?_eq : sub? a b = ofExact (a.toInt - b.toInt) :=
  whenExact_eq (Int64.toInt_sub a b)

lemma mul?_eq : mul? a b = ofExact (a.toInt * b.toInt) :=
  whenExact_eq (Int64.toInt_mul a b)

lemma neg?_eq : neg? a = ofExact (-a.toInt) :=
  whenExact_eq (Int64.toInt_neg a)

lemma div?_eq : div? a b = ofExact (a.toInt.tdiv b.toInt) :=
  whenExact_eq (Int64.toInt_div a b)

lemma abs?_eq : abs? a = ofExact a.toInt.natAbs := by
  rw [abs?]
  by_cases hneg : a < 0
  · have hlt : a.toInt < 0 := Int64.lt_iff_toInt_lt.mp hneg
    rw [if_pos hneg, neg?_eq, Int.ofNat_natAbs_of_nonpos (Int.le_of_lt hlt)]
  · have hle : 0 ≤ a.toInt := Int.not_lt.mp fun hlt => hneg (Int64.lt_iff_toInt_lt.mpr hlt)
    rw [if_neg hneg, Int.natAbs_of_nonneg hle, ofExact_toInt]

lemma inRange_tdiv {a b : Int64} : InRange (a.toInt.tdiv b.toInt) ↔ ¬ (a = Int64.minValue ∧ b = -1) := by
  have ha := inRange_toInt a
  constructor
  · rintro hrange ⟨rfl, rfl⟩
    exact absurd hrange (by decide)
  · intro hne
    have hsize : (a.toInt.tdiv b.toInt).natAbs = a.toInt.natAbs / b.toInt.natAbs := Int.natAbs_tdiv _ _
    by_cases hone : b.toInt.natAbs ≤ 1
    · obtain hb | hb | hb : b.toInt = 0 ∨ b.toInt = 1 ∨ b.toInt = -1 := by omega
      · rw [hb, Int.tdiv_zero]
        decide
      · rw [hb, Int.tdiv_one]
        exact ha
      · have hb : b = -1 := Int64.toInt_inj.mp hb
        have ha' : a.toInt ≠ -9223372036854775808 := fun heq => hne ⟨Int64.toInt_inj.mp heq, hb⟩
        rw [hb]
        change InRange (a.toInt.tdiv (-1))
        rw [Int.tdiv_neg, Int.tdiv_one]
        rw [inRange_iff] at ha ⊢
        omega
    · have hhalf : a.toInt.natAbs / b.toInt.natAbs ≤ a.toInt.natAbs / 2 :=
        Nat.div_le_div_left (by omega) (by omega)
      rw [inRange_iff] at ha ⊢
      omega

lemma rem?_eq : rem? a b =
    if a = Int64.minValue ∧ b = -1 then none else ofExact (a.toInt.tmod b.toInt) := by
  rw [rem?, div?_eq, ← Int64.toInt_mod, ofExact_toInt, ofExact]
  by_cases hmin : a = Int64.minValue ∧ b = -1
  · rw [if_pos hmin, if_neg (mt inRange_tdiv.mp (not_not_intro hmin))]
    rfl
  · rw [if_neg hmin, if_pos (inRange_tdiv.mpr hmin)]
    rfl

end Operations

end Arithmetic

/-! Literals. -/

lemma Expr.Contains.legible {whole e : Expr} (h : whole.Contains e) (hw : whole.Legible) : e.Legible := by
  induction h with
  | self => exact hw
  | item hx _ ih => exact ih (Expr.allLegible_iff.mp hw _ hx)
  | argument hx _ ih => exact ih (Expr.allLegible_iff.mp hw _ hx)
  | operand _ ih => exact ih hw
  | target _ ih => exact ih hw.1
  | left _ ih => exact ih hw.1
  | first _ ih => exact ih hw.1
  | position _ ih => exact ih hw.2
  | right _ ih => exact ih hw.2
  | second _ ih => exact ih hw.2

namespace Stmt

lemma Legible.blocks {s : Stmt} (hs : s.Legible) {w w' : Site} {body : List Stmt} (hb : (w', body) ∈ s.blocks w) :
    AllLegible body := by
  cases s with
  | branch p cond body otherwise =>
    cases otherwise with
    | none => simp_all [Stmt.blocks, Legible]
    | some otherwise =>
      obtain ⟨-, rfl⟩ | ⟨-, rfl⟩ : _ ∧ _ ∨ _ ∧ _ := by simpa [Stmt.blocks] using hb
      · exact hs.2.1
      · exact hs.2.2
  | _ => simp_all [Stmt.blocks, Legible]

lemma Legible.operands {s : Stmt} (hs : s.Legible) {w : Site} {names : List String} {e : Expr}
    (he : (names, e) ∈ s.operands w) : e.Legible := by
  cases s with
  | assign p target value =>
    cases target with
    | var => simp_all [Stmt.operands, Legible]
    | index p t i =>
      obtain ⟨-, rfl⟩ | ⟨-, rfl⟩ | ⟨-, rfl⟩ : _ ∧ _ ∨ _ ∧ _ ∨ _ ∧ _ := by simpa [Stmt.operands] using he
      · exact hs.1.1
      · exact hs.1.2
      · exact hs.2
  | branch p cond body otherwise => cases otherwise <;> simp_all [Stmt.operands, Legible]
  | count =>
    obtain ⟨-, rfl⟩ | ⟨-, rfl⟩ : _ ∧ _ ∨ _ ∧ _ := by simpa [Stmt.operands] using he
    · exact hs.2.1
    · exact hs.2.2.1
  | give p value => cases value <;> simp_all [Stmt.operands, Legible]
  | _ => simp_all [Stmt.operands, Legible]

lemma Stands.legible {w v : Site} {body : List Stmt} {s : Stmt} (h : Stands w body v s) (hb : AllLegible body) :
    s.Legible := by
  induction h with
  | here => exact hb.1
  | later _ ih => exact ih hb.2
  | inside hmem _ ih => exact ih (hb.1.blocks hmem)

end Stmt

lemma FunctionDecl.Evaluates.legible {f : FunctionDecl} {names : List String} {e : Expr} (h : f.Evaluates names e)
    (hf : f.Legible) : e.Legible := by
  obtain ⟨w, s, hs, whole, hwhole, he⟩ := h
  exact he.legible ((hs.legible hf.body).operands hwhole)

namespace Machine

open Arithmetic

inductive Operation where
  | add (a b : Int64)
  | sub (a b : Int64)
  | mul (a b : Int64)
  | div (a b : Int64)
  | rem (a b : Int64)
  | neg (a : Int64)
  | abs (a : Int64)
deriving DecidableEq

namespace Operation

def instr : Operation → Instr
  | add _ _ => .binary .add
  | sub _ _ => .binary .sub
  | mul _ _ => .binary .mul
  | div _ _ => .binary .div
  | rem _ _ => .binary .rem
  | neg _ => .unary .neg
  | abs _ => .callBuiltin .abs 1

def operands : Operation → List Datum
  | add a b | sub a b | mul a b | div a b | rem a b => [.int b, .int a]
  | neg a | abs a => [.int a]

/-- The mathematical result, cut toward zero. There is none where the divisor is 0. -/
def result? : Operation → Option Int
  | add a b => some (a.toInt + b.toInt)
  | sub a b => some (a.toInt - b.toInt)
  | mul a b => some (a.toInt * b.toInt)
  | div a b => if b = 0 then none else some (a.toInt.tdiv b.toInt)
  | rem a b => if b = 0 then none else some (a.toInt.tmod b.toInt)
  | neg a => some (-a.toInt)
  | abs a => some a.toInt.natAbs

/-- The one remainder that is in the range while the quotient that it goes with is not. -/
def Excepted (o : Operation) : Prop :=
  o = rem Int64.minValue (-1)

instance (o : Operation) : Decidable o.Excepted :=
  inferInstanceAs (Decidable (_ = _))

/-- Whatever call carries the operation out, it goes on with `v` in place of the operands. -/
def Gives (o : Operation) (v : Int) : Prop :=
  ∀ (h : Host) (f : Frame) (rest : List Frame) (ops : List Datum) (s : State), ∃ r : Int64, r.toInt = v ∧
    exec h { f with operands := o.operands ++ ops } rest o.instr s =
      .ok none { s with frames := { f with operands := .int r :: ops } :: rest }

/-- Whatever call carries the operation out, it ends with this message. -/
def Fails (o : Operation) (message : String) : Prop :=
  ∀ (h : Host) (f : Frame) (rest : List Frame) (ops : List Datum) (s : State),
    exec h { f with operands := o.operands ++ ops } rest o.instr s =
      .error ⟨.arithmeticError, message, trace h.program ({ f with operands := ops } :: rest)⟩
        { s with frames := { f with operands := ops } :: rest }

/-! What the instructions do. -/

def work (h : Host) : Operation → Run Datum
  | add a b => Machine.add h (.int a) (.int b)
  | sub a b => arithmetic h sub? false (.int a) (.int b)
  | mul a b => arithmetic h mul? false (.int a) (.int b)
  | div a b => arithmetic h div? true (.int a) (.int b)
  | rem a b => arithmetic h rem? true (.int a) (.int b)
  | neg a => unary h .neg (.int a)
  | abs a => Machine.abs h (.int a)

variable (h : Host) (o : Operation)

lemma exec_eq_pushing (f : Frame) (rest : List Frame) (ops : List Datum) :
    exec h { f with operands := o.operands ++ ops } rest o.instr =
      pushing { f with operands := ops } rest (o.work h) := by
  cases o with
  | abs a => exact exec_callBuiltin h rest f.function f.pc f.locals _ .abs (Nat.le_add_left 1 ops.length)
  | _ => rfl

lemma work_eq : o.work h = match o.result? with
    | none => fail h .arithmeticError "division by zero"
    | some v => exactly h (if o.Excepted then none else ofExact v) := by
  have hdivides : ∀ (op : Int64 → Int64 → Option Int64) (a b : Int64), arithmetic h op true (.int a) (.int b) =
      if b = 0 then fail h .arithmeticError "division by zero" else exactly h (op a b) := by
    intro op a b
    simp only [arithmetic, Bool.true_and, beq_iff_eq]
  cases o with
  | add a b => exact congrArg (exactly h) (add?_eq a b)
  | sub a b => exact congrArg (exactly h) (sub?_eq a b)
  | mul a b => exact congrArg (exactly h) (mul?_eq a b)
  | neg a => exact congrArg (exactly h) (neg?_eq a)
  | abs a =>
    have ho : ¬ (abs a).Excepted := nofun
    simp only [result?, if_neg ho, ← abs?_eq]
    rfl
  | div a b =>
    have ho : ¬ (div a b).Excepted := nofun
    rw [work, hdivides, result?, div?_eq]
    by_cases hb : b = 0
    · simp only [if_pos hb]
    · simp only [if_neg hb, if_neg ho]
  | rem a b =>
    have ho : (rem a b).Excepted ↔ a = Int64.minValue ∧ b = -1 := by rw [Excepted, rem.injEq]
    rw [work, hdivides, result?, rem?_eq]
    by_cases hb : b = 0
    · simp only [if_pos hb]
    · simp only [if_neg hb, ho]

variable {o}

lemma gives_of_inRange {v : Int} (hv : o.result? = some v) (hrange : InRange v) (ho : ¬ o.Excepted) : o.Gives v := by
  intro h f rest ops s
  have hwork : o.work h = pure (.int (.ofInt v)) := by
    rw [work_eq, hv]
    simp only [if_neg ho, ofExact, if_pos hrange]
    rfl
  refine ⟨.ofInt v, toInt_ofInt_of_inRange hrange, ?_⟩
  rw [exec_eq_pushing, hwork]
  rfl

lemma fails_of_work {message : String} (hwork : ∀ h, o.work h = fail h .arithmeticError message) :
    o.Fails message := by
  intro h f rest ops s
  rw [exec_eq_pushing, hwork]
  rfl

lemma fails_of_none (hv : o.result? = none) : o.Fails "division by zero" := by
  apply fails_of_work
  intro h
  rw [work_eq, hv]

lemma fails_of_outside {v : Int} (hv : o.result? = some v) (hout : ¬ InRange v ∨ o.Excepted) :
    o.Fails "integer overflow" := by
  apply fails_of_work
  intro h
  rw [work_eq, hv]
  by_cases ho : o.Excepted
  · simp only [if_pos ho]
    rfl
  · simp only [if_neg ho, ofExact, if_neg (hout.resolve_right ho)]
    rfl

lemma Gives.not_fails {v : Int} {message : String} (hv : o.Gives v) (hf : o.Fails message) : False := by
  let h : Host := ⟨⟨0, #[], #[], "", []⟩, 0, none, fun _ => false⟩
  obtain ⟨r, -, hr⟩ := hv h default [] [] (.start 0)
  rw [hf h default [] [] (.start 0)] at hr
  cases hr

end Operation

lemma exec_folded {v : Int64} (hv : 0 ≤ v) (h : Host) (f : Frame) (rest : List Frame) (s : State) :
    exec h f rest (.int (-v)) s = exec h { f with operands := .int v :: f.operands } rest (.unary .neg) s := by
  have hneg : unary h .neg (.int v) = pure (.int (-v)) := by
    rw [unary, Evaluation.neg?_literal hv]
    rfl
  rw [exec_unary, hneg]
  rfl

/-- Operations on integers are exact. Each gives the mathematical result where there is one in the range, but for one
remainder: the least integer by -1 is no more there than the quotient that goes with it. All else is a fault. A literal
that is negated where it is compiled stays in the range, and pushes what negating it in the run would give. -/
theorem integer_operations_are_exact :
    (∀ (o : Operation) (v : Int), o.result? = some v → InRange v → ¬ o.Excepted → o.Gives v) ∧
    (∀ (o : Operation) (v : Int), o.result? = some v → ¬ InRange v ∨ o.Excepted → o.Fails "integer overflow") ∧
    (∀ o : Operation, o.result? = none → o.Fails "division by zero") ∧
    ∀ (u : SourceUnit), ∀ f ∈ (Compiler.parseUnit u).1.functions, ∀ names p q v,
      f.Evaluates names (.unary p .neg (.int q v)) →
      (-v).toInt = -v.toInt ∧
      (∀ c slots start, Emit.expr c slots start (.unary p .neg (.int q v)) = Emit.one (.int (-v)) p) ∧
      ∀ h frame rest s, exec h frame rest (.int (-v)) s =
        exec h { frame with operands := .int v :: frame.operands } rest (.unary .neg) s := by
  refine ⟨fun _ _ => Operation.gives_of_inRange, fun _ _ => Operation.fails_of_outside,
    fun _ => Operation.fails_of_none, ?_⟩
  intro u f hf names p q v he
  have hv : 0 ≤ v := he.legible (Compiler.parseUnit_legible u f hf)
  have hrange : InRange (-v.toInt) := by
    have hle : 0 ≤ v.toInt := Int64.le_iff_toInt_le.mp hv
    have hlt := v.toInt_lt
    rw [inRange_iff]
    omega
  refine ⟨?_, fun c slots start => by rw [Emit.expr], exec_folded hv⟩
  rw [Int64.toInt_neg, ← Int64.toInt_ofInt, toInt_ofInt_of_inRange hrange]

def five : SourceUnit :=
  ⟨"m", "fn main() { return -5; }", true⟩

def fiveMain : FunctionDecl where
  name := "main"
  params := []
  body := [.give ⟨1, 13⟩ (some (.unary ⟨1, 20⟩ .neg (.int ⟨1, 21⟩ 5)))]
  place := ⟨1, 1⟩

set_option maxRecDepth 100000 in
lemma five_functions : (Compiler.parseUnit five).1.functions = [fiveMain] := by
  cbv

theorem integer_operations_are_exact_small :
    (Operation.rem (-7) 2).Gives (-1) ∧ (Operation.abs Int64.minValue).Fails "integer overflow" ∧
      (Operation.div 7 0).Fails "division by zero" ∧ (-5 : Int64).toInt = -5 := by
  obtain ⟨hgives, hoverflow, hzero, hliteral⟩ := integer_operations_are_exact
  have hfive : fiveMain.Evaluates [] (.unary ⟨1, 20⟩ .neg (.int ⟨1, 21⟩ 5)) :=
    ⟨_, _, .here, _, List.mem_singleton_self _, .self _⟩
  refine ⟨hgives _ _ rfl (by decide) (by decide), hoverflow _ _ rfl (.inl (by decide)), hzero _ rfl, ?_⟩
  exact (hliteral five fiveMain (five_functions ▸ List.mem_singleton_self _) _ _ _ 5 hfive).1

def leastRemainder : SourceUnit :=
  ⟨"m", "fn main() { return (-9223372036854775807 - 1) % -1; }", true⟩

def overflows (r : Except CompileError Program) : Bool :=
  match r with
  | .ok p => faultOf? (started ⟨p, 8, none, fun _ => false⟩ 0 [] 10 (.start 64)) == some .arithmeticError
  | .error _ => false

/-- Not every result in the range is given. -/
theorem least_remainder_overflows :
    ¬ (∀ (o : Operation) (v : Int), o.result? = some v → InRange v → o.Gives v) ∧
      overflows (Compiler.compile {} 0 [leastRemainder]) = true := by
  refine ⟨fun hgives => ?_, by decide +kernel⟩
  have hoverflow : (Operation.rem Int64.minValue (-1)).Fails "integer overflow" :=
    Operation.fails_of_outside (v := 0) (by decide) (.inr rfl)
  exact (hgives _ 0 (by decide) (by decide)).not_fails hoverflow

end Machine

end ScriptHost
