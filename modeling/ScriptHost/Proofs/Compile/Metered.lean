import ScriptHost.Proofs.Compile.Stores
import ScriptHost.Proofs.Syntax.Trees

/-!
Code under limits. Counters walk a function in the order of its code and leave off at the first instruction or
variable that there is no room for. What they find is what the limits say of the whole code.
-/

namespace ScriptHost

lemma ok_bind {ε α β : Type} (a : α) (f : α → Except ε β) : (Except.ok a >>= f) = f a := rfl

lemma bind_congr_ok {ε α β : Type} {x : Except ε α} {f g : α → Except ε β} (h : ∀ a, x = .ok a → f a = g a) :
    (x >>= f) = x >>= g := by
  cases x with
  | error => rfl
  | ok a => exact h a rfl

structure Usage where
  instructions : Nat
  slots : Nat
deriving DecidableEq, Repr

namespace Usage

def emit (limit : Nat) (u : Usage) : Except Shortage Usage :=
  if limit ≤ u.instructions then .error (.instructions limit)
  else .ok { u with instructions := u.instructions + 1 }

def emits (limit : Nat) : Nat → Usage → Except Shortage Usage
  | 0, u => .ok u
  | k + 1, u => u.emit limit >>= emits limit k

def declare (slot : Nat) (u : Usage) : Except Shortage Usage :=
  if Capacity.slotCount ≤ slot then .error .localVariables
  else .ok { u with slots := max u.slots (slot + 1) }

structure Holds (u : Usage) (s : Slots) : Prop where
  addressed : s.next ≤ Capacity.slotCount
  counted : s.next ≤ u.slots

lemma Holds.mono {u u' : Usage} {s : Slots} (h : u.Holds s) (hle : u.slots ≤ u'.slots) : u'.Holds s :=
  ⟨h.addressed, Nat.le_trans h.counted hle⟩

section Steps

variable {limit slot k : Nat} {u u' : Usage}

lemma emit_slots (h : u.emit limit = .ok u') : u'.slots = u.slots := by
  rw [emit] at h
  split at h
  · cases h
  · cases h
    rfl

lemma Holds.emit {s : Slots} (hu : u.Holds s) (h : u.emit limit = .ok u') : u'.Holds s :=
  hu.mono (Nat.le_of_eq (emit_slots h).symm)

lemma emits_slots (h : u.emits limit k = .ok u') : u'.slots = u.slots := by
  induction k generalizing u with
  | zero =>
    cases h
    rfl
  | succ k ih =>
    obtain ⟨v, hv, h⟩ := Parser.bind_ok h
    rw [ih h, emit_slots hv]

lemma Holds.emits {s : Slots} (hu : u.Holds s) (h : u.emits limit k = .ok u') : u'.Holds s :=
  hu.mono (Nat.le_of_eq (emits_slots h).symm)

lemma emits_one (u : Usage) : u.emits limit 1 = u.emit limit := bind_pure _

lemma declare_ok (h : u.declare slot = .ok u') :
    slot < Capacity.slotCount ∧ slot < u'.slots ∧ u.slots ≤ u'.slots := by
  rw [declare] at h
  split at h
  · cases h
  · next hlt =>
    cases h
    exact ⟨Nat.not_le.mp hlt, Nat.le_max_right _ _, Nat.le_max_left _ _⟩

lemma declare_holds {s : Slots} (h : u.declare s.next = .ok u') (name : String) : u'.Holds (s.declare name) :=
  have ⟨haddressed, hcounted, _⟩ := declare_ok h
  ⟨haddressed, hcounted⟩

lemma declare_of_lt (hslot : slot < Capacity.slotCount) (hcounted : slot < u.slots) : u.declare slot = .ok u := by
  rw [declare, if_neg (Nat.not_le.mpr hslot), Nat.max_eq_left hcounted]

end Steps

end Usage

namespace Slots

def param (s : Slots) (name : String) : Slots :=
  if name ∈ s.names then s else s.declare name

lemma le_foldl_param (names : List String) (s : Slots) : s.next ≤ (names.foldl param s).next := by
  induction names generalizing s with
  | nil => exact Nat.le_refl _
  | cons n names ih =>
    refine Nat.le_trans ?_ (ih _)
    rw [param]
    split
    · exact Nat.le_refl _
    · exact Nat.le_succ _

end Slots

namespace Metered

open Emit (Context)

mutual

def expr (limit : Nat) (c : Context) (u : Usage) : Expr → Except Shortage Usage
  | .int _ _ => u.emit limit
  | .str _ _ => u.emit limit
  | .bool _ _ => u.emit limit
  | .nil _ => u.emit limit
  | .var _ _ => u.emit limit
  | .array _ items => do
    let u ← exprs limit c u items
    u.emit limit
  | .index _ target i => do
    let u ← expr limit c u target
    let u ← expr limit c u i
    u.emit limit
  | .call p name args => do
    let u ← exprs limit c u args
    u.emits limit (Emit.callCode c p name args.length).size
  | .unary _ .neg (.int _ _) => u.emit limit
  | .unary _ _ operand => do
    let u ← expr limit c u operand
    u.emit limit
  | .binary _ _ lhs rhs => do
    let u ← expr limit c u lhs
    let u ← expr limit c u rhs
    u.emit limit
  | .logic _ _ lhs rhs => do
    let u ← expr limit c u lhs
    let u ← u.emit limit
    let u ← expr limit c u rhs
    u.emit limit

def exprs (limit : Nat) (c : Context) (u : Usage) : List Expr → Except Shortage Usage
  | [] => .ok u
  | e :: es => do
    let u ← expr limit c u e
    exprs limit c u es

end

mutual

/-- What a function has needed behind a statement. A `break` or a `continue` outside of loops has no code, nor has
storing to a variable that is not there. -/
def stmt (limit : Nat) (c : Context) (inLoop : Bool) (s : Slots) (u : Usage) : Stmt → Except Shortage Usage
  | .declare _ _ init => do
    let u ← expr limit c u init
    let u ← u.declare s.next
    u.emit limit
  | .assign _ (.var _ name) value => do
    let u ← expr limit c u value
    u.emits limit (if (s.find? name).isSome then 1 else 0)
  | .assign _ (.index _ t i) value => do
    let u ← expr limit c u t
    let u ← expr limit c u i
    let u ← expr limit c u value
    u.emit limit
  | .branch _ cond body none => do
    let u ← expr limit c u cond
    let u ← u.emit limit
    stmts limit c inLoop s u body
  | .branch _ cond body (some otherwise) => do
    let u ← expr limit c u cond
    let u ← u.emit limit
    let u ← stmts limit c inLoop s u body
    let u ← u.emit limit
    stmts limit c inLoop s u otherwise
  | .loop _ cond body => do
    let u ← expr limit c u cond
    let u ← u.emit limit
    let u ← stmts limit c true s u body
    u.emit limit
  | .count _ name first bound body => do
    let u ← expr limit c u first
    let u ← u.declare s.next
    let u ← u.emit limit
    let u ← expr limit c u bound
    let u ← u.declare (s.next + 1)
    let u ← u.emit limit
    let u ← u.emits limit 4
    let u ← stmts limit c true ((s.declare name).declare "") u body
    u.emits limit 5
  | .give _ none => u.emits limit 2
  | .give _ (some e) => do
    let u ← expr limit c u e
    u.emit limit
  | .leave _ => u.emits limit (if inLoop then 1 else 0)
  | .again _ => u.emits limit (if inLoop then 1 else 0)
  | .block _ body => stmts limit c inLoop s u body
  | .eval _ e => do
    let u ← expr limit c u e
    u.emit limit

def stmts (limit : Nat) (c : Context) (inLoop : Bool) (s : Slots) (u : Usage) : List Stmt → Except Shortage Usage
  | [] => .ok u
  | x :: xs => do
    let u ← stmt limit c inLoop s u x
    stmts limit c inLoop (x.slots s) u xs

end

def params (s : Slots) (u : Usage) : List String → Except Shortage Usage
  | [] => .ok u
  | n :: ns =>
    if n ∈ s.names then params s u ns
    else do
      let u ← u.declare s.next
      params (s.declare n) u ns

lemma params_eq (names : List String) (s : Slots) (k : Nat) (hs : s.next ≤ Capacity.slotCount) :
    params s ⟨k, s.next⟩ names =
      if Capacity.slotCount < (names.foldl Slots.param s).next then .error .localVariables
      else .ok ⟨k, (names.foldl Slots.param s).next⟩ := by
  induction names generalizing s with
  | nil => exact (if_neg (Nat.not_lt.mpr hs)).symm
  | cons n names ih =>
    rw [params, List.foldl_cons, Slots.param]
    by_cases hn : n ∈ s.names
    · rw [if_pos hn, if_pos hn, ih s hs]
    · rw [if_neg hn, if_neg hn, Usage.declare]
      by_cases hfull : Capacity.slotCount ≤ s.next
      · have hle : s.next + 1 ≤ (names.foldl Slots.param (s.declare n)).next :=
          Slots.le_foldl_param names (s.declare n)
        rw [if_pos hfull, if_pos (by omega)]
        rfl
      · rw [if_neg hfull, Nat.max_eq_right (Nat.le_succ _)]
        exact ih (s.declare n) (Nat.lt_of_not_le hfull)

def function (limit : Nat) (c : Context) (d : Definition) : Except Shortage Usage := do
  let names := d.decl.params.map (·.1)
  let u ← params .empty ⟨0, 0⟩ names
  let u ← stmts limit c false (.ofParams names) u d.decl.body
  let u ← u.emits limit 2
  if Capacity.frameLimit < d.decl.arity then .error (.parameters d.decl.name)
  else if Capacity.frameLimit < u.slots then .error (.locals d.decl.name)
  else .ok u

end Metered

namespace Emit

variable {limit : Nat}

/-- Room for a line. A jump that is still open is code inside of loops only. -/
def roomLine (limit : Nat) (inLoop : Bool) (u : Usage) (l : Line) : Except Shortage Usage :=
  match l.op with
  | .plain (.store slot) => u.declare slot >>= Usage.emit limit
  | .plain _ => u.emit limit
  | _ => u.emits limit (if inLoop then 1 else 0)

def room (limit : Nat) (inLoop : Bool) (u : Usage) (code : Code) : Except Shortage Usage :=
  code.foldlM (roomLine limit inLoop) u

lemma room_append (inLoop : Bool) (u : Usage) (code code' : Code) :
    room limit inLoop u (code ++ code') = room limit inLoop u code >>= fun u => room limit inLoop u code' :=
  Array.foldlM_append

lemma room_single (inLoop : Bool) (u : Usage) (l : Line) : room limit inLoop u #[l] = roomLine limit inLoop u l := by
  rw [room, List.foldlM_toArray, List.foldlM_cons]
  exact bind_pure _

lemma room_one {i : Instr} (hi : ∀ slot, i ≠ .store slot) (inLoop : Bool) (u : Usage) (p : Position) :
    room limit inLoop u (one i p) = u.emit limit := by
  rw [one, room_single, roomLine]
  cases i <;> first | rfl | exact absurd rfl (hi _)

lemma room_store (inLoop : Bool) (u : Usage) (p : Position) (slot : Nat) :
    room limit inLoop u (one (.store slot) p) = u.declare slot >>= Usage.emit limit :=
  room_single inLoop u _

section Lines

variable {inLoop : Bool} {u u' : Usage}

lemma roomLine_ok {l : Line} (h : roomLine limit inLoop u l = .ok u') :
    u.slots ≤ u'.slots ∧ ∀ slot, l.op = .plain (.store slot) → slot < min Capacity.slotCount u'.slots := by
  have hfree (hsame : u'.slots = u.slots) (hno : ∀ slot, l.op ≠ .plain (.store slot)) :
      u.slots ≤ u'.slots ∧ ∀ slot, l.op = .plain (.store slot) → slot < min Capacity.slotCount u'.slots :=
    ⟨Nat.le_of_eq hsame.symm, fun slot hslot => absurd hslot (hno slot)⟩
  obtain ⟨op, n⟩ := l
  cases op with
  | plain i =>
    cases i with
    | store slot =>
      obtain ⟨v, hv, h⟩ := Parser.bind_ok h
      obtain ⟨haddressed, hcounted, hle⟩ := Usage.declare_ok hv
      rw [Usage.emit_slots h]
      refine ⟨hle, fun k hk => ?_⟩
      cases hk
      exact Nat.lt_min.mpr ⟨haddressed, hcounted⟩
    | _ => exact hfree (Usage.emit_slots h) (by simp)
  | _ => exact hfree (Usage.emits_slots h) (by simp)

lemma room_ok {code : Code} (h : room limit inLoop u code = .ok u') :
    u.slots ≤ u'.slots ∧ StoresBelow (min Capacity.slotCount u'.slots) code := by
  rw [room, ← Array.foldlM_toList] at h
  suffices hs : u.slots ≤ u'.slots ∧
      ∀ l ∈ code.toList, ∀ slot, l.op = .plain (.store slot) → slot < min Capacity.slotCount u'.slots from
    ⟨hs.1, fun l hl => hs.2 l (Array.mem_toList_iff.mpr hl)⟩
  generalize code.toList = ls at h
  induction ls generalizing u with
  | nil =>
    cases h
    exact ⟨Nat.le_refl _, by simp⟩
  | cons l ls ih =>
    rw [List.foldlM_cons] at h
    obtain ⟨v, hv, h⟩ := Parser.bind_ok h
    obtain ⟨hle, hl⟩ := roomLine_ok hv
    obtain ⟨hle', hls⟩ := ih h
    refine ⟨Nat.le_trans hle hle', List.forall_mem_cons.mpr ⟨fun slot hslot => ?_, hls⟩⟩
    have hlt := hl slot hslot
    omega

lemma room_eq_emits {code : Code} (hcode : Settled code) (hb : StoresBelow (min Capacity.slotCount u.slots) code) :
    room limit inLoop u code = u.emits limit code.size := by
  rw [room, ← Array.foldlM_toList, ← Array.length_toList]
  replace hcode : ∀ l ∈ code.toList, l.instr?.isSome := fun l hl => hcode l (Array.mem_toList_iff.mp hl)
  replace hb : ∀ l ∈ code.toList, ∀ slot, l.op = .plain (.store slot) → slot < min Capacity.slotCount u.slots :=
    fun l hl => hb l (Array.mem_toList_iff.mp hl)
  generalize code.toList = ls at hcode hb
  induction ls generalizing u with
  | nil => rfl
  | cons l ls ih =>
    obtain ⟨hl, hls⟩ := List.forall_mem_cons.mp hcode
    obtain ⟨hbl, hbls⟩ := List.forall_mem_cons.mp hb
    have hline : roomLine limit inLoop u l = u.emit limit := by
      obtain ⟨op, n⟩ := l
      cases op with
      | plain i =>
        cases i with
        | store slot =>
          obtain ⟨haddressed, hcounted⟩ := Nat.lt_min.mp (hbl slot rfl)
          exact congrArg (· >>= Usage.emit limit) (Usage.declare_of_lt haddressed hcounted)
        | _ => rfl
      | _ => cases hl
    rw [List.foldlM_cons, hline, List.length_cons, Usage.emits]
    refine bind_congr_ok fun v hv => ih hls ?_
    rwa [Usage.emit_slots hv]

end Lines

lemma room_settle (inLoop : Bool) (u : Usage) (exit round : Nat) (code : Code) :
    room limit inLoop u (code.map (Line.settle exit round)) = room limit true u code := by
  have hline : (fun u l => roomLine limit inLoop u (Line.settle exit round l)) = roomLine limit true := by
    funext u l
    obtain ⟨op, n⟩ := l
    cases op with
    | plain i => cases i <;> rfl
    | leave => exact (bind_pure _).symm
    | again => exact (bind_pure _).symm
  rw [room, room, ← Array.foldlM_toList, Array.toList_map, List.foldlM_map, hline, Array.foldlM_toList]

section Code

variable {c : Context} {inLoop : Bool}

lemma callCode_room (u : Usage) (p : Position) (name : String) (argc : Nat) :
    room limit inLoop u (callCode c p name argc) = u.emits limit (callCode c p name argc).size := by
  have hone : ∀ i : Instr, (∀ slot, i ≠ .store slot) →
      room limit inLoop u (one i p) = u.emits limit (one i p).size := by
    intro i hi
    rw [room_one hi]
    exact (bind_pure _).symm
  rw [callCode]
  split
  · rfl
  · split
    · exact hone _ (by simp)
    · split
      · split
        · exact hone _ (by simp)
        · rfl
      · rfl

mutual

lemma expr_room (s : Slots) (start : Nat) (u : Usage) (e : Expr) :
    room limit inLoop u (expr c s start e) = Metered.expr limit c u e := by
  cases e with
  | int | str | bool | nil => exact room_one (by simp) inLoop u _
  | var p name =>
    refine room_one (fun slot => ?_) inLoop u p
    cases s.find? name <;> simp
  | array p items =>
    rw [expr, room_append, exprs_room s start u items, Metered.expr]
    exact bind_congr fun u => room_one (by simp) inLoop u p
  | index p target i =>
    simp only [expr, room_append, expr_room s _ _ target, expr_room s _ _ i, bind_assoc, Metered.expr]
    exact bind_congr fun u => bind_congr fun u => room_one (by simp) inLoop u p
  | call p name args =>
    rw [expr, room_append, exprs_room s start u args, Metered.expr]
    exact bind_congr fun u => callCode_room u p name args.length
  | unary p op operand =>
    by_cases hlit : ∃ q v, op = .neg ∧ operand = .int q v
    · obtain ⟨q, v, rfl, rfl⟩ := hlit
      exact room_one (by simp) inLoop u p
    · rw [expr_unary c s start p hlit, room_append, expr_room s start u operand, Metered.expr]
      · exact bind_congr fun u => room_one (by simp) inLoop u p
      · intro q v hop hv
        exact hlit ⟨q, v, hop, hv⟩
  | binary p op lhs rhs =>
    simp only [expr, room_append, expr_room s _ _ lhs, expr_room s _ _ rhs, bind_assoc, Metered.expr]
    exact bind_congr fun u => bind_congr fun u => room_one (by simp) inLoop u p
  | logic p op lhs rhs =>
    have hjump : ∀ target slot, logicJump op target ≠ .store slot := by cases op <;> simp [logicJump]
    simp only [expr, room_append, expr_room s _ _ lhs, expr_room s _ _ rhs, bind_assoc, room_one (hjump _),
      Metered.expr]
    exact bind_congr fun u => bind_congr fun u => bind_congr fun u => room_one (by simp) inLoop u p

lemma exprs_room (s : Slots) (start : Nat) (u : Usage) (es : List Expr) :
    room limit inLoop u (exprs c s start #[] es) = Metered.exprs limit c u es := by
  cases es with
  | nil => rfl
  | cons e es =>
    rw [exprs_cons, room_append, expr_room s start u e, Metered.exprs]
    exact bind_congr fun u => exprs_room s _ u es

end

end Code

section Slots

variable {c : Context} {inLoop : Bool} {s : Slots} {u u' : Usage}

lemma room_holds {code : Code} (hu : u.Holds s) (h : room limit inLoop u code = .ok u') : u'.Holds s :=
  hu.mono (room_ok h).1

lemma expr_holds {e : Expr} (hu : u.Holds s) (h : Metered.expr limit c u e = .ok u') : u'.Holds s :=
  have hroom : room limit false u (expr c s 0 e) = Metered.expr limit c u e := expr_room s 0 u e
  room_holds hu (hroom.trans h)

lemma stmt_holds {start : Nat} {x : Stmt} (hu : u.Holds s) (h : room limit inLoop u (stmt c s start x).1 = .ok u') :
    u'.Holds (x.slots s) := by
  obtain ⟨hle, hb⟩ := room_ok h
  have hnext := next_slots (Nat.le_min.mpr ⟨hu.addressed, Nat.le_trans hu.counted hle⟩) hb
  obtain ⟨haddressed, hcounted⟩ := Nat.le_min.mp hnext
  exact ⟨haddressed, hcounted⟩

lemma test_room (u : Usage) (counter hidden exit : Nat) (p : Position) :
    room limit inLoop u (one (.load counter) p ++ one (.load hidden) p ++ one (.binary .lt) p
      ++ one (.jumpIfFalse exit) p) = u.emits limit 4 := by
  refine room_eq_emits ?_ ?_
  · simp [Settled, one, Line.instr?]
  · simp [storesBelow_append, storesBelow_one]

lemma step_room {counter : Nat} (hu : counter < min Capacity.slotCount u.slots) (check : Nat) (p : Position) :
    room limit inLoop u (one (.load counter) p ++ one (.int 1) p ++ one (.binary .add) p
      ++ one (.store counter) p ++ one (.jump check) p) = u.emits limit 5 := by
  refine room_eq_emits ?_ ?_
  · simp [Settled, one, Line.instr?]
  · simpa [storesBelow_append, storesBelow_one] using hu

lemma room_stored (hu : u.Holds s) {slot : Nat} (hslot : slot < s.next) (p : Position) :
    room limit inLoop u (one (.store slot) p) = u.emit limit := by
  rw [room_store, Usage.declare_of_lt (Nat.lt_of_lt_of_le hslot hu.addressed) (Nat.lt_of_lt_of_le hslot hu.counted)]
  rfl

end Slots

/-! Room for a part of a tree does not depend on the address of its code. -/

mutual

lemma stmt_room {c : Context} (inLoop : Bool) {s : Slots} (start : Nat) {u : Usage} (hu : u.Holds s) (x : Stmt) :
    room limit inLoop u (stmt c s start x).1 = Metered.stmt limit c inLoop s u x := by
  cases x with
  | declare p name init =>
    simp only [stmt, room_append, expr_room, room_store]
    rfl
  | assign p t value =>
    cases t with
    | var q name =>
      simp only [stmt, room_append, expr_room, Metered.stmt]
      refine bind_congr_ok fun v hv => ?_
      cases hf : s.find? name with
      | none => rfl
      | some slot =>
        exact (room_stored (expr_holds hu hv) (Slots.find?_lt hf) p).trans (Usage.emits_one v).symm
    | index q t i =>
      simp only [stmt, room_append, expr_room, bind_assoc, Metered.stmt]
      exact bind_congr fun v => bind_congr fun v => bind_congr fun v => room_one (by simp) inLoop v p
  | branch p cond body otherwise =>
    cases otherwise with
    | none =>
      simp only [stmt, room_append, expr_room, bind_assoc, Metered.stmt]
      refine bind_congr_ok fun v hv => ?_
      rw [room_one (by simp)]
      refine bind_congr_ok fun v' hv' => ?_
      exact stmts_room inLoop _ ((expr_holds hu hv).emit hv') body
    | some otherwise =>
      simp only [stmt, room_append, expr_room, bind_assoc, Metered.stmt]
      refine bind_congr_ok fun v hv => ?_
      rw [room_one (by simp)]
      refine bind_congr_ok fun v' hv' => ?_
      have hv' := (expr_holds hu hv).emit hv'
      rw [stmts_room inLoop _ hv' body]
      refine bind_congr_ok fun w hw => ?_
      have hw := room_holds hv' ((stmts_room inLoop 0 hv' body).trans hw)
      rw [room_one (by simp)]
      exact bind_congr_ok fun w' hw' => stmts_room inLoop _ (hw.emit hw') otherwise
  | loop p cond body =>
    simp only [stmt, room_append, expr_room, room_settle, bind_assoc, Metered.stmt]
    refine bind_congr_ok fun v hv => ?_
    rw [room_one (by simp)]
    refine bind_congr_ok fun v' hv' => ?_
    rw [stmts_room true _ ((expr_holds hu hv).emit hv') body]
    exact bind_congr fun w => room_one (by simp) inLoop w p
  | count p name first bound body =>
    simp only [stmt, Metered.stmt]
    rw [room_append, room_append, room_append, room_append, room_append, expr_room]
    simp only [room_append _ _ (expr _ _ _ bound), expr_room, room_store, room_settle, bind_assoc]
    refine bind_congr_ok fun v hv => bind_congr_ok fun counter hcounter => bind_congr_ok fun v' hv' => ?_
    refine bind_congr_ok fun w hw => bind_congr_ok fun hidden hhidden => bind_congr_ok fun w' hw' => ?_
    have hw : w'.Holds ((s.declare name).declare "") :=
      (Usage.declare_holds (s := s.declare name) hhidden "").emit hw'
    rw [test_room]
    refine bind_congr_ok fun x hx => ?_
    have hx := hw.emits hx
    rw [stmts_room true _ hx body]
    refine bind_congr_ok fun y hy => ?_
    -- After the body the counter's slot is counted still, so that storing to it asks for an instruction only.
    have hy := room_holds hx ((stmts_room true 0 hx body).trans hy)
    exact step_room (Nat.lt_min.mpr ⟨Nat.lt_of_succ_lt hy.addressed, Nat.lt_of_succ_lt hy.counted⟩) _ p
  | give p value =>
    cases value with
    | none =>
      rw [stmt, room_append, room_one (by simp), Metered.stmt]
      exact bind_congr fun v => (room_one (by simp) inLoop v p).trans (Usage.emits_one v).symm
    | some e =>
      simp only [stmt, room_append, expr_room, Metered.stmt]
      exact bind_congr fun v => room_one (by simp) inLoop v p
  | leave p => exact room_single inLoop u _
  | again p => exact room_single inLoop u _
  | block p body => exact stmts_room inLoop start hu body
  | eval p e =>
    simp only [stmt, room_append, expr_room, Metered.stmt]
    exact bind_congr fun v => room_one (by simp) inLoop v p

lemma stmts_room {c : Context} (inLoop : Bool) {s : Slots} (start : Nat) {u : Usage} (hu : u.Holds s)
    (xs : List Stmt) : room limit inLoop u (stmts c s start #[] xs) = Metered.stmts limit c inLoop s u xs := by
  cases xs with
  | nil => rfl
  | cons x xs =>
    rw [stmts_cons, room_append, Metered.stmts, ← stmt_room inLoop start hu x]
    refine bind_congr_ok fun v hv => ?_
    rw [stmt_slots]
    exact stmts_room inLoop _ (stmt_holds hu hv) xs

end

def slotsFor : Instr → Nat
  | .store slot => slot + 1
  | _ => 0

lemma usedSlots_eq (code : Code) :
    usedSlots code = ((code.toList.filterMap Line.instr?).map slotsFor).foldl max 0 := by
  rw [usedSlots, ← Array.foldl_toList]
  generalize code.toList = ls
  generalize 0 = n
  induction ls generalizing n with
  | nil => rfl
  | cons l ls ih =>
    obtain ⟨op, k⟩ := l
    cases op with
    | plain i =>
      rw [List.foldl_cons, ih]
      cases i <;> first | rfl | exact congrArg (List.foldl max · _) (Nat.max_zero n).symm
    | _ => exact ih n

lemma roomLine_beyond {inLoop : Bool} {u : Usage} {i : Instr} {k : Nat} (hi : Capacity.storesBeyond i = true) :
    roomLine limit inLoop u ⟨.plain i, k⟩ = .error .localVariables := by
  cases i with
  | store slot => exact congrArg (· >>= Usage.emit limit) (if_pos (of_decide_eq_true hi))
  | _ => cases hi

lemma roomLine_near {inLoop : Bool} {u : Usage} {i : Instr} {k : Nat} (hi : Capacity.storesBeyond i = false) :
    roomLine limit inLoop u ⟨.plain i, k⟩ = Usage.emit limit ⟨u.instructions, max u.slots (slotsFor i)⟩ := by
  cases i with
  | store slot => exact congrArg (· >>= Usage.emit limit) (if_neg (of_decide_eq_false hi))
  | _ => exact congrArg (fun n => Usage.emit limit ⟨u.instructions, n⟩) (Nat.max_zero _).symm

/-- Line by line or all at once: what comes first is a slot that cannot be addressed, or an instruction too many. -/
lemma room_eq (code : Code) {u : Usage} (hu : u.instructions ≤ limit) :
    room limit false u code =
      let instrs := code.toList.filterMap Line.instr?
      if (instrs.findIdx? Capacity.storesBeyond).any (u.instructions + · ≤ limit) then .error .localVariables
      else if limit < u.instructions + instrs.length then .error (.instructions limit)
      else .ok ⟨u.instructions + instrs.length, (instrs.map slotsFor).foldl max u.slots⟩ := by
  rw [room, ← Array.foldlM_toList]
  generalize code.toList = ls
  induction ls generalizing u with
  | nil =>
    refine Eq.symm ((if_neg (by simp)).trans ?_)
    exact if_neg (Nat.not_lt.mpr hu)
  | cons l ls ih =>
    obtain ⟨op, k⟩ := l
    cases op with
    | plain i =>
      rw [List.foldlM_cons, List.filterMap_cons]
      dsimp only [Line.instr?] at ih ⊢
      rw [List.findIdx?_cons, List.length_cons, List.map_cons, List.foldl_cons]
      cases hi : Capacity.storesBeyond i with
      | true =>
        rw [roomLine_beyond hi, if_pos rfl, if_pos (by simpa using hu)]
        rfl
      | false =>
        rw [roomLine_near hi, Usage.emit, if_neg Bool.false_ne_true, Option.any_map]
        by_cases hfull : limit ≤ u.instructions
        · rw [if_pos hfull, if_neg, if_pos (by omega)]
          · rfl
          · rw [Option.any_eq_true]
            rintro ⟨n, -, hn⟩
            have hn := of_decide_eq_true hn
            omega
        · rw [if_neg hfull]
          refine (ih (Nat.succ_le_of_lt (Nat.lt_of_not_le hfull))).trans ?_
          simp only [Nat.add_right_comm, Nat.add_assoc]
    | leave => exact ih hu
    | again => exact ih hu

lemma filterMap_settled (ls : List Line) :
    (ls.filter (·.instr?.isSome)).filterMap Line.instr? = ls.filterMap Line.instr? := by
  rw [List.filterMap_filter]
  refine List.filterMap_congr fun l _ => ?_
  cases l.instr? <;> rfl

section Function

variable {c : Context} {d : Definition}

lemma function_instrs : (function c d).code.toList = (body c d.decl).toList.filterMap Line.instr? := by
  rw [function, Array.toList_filterMap, Array.toList_filter, filterMap_settled]

lemma function_locals : (function c d).locals =
    ((function c d).code.toList.map slotsFor).foldl max (Slots.ofParams (d.decl.params.map (·.1))).next := by
  rw [function_instrs]
  rw [function, usedSlots_eq, Array.toList_filter, filterMap_settled]
  exact List.foldl_assoc.symm.trans (congrArg (List.foldl max · _) (Nat.max_zero _))

lemma function_room :
    room limit false ⟨0, (Slots.ofParams (d.decl.params.map (·.1))).next⟩ (body c d.decl) =
      if ((function c d).code.findIdx? Capacity.storesBeyond).any (· ≤ limit) then .error .localVariables
      else if limit < (function c d).code.size then .error (.instructions limit)
      else .ok ⟨(function c d).code.size, (function c d).locals⟩ := by
  refine (room_eq _ (Nat.zero_le limit)).trans ?_
  simp only [← function_instrs, ← function_locals, ← List.findIdx?_toArray, Array.toArray_toList, Array.length_toList,
    Nat.zero_add]

lemma body_room {s : Slots} {u : Usage} (hs : s = .ofParams (d.decl.params.map (·.1))) (hu : u.Holds s) :
    room limit false u (body c d.decl) = Metered.stmts limit c false s u d.decl.body >>= Usage.emits limit 2 := by
  subst hs
  rw [body, room_append, room_append, stmts_room false 0 hu, bind_assoc]
  refine bind_congr fun v => ?_
  rw [room_one (by simp)]
  exact bind_congr fun v => (room_one (by simp) false v _).trans (Usage.emits_one v).symm

theorem function_metered :
    Metered.function limit c d =
      match Capacity.shortage? limit (Slots.ofParams (d.decl.params.map (·.1))).next (function c d) with
      | some s => .error s
      | none => .ok ⟨(function c d).code.size, (function c d).locals⟩ := by
  let t : Slots := .ofParams (d.decl.params.map (·.1))
  have hparams : Metered.params .empty ⟨0, 0⟩ (d.decl.params.map (·.1)) =
      if Capacity.slotCount < t.next then .error .localVariables else .ok ⟨0, t.next⟩ :=
    Metered.params_eq _ .empty 0 (Nat.zero_le _)
  rw [Metered.function, hparams, Capacity.shortage?]
  by_cases hmany : Capacity.slotCount < t.next
  · rw [if_pos hmany, decide_eq_true hmany]
    rfl
  have hbody : (Metered.stmts limit c false t ⟨0, t.next⟩ d.decl.body >>= Usage.emits limit 2) = _ :=
    (body_room rfl ⟨Nat.not_lt.mp hmany, Nat.le_refl _⟩).symm.trans function_room
  rw [if_neg hmany, decide_eq_false hmany, Bool.false_or, ok_bind, ← bind_assoc, hbody]
  by_cases hfar : ((function c d).code.findIdx? Capacity.storesBeyond).any (· ≤ limit) = true
  · rw [if_pos hfar, if_pos hfar]
    rfl
  by_cases hlong : limit < (function c d).code.size
  · rw [if_neg hfar, if_neg hfar, if_pos hlong, if_pos hlong]
    rfl
  rw [if_neg hfar, if_neg hfar, if_neg hlong, if_neg hlong, ok_bind]
  have harity : (function c d).arity = d.decl.arity := rfl
  by_cases hwide : Capacity.frameLimit < d.decl.arity
  · rw [if_pos hwide, harity, if_pos hwide]
    rfl
  rw [if_neg hwide, harity, if_neg hwide]
  by_cases hdeep : Capacity.frameLimit < (function c d).locals
  · rw [if_pos hdeep, if_pos hdeep]
    rfl
  · rw [if_neg hdeep, if_neg hdeep]

/-- A function that needs as many instructions as there may be has room, the two behind its body included. -/
example :
    let d : Definition := ⟨"main", ⟨"main", [], [.give ⟨1, 13⟩ (some (.int ⟨1, 20⟩ 1))], ⟨1, 1⟩⟩⟩
    Metered.function 4 ⟨⟨[]⟩, []⟩ d = .ok ⟨4, 0⟩ ∧ Metered.function 3 ⟨⟨[]⟩, []⟩ d = .error (.instructions 3) :=
  ⟨rfl, rfl⟩

end Function

end Emit

end ScriptHost
