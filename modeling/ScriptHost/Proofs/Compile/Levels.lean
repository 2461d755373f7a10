import ScriptHost.Proofs.Bytecode.Heights
import ScriptHost.Proofs.Compile.Layout

/-!
Heights of generated code. Code of an expression ends with one operand more than it starts with, code of
a statement starts and ends with none, and so does every jump between statements.
-/

namespace ScriptHost.Emit

inductive Spot where
  | at (pc : Nat)
  | exit
  | round

namespace Spot

def settle (exit round : Nat) : Spot → Spot
  | .at pc => .at pc
  | .exit => .at exit
  | .round => .at round

end Spot

namespace Op

def takes : Op → Nat
  | plain i => i.takes
  | _ => 0

def next (pc k : Nat) : Op → List (Spot × Nat)
  | plain i => (i.next pc k).map fun s => (.at s.1, s.2)
  | leave => [(.exit, k)]
  | again => [(.round, k)]

def Keeps (R : Instr → Prop) : Op → Prop
  | plain i => R i
  | _ => True

end Op

def Inside (H : Nat → Nat) (first last : Nat) (s : Spot × Nat) : Prop :=
  ∃ pc, s.1 = .at pc ∧ first ≤ pc ∧ pc ≤ last ∧ H pc = s.2

/-- `H` gives the operands before each line of code laid out from `start`, `k` at its start and `k'` at its
end; jumps out of it go where `out` allows. -/
structure Levels (R : Instr → Prop) (out : Spot → Nat → Prop) (start : Nat) (code : Code) (k k' : Nat)
    (H : Nat → Nat) : Prop where
  first : H start = k
  last : H (start + code.size) = k'
  range : ∀ (i : Nat) (l : Line), code[i]? = some l → l.op.Keeps R
  enough : ∀ (i : Nat) (l : Line), code[i]? = some l → l.op.takes ≤ H (start + i)
  next : ∀ (i : Nat) (l : Line), code[i]? = some l → ∀ s ∈ l.op.next (start + i) (H (start + i)),
    Inside H start (start + code.size) s ∨ out s.1 s.2

def Level (R : Instr → Prop) (out : Spot → Nat → Prop) (start : Nat) (code : Code) (k k' : Nat) : Prop :=
  ∃ H, Levels R out start code k k' H

def OrAt (out : Spot → Nat → Prop) (pc k : Nat) (s : Spot) (n : Nat) : Prop :=
  out s n ∨ s = .at pc ∧ n = k

section Level

variable {R : Instr → Prop} {out out' : Spot → Nat → Prop} {start k m k' : Nat} {code code' : Code}

lemma Level.mono (h : Level R out start code k k') (ho : ∀ s n, out s n → out' s n) :
    Level R out' start code k k' := by
  obtain ⟨H, h⟩ := h
  exact ⟨H, h.first, h.last, h.range, h.enough, fun i l hl s hs => (h.next i l hl s hs).imp_right (ho _ _)⟩

lemma Level.nil : Level R out start #[] k k :=
  ⟨fun _ => k, rfl, rfl, by simp, by simp, by simp⟩

lemma Level.closeFirst (h : Level R (OrAt out start k) start code k k') : Level R out start code k k' := by
  obtain ⟨H, h⟩ := h
  refine ⟨H, h.first, h.last, h.range, h.enough, fun i l hl s hs => ?_⟩
  rcases h.next i l hl s hs with hin | hout | ⟨hat, hk⟩
  · exact .inl hin
  · exact .inr hout
  · exact .inl ⟨start, hat, Nat.le_refl _, Nat.le_add_right _ _, h.first.trans hk.symm⟩

lemma Level.closeLast (pc : Nat) (h : Level R (OrAt out pc k') start code k k')
    (hpc : pc = start + code.size) : Level R out start code k k' := by
  obtain ⟨H, h⟩ := h
  refine ⟨H, h.first, h.last, h.range, h.enough, fun i l hl s hs => ?_⟩
  rcases h.next i l hl s hs with hin | hout | ⟨hat, hk⟩
  · exact .inl hin
  · exact .inr hout
  · exact .inl ⟨pc, hat, by omega, by omega, by rw [hpc, h.last, hk]⟩

lemma Level.append (mid m : Nat) (h : Level R (OrAt out mid m) start code k m)
    (h' : Level R (OrAt out mid m) mid code' m k') (hmid : mid = start + code.size) :
    Level R out start (code ++ code') k k' := by
  subst hmid
  obtain ⟨H, h⟩ := h
  obtain ⟨H', h'⟩ := h'
  -- The two parts agree on the operands in between, so either may give them there.
  let J : Nat → Nat := fun pc => if pc < start + code.size then H pc else H' pc
  have hJ : ∀ pc, pc ≤ start + code.size → J pc = H pc := by
    intro pc hpc
    by_cases hlt : pc < start + code.size
    · exact if_pos hlt
    · have heq : pc = start + code.size := by omega
      rw [show J pc = H' pc from if_neg hlt, heq, h'.first, h.last]
  have hJ' : ∀ pc, start + code.size ≤ pc → J pc = H' pc := fun pc hpc => if_neg (by omega)
  have hmid : Inside J start (start + (code ++ code').size) (.at (start + code.size), m) :=
    ⟨_, rfl, by omega, by simp, by rw [hJ' _ (Nat.le_refl _), h'.first]⟩
  have hnext : ∀ (i : Nat) (l : Line), (code ++ code')[i]? = some l →
      l.op.Keeps R ∧ l.op.takes ≤ J (start + i) ∧ ∀ s ∈ l.op.next (start + i) (J (start + i)),
        Inside J start (start + (code ++ code').size) s ∨ out s.1 s.2 := by
    intro i l hl
    rw [Array.getElem?_append] at hl
    split at hl
    · next hi =>
      rw [hJ (start + i) (by omega)]
      refine ⟨h.range i l hl, h.enough i l hl, fun s hs => ?_⟩
      rcases h.next i l hl s hs with ⟨pc, hat, hle, hge, hH⟩ | hout | ⟨hat, hk⟩
      · exact .inl ⟨pc, hat, hle, by simp; omega, by rw [hJ pc hge, hH]⟩
      · exact .inr hout
      · rw [show s = (.at (start + code.size), m) from Prod.ext hat hk]
        exact .inl hmid
    · next hi =>
      have hsum : start + i = start + code.size + (i - code.size) := by omega
      rw [hJ' (start + i) (by omega), hsum]
      refine ⟨h'.range _ l hl, h'.enough _ l hl, fun s hs => ?_⟩
      rcases h'.next _ l hl s hs with ⟨pc, hat, hle, hge, hH⟩ | hout | ⟨hat, hk⟩
      · exact .inl ⟨pc, hat, by omega, by simp; omega, by rw [hJ' pc hle, hH]⟩
      · exact .inr hout
      · rw [show s = (.at (start + code.size), m) from Prod.ext hat hk]
        exact .inl hmid
  refine ⟨J, ?_, ?_, fun i l hl => (hnext i l hl).1, fun i l hl => (hnext i l hl).2.1,
    fun i l hl => (hnext i l hl).2.2⟩
  · rw [hJ start (by omega), h.first]
  · rw [hJ' _ (by simp), Array.size_append, ← Nat.add_assoc, h'.last]

lemma Level.andThen {mid : Nat} (h : Level R out start code k m) (h' : Level R out mid code' m k')
    (hmid : mid = start + code.size) : Level R out start (code ++ code') k k' :=
  Level.append mid m (h.mono fun _ _ => .inl) (h'.mono fun _ _ => .inl) hmid

lemma Level.one {i : Instr} (p : Position) (hR : R i) (hk : i.takes ≤ k)
    (hn : ∀ s ∈ i.next start k, s = (start + 1, k') ∨ out (.at s.1) s.2) :
    Level R out start (one i p) k k' := by
  refine ⟨fun pc => if pc = start then k else k', if_pos rfl, if_neg (by simp), ?_, ?_, ?_⟩
  all_goals
    intro j l hl
    obtain ⟨hj, rfl⟩ := Array.getElem?_eq_some_iff.mp hl
    obtain rfl : j = 0 := Nat.lt_one_iff.mp hj
  · exact hR
  · rw [Nat.add_zero, if_pos rfl]
    exact hk
  · intro s hs
    obtain ⟨t, ht, rfl⟩ := List.mem_map.mp hs
    rw [Nat.add_zero, if_pos rfl] at ht
    rcases hn t ht with rfl | hout
    · exact .inl ⟨start + 1, rfl, by omega, by simp, if_neg (by omega)⟩
    · exact .inr hout

lemma Level.symbolic {op : Op} (p : Position) (hop : op.takes = 0) (hR : op.Keeps R)
    (hn : ∀ s ∈ op.next start k, out s.1 s.2) : Level R out start #[⟨op, p.line⟩] k k := by
  refine ⟨fun _ => k, rfl, rfl, ?_, ?_, ?_⟩
  all_goals
    intro j l hl
    obtain ⟨hj, rfl⟩ := Array.getElem?_eq_some_iff.mp hl
    obtain rfl : j = 0 := Nat.lt_one_iff.mp hj
  · exact hR
  · exact Nat.le_trans (Nat.le_of_eq hop) (Nat.zero_le k)
  · exact fun s hs => .inr (hn s hs)

lemma Level.settle {exit round : Nat} (h : Level R out start code k k') (hR : ∀ target, R (.jump target))
    (ho : ∀ s n, out s n → out' (s.settle exit round) n) :
    Level R out' start (code.map (Line.settle exit round)) k k' := by
  obtain ⟨H, h⟩ := h
  have hline : ∀ (i : Nat) (l' : Line), (code.map (Line.settle exit round))[i]? = some l' →
      ∃ l, code[i]? = some l ∧ l.settle exit round = l' := fun i l' hl' =>
    Option.map_eq_some_iff.mp (by simpa using hl')
  have hsize : (code.map (Line.settle exit round)).size = code.size := Array.size_map
  refine ⟨H, h.first, by rw [hsize, h.last], ?_, ?_, ?_⟩
  all_goals
    intro i l' hl'
    obtain ⟨⟨op, line⟩, hl, rfl⟩ := hline i l' hl'
    have hr := h.range i _ hl
    have he := h.enough i _ hl
    have hn := h.next i _ hl
  · cases op with
    | plain => exact hr
    | leave => exact hR exit
    | again => exact hR round
  · cases op with
    | plain => exact he
    | leave => exact Nat.zero_le _
    | again => exact Nat.zero_le _
  · rw [hsize]
    cases op with
    | plain i =>
      intro s hs
      obtain ⟨t, -, rfl⟩ := List.mem_map.mp hs
      exact (hn _ hs).imp_right (ho _ _)
    | leave =>
      intro s hs
      obtain rfl := List.mem_singleton.mp hs
      rcases hn _ List.mem_cons_self with ⟨pc, hat, -⟩ | hout
      · cases hat
      · exact .inr (ho _ _ hout)
    | again =>
      intro s hs
      obtain rfl := List.mem_singleton.mp hs
      rcases hn _ List.mem_cons_self with ⟨pc, hat, -⟩ | hout
      · cases hat
      · exact .inr (ho _ _ hout)

lemma Level.plain {i : Instr} (p : Position) (hR : R i) (hk : i.takes ≤ k)
    (hn : i.next start k = [(start + 1, k')]) : Level R out start (Emit.one i p) k k' :=
  Level.one p hR hk (by simp [hn])

end Level

section Code

variable {known : Catalog} {p : Program} {locals : Nat} {out : Spot → Nat → Prop}

lemma callCode_level (hc : Compiler.Compiled known p) {start k argc : Nat} (q : Position)
    {name : String} (h : CallFits known name argc) :
    Level (Instr.InRange p locals) out start (callCode (Compiler.context known) q name argc) (k + argc)
      (k + 1) := by
  obtain ⟨hle, h⟩ := h
  rw [callCode]
  rw [if_neg (Nat.not_lt.mpr hle)]
  cases hb : Builtin.ofName? name with
  | some b =>
    rw [hb] at h
    exact Level.plain q h (Nat.le_add_left argc k) (by simp [Instr.next, Instr.takes, Instr.gives])
  | none =>
    rw [hb] at h
    obtain ⟨id, d, hf, ha⟩ := h
    have hin : (Instr.call id argc).InRange p locals := ⟨_, hc.find? hf, ha⟩
    simp only [Compiler.context, hf, ha, if_true]
    exact Level.plain q hin (Nat.le_add_left argc k) (by simp [Instr.next, Instr.takes, Instr.gives])

mutual

lemma expr_level (hc : Compiler.Compiled known p) {s : Slots} {names : List String} (hs : s.Shows names)
    (hl : s.next ≤ locals) (out : Spot → Nat → Prop) (start k : Nat)
    (e : Expr)
    (he : e.Ready (Compiler.context known) names) :
    Level (Instr.InRange p locals) out start (expr (Compiler.context known) s start e) k (k + 1) := by
  cases e with
  | int q v => exact Level.plain q trivial (Nat.zero_le _) rfl
  | str q v =>
    have hlt := (Array.getElem?_eq_some_iff.mp (hc.literal he)).1
    exact Level.plain q hlt (Nat.zero_le _) rfl
  | bool q b => exact Level.plain q trivial (Nat.zero_le _) rfl
  | nil q => exact Level.plain q trivial (Nat.zero_le _) rfl
  | var q name =>
    obtain ⟨slot, hslot, hlt⟩ := hs.find? he
    rw [expr, hslot]
    exact Level.plain q (Nat.lt_of_lt_of_le hlt hl) (Nat.zero_le _) rfl
  | array q items =>
    rw [expr]
    refine (exprs_level hc hs hl out start k items he).andThen (Level.plain q trivial ?_ ?_) rfl
    · exact Nat.le_add_left _ _
    · simp [Instr.next, Instr.takes, Instr.gives]
  | index q target i =>
    rw [expr]
    have h := (expr_level hc hs hl out start k target he.1).andThen (expr_level hc hs hl out _ (k + 1) i he.2) rfl
    exact h.andThen (Level.plain q trivial (Nat.le_add_left 2 k) rfl) rfl
  | call q name args =>
    rw [expr]
    exact (exprs_level hc hs hl out start k args he.1).andThen (callCode_level hc q he.2) rfl
  | unary q op operand =>
    have h := (expr_level hc hs hl out start k operand he).andThen
      (Level.plain (i := .unary op) q trivial (Nat.le_add_left 1 k) rfl) rfl
    cases op with
    | not =>
      rw [expr]
      · exact h
      · intro _ _ hop
        cases hop
    | neg =>
      cases operand with
      | int _ v => exact Level.plain q trivial (Nat.zero_le _) rfl
      | _ => exact h
  | binary q op lhs rhs =>
    rw [expr]
    have h := (expr_level hc hs hl out start k lhs he.1).andThen (expr_level hc hs hl out _ (k + 1) rhs he.2) rfl
    exact h.andThen (Level.plain q trivial (Nat.le_add_left 2 k) rfl) rfl
  | logic q op lhs rhs =>
    rw [expr]
    have hleft := fun out => expr_level hc hs hl out start k lhs he.1
    generalize expr (Compiler.context known) s start lhs = left at hleft ⊢
    have hright := fun out => expr_level hc hs hl out (start + left.size + 1) k rhs he.2
    generalize expr (Compiler.context known) s (start + left.size + 1) rhs = right at hright ⊢
    -- The jump goes past the code with the operand that it keeps, as the check of the right side does.
    refine Level.closeLast (start + left.size + right.size + 2) ?_ (by simp; omega)
    have hjump : Level (Instr.InRange p locals) (OrAt out (start + left.size + right.size + 2) (k + 1))
        (start + left.size) (one (logicJump op (start + left.size + right.size + 2)) q) (k + 1) k := by
      apply Level.one q (by cases op <;> trivial) (by cases op <;> exact Nat.le_add_left 1 k)
      cases op <;> simp [logicJump, Instr.next, OrAt]
    exact (((hleft _).andThen hjump rfl).andThen (hright _) (by simp; omega)).andThen
      (Level.plain q trivial (Nat.le_add_left 1 k) rfl) rfl

lemma exprs_level (hc : Compiler.Compiled known p) {s : Slots} {names : List String} (hs : s.Shows names)
    (hl : s.next ≤ locals) (out : Spot → Nat → Prop) (start k : Nat)
    (es : List Expr) (he : Expr.AllReady (Compiler.context known) names es) :
    Level (Instr.InRange p locals) out start (exprs (Compiler.context known) s start #[] es) k
      (k + es.length) := by
  cases es with
  | nil => exact Level.nil
  | cons e es =>
    rw [exprs_cons]
    have h := (expr_level hc hs hl out start k e he.1).andThen (exprs_level hc hs hl out _ (k + 1) es he.2) rfl
    rwa [Nat.add_assoc, Nat.add_comm 1] at h

end

lemma target_level (hc : Compiler.Compiled known p) {s : Slots} {names : List String} (hs : s.Shows names)
    (hl : s.next ≤ locals) (start : Nat) (q : Position) (t : Target)
    (value : Expr) (ht : t.Ready (Compiler.context known) names)
    (hv : value.Ready (Compiler.context known) names) :
    Level (Instr.InRange p locals) out start
      (stmt (Compiler.context known) s start (.assign q t value)).1 0 0 := by
  cases t with
  | var _ name =>
    obtain ⟨slot, hslot, hlt⟩ := hs.find? ht
    rw [stmt, hslot]
    exact (expr_level hc hs hl out start 0 value hv).andThen
      (Level.plain q (Nat.lt_of_lt_of_le hlt hl) (Nat.le_refl 1) rfl) rfl
  | index _ target i =>
    have h := (expr_level hc hs hl out start 0 target ht.1).andThen
      (expr_level hc hs hl out _ 1 i ht.2) rfl
    have h' := h.andThen (expr_level hc hs hl out _ 2 value hv) rfl
    rw [Array.size_append, ← Nat.add_assoc] at h'
    exact h'.andThen (Level.plain q trivial (Nat.le_refl 3) rfl) rfl

def jumps (inLoop : Bool) (s : Spot) (n : Nat) : Prop :=
  inLoop = true ∧ n = 0 ∧ (s = .exit ∨ s = .round)

lemma Level.body (out : Spot → Nat → Prop) (exit round : Nat) {start : Nat} {code : Code}
    (h : Level (Instr.InRange p locals) (jumps true) start code 0 0) (he : out (.at exit) 0)
    (hr : out (.at round) 0) :
    Level (Instr.InRange p locals) out start (code.map (Line.settle exit round)) 0 0 := by
  apply h.settle (fun _ => trivial)
  rintro s n ⟨-, rfl, rfl | rfl⟩
  · exact he
  · exact hr

lemma round_level (inLoop : Bool) (q : Position) {counter : Nat} (check : Nat) {body : Code}
    (hcounter : counter < locals) (hlimit : counter + 1 < locals)
    (hbody : Level (Instr.InRange p locals) (jumps true) (check + 4) body 0 0) :
    Level (Instr.InRange p locals) (jumps inLoop) check
      (one (.load counter) q ++ one (.load (counter + 1)) q ++ one (.binary .lt) q
        ++ one (.jumpIfFalse (check + 4 + body.size + 5)) q
        ++ body.map (Line.settle (check + 4 + body.size + 5) (check + 4 + body.size))
        ++ (one (.load counter) q ++ one (.int 1) q ++ one (.binary .add) q ++ one (.store counter) q
          ++ one (.jump check) q)) 0 0 := by
  generalize hround : check + 4 + body.size = round
  refine Level.closeLast (round + 5) (Level.closeFirst ?_) (by simp; omega)
  let out := OrAt (OrAt (jumps inLoop) (round + 5) 0) check 0
  have hlt : ∀ out, Level (Instr.InRange p locals) out check
      (one (.load counter) q ++ one (.load (counter + 1)) q ++ one (.binary .lt) q) 0 1 := fun out =>
    ((Level.plain q hcounter (Nat.zero_le 0) rfl).andThen (Level.plain q hlimit (Nat.zero_le 1) rfl)
      rfl).andThen (Level.plain q trivial (Nat.le_refl 2) rfl) rfl
  have hjif : Level (Instr.InRange p locals) out (check + 3) (one (.jumpIfFalse (round + 5)) q) 1 0 :=
    Level.one q trivial (Nat.le_refl 1) (by simp [Instr.next, OrAt, out])
  have hadd : ∀ out, Level (Instr.InRange p locals) out round
      (one (.load counter) q ++ one (.int 1) q ++ one (.binary .add) q ++ one (.store counter) q) 0 0 :=
    fun out => (((Level.plain q hcounter (Nat.zero_le 0) rfl).andThen
      (Level.plain q trivial (Nat.zero_le 1) rfl) rfl).andThen
      (Level.plain q trivial (Nat.le_refl 2) rfl) rfl).andThen
      (Level.plain q hcounter (Nat.le_refl 1) rfl) rfl
  have hjump : Level (Instr.InRange p locals) (OrAt out round 0) (round + 4) (one (.jump check) q) 0 0 :=
    Level.one q trivial (Nat.zero_le 0) (by simp [Instr.next, OrAt, out])
  have hrounds := Level.body (OrAt out round 0) (round + 5) round hbody
    (.inl (.inl (.inr ⟨rfl, rfl⟩))) (.inr ⟨rfl, rfl⟩)
  have htest := (hlt (OrAt out round 0)).andThen (hjif.mono fun _ _ => .inl) rfl
  exact Level.append round 0 (htest.andThen hrounds rfl) ((hadd _).andThen hjump rfl) (by simp; omega)

lemma branch_level (inLoop : Bool) (q : Position) {start : Nat} {code body : Code}
    (hcond : ∀ out, Level (Instr.InRange p locals) out start code 0 1)
    (hbody : Level (Instr.InRange p locals) (jumps inLoop) (start + code.size + 1) body 0 0) :
    Level (Instr.InRange p locals) (jumps inLoop) start
      (code ++ one (.jumpIfFalse (start + code.size + 1 + body.size)) q ++ body) 0 0 := by
  generalize hlast : start + code.size + 1 + body.size = last
  refine Level.closeLast last ?_ (by simp; omega)
  have hjump : Level (Instr.InRange p locals) (OrAt (jumps inLoop) last 0) (start + code.size)
      (one (.jumpIfFalse last) q) 1 0 :=
    Level.one q trivial (Nat.le_refl 1) (by simp [Instr.next, OrAt])
  exact ((hcond _).andThen hjump rfl).andThen (hbody.mono fun _ _ => .inl) (by simp; omega)

lemma branchElse_level (inLoop : Bool) (q : Position) {start : Nat} {code body otherwise : Code}
    (hcond : ∀ out, Level (Instr.InRange p locals) out start code 0 1)
    (hbody : Level (Instr.InRange p locals) (jumps inLoop) (start + code.size + 1) body 0 0)
    (hother : Level (Instr.InRange p locals) (jumps inLoop) (start + code.size + 1 + body.size + 1) otherwise
      0 0) :
    Level (Instr.InRange p locals) (jumps inLoop) start
      (code ++ one (.jumpIfFalse (start + code.size + 1 + body.size + 1)) q ++ body
        ++ one (.jump (start + code.size + 1 + body.size + 1 + otherwise.size)) q ++ otherwise) 0 0 := by
  generalize hmid : start + code.size + 1 + body.size + 1 = middle at hother ⊢
  let out := OrAt (OrAt (jumps inLoop) (middle + otherwise.size) 0) middle 0
  refine Level.closeLast (middle + otherwise.size) ?_ (by simp; omega)
  refine Level.append middle 0 ?_ (hother.mono fun _ _ h => .inl (.inl h)) (by simp; omega)
  have hjif : Level (Instr.InRange p locals) out (start + code.size) (one (.jumpIfFalse middle) q) 1 0 :=
    Level.one q trivial (Nat.le_refl 1) (by simp [Instr.next, OrAt, out])
  have hjump : Level (Instr.InRange p locals) out (start + code.size + 1 + body.size)
      (one (.jump (middle + otherwise.size)) q) 0 0 :=
    Level.one q trivial (Nat.zero_le 0) (by simp [Instr.next, OrAt, out])
  have hthen := ((hcond _).andThen hjif rfl).andThen (hbody.mono fun _ _ h => .inl (.inl h))
    (by simp; omega)
  exact hthen.andThen hjump (by simp; omega)

lemma loop_level (inLoop : Bool) (q : Position) {start : Nat} {code body : Code}
    (hcond : ∀ out, Level (Instr.InRange p locals) out start code 0 1)
    (hbody : Level (Instr.InRange p locals) (jumps true) (start + code.size + 1) body 0 0) :
    Level (Instr.InRange p locals) (jumps inLoop) start
      (code ++ one (.jumpIfFalse (start + code.size + 1 + body.size + 1)) q
        ++ body.map (Line.settle (start + code.size + 1 + body.size + 1) start) ++ one (.jump start) q)
      0 0 := by
  generalize hexit : start + code.size + 1 + body.size + 1 = exit
  let out := OrAt (OrAt (jumps inLoop) exit 0) start 0
  refine Level.closeLast exit (Level.closeFirst ?_) (by simp; omega)
  have hjif : Level (Instr.InRange p locals) out (start + code.size) (one (.jumpIfFalse exit) q) 1 0 :=
    Level.one q trivial (Nat.le_refl 1) (by simp [Instr.next, OrAt, out])
  have hjump : Level (Instr.InRange p locals) out (start + code.size + 1 + body.size) (one (.jump start) q)
      0 0 :=
    Level.one q trivial (Nat.zero_le 0) (by simp [Instr.next, OrAt, out])
  have hround := Level.body out exit start hbody (.inl (.inr ⟨rfl, rfl⟩)) (.inr ⟨rfl, rfl⟩)
  exact (((hcond _).andThen hjif rfl).andThen hround (by simp; omega)).andThen hjump (by simp; omega)

mutual

lemma stmt_level (hc : Compiler.Compiled known p) {s : Slots} {names : List String} (hs : s.Shows names)
    (hl : s.next ≤ locals) (inLoop : Bool) (start : Nat) (x : Stmt)
    (hx : x.Ready (Compiler.context known) inLoop names)
    (hst : StoresBelow locals (stmt (Compiler.context known) s start x).1) :
    Level (Instr.InRange p locals) (jumps inLoop) start (stmt (Compiler.context known) s start x).1 0 0 := by
  cases x with
  | declare q name init =>
    rw [stmt, storesBelow_append, storesBelow_one] at hst
    exact (expr_level hc hs hl _ start 0 init hx.2).andThen
      (Level.plain q (hst.2 _ rfl) (Nat.le_refl 1) rfl) rfl
  | assign q t value => exact target_level hc hs hl start q t value hx.1 hx.2
  | branch q cond body otherwise =>
    cases otherwise with
    | none =>
      rw [stmt] at hst ⊢
      simp only [storesBelow_append] at hst
      exact branch_level inLoop q (fun out => expr_level hc hs hl out start 0 cond hx.1)
        (stmts_level hc hs hl inLoop _ body hx.2 hst.2)
    | some otherwise =>
      rw [stmt] at hst ⊢
      simp only [storesBelow_append] at hst
      exact branchElse_level inLoop q (fun out => expr_level hc hs hl out start 0 cond hx.1)
        (stmts_level hc hs hl inLoop _ body hx.2.1 hst.1.1.2)
        (stmts_level hc hs hl inLoop _ otherwise hx.2.2 hst.2)
  | loop q cond body =>
    rw [stmt] at hst ⊢
    simp only [storesBelow_append, storesBelow_settle] at hst
    exact loop_level inLoop q (fun out => expr_level hc hs hl out start 0 cond hx.1)
      (stmts_level hc hs hl true _ body hx.2 hst.1.2)
  | count q name first bound body =>
    obtain ⟨hn, hfirst, hbound, hbody⟩ := hx
    rw [stmt] at hst ⊢
    have hslots := hst
    simp only [storesBelow_append, storesBelow_one, storesBelow_settle] at hslots
    obtain ⟨⟨⟨⟨⟨-, hcounter⟩, -, hlimit⟩, -⟩, hst⟩, -⟩ := hslots
    have hcounter := hcounter s.next rfl
    have hlimit := hlimit (s.next + 1) rfl
    have hs' := hs.declare hn
    have hfirst : ∀ out, Level (Instr.InRange p locals) out start
        (expr (Compiler.context known) s start first ++ one (.store s.next) q) 0 0 := fun out =>
      (expr_level hc hs hl out start 0 first hfirst).andThen
        (Level.plain q hcounter (Nat.le_refl 1) rfl) rfl
    generalize expr (Compiler.context known) s start first ++ one (.store s.next) q = code
      at hfirst hst ⊢
    have hbound : ∀ out, Level (Instr.InRange p locals) out (start + code.size)
        (expr (Compiler.context known) (s.declare name) (start + code.size) bound
          ++ one (.store (s.next + 1)) q) 0 0 := fun out =>
      (expr_level hc hs' hcounter out _ 0 bound hbound).andThen
        (Level.plain q hlimit (Nat.le_refl 1) rfl) rfl
    generalize expr (Compiler.context known) (s.declare name) (start + code.size) bound
      ++ one (.store (s.next + 1)) q = code' at hbound hst ⊢
    generalize hcheck : start + code.size + code'.size = check at hst ⊢
    have hbody := stmts_level hc hs'.hide hlimit true (check + 4) body hbody hst
    generalize stmts (Compiler.context known) ((s.declare name).declare "") (check + 4) #[] body = code''
      at hbody ⊢
    have hround := round_level inLoop q check hcounter hlimit hbody
    have h := ((hfirst _).andThen (hbound _) rfl).andThen hround (by simp; omega)
    simpa only [Array.append_assoc] using h
  | give q value =>
    cases value with
    | none =>
      have h : Level (Instr.InRange p locals) (jumps inLoop) start (one .nil q) 0 1 :=
        Level.plain q trivial (Nat.zero_le 0) rfl
      exact h.andThen (Level.one q trivial (Nat.le_refl 1) (by simp [Instr.next])) rfl
    | some value =>
      exact (expr_level hc hs hl _ start 0 value hx).andThen
        (Level.one q trivial (Nat.le_refl 1) (by simp [Instr.next])) rfl
  | leave q => exact Level.symbolic q rfl trivial fun s hs => List.mem_singleton.mp hs ▸ ⟨hx, rfl, .inl rfl⟩
  | again q => exact Level.symbolic q rfl trivial fun s hs => List.mem_singleton.mp hs ▸ ⟨hx, rfl, .inr rfl⟩
  | block q body => exact stmts_level hc hs hl inLoop start body hx hst
  | eval q value =>
    exact (expr_level hc hs hl _ start 0 value hx).andThen (Level.plain q trivial (Nat.le_refl 1) rfl) rfl

lemma stmts_level (hc : Compiler.Compiled known p) {s : Slots} {names : List String} (hs : s.Shows names)
    (hl : s.next ≤ locals) (inLoop : Bool) (start : Nat)
    (xs : List Stmt) (hx : Stmt.AllReady (Compiler.context known) inLoop names xs)
    (hst : StoresBelow locals (stmts (Compiler.context known) s start #[] xs)) :
    Level (Instr.InRange p locals) (jumps inLoop) start (stmts (Compiler.context known) s start #[] xs)
      0 0 := by
  cases xs with
  | nil => exact Level.nil
  | cons x xs =>
    rw [stmts_cons, storesBelow_append] at hst
    rw [stmts_cons]
    have h := stmt_level hc hs hl inLoop start x hx.1 hst.1
    have hl' := next_slots hl hst.1
    have hs' := x.shows hs hx.1
    rw [stmt_slots] at hst ⊢
    exact h.andThen (stmts_level hc hs' hl' inLoop _ xs hx.2 hst.2) rfl

end

lemma Level.settled {start k k' : Nat} {code : Code} {R : Instr → Prop}
    (h : Level R (jumps false) start code k k') : Settled code := by
  obtain ⟨H, h⟩ := h
  intro l hl
  obtain ⟨i, hi, rfl⟩ := Array.mem_iff_getElem.mp hl
  have hn := h.next i _ (Array.getElem?_eq_getElem hi)
  rw [Line.instr?]
  cases hop : code[i].op with
  | plain => rfl
  | _ =>
    rw [hop] at hn
    rcases hn _ List.mem_cons_self with ⟨pc, hat, -⟩ | ⟨hout, -⟩
    · cases hat
    · cases hout

lemma body_level (hc : Compiler.Compiled known p) {f : FunctionDecl}
    (hf : f.Ready (Compiler.context known)) :
    Level (Instr.InRange p (max (Slots.ofParams f.paramNames).next
        (usedSlots (body (Compiler.context known) f)))) (jumps false) 0
      (stmts (Compiler.context known) (.ofParams f.paramNames) 0 #[] f.body ++ one .nil f.place) 0 1 := by
  have hst := storesBelow_mono (Nat.le_max_right (Slots.ofParams f.paramNames).next _)
    (storesBelow_usedSlots (body (Compiler.context known) f))
  rw [body, storesBelow_append, storesBelow_append] at hst
  have hs := Slots.ofParams_shows hf.params hf.named
  exact (stmts_level hc hs (Nat.le_max_left _ _) false 0 f.body hf.body hst.1.1).andThen
    (Level.plain f.place trivial (Nat.zero_le 0) rfl) rfl

lemma body_settled (hc : Compiler.Compiled known p) {f : FunctionDecl}
    (hf : f.Ready (Compiler.context known)) : Settled (body (Compiler.context known) f) := by
  intro l hl
  rcases Array.mem_append.mp hl with hl | hl
  · exact (body_level hc hf).settled l hl
  · obtain rfl := Array.mem_singleton.mp hl
    rfl

lemma line_or_ret {code : Code} {q : Position} {pc : Nat} {i : Instr}
    (hi : (code ++ one .ret q)[pc]?.bind Line.instr? = some i) :
    (pc = code.size ∧ i = .ret) ∨ ∃ l, code[pc]? = some l ∧ l.op = .plain i := by
  rw [Array.getElem?_append] at hi
  obtain ⟨l, hl, hli⟩ := Option.bind_eq_some_iff.mp hi
  split at hl
  · refine .inr ⟨l, hl, ?_⟩
    rw [Line.instr?] at hli
    split at hli <;> simp_all
  · obtain ⟨hpc, rfl⟩ := Array.getElem?_eq_some_iff.mp hl
    simp only [size_one] at hpc
    refine .inl ⟨by omega, ?_⟩
    simpa [one, Line.instr?] using hli.symm

theorem function_heights (hc : Compiler.Compiled known p) {id : Nat} {g : Function}
    (hg : p.functions[id]? = some g) : ∃ H, g.Heights p H := by
  obtain ⟨d, -, rfl, hd⟩ := hc.definition hg
  have hset := body_settled hc hd
  have hcode := function_code (d := d) hset
  have hsize := function_code_size (d := d) hset
  obtain ⟨H, h⟩ := body_level hc hd
  have hlocals : (function (Compiler.context known) d).locals = max (Slots.ofParams d.decl.paramNames).next
      (usedSlots (body (Compiler.context known) d.decl)) := by
    simp only [function, filter_settled hset, FunctionDecl.paramNames]
  rw [← hlocals] at h
  have hbody : body (Compiler.context known) d.decl = stmts (Compiler.context known)
      (.ofParams d.decl.paramNames) 0 #[] d.decl.body ++ one .nil d.decl.place ++ one .ret d.decl.place := rfl
  rw [hbody] at hcode hsize
  generalize stmts (Compiler.context known) (.ofParams d.decl.paramNames) 0 #[] d.decl.body
    ++ one .nil d.decl.place = code at h hcode hsize
  rw [Array.size_append, size_one] at hsize
  have hline : ∀ (pc : Nat) (i : Instr), (function (Compiler.context known) d).code[pc]? = some i →
      (pc = code.size ∧ i = .ret) ∨ ∃ l, code[pc]? = some l ∧ l.op = .plain i := fun pc i hi =>
    line_or_ret (hcode pc ▸ hi)
  refine ⟨H, ⟨by omega, h.first, ?_, ?_, ?_⟩⟩
  · intro pc i hi
    rcases hline pc i hi with ⟨-, rfl⟩ | ⟨l, hl, hop⟩
    · trivial
    · have := h.range pc l hl
      rwa [hop] at this
  · intro pc i hi
    rcases hline pc i hi with ⟨rfl, rfl⟩ | ⟨l, hl, hop⟩
    · have := h.last
      rw [Nat.zero_add] at this
      exact Nat.le_of_eq this.symm
    · have := h.enough pc l hl
      rw [hop, Nat.zero_add] at this
      exact this
  · intro pc i hi s hs
    rcases hline pc i hi with ⟨-, rfl⟩ | ⟨l, hl, hop⟩
    · cases hs
    · have := h.next pc l hl
      rw [hop, Nat.zero_add] at this
      rcases this _ (List.mem_map.mpr ⟨s, hs, rfl⟩) with ⟨pc', hat, -, hle, hH⟩ | ⟨hout, -⟩
      · cases hat
        exact ⟨by omega, hH⟩
      · cases hout

end Code

end ScriptHost.Emit
