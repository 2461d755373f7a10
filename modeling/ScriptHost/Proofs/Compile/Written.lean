import ScriptHost.Proofs.Compile.Steps

/-!
What one pass writes. It is the code that is laid out for the tree, with the variables in scope noted as laid out, and
it leaves off just where the counters do. The jumps out of the rounds of a loop wait for it to end.
-/

namespace ScriptHost.OnePass

open Draft (Sound)
open Emit (Code Context Note Op Settled Variable behind allBehind notes one slotsOf spots stmtNotes stmtsNotes)

namespace Exits

def append (l l' : Exits) : Exits :=
  ⟨l.leaves ++ l'.leaves, l.agains ++ l'.agains⟩

def all (l : Exits) : List Nat :=
  l.agains ++ l.leaves

@[simp] lemma append_empty (l : Exits) : l.append {} = l := by simp [append]

@[simp] lemma empty_append (l : Exits) : append {} l = l := rfl

@[simp] lemma all_empty : all {} = [] := rfl

lemma append_assoc (l l' l'' : Exits) : (l.append l').append l'' = l.append (l'.append l'') := by simp [append]

lemma all_append (l l' : Exits) : (l.all ++ l'.all).Perm (l.append l').all := by
  refine List.perm_iff_count.mpr fun pc => ?_
  simp only [all, append, List.count_append]
  omega

end Exits

def exits (start : Nat) (code : Code) : Exits :=
  ⟨spots .leave start code, spots .again start code⟩

section Exits

variable {start : Nat} {code code' : Code}

lemma exits_append (start : Nat) (code code' : Code) :
    exits start (code ++ code') = (exits start code).append (exits (start + code.size) code') := by
  simp only [exits, Exits.append, Emit.spots_append]

lemma exits_settled (h : Settled code) : exits start code = {} := by
  simp [exits, Emit.spots_settled _ h]

@[simp] lemma exits_one (i : Instr) (p : Position) : exits start (one i p) = {} := by
  simp [exits]

end Exits

/-- The next part of a function is written with `op`: from the address `start` on, where the variables `V` are in scope
and the loops `loops` are open, it needs what `m` says and is `code` with the notes `ns`, and `V'` are in scope behind
it. Its jumps out of rounds wait at the innermost of the loops. -/
def Writes (floor start : Nat) (V : List Variable) (loops : List Exits) (op : Writer Unit)
    (m : Usage → Except Shortage Usage) (code : Code) (ns : Array Note) (V' : List Variable) : Prop :=
  ∀ d : Draft, d.EndsAt start V loops → Accords (Sound floor) op d (m d.usage) fun _ d' =>
    d.Grows d' code ns (exits start code).all V' (loops.modifyHead (·.append (exits start code)))

section Writes

variable {floor limit start : Nat} {V V' W : List Variable} {loops : List Exits} {op op' : Writer Unit}
  {m m' : Usage → Except Shortage Usage} {code code' : Code} {ns ns' : Array Note}

lemma modifyHead_empty (loops : List Exits) : loops.modifyHead (·.append {}) = loops := by
  cases loops <;> simp

lemma writes_of_settled (hcode : exits start code = {})
    (h : ∀ d : Draft, d.EndsAt start V loops → Accords (Sound floor) op d (m d.usage) fun _ d' =>
      d.Grows d' code ns [] V' loops) : Writes floor start V loops op m code ns V' := by
  intro d hd
  rw [hcode, modifyHead_empty]
  exact h d hd

lemma Writes.of_eq (h : Writes floor start V loops op m code ns V') (hcode : code = code') (hns : ns = ns') :
    Writes floor start V loops op m code' ns' V' :=
  hcode ▸ hns ▸ h

lemma writes_nil : Writes floor start V loops (pure ()) .ok #[] (notes V #[]) V := by
  refine writes_of_settled (exits_settled (by simp [Settled])) fun d hd => accords_pure ?_
  rw [notes, Array.map_empty, ← hd.visible, ← hd.loops]
  exact .refl d

lemma writes_emit (limit : Nat) (i : Instr) (p : Position) (hi : (Op.plain i).slot? = none) :
    Writes floor start V loops (emit limit i p) (Usage.emit limit) (one i p) (notes V (one i p)) V :=
  writes_of_settled (exits_one i p) fun _ hd => emit_accords hd hi

lemma writes_access (limit : Nat) (i : Instr) (p : Position) {x : Variable} (hx : x ∈ V)
    (hi : (Op.plain i).slot? = some x.slot) :
    Writes floor start V loops (write limit i p (some x)) (Usage.emit limit) (one i p) (notes V (one i p)) V :=
  writes_of_settled (exits_one i p) fun _ hd => access_accords hd hx hi

lemma modifyHead_append (l l' : Exits) (loops : List Exits) :
    (loops.modifyHead (·.append l)).modifyHead (·.append l') = loops.modifyHead (·.append (l.append l')) := by
  rw [List.modifyHead_modifyHead]
  congr 1
  exact funext fun _ => Exits.append_assoc _ _ _

lemma Draft.Grows.follow {d d₁ d₂ : Draft}
    (h : d.Grows d₁ code ns (exits start code).all V (loops.modifyHead (·.append (exits start code))))
    (h' : d₁.Grows d₂ code' ns' (exits (start + code.size) code').all V'
      ((loops.modifyHead (·.append (exits start code))).modifyHead (·.append (exits (start + code.size) code')))) :
    d.Grows d₂ (code ++ code') (ns ++ ns') (exits start (code ++ code')).all V'
      (loops.modifyHead (·.append (exits start (code ++ code')))) := by
  rw [modifyHead_append, ← exits_append] at h'
  exact (h.trans h').perm (exits_append start code code' ▸ Exits.all_append _ _)

lemma Writes.seq (h : Writes floor start V loops op m code ns V')
    (h' : Writes floor (start + code.size) V' (loops.modifyHead (·.append (exits start code))) op' m' code' ns' W) :
    Writes floor start V loops (op >>= fun _ => op') (fun u => m u >>= m') (code ++ code') (ns ++ ns') W :=
  fun d hd => Accords.bind (h d hd) fun _ d₁ h₁ => (h' d₁ (h₁.endsAt hd)).mono fun _ _ h₂ => h₁.follow h₂

lemma Writes.block (h : Writes floor start V loops op m code ns V') :
    Writes floor start V loops (block op) m code ns V :=
  fun _ hd => block_accords hd fun d₁ hd₁ hu => hu ▸ h d₁ hd₁

lemma Writes.ahead (limit : Nat) (p : Position) (jump : Nat → Instr) (hi : ∀ t, (Op.plain (jump t)).slot? = none)
    (hj : ∀ t, (jump 0).aimedAt? t = some (jump t)) (h : Writes floor (start + 1) V loops op m code ns V') :
    Writes floor start V loops (await limit jump p >>= fun pc => op >>= fun _ => patch pc)
      (fun u => u.emit limit >>= m) (one (jump (start + 1 + code.size)) p ++ code) (notes V (one (jump 0) p) ++ ns)
      V' := by
  refine fun d hd => accords_of_sound fun hsound => ?_
  refine Accords.bind (await_accords (l := ⟨.plain (jump 0), p.line⟩) hd rfl rfl (hi 0) (hi 0))
    fun pc d₁ ⟨hpc, h₁⟩ => ?_
  subst hpc
  have hall : exits pc (one (jump (pc + 1 + code.size)) p ++ code) = exits (pc + 1) code := by
    rw [exits_append, exits_one]
    rfl
  rw [← bind_pure (m d₁.usage), hall]
  refine Accords.bind (k := .ok) (h d₁ (h₁.endsAt hd)) fun _ d₂ h₂ => ?_
  have hboth : d.Grows d₂ (#[] ++ one (jump 0) p ++ code) (notes V (one (jump 0) p) ++ ns)
      (pc :: (exits (pc + 1) code).all) V' (loops.modifyHead (·.append (exits (pc + 1) code))) := by
    rw [Array.empty_append]
    exact h₁.trans h₂
  have hpatch := patch_accords (pc + 1 + code.size) hsound hboth hd.size.symm rfl hj
  rwa [Array.empty_append] at hpatch

lemma Writes.plain (h : Writes floor start V loops op m code ns V') (hcode : code = code') (hns : ns = notes V code) :
    Writes floor start V loops op m code' (notes V code') V' :=
  h.of_eq hcode (hcode ▸ hns)

lemma Writes.counted (h : Writes floor start V loops op m code ns V') (hm : ∀ u, m u = m' u) :
    Writes floor start V loops op m' code ns V' :=
  fun d hd => hm d.usage ▸ h d hd

lemma writes_return (limit : Nat) (p : Position) :
    Writes floor start V loops (emit limit .nil p >>= fun _ => emit limit .ret p) (Usage.emits limit 2)
      (one .nil p ++ one .ret p) (notes V (one .nil p ++ one .ret p)) V := by
  have h : Writes floor start V loops _ _ _ _ V := (writes_emit limit .nil p rfl).seq (writes_emit limit .ret p rfl)
  refine (h.plain rfl (Emit.notes_append _ _ _).symm).counted fun u => ?_
  exact bind_congr fun v => (Usage.emits_one v).symm

end Writes

section Expressions

variable {floor limit : Nat} {c : Context}

lemma slot?_logicJump (op : LogicOp) (t : Nat) : (Op.plain (Emit.logicJump op t)).slot? = none := by
  cases op <;> rfl

lemma aimedAt?_logicJump (op : LogicOp) (t : Nat) :
    (Emit.logicJump op 0).aimedAt? t = some (Emit.logicJump op t) := by
  cases op <;> rfl

lemma callCode_eq (p : Position) (name : String) (argc : Nat) :
    Emit.callCode c p name argc = (callInstr? c name argc).elim #[] (one · p) := by
  rw [Emit.callCode, callInstr?]
  by_cases hmany : argc > argumentLimit
  · rw [if_pos hmany, if_pos hmany, Option.elim_none]
  rw [if_neg hmany, if_neg hmany]
  cases Builtin.ofName? name with
  | some b => rfl
  | none =>
    cases c.known.find? name with
    | none => rfl
    | some x =>
      exact (apply_ite (Option.elim · #[] (one · p)) (x.2.decl.arity = argc) (some (.call x.1 argc)) none).symm

lemma slot?_callInstr? {name : String} {argc : Nat} {i : Instr} (h : callInstr? c name argc = some i) :
    (Op.plain i).slot? = none := by
  rw [callInstr?] at h
  split at h
  · cases h
  · split at h
    · cases h
      rfl
    · split at h
      · obtain ⟨-, hi⟩ := Option.ite_none_right_eq_some.mp h
        cases hi
        rfl
      · cases h

lemma writes_call (limit : Nat) (c : Context) (p : Position) (name : String) (argc start : Nat) (V : List Variable)
    (loops : List Exits) :
    Writes floor start V loops (match callInstr? c name argc with | some i => emit limit i p | none => pure ())
      (Usage.emits limit (Emit.callCode c p name argc).size) (Emit.callCode c p name argc)
      (notes V (Emit.callCode c p name argc)) V := by
  rw [callCode_eq]
  cases hi : callInstr? c name argc with
  | none => exact writes_nil
  | some i =>
    intro d hd
    rw [Option.elim_some, Emit.size_one, Usage.emits_one]
    exact writes_emit limit i p (slot?_callInstr? hi) d hd

lemma accords_resolve {α : Type} {d : Draft} {start : Nat} {V : List Variable} {loops : List Exits} {name : String}
    {f : Option Variable → Writer α} {m : Except Shortage Usage} {Q : α → Draft → Prop} (hd : d.EndsAt start V loops)
    (h : Accords (Sound floor) (f (V.find? (·.name == name))) d m Q) :
    Accords (Sound floor) (resolve? name >>= f) d m Q := by
  obtain ⟨-, rfl, -, -⟩ := hd
  exact h

variable (floor limit c)

mutual

lemma expr_writes (start : Nat) (V : List Variable) (loops : List Exits) (e : Expr) :
    Writes floor start V loops (expr limit c e) (fun u => Metered.expr limit c u e) (Emit.expr c (slotsOf V) start e)
      (notes V (Emit.expr c (slotsOf V) start e)) V := by
  cases e with
  | int | str | bool | nil => exact writes_emit _ _ _ rfl
  | var p name =>
    intro d hd
    refine accords_of_sound fun hsound => accords_resolve hd ?_
    have hslot := (hd.visible ▸ hsound.stacked : Emit.Stacked V).find?_name name
    rw [Emit.expr, ← hslot]
    cases hx : V.find? (·.name == name) with
    | none => exact writes_emit limit .nil p rfl d hd
    | some x => exact writes_access limit _ p (List.mem_of_find?_eq_some hx) rfl d hd
  | array p items =>
    have h := (exprs_writes start V loops items).seq (writes_emit limit (.makeArray items.length) p rfl)
    exact h.plain rfl (Emit.notes_append _ _ _).symm
  | index p target i =>
    have h := (expr_writes start V loops target).seq ((expr_writes _ V _ i).seq (writes_emit limit .index p rfl))
    exact h.plain (by rw [Emit.expr, Array.append_assoc]) (by simp only [Emit.notes_append])
  | call p name args =>
    have h := (exprs_writes start V loops args).seq (writes_call limit c p name args.length _ V _)
    exact h.plain rfl (Emit.notes_append _ _ _).symm
  | unary p op operand =>
    by_cases hlit : ∃ q v, op = .neg ∧ operand = .int q v
    · obtain ⟨q, v, rfl, rfl⟩ := hlit
      exact writes_emit limit (.int (-v)) p rfl
    · have hop : expr limit c (.unary p op operand) = expr limit c operand >>= fun _ => emit limit (.unary op) p := by
        rw [expr]
        exact fun q v hop hv => hlit ⟨q, v, hop, hv⟩
      have hm : ∀ u, Metered.expr limit c u (.unary p op operand) =
          Metered.expr limit c u operand >>= Usage.emit limit := by
        intro u
        rw [Metered.expr]
        exact fun q v hop hv => hlit ⟨q, v, hop, hv⟩
      rw [hop, funext hm]
      have h := (expr_writes start V loops operand).seq (writes_emit limit (.unary op) p rfl)
      exact h.plain (Emit.expr_unary c _ start p hlit).symm (Emit.notes_append _ _ _).symm
  | binary p op lhs rhs =>
    have h := (expr_writes start V loops lhs).seq ((expr_writes _ V _ rhs).seq (writes_emit limit (.binary op) p rfl))
    exact h.plain (by rw [Emit.expr, Array.append_assoc]) (by simp only [Emit.notes_append])
  | logic p op lhs rhs =>
    have h := (expr_writes start V loops lhs).seq
      ((expr_writes _ V _ rhs).seq (writes_emit limit .expectBool p rfl) |>.ahead limit p _ (slot?_logicJump op)
        (aimedAt?_logicJump op))
    simp only [bind_assoc] at h
    refine h.plain ?_ ?_
    · simp only [Emit.expr, Array.append_assoc, Array.size_append, Emit.size_one]
      congr 4
      omega
    · simp only [Emit.notes_append, Emit.notes_plain (slot?_logicJump op _)]

lemma exprs_writes (start : Nat) (V : List Variable) (loops : List Exits) (es : List Expr) :
    Writes floor start V loops (exprs limit c es) (fun u => Metered.exprs limit c u es)
      (Emit.exprs c (slotsOf V) start #[] es) (notes V (Emit.exprs c (slotsOf V) start #[] es)) V := by
  cases es with
  | nil => exact writes_nil
  | cons e es =>
    have h := (expr_writes start V loops e).seq (exprs_writes _ V _ es)
    exact h.plain (Emit.exprs_cons c _ start e es).symm (Emit.notes_append _ _ _).symm

end

end Expressions

section Parts

variable {floor limit start : Nat} {V V' W : List Variable} {loops : List Exits} {op op' body tail : Writer Unit}
  {m m' : Usage → Except Shortage Usage} {code code' : Code} {ns ns' : Array Note}

lemma Writes.declared {name : String} {rest : Variable → Writer Unit}
    (h : Writes floor start (Emit.storedAt V name start :: V) loops (rest (Emit.storedAt V name start)) m code ns V') :
    Writes floor start V loops (declare name true >>= rest) (fun u => u.declare V.length >>= m) code ns V' := by
  intro d hd
  refine Accords.bind (declare_accords hd Sound.next fun hs => hs.declare name _ hd.opened) fun x d₁ ⟨hx, h₁⟩ => ?_
  subst hx
  refine (h d₁ (h₁.endsAt hd)).mono fun _ d₂ h₂ => ?_
  have hboth := h₁.trans h₂
  rwa [Array.empty_append, Array.empty_append] at hboth

lemma Writes.either (limit : Nat) (p : Position) (h : Writes floor (start + 1) V loops op m code ns V)
    (h' : Writes floor (start + 1 + code.size + 1) V (loops.modifyHead (·.append (exits (start + 1) code))) op' m' code'
      ns' V) :
    Writes floor start V loops
      (do
        let toElse ← await limit .jumpIfFalse p
        op
        let toEnd ← await limit .jump p
        patch toElse
        op'
        patch toEnd)
      (fun u => u.emit limit >>= fun u => m u >>= fun u => u.emit limit >>= m')
      (one (.jumpIfFalse (start + 1 + code.size + 1)) p ++ code
        ++ one (.jump (start + 1 + code.size + 1 + code'.size)) p ++ code')
      (notes V (one (.jumpIfFalse 0) p) ++ ns ++ notes V (one (.jump 0) p) ++ ns') V := by
  refine fun d hd => accords_of_sound fun hsound => ?_
  refine Accords.bind (await_accords (l := ⟨.plain (.jumpIfFalse 0), p.line⟩) hd rfl rfl rfl rfl)
    fun pc d₁ ⟨hpc, h₁⟩ => ?_
  subst hpc
  have hd₁ := h₁.endsAt hd
  refine Accords.bind (h d₁ hd₁) fun _ d₂ h₂ => ?_
  have hd₂ := h₂.endsAt hd₁
  refine Accords.bind (await_accords (l := ⟨.plain (.jump 0), p.line⟩) hd₂ rfl rfl rfl rfl) fun e d₃ ⟨he, h₃⟩ => ?_
  replace he : e = pc + 1 + code.size := he
  let first := exits (pc + 1) code
  let second := exits (pc + 1 + code.size + 1) code'
  have hfirst : d.Grows d₃ (#[] ++ one (.jumpIfFalse 0) p ++ (code ++ one (.jump 0) p))
      (notes V (one (.jumpIfFalse 0) p) ++ (ns ++ notes V (one (.jump 0) p))) (pc :: (first.all ++ [e])) V
      (loops.modifyHead (·.append first)) := by
    rw [Array.empty_append, he]
    exact h₁.trans (h₂.trans h₃)
  refine Accords.andThen (patch_accords (pc + 1 + code.size + 1) hsound hfirst hd.size.symm
    (by rw [Array.size_append]; rfl) fun _ => rfl) fun _ d₄ h₄ hu => ?_
  rw [Array.empty_append] at h₄
  have hd₄ : d₄.EndsAt (pc + 1 + code.size + 1) V (loops.modifyHead (·.append first)) := by
    refine ⟨?_, h₄.visible, h₄.loops, h₄.opened.trans hd.opened⟩
    rw [h₄.size, hd.size, Array.size_append, Array.size_append, Emit.size_one, Emit.size_one]
    omega
  rw [← hu, ← bind_pure (m' d₄.usage)]
  refine Accords.bind (k := .ok) (h' d₄ hd₄) fun _ d₅ h₅ => ?_
  have hexits : exits pc (one (.jumpIfFalse (pc + 1 + code.size + 1)) p ++ code
      ++ one (.jump (pc + 1 + code.size + 1 + code'.size)) p ++ code') = first.append second := by
    simp only [exits_append, exits_one, Exits.empty_append, Exits.append_empty, Array.size_append, Emit.size_one,
      ← Nat.add_assoc]
    rfl
  have hsecond : d.Grows d₅ (one (.jumpIfFalse (pc + 1 + code.size + 1)) p ++ code ++ one (.jump 0) p ++ code')
      (notes V (one (.jumpIfFalse 0) p) ++ ns ++ notes V (one (.jump 0) p) ++ ns') (e :: (first.append second).all) V
      (loops.modifyHead (·.append (first.append second))) := by
    have hboth := (h₄.trans h₅).perm ((List.perm_append_comm.append_right _).trans ((Exits.all_append _ _).cons e))
    rw [modifyHead_append] at hboth
    simpa only [Array.append_assoc] using hboth
  rw [hexits]
  refine patch_accords _ hsound hsecond ?_ (by rw [he]) fun _ => rfl
  rw [he, hd.size, Array.size_append, Emit.size_one]
  omega

lemma Writes.rounds (limit : Nat) (p : Position) (round : Draft → Nat) (target : Nat)
    (hbody : Writes floor (start + 1) V ({} :: loops) body m code ns W)
    (htail : ∀ loops, Writes floor (start + 1 + code.size) V loops tail m' code' ns' V) (hcode' : Settled code')
    (hround : ∀ d : Draft, d.code.size = start + 1 + code.size → round d = target) :
    Writes floor start V loops
      (do
        let exit ← await limit .jumpIfFalse p
        enterLoop
        OnePass.block body
        let d ← current
        settleAgains (round d)
        tail
        patch exit
        finishLoop)
      (fun u => u.emit limit >>= fun u => m u >>= m')
      (one (.jumpIfFalse (start + 1 + code.size + code'.size)) p
        ++ code.map (Emit.Line.settle (start + 1 + code.size + code'.size) target) ++ code')
      (notes V (one (.jumpIfFalse 0) p) ++ ns ++ ns') V := by
  have hsettled : Settled (one (.jumpIfFalse (start + 1 + code.size + code'.size)) p
      ++ code.map (Emit.Line.settle (start + 1 + code.size + code'.size) target) ++ code') :=
    Emit.settled_append (Emit.settled_append (Emit.settled_one _ p) (Emit.settled_settle _ _ code)) hcode'
  refine writes_of_settled (exits_settled hsettled) fun d hd => accords_of_sound fun hsound => ?_
  refine Accords.bind (await_accords (l := ⟨.plain (.jumpIfFalse 0), p.line⟩) hd rfl rfl rfl rfl)
    fun pc d₁ ⟨hpc, h₁⟩ => ?_
  subst hpc
  have hd₁ := h₁.endsAt hd
  refine Accords.andThen enterLoop_accords fun _ d₂ heq hu => accords_of_sound fun hsound₂ => ?_
  rw [← hu]
  let held := exits (pc + 1) code
  have hd₂ : d₂.EndsAt (pc + 1) V ({} :: loops) := by
    rw [heq]
    exact ⟨hd₁.size, hd₁.visible, congrArg _ hd₁.loops, hd₁.opened⟩
  refine Accords.bind (hbody.block d₂ hd₂) fun _ d₃ h₃ => accords_current ?_
  have hd₃ : d₃.EndsAt (pc + 1 + code.size) V (held :: loops) := h₃.endsAt hd₂
  have hagains : held.agains = spots .again d₂.code.size code := by rw [hd₂.size]; rfl
  rw [hround d₃ hd₃.size]
  refine Accords.andThen (settleAgains_accords target hsound₂ (l := held) h₃ hagains) fun _ d₄ h₄ hu => ?_
  have hd₄ : d₄.EndsAt (pc + 1 + code.size) V ({ held with agains := [] } :: loops) := by
    have h := h₄.endsAt hd₂
    rwa [Array.size_map] at h
  rw [← hu, ← bind_pure (m' d₄.usage)]
  refine Accords.bind (k := .ok) (htail _ d₄ hd₄) fun _ d₅ h₅ => ?_
  rw [exits_settled hcode', modifyHead_empty] at h₅
  -- the jump of the test is given its target next, with those past the loop still waiting
  have hturned : d.Grows d₅ (#[] ++ one (.jumpIfFalse 0) p ++ (code.map (Emit.Line.toward .again target) ++ code'))
      (notes V (one (.jumpIfFalse 0) p) ++ (ns ++ ns')) (pc :: held.leaves) V
      ({ held with agains := [] } :: loops) := by
    subst heq
    rw [Array.empty_append]
    exact ((h₁.holding _).trans (h₄.trans h₅)).perm (by rw [Exits.all_empty, List.append_nil]; rfl)
  refine Accords.andThen (patch_accords (pc + 1 + code.size + code'.size) hsound hturned hd.size.symm
    (by rw [Array.size_append, Array.size_map, Nat.add_assoc]) fun _ => rfl) fun _ d₆ h₆ hu => ?_
  rw [← hu]
  have hleaves : held.leaves = spots .leave d.code.size (#[] ++ one (.jumpIfFalse (pc + 1 + code.size + code'.size)) p
      ++ (code.map (Emit.Line.toward .again target) ++ code')) := by
    rw [Array.empty_append, Emit.spots_append, Emit.spots_append, Emit.spots_one _ _ (by simp),
      Emit.spots_toward (by simp) (by simp), Emit.spots_settled (by simp) hcode', hd.size]
    simp [held, exits]
  refine (finishLoop_accords (l := { held with agains := [] }) (pc + 1 + code.size + code'.size) hsound h₆ hleaves
    ?_).mono fun _ d₇ h₇ => ?_
  · rw [hd.size, Array.empty_append, Array.size_append, Array.size_append, Array.size_map, Emit.size_one]
    omega
  · rwa [Array.empty_append, Array.map_append, Array.map_append, Emit.map_toward_one _ _ (by simp),
      Emit.map_toward_toward, Emit.map_toward_settled (by simp) hcode', ← Array.append_assoc,
      ← Array.append_assoc] at h₇

lemma Writes.here {f : Nat → Writer Unit} (h : Writes floor start V loops (f start) m code ns V') :
    Writes floor start V loops (current >>= fun d => f d.code.size) m code ns V' :=
  fun d hd => accords_current (hd.size ▸ h d hd)

lemma within {inLoop : Bool} {f : Exits → Exits} (h : inLoop = true → loops.isEmpty = false) :
    inLoop = true → (loops.modifyHead f).isEmpty = false := by
  cases loops <;> exact h

end Parts

section Statements

variable {floor limit : Nat} {c : Context}

lemma writes_assign (limit : Nat) (p : Position) (name : String) (start : Nat) (V : List Variable)
    (loops : List Exits) :
    Writes floor start V loops
      (resolve? name >>= fun x? => match x? with
        | some x => write limit (.store x.slot) p (some x)
        | none => pure ())
      (Usage.emits limit (if ((slotsOf V).find? name).isSome then 1 else 0))
      (((slotsOf V).find? name).elim #[] fun slot => one (.store slot) p)
      (notes V (((slotsOf V).find? name).elim #[] fun slot => one (.store slot) p)) V := by
  intro d hd
  refine accords_of_sound fun hsound => accords_resolve hd ?_
  rw [← (hd.visible ▸ hsound.stacked : Emit.Stacked V).find?_name name]
  cases hx : V.find? (·.name == name) with
  | none => exact writes_nil d hd
  | some x =>
    have h : Writes floor start V loops _ _ _ _ V :=
      writes_access limit (.store x.slot) p (List.mem_of_find?_eq_some hx) rfl
    exact h.counted (fun u => (Usage.emits_one u).symm) d hd

lemma writes_jumpOut {o : Op} {hold : Nat → Exits → Exits} {e : Exits} (limit start : Nat) (p : Position)
    (V : List Variable) {loops : List Exits} (hloops : loops.isEmpty = false)
    (ho : Emit.Line.held ⟨o, p.line⟩ = .jump 0) (hnote : o.slot? = none) (he : exits start #[⟨o, p.line⟩] = e)
    (hall : e.all = [start]) (hhold : ∀ l, hold start l = l.append e) :
    Writes floor start V loops (jumpOut limit hold p) (Usage.emits limit 1) #[⟨o, p.line⟩] (notes V #[⟨o, p.line⟩])
      V := by
  intro d hd
  rw [Usage.emits_one, he, hall, ← funext hhold]
  exact jumpOut_accords hd ho hnote hloops

lemma writes_test (limit : Nat) (p : Position) {counter last : Variable} {start : Nat} {V : List Variable}
    {loops : List Exits} (hcounter : counter ∈ V) (hlast : last ∈ V) :
    Writes floor start V loops (test limit counter last p) (Usage.emits limit 3)
      (one (.load counter.slot) p ++ one (.load last.slot) p ++ one (.binary .lt) p)
      (notes V (one (.load counter.slot) p ++ one (.load last.slot) p ++ one (.binary .lt) p)) V := by
  have h : Writes floor start V loops _ _ _ _ V := (writes_access limit (.load counter.slot) p hcounter rfl).seq
    ((writes_access limit (.load last.slot) p hlast rfl).seq (writes_emit limit (.binary .lt) p rfl))
  refine (h.plain (Array.append_assoc ..).symm (by simp only [Emit.notes_append])).counted fun u => ?_
  exact bind_congr fun v => bind_congr fun w => (Usage.emits_one w).symm

lemma writes_advance (limit : Nat) (p : Position) (check : Nat) {counter : Variable} {start : Nat} {V : List Variable}
    {loops : List Exits} (hcounter : counter ∈ V) :
    let code := one (.load counter.slot) p ++ one (.int 1) p ++ one (.binary .add) p ++ one (.store counter.slot) p
      ++ one (.jump check) p
    Writes floor start V loops (advance limit counter check p) (Usage.emits limit 5) code (notes V code) V := by
  have h : Writes floor start V loops _ _ _ _ V := (writes_access limit (.load counter.slot) p hcounter rfl).seq
    ((writes_emit limit (.int 1) p rfl).seq ((writes_emit limit (.binary .add) p rfl).seq
      ((writes_access limit (.store counter.slot) p hcounter rfl).seq (writes_emit limit (.jump check) p rfl))))
  refine (h.plain (by simp only [Array.append_assoc]) (by simp only [Emit.notes_append])).counted fun u => ?_
  exact bind_congr fun _ => bind_congr fun _ => bind_congr fun _ => bind_congr fun w => (Usage.emits_one w).symm

lemma exits_leave (start n : Nat) : exits start #[⟨.leave, n⟩] = ⟨[start], []⟩ := by
  simp [exits, spots, Emit.places, List.range_succ]

lemma exits_again (start n : Nat) : exits start #[⟨.again, n⟩] = ⟨[], [start]⟩ := by
  simp [exits, spots, Emit.places, List.range_succ]

variable (floor limit c)

lemma count_writes (start : Nat) (V : List Variable) (loops : List Exits) (inLoop : Bool) (p : Position)
    (name : String) (first bound : Expr) {body : List Stmt}
    (hbody : ∀ (start : Nat) (V : List Variable) (loops : List Exits),
      Writes floor start V ({} :: loops) (stmts limit c body) (fun u => Metered.stmts limit c true (slotsOf V) u body)
        (Emit.stmts c (slotsOf V) start #[] body) (stmtsNotes c V start body) (allBehind c V start body)) :
    Writes floor start V loops (stmt limit c (.count p name first bound body))
      (fun u => Metered.stmt limit c inLoop (slotsOf V) u (.count p name first bound body))
      (Emit.stmt c (slotsOf V) start (.count p name first bound body)).1
      (stmtNotes c V start (.count p name first bound body)) V := by
  let counter := Emit.storedAt V name (start + (Emit.expr c (slotsOf V) start first).size)
  let W := counter :: V
  let last := Emit.storedAt W "" (start + (Emit.expr c (slotsOf V) start first).size + 1
    + (Emit.expr c (slotsOf W) (start + (Emit.expr c (slotsOf V) start first).size + 1) bound).size)
  let U := last :: W
  have hcounter : counter ∈ U := List.mem_cons_of_mem _ List.mem_cons_self
  have hlast : last ∈ U := List.mem_cons_self
  let fromTest : Nat → Writer Unit := fun check =>
    test limit counter last p >>= fun _ => await limit .jumpIfFalse p >>= fun exit => enterLoop >>= fun _ =>
    OnePass.block (stmts limit c body) >>= fun _ => current >>= fun d => settleAgains d.code.size >>= fun _ =>
    advance limit counter check p >>= fun _ => patch exit >>= fun _ => finishLoop
  have hrounds (check : Nat) (loops : List Exits) : Writes floor (check + 3) U loops _ _ _ _ U :=
    Writes.rounds limit p (fun d => d.code.size) _ (hbody _ U _)
      (fun loops => writes_advance limit p check hcounter) (by simp [Settled, one, Emit.Line.instr?]) fun d hd => hd
  have htest (check : Nat) (loops : List Exits) : Writes floor check U loops (fromTest check) _ _ _ U :=
    (writes_test limit p hcounter hlast).seq (hrounds check _)
  have hbehind (start : Nat) (loops : List Exits) : Writes floor start U loops _ _ _ _ U :=
    (writes_access limit (.store last.slot) p hlast rfl).seq (Writes.here (htest _ _))
  rw [stmt]
  refine Writes.counted (Writes.of_eq (Writes.block ((expr_writes floor limit c start V loops first).seq
    (Writes.declared ((writes_access limit _ p List.mem_cons_self rfl).seq
      ((expr_writes floor limit c _ W _ bound).seq (Writes.declared (hbehind _ _))))))) ?_ ?_) fun u => ?_
  · simp only [Emit.stmt, Array.append_assoc, Array.size_append, Emit.size_one, ← Nat.add_assoc]
    rfl
  · simp only [stmtNotes, Emit.notes_append, Array.append_assoc, Emit.size_one]
    rfl
  · simp only [Metered.stmt, Usage.emits, bind_assoc, ok_bind]
    rfl

mutual

lemma stmt_writes (start : Nat) (V : List Variable) (loops : List Exits) {inLoop : Bool} {names : List String}
    (hin : inLoop = true → loops.isEmpty = false) (x : Stmt) (hx : x.Ready c inLoop names) :
    Writes floor start V loops (stmt limit c x) (fun u => Metered.stmt limit c inLoop (slotsOf V) u x)
      (Emit.stmt c (slotsOf V) start x).1 (stmtNotes c V start x) (behind c V start x) := by
  cases x with
  | declare p name init =>
    exact (expr_writes floor limit c start V loops init).seq
      (Writes.declared (writes_access limit _ p List.mem_cons_self rfl))
  | assign p t value =>
    cases t with
    | var q name =>
      have h := (expr_writes floor limit c start V loops value).seq (writes_assign limit p name _ V _)
      exact h.plain rfl (Emit.notes_append _ _ _).symm
    | index q t i =>
      have h := (expr_writes floor limit c start V loops t).seq
        ((expr_writes floor limit c _ V _ i).seq
          ((expr_writes floor limit c _ V _ value).seq (writes_emit limit .storeIndex p rfl)))
      exact h.plain (by simp only [Emit.stmt, Array.append_assoc]) (by simp only [Emit.notes_append])
  | branch p cond body otherwise =>
    cases otherwise with
    | none =>
      have h := (expr_writes floor limit c start V loops cond).seq
        ((stmts_writes _ V _ (within hin) body hx.2).block.ahead limit p .jumpIfFalse (fun t => rfl) fun t => rfl)
      refine h.of_eq ?_ ?_
      · simp only [Emit.stmt, Array.append_assoc]
      · simp only [stmtNotes, Emit.notes_append, Array.append_assoc]
    | some otherwise =>
      have h := (expr_writes floor limit c start V loops cond).seq
        (Writes.either limit p (stmts_writes _ V _ (within hin) body hx.2.1).block
          (stmts_writes _ V _ (within (within hin)) otherwise hx.2.2).block)
      refine h.of_eq ?_ ?_
      · simp only [Emit.stmt, Array.append_assoc]
      · simp only [stmtNotes, Emit.notes_append, Array.append_assoc]
  | loop p cond body =>
    refine Writes.here (f := fun start => expr limit c cond >>= fun _ => await limit .jumpIfFalse p >>= fun exit =>
      enterLoop >>= fun _ => OnePass.block (stmts limit c body) >>= fun _ => settleAgains start >>= fun _ =>
      emit limit (.jump start) p >>= fun _ => patch exit >>= fun _ => finishLoop) ?_
    have h := (expr_writes floor limit c start V loops cond).seq
      (Writes.rounds limit p (fun _ => start) start
        (stmts_writes _ V _ (fun _ => rfl) body hx.2)
        (fun loops => writes_emit limit (.jump start) p rfl) (Emit.settled_one _ p) fun d hd => rfl)
    refine h.of_eq ?_ ?_
    · simp only [Emit.stmt, Array.append_assoc, Emit.size_one]
    · simp only [stmtNotes, Emit.notes_append, Array.append_assoc]
  | count p name first bound body =>
    exact count_writes floor limit c start V loops inLoop p name first bound fun start V loops =>
      stmts_writes start V _ (fun _ => rfl) body hx.2.2.2
  | give p value =>
    cases value with
    | none =>
      exact writes_return limit p
    | some e =>
      have h := (expr_writes floor limit c start V loops e).seq (writes_emit limit .ret p rfl)
      exact h.plain rfl (Emit.notes_append _ _ _).symm
  | leave p =>
    obtain rfl : inLoop = true := hx
    exact writes_jumpOut limit start p V (hin rfl) rfl rfl (exits_leave start p.line) rfl
      fun l => by simp [Exits.append]
  | again p =>
    obtain rfl : inLoop = true := hx
    exact writes_jumpOut limit start p V (hin rfl) rfl rfl (exits_again start p.line) rfl
      fun l => by simp [Exits.append]
  | block p body => exact (stmts_writes start V loops hin body hx).block
  | eval p e =>
    have h := (expr_writes floor limit c start V loops e).seq (writes_emit limit .pop p rfl)
    exact h.plain rfl (Emit.notes_append _ _ _).symm

lemma stmts_writes (start : Nat) (V : List Variable) (loops : List Exits) {inLoop : Bool} {names : List String}
    (hin : inLoop = true → loops.isEmpty = false) (xs : List Stmt) (hxs : Stmt.AllReady c inLoop names xs) :
    Writes floor start V loops (stmts limit c xs) (fun u => Metered.stmts limit c inLoop (slotsOf V) u xs)
      (Emit.stmts c (slotsOf V) start #[] xs) (stmtsNotes c V start xs) (allBehind c V start xs) := by
  cases xs with
  | nil => exact writes_nil.of_eq rfl Array.map_empty
  | cons x xs =>
    have h := (stmt_writes start V loops hin x hxs.1).seq (stmts_writes _ _ _ (within hin) xs hxs.2)
    rw [Emit.slotsOf_behind] at h
    refine h.of_eq ?_ rfl
    rw [Emit.stmts_cons, Emit.stmt_slots]

end

end Statements

end ScriptHost.OnePass
