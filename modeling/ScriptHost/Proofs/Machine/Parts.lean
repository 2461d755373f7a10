import ScriptHost.Proofs.Bytecode.Heights
import ScriptHost.Proofs.Machine.Coupling
import ScriptHost.Proofs.Machine.Exec
import ScriptHost.Proofs.Machine.Operations

/-!
What instructions are made of. There are a few ways in which an instruction goes on, and what holds of them, and of
work on values, holds of every instruction.
-/

namespace ScriptHost.Machine

inductive Operates (h : Host) : Instr → Run Datum → Prop
  | text (n : Nat) (t : String) : Operates h (.str n) (newString h t)
  | items (count : Nat) (ds : Array Datum) : Operates h (.makeArray count) (newArray h ds)
  | unary (op : UnaryOp) (d : Datum) : Operates h (.unary op) (unary h op d)
  | binary (op : BinaryOp) (lhs rhs : Datum) : Operates h (.binary op) (binary h op lhs rhs)
  | builtin (b : Builtin) (argc : Nat) (args : List Datum) : Operates h (.callBuiltin b argc) (builtin h b args)
  | index (target i : Datum) : Operates h .index (index h target i)

namespace Operates

variable {h : Host} {i : Instr} {op : Run Datum}

lemma coupled {c : Coupling} (ho : Operates h i op) (hw : Works c h h fun _ => True) :
    Coupled c (fun _ => True) op op := by
  cases ho with
  | text n t => exact hw.newString t
  | items count ds => exact hw.newArray fun _ _ => trivial
  | unary op d => exact hw.unary op d
  | binary op lhs rhs => exact hw.binary op lhs rhs
  | builtin b argc args => exact hw.builtin b fun _ _ => trivial
  | index target i => exact hw.index target i

lemma tame_or (ho : Operates h i op) (s : State) : Tame op s (fun _ _ => True) ∨
    ∃ b argc args, i = .callBuiltin b argc ∧ op = Machine.builtin h b args := by
  cases ho with
  | text n t => exact .inl ((newString_tame h s t).mono fun _ _ _ => trivial)
  | items count ds => exact .inl ((newArray_tame h s ds).mono fun _ _ _ => trivial)
  | unary op d => exact .inl ((unary_tame op d).mono fun _ _ _ => trivial)
  | binary op lhs rhs => exact .inl ((binary_tame op lhs rhs).mono fun _ _ _ => trivial)
  | builtin b argc args => exact .inr ⟨b, argc, args, rfl, rfl⟩
  | index target i => exact .inl ((index_tame target i).mono fun _ _ _ => trivial)

lemma not_store (ho : Operates h i op) (slot : Nat) : i ≠ .store slot := by
  cases ho <;> nofun

lemma next_target (ho : Operates h i op) (pc : Nat) : pc + 1 ∈ i.targets pc := by
  cases ho <;> exact .head _

end Operates

/-- How an instruction `i` goes on that the innermost call `f` has come to, once the calls under way are taken out of
the state. -/
inductive GoesOn (h : Host) (f : Frame) (rest : List Frame) (i : Instr) : Run (Option Datum) → Prop
  | resume (pc : Nat) (ops : List Datum) : (∀ slot, i ≠ .store slot) → pc ∈ i.targets f.pc →
      GoesOn h f rest i (resume ⟨f.function, pc, f.locals, ops⟩ rest)
  | put (slot : Nat) (d : Datum) (ops : List Datum) : i = .store slot → slot < f.locals.size →
      f.operands = d :: ops →
      GoesOn h f rest i (Machine.resume ⟨f.function, f.pc + 1, f.locals.setIfInBounds slot d, ops⟩ rest)
  | push (ops : List Datum) {op : Run Datum} : Operates h i op →
      GoesOn h f rest i (pushing ⟨f.function, f.pc + 1, f.locals, ops⟩ rest op)
  | store (ops : List Datum) (target index value : Datum) : i = .storeIndex →
      GoesOn h f rest i (do
        modify fun s => { s with frames := ⟨f.function, f.pc + 1, f.locals, ops⟩ :: rest }
        storeIndex h target index value
        return none)
  | enter (id : Nat) (args ops : List Datum) : i = .call id args.length → f.operands = args.reverse ++ ops →
      GoesOn h f rest i (do
        modify fun s => { s with frames := ⟨f.function, f.pc + 1, f.locals, ops⟩ :: rest }
        enter h id args)
  | give (d : Datum) (g : Frame) (below : List Frame) : rest = g :: below →
      GoesOn h f rest i (do
        modify fun s => { s with frames := { g with operands := d :: g.operands } :: below, depth := s.depth - 1 }
        return none)
  | last (d : Datum) :
      GoesOn h f rest i (do
        modify fun s => { s with frames := [], depth := s.depth - 1 }
        return some d)
  | fault (frames : List Frame) (kind : FaultKind) (message : String) :
      GoesOn h f rest i (do
        modify fun s => { s with frames := frames }
        fail h kind message)

section Instructions

variable (h : Host) (rest : List Frame)

lemma goesOn_broken (f : Frame) {i : Instr} (frames : List Frame) : GoesOn h f rest i (do
    modify fun s => { s with frames := frames }
    broken h) :=
  .fault frames .internalError _

lemma goesOn_whenBool (f : Frame) {i : Instr} (f' : Frame) (d : Datum) {k : Bool → Run (Option Datum)}
    (hk : ∀ b, GoesOn h f rest i (k b)) : GoesOn h f rest i (whenBool h rest f' d k) := by
  cases d with
  | bool b => exact hk b
  | _ => exact .fault _ .typeError _

variable (id pc : Nat) (locals : Array Datum) (ops : List Datum)

lemma goesOn_str (n : Nat) :
    GoesOn h ⟨id, pc, locals, ops⟩ rest (.str n) (exec h ⟨id, pc + 1, locals, ops⟩ rest (.str n)) := by
  cases hn : h.program.strings[n]? with
  | some text =>
    rw [exec_str h rest id (pc + 1) locals ops hn]
    exact .push _ (.text n text)
  | none =>
    rw [exec_str_none h rest id (pc + 1) locals ops hn]
    exact goesOn_broken h rest _ _

lemma goesOn_load (slot : Nat) :
    GoesOn h ⟨id, pc, locals, ops⟩ rest (.load slot) (exec h ⟨id, pc + 1, locals, ops⟩ rest (.load slot)) := by
  cases hd : locals[slot]? with
  | some d =>
    rw [exec_load h rest id (pc + 1) locals ops hd]
    exact .resume _ _ nofun (.head _)
  | none =>
    rw [exec_load_none h rest id (pc + 1) locals ops hd]
    exact goesOn_broken h rest _ _

lemma goesOn_store (slot : Nat) :
    GoesOn h ⟨id, pc, locals, ops⟩ rest (.store slot) (exec h ⟨id, pc + 1, locals, ops⟩ rest (.store slot)) := by
  cases ops with
  | nil => exact goesOn_broken h rest _ _
  | cons d ops =>
    by_cases hs : slot < locals.size
    · rw [exec_store h rest id (pc + 1) locals ops d hs]
      exact .put slot d ops rfl hs rfl
    · rw [exec_store_none h rest id (pc + 1) locals ops d hs]
      exact goesOn_broken h rest _ _

lemma goesOn_jumpIfFalse (target : Nat) : GoesOn h ⟨id, pc, locals, ops⟩ rest (.jumpIfFalse target)
    (exec h ⟨id, pc + 1, locals, ops⟩ rest (.jumpIfFalse target)) := by
  cases ops with
  | nil => exact goesOn_broken h rest _ _
  | cons d ops =>
    rw [exec_jumpIfFalse]
    refine goesOn_whenBool _ _ _ _ _ fun b => .resume _ _ nofun ?_
    cases b with
    | true => exact .head _
    | false => exact .tail _ (.head _)

lemma goesOn_jumpKeep (settled : Bool) (target : Nat) : GoesOn h ⟨id, pc, locals, ops⟩ rest (.jumpKeep settled target)
    (exec h ⟨id, pc + 1, locals, ops⟩ rest (.jumpKeep settled target)) := by
  cases ops with
  | nil => exact goesOn_broken h rest _ _
  | cons d ops =>
    rw [exec_jumpKeep]
    refine goesOn_whenBool _ _ _ _ _ fun b => ?_
    split
    · exact .resume _ _ nofun (.tail _ (.head _))
    · exact .resume _ _ nofun (.head _)

lemma goesOn_call (callee argc : Nat) : GoesOn h ⟨id, pc, locals, ops⟩ rest (.call callee argc)
    (exec h ⟨id, pc + 1, locals, ops⟩ rest (.call callee argc)) := by
  by_cases ha : argc ≤ ops.length
  · rw [exec_call h rest id (pc + 1) locals ops ha]
    refine .enter callee _ _ ?_ ?_
    · rw [List.length_reverse, List.length_take_of_le ha]
    · rw [List.reverse_reverse, List.take_append_drop]
  · rw [exec_call_few h rest id (pc + 1) locals ops ha]
    exact goesOn_broken h rest _ _

lemma goesOn_callBuiltin (b : Builtin) (argc : Nat) : GoesOn h ⟨id, pc, locals, ops⟩ rest (.callBuiltin b argc)
    (exec h ⟨id, pc + 1, locals, ops⟩ rest (.callBuiltin b argc)) := by
  by_cases ha : argc ≤ ops.length
  · rw [exec_callBuiltin h rest id (pc + 1) locals ops b ha]
    exact .push _ (.builtin b argc _)
  · rw [exec_callBuiltin_few h rest id (pc + 1) locals ops b ha]
    exact goesOn_broken h rest _ _

lemma goesOn_makeArray (count : Nat) : GoesOn h ⟨id, pc, locals, ops⟩ rest (.makeArray count)
    (exec h ⟨id, pc + 1, locals, ops⟩ rest (.makeArray count)) := by
  by_cases hc : count ≤ ops.length
  · rw [exec_makeArray h rest id (pc + 1) locals ops hc]
    exact .push _ (.items count _)
  · rw [exec_makeArray_few h rest id (pc + 1) locals ops hc]
    exact goesOn_broken h rest _ _

lemma goesOn_ret : GoesOn h ⟨id, pc, locals, ops⟩ rest .ret (exec h ⟨id, pc + 1, locals, ops⟩ rest .ret) := by
  cases ops with
  | nil => exact goesOn_broken h rest _ _
  | cons d ops =>
    cases rest with
    | nil => exact .last d
    | cons g below => exact .give d g below rfl

lemma exec_goesOn (f : Frame) (i : Instr) : GoesOn h f rest i (exec h { f with pc := f.pc + 1 } rest i) := by
  obtain ⟨id, pc, locals, ops⟩ := f
  have hbroken {i} := goesOn_broken h rest ⟨id, pc, locals, ops⟩ (i := i) (⟨id, pc + 1, locals, ops⟩ :: rest)
  dsimp only
  cases i with
  | int | nil | bool | jump => exact .resume _ _ nofun (.head _)
  | str n => exact goesOn_str h rest id pc locals ops n
  | load slot => exact goesOn_load h rest id pc locals ops slot
  | store slot => exact goesOn_store h rest id pc locals ops slot
  | jumpIfFalse target => exact goesOn_jumpIfFalse h rest id pc locals ops target
  | jumpKeep settled target => exact goesOn_jumpKeep h rest id pc locals ops settled target
  | call callee argc => exact goesOn_call h rest id pc locals ops callee argc
  | callBuiltin b argc => exact goesOn_callBuiltin h rest id pc locals ops b argc
  | makeArray count => exact goesOn_makeArray h rest id pc locals ops count
  | ret => exact goesOn_ret h rest id pc locals ops
  | pop =>
    cases ops with
    | nil => exact hbroken
    | cons d ops => exact .resume _ _ nofun (.head _)
  | expectBool =>
    cases ops with
    | nil => exact hbroken
    | cons d ops =>
      rw [exec_expectBool]
      exact goesOn_whenBool _ _ _ _ _ fun _ => .resume _ _ nofun (.head _)
  | unary op =>
    cases ops with
    | nil => exact hbroken
    | cons d ops => exact .push _ (.unary op d)
  | binary op =>
    rcases ops with _ | ⟨rhs, _ | ⟨lhs, ops⟩⟩
    · exact hbroken
    · exact hbroken
    · exact .push _ (.binary op lhs rhs)
  | index =>
    rcases ops with _ | ⟨i, _ | ⟨target, ops⟩⟩
    · exact hbroken
    · exact hbroken
    · exact .push _ (.index target i)
  | storeIndex =>
    rcases ops with _ | ⟨value, _ | ⟨i, _ | ⟨target, ops⟩⟩⟩
    · exact hbroken
    · exact hbroken
    · exact hbroken
    · exact .store _ target i value rfl

end Instructions

end ScriptHost.Machine
