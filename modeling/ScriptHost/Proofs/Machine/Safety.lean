import ScriptHost.Proofs.Bytecode.Heights
import ScriptHost.Proofs.Machine.Exec
import ScriptHost.Proofs.Machine.Operations
import ScriptHost.Sandbox.Execution

/-!
Runs of code that has heights. Every call under way has the operands that its code says, so no step is left
without what it reaches for.
-/

namespace ScriptHost

/-- A call of a function with heights `H`, in a heap of some arrays. -/
structure Frame.Of (p : Program) (size : Nat) (f : Frame) (g : Function) (H : Nat → Nat) : Prop where
  function : p.functions[f.function]? = some g
  heights : g.Heights p H
  slots : g.locals ≤ f.locals.size
  locals : ∀ d ∈ f.locals, d.In size
  operands : ∀ d ∈ f.operands, d.In size

/-- A call that has all operands but the last `missing`, which are still to come. -/
def Frame.Fits (p : Program) (size missing : Nat) (f : Frame) : Prop :=
  ∃ g H, f.Of p size g H ∧ f.pc < g.code.size ∧ H f.pc = f.operands.length + missing

lemma Frame.Fits.mono {p : Program} {size size' missing : Nat} (h : size ≤ size') {f : Frame}
    (hf : f.Fits p size missing) : f.Fits p size' missing := by
  obtain ⟨g, H, hof, hpc, hH⟩ := hf
  exact ⟨g, H, ⟨hof.function, hof.heights, hof.slots, fun d hd => (hof.locals d hd).mono h,
    fun d hd => (hof.operands d hd).mono h⟩, hpc, hH⟩

lemma Frame.Fits.push {p : Program} {size missing : Nat} {f : Frame} (hf : f.Fits p size (missing + 1))
    {d : Datum} (hd : d.In size) : Frame.Fits p size missing { f with operands := d :: f.operands } := by
  obtain ⟨g, H, hof, hpc, hH⟩ := hf
  refine ⟨g, H, ⟨hof.function, hof.heights, hof.slots, hof.locals, ?_⟩, hpc, ?_⟩
  · exact List.forall_mem_cons.mpr ⟨hd, hof.operands⟩
  · rw [hH, List.length_cons]
    omega

lemma Frame.Fits.store {p : Program} {size missing : Nat} {f : Frame} (hf : f.Fits p size missing) (slot : Nat)
    {d : Datum} (hd : d.In size) :
    Frame.Fits p size missing { f with locals := f.locals.setIfInBounds slot d } := by
  obtain ⟨g, H, hof, hpc, hH⟩ := hf
  refine ⟨g, H, ⟨hof.function, hof.heights, ?_, fun e he => ?_, hof.operands⟩, hpc, hH⟩
  · rw [Array.size_setIfInBounds]
    exact hof.slots
  · rcases Array.mem_or_eq_of_mem_setIfInBounds he with he | rfl
    · exact hof.locals e he
    · exact hd

namespace Machine

structure Calls (p : Program) (size : Nat) (f : Frame) (rest : List Frame) : Prop where
  first : f.Fits p size 0
  rest : ∀ g ∈ rest, g.Fits p size 1

structure Safe (p : Program) (s : State) : Prop where
  closed : s.heap.Closed
  calls : ∃ f rest, s.frames = f :: rest ∧ Calls p s.heap.size f rest

def Stepped (p : Program) (r : Option Datum) (t : State) : Prop :=
  match r with
  | none => Safe p t
  | some d => Sound d t

def NotBroken (f : Fault) : Prop :=
  f.kind ≠ .internalError

section Step

variable {p : Program} {s : State} {f : Frame} {rest : List Frame}

lemma waiting_mono {size size' : Nat} (h : size ≤ size') (hr : ∀ g ∈ rest, g.Fits p size 1) :
    ∀ g ∈ rest, g.Fits p size' 1 :=
  fun g hg => (hr g hg).mono h

lemma resume_yields (hs : s.heap.Closed) (hf : Calls p s.heap.size f rest) :
    Yields (resume f rest) s (Stepped p) fun f _ => NotBroken f :=
  ⟨hs, f, rest, rfl, hf⟩

lemma pushing_yields {op : Run Datum} (hf : f.Fits p s.heap.size 1)
    (hr : ∀ g ∈ rest, g.Fits p s.heap.size 1)
    (hop : Yields op { s with frames := f :: rest }
      (fun d t => t.frames = f :: rest ∧ s.heap.size ≤ t.heap.size ∧ Sound d t) fun f _ => NotBroken f) :
    Yields (pushing f rest op) s (Stepped p) fun f _ => NotBroken f := by
  rw [pushing]
  rw [yields_bind, yields_modify, yields_bind]
  refine hop.mono ?_ fun _ _ hE => hE
  rintro d t ⟨hframes, hgrows, hd⟩
  rw [yields_bind, yields_modify, yields_pure]
  simp only [hframes]
  exact ⟨hd.closed, _, _, rfl, (hf.mono hgrows).push hd.inside, waiting_mono hgrows hr⟩

lemma enter_yields {h : Host} (hh : h.program = p) {id : Nat} {g : Function} {args : List Datum}
    {H : Nat → Nat} (hg : p.functions[id]? = some g) (hH : g.Heights p H) (hs : s.heap.Closed)
    (ha : ∀ d ∈ args, d.In s.heap.size) (hr : ∀ g ∈ s.frames, g.Fits p s.heap.size 1) :
    Yields (enter h id args) s (fun r t => r = none ∧ Safe p t) fun f _ => NotBroken f := by
  by_cases hd : h.callDepth ≤ s.depth
  · rw [Yields, enter_deep hd]
    exact (by decide : FaultKind.stackOverflow ≠ .internalError)
  · rw [Yields, enter_ok hd (hh ▸ hg)]
    refine ⟨rfl, hs, _, _, rfl, ⟨g, H, ⟨hg, hH, ?_, ?_, ?_⟩, hH.nonempty, hH.first⟩, hr⟩
    · simp only [frameOf, Array.size_append, List.size_toArray, Array.size_replicate]
      omega
    · intro d hd
      simp only [frameOf, Array.mem_append, List.mem_toArray, Array.mem_replicate] at hd
      rcases hd with hd | ⟨-, rfl⟩
      · exact ha d hd
      · trivial
    · exact fun d hd => (List.not_mem_nil hd).elim

lemma whenBool_yields {h : Host} {d : Datum} {k : Bool → Run (Option Datum)}
    (hk : ∀ b, d = .bool b → Yields (k b) s (Stepped p) fun f _ => NotBroken f) :
    Yields (whenBool h rest f d k) s (Stepped p) fun f _ => NotBroken f := by
  cases d with
  | bool b => exact hk b rfl
  | _ => exact (by decide : FaultKind.typeError ≠ .internalError)

lemma Steady.value {op : Run Datum} {Q : Datum → State → Prop} (h : Tame op s Q)
    (hQ : ∀ d t, Q d t → Sound d t) :
    Yields op s (fun d t => t.frames = s.frames ∧ s.heap.size ≤ t.heap.size ∧ Sound d t)
      fun f _ => NotBroken f :=
  Yields.mono h (fun d t hd => ⟨hd.1.frames, hd.1.grows, hQ d t hd.2⟩) fun _ _ hf => hf.kind

lemma exists_pair {ops : List Datum} (hlen : 2 ≤ ops.length) : ∃ a b rest, ops = a :: b :: rest := by
  obtain ⟨a, ops, rfl⟩ := List.exists_cons_of_length_pos (Nat.lt_of_lt_of_le Nat.zero_lt_two hlen)
  obtain ⟨b, ops, rfl⟩ := List.exists_cons_of_length_pos (Nat.le_of_succ_le_succ hlen)
  exact ⟨a, b, ops, rfl⟩

lemma in_of_taken {ops : List Datum} {size : Nat} (hops : ∀ d ∈ ops, d.In size) (count : Nat) :
    ∀ d ∈ (ops.take count).reverse, d.In size :=
  fun d hd => hops d (List.mem_of_mem_take (List.mem_reverse.mp hd))

/-- What the innermost call finds when it comes to an instruction: the operands and all else that the instruction reaches
for, and room in the code wherever it goes next. -/
structure Finds (p : Program) (s : State) (f : Frame) (rest : List Frame) (i : Instr) : Prop where
  closed : s.heap.Closed
  waiting : ∀ g ∈ rest, g.Fits p s.heap.size 1
  locals : ∀ d ∈ f.locals, d.In s.heap.size
  operands : ∀ d ∈ f.operands, d.In s.heap.size
  enough : i.takes ≤ f.operands.length
  range : i.InRange p f.locals.size
  goes : ∀ t ∈ i.next f.pc f.operands.length, ∀ (ops : List Datum) (missing : Nat), t.2 = ops.length + missing →
    (∀ d ∈ ops, d.In s.heap.size) → Frame.Fits p s.heap.size missing ⟨f.function, t.1, f.locals, ops⟩

lemma Finds.of_heights {g : Function} {H : Nat → Nat} {i : Instr} (hof : f.Of p s.heap.size g H)
    (hH : H f.pc = f.operands.length) (hi : g.code[f.pc]? = some i) (hs : s.heap.Closed)
    (hr : ∀ g ∈ rest, g.Fits p s.heap.size 1) : Finds p s f rest i where
  closed := hs
  waiting := hr
  locals := hof.locals
  operands := hof.operands
  enough := hH ▸ hof.heights.enough _ _ hi
  range := (hof.heights.range _ _ hi).mono hof.slots
  goes t ht ops missing hk hops := by
    obtain ⟨hpc, hnext⟩ := hof.heights.next _ _ hi t (hH.symm ▸ ht)
    exact ⟨g, H, ⟨hof.function, hof.heights, hof.slots, hof.locals, hops⟩, hpc, hnext.trans hk⟩

def Steps (h : Host) (s : State) (f : Frame) (rest : List Frame) (i : Instr) : Prop :=
  Yields (exec h { f with pc := f.pc + 1 } rest i) s (Stepped h.program) fun f _ => NotBroken f

/-! One instruction after another. -/

namespace Finds

variable {h : Host} {id pc : Nat} {locals : Array Datum} {ops : List Datum} {i : Instr}

lemma resume (hf : Finds p s ⟨id, pc, locals, ops⟩ rest i) {pc' : Nat} {ops' : List Datum}
    (ht : (pc', ops'.length) ∈ i.next pc ops.length) (hops : ∀ d ∈ ops', d.In s.heap.size) :
    Yields (Machine.resume ⟨id, pc', locals, ops'⟩ rest) s (Stepped p) fun f _ => NotBroken f :=
  resume_yields hf.closed ⟨hf.goes _ ht ops' 0 rfl hops, hf.waiting⟩

lemma add (hf : Finds p s ⟨id, pc, locals, ops⟩ rest i) {d : Datum} (hd : d.In s.heap.size)
    (ht : (pc + 1, ops.length + 1) ∈ i.next pc ops.length) :
    Yields (Machine.resume ⟨id, pc + 1, locals, d :: ops⟩ rest) s (Stepped p) fun f _ => NotBroken f :=
  hf.resume ht (List.forall_mem_cons.mpr ⟨hd, hf.operands⟩)

lemma push (hf : Finds p s ⟨id, pc, locals, ops⟩ rest i) {ops' : List Datum}
    (ht : (pc + 1, ops'.length + 1) ∈ i.next pc ops.length) (hops : ∀ d ∈ ops', d.In s.heap.size) {op : Run Datum}
    {Q : Datum → State → Prop} (hop : Tame op { s with frames := ⟨id, pc + 1, locals, ops'⟩ :: rest } Q)
    (hQ : ∀ d t, Q d t → Sound d t) :
    Yields (pushing ⟨id, pc + 1, locals, ops'⟩ rest op) s (Stepped p) fun f _ => NotBroken f :=
  pushing_yields (hf.goes _ ht ops' 1 rfl hops) hf.waiting (Steady.value hop hQ)

lemma str {k : Nat} (hf : Finds h.program s ⟨id, pc, locals, ops⟩ rest (.str k)) :
    Steps h s ⟨id, pc, locals, ops⟩ rest (.str k) := by
  rw [Steps, exec_str h rest _ _ _ _ (Array.getElem?_eq_getElem hf.range)]
  exact hf.push List.mem_cons_self hf.operands (newString_plain _) fun d t hd => hd.sound hf.closed

lemma load {slot : Nat} (hf : Finds h.program s ⟨id, pc, locals, ops⟩ rest (.load slot)) :
    Steps h s ⟨id, pc, locals, ops⟩ rest (.load slot) := by
  rw [Steps, exec_load h rest _ _ _ _ (Array.getElem?_eq_getElem hf.range)]
  exact hf.add (hf.locals _ (Array.getElem_mem hf.range)) List.mem_cons_self

lemma store {slot : Nat} (hf : Finds h.program s ⟨id, pc, locals, ops⟩ rest (.store slot)) :
    Steps h s ⟨id, pc, locals, ops⟩ rest (.store slot) := by
  obtain ⟨d, ops, rfl⟩ := List.exists_cons_of_length_pos hf.enough
  obtain ⟨hd, hops⟩ := List.forall_mem_cons.mp hf.operands
  rw [Steps, exec_store h rest _ _ _ _ d hf.range]
  exact resume_yields hf.closed ⟨(hf.goes _ List.mem_cons_self ops 0 rfl hops).store slot hd, hf.waiting⟩

lemma pop (hf : Finds h.program s ⟨id, pc, locals, ops⟩ rest .pop) : Steps h s ⟨id, pc, locals, ops⟩ rest .pop := by
  obtain ⟨d, ops, rfl⟩ := List.exists_cons_of_length_pos hf.enough
  rw [Steps, exec_pop]
  exact hf.resume List.mem_cons_self (List.forall_mem_cons.mp hf.operands).2

lemma unary {op : UnaryOp} (hf : Finds h.program s ⟨id, pc, locals, ops⟩ rest (.unary op)) :
    Steps h s ⟨id, pc, locals, ops⟩ rest (.unary op) := by
  obtain ⟨d, ops, rfl⟩ := List.exists_cons_of_length_pos hf.enough
  rw [Steps, exec_unary]
  exact hf.push List.mem_cons_self (List.forall_mem_cons.mp hf.operands).2 (unary_tame op d)
    fun d t hd => hd.sound hf.closed

lemma binary {op : BinaryOp} (hf : Finds h.program s ⟨id, pc, locals, ops⟩ rest (.binary op)) :
    Steps h s ⟨id, pc, locals, ops⟩ rest (.binary op) := by
  obtain ⟨rhs, lhs, ops, rfl⟩ := exists_pair hf.enough
  have hops := (List.forall_mem_cons.mp (List.forall_mem_cons.mp hf.operands).2).2
  rw [Steps, exec_binary]
  exact hf.push List.mem_cons_self hops (binary_tame op lhs rhs) fun d t hd => hd.sound hf.closed

lemma index (hf : Finds h.program s ⟨id, pc, locals, ops⟩ rest .index) :
    Steps h s ⟨id, pc, locals, ops⟩ rest .index := by
  obtain ⟨i, target, ops, rfl⟩ := exists_pair hf.enough
  have hops := (List.forall_mem_cons.mp (List.forall_mem_cons.mp hf.operands).2).2
  rw [Steps, exec_index]
  exact hf.push List.mem_cons_self hops (index_tame target i) fun d t hd => hd hf.closed

lemma storeIndex (hf : Finds h.program s ⟨id, pc, locals, ops⟩ rest .storeIndex) :
    Steps h s ⟨id, pc, locals, ops⟩ rest .storeIndex := by
  obtain ⟨value, i, ops, rfl⟩ := exists_pair (Nat.le_of_succ_le hf.enough)
  obtain ⟨target, ops, rfl⟩ := List.exists_cons_of_length_pos
    (Nat.le_of_succ_le_succ (Nat.le_of_succ_le_succ hf.enough))
  obtain ⟨hvalue, hops⟩ := List.forall_mem_cons.mp hf.operands
  have hops := (List.forall_mem_cons.mp (List.forall_mem_cons.mp hops).2).2
  rw [Steps, exec_storeIndex, yields_bind, yields_modify, yields_bind]
  refine Yields.mono (storeIndex_tame target i value) ?_ fun f _ hf => hf.kind
  rintro _ t ⟨hst, hd⟩
  refine ⟨hd hf.closed hvalue, _, rest, hst.frames, ?_, waiting_mono hst.grows hf.waiting⟩
  exact (hf.goes _ List.mem_cons_self ops 0 rfl hops).mono hst.grows

lemma expectBool (hf : Finds h.program s ⟨id, pc, locals, ops⟩ rest .expectBool) :
    Steps h s ⟨id, pc, locals, ops⟩ rest .expectBool := by
  obtain ⟨d, ops, rfl⟩ := List.exists_cons_of_length_pos hf.enough
  rw [Steps, exec_expectBool]
  apply whenBool_yields
  rintro b rfl
  exact hf.resume List.mem_cons_self hf.operands

lemma jumpIfFalse {target : Nat} (hf : Finds h.program s ⟨id, pc, locals, ops⟩ rest (.jumpIfFalse target)) :
    Steps h s ⟨id, pc, locals, ops⟩ rest (.jumpIfFalse target) := by
  obtain ⟨d, ops, rfl⟩ := List.exists_cons_of_length_pos hf.enough
  have hops := (List.forall_mem_cons.mp hf.operands).2
  rw [Steps, exec_jumpIfFalse]
  apply whenBool_yields
  intro b _
  cases b with
  | true => exact hf.resume List.mem_cons_self hops
  | false => exact hf.resume (List.mem_cons_of_mem _ List.mem_cons_self) hops

lemma jumpKeep {settled : Bool} {target : Nat}
    (hf : Finds h.program s ⟨id, pc, locals, ops⟩ rest (.jumpKeep settled target)) :
    Steps h s ⟨id, pc, locals, ops⟩ rest (.jumpKeep settled target) := by
  obtain ⟨d, ops, rfl⟩ := List.exists_cons_of_length_pos hf.enough
  rw [Steps, exec_jumpKeep]
  apply whenBool_yields
  rintro b rfl
  split
  · exact hf.resume (List.mem_cons_of_mem _ List.mem_cons_self) hf.operands
  · exact hf.resume List.mem_cons_self (List.forall_mem_cons.mp hf.operands).2

lemma dropped (hf : Finds p s ⟨id, pc, locals, ops⟩ rest i) (count : Nat) : ∀ d ∈ ops.drop count, d.In s.heap.size :=
  fun d hd => hf.operands d (List.mem_of_mem_drop hd)

lemma call {callee argc : Nat} (hf : Finds h.program s ⟨id, pc, locals, ops⟩ rest (.call callee argc))
    (hall : ∀ (id : Nat) (g : Function), h.program.functions[id]? = some g → ∃ H, g.Heights h.program H) :
    Steps h s ⟨id, pc, locals, ops⟩ rest (.call callee argc) := by
  obtain ⟨g, hg, -⟩ := hf.range
  obtain ⟨H, hH⟩ := hall callee g hg
  have hlen : argc ≤ ops.length := hf.enough
  rw [Steps, exec_call h rest _ _ _ _ hlen]
  rw [yields_bind, yields_modify]
  have hcaller := hf.goes _ List.mem_cons_self (ops.drop argc) 1 (by simp [Instr.takes, Instr.gives])
    (hf.dropped argc)
  have hcall := enter_yields (s := { s with frames := ⟨id, pc + 1, locals, ops.drop argc⟩ :: rest })
    rfl hg hH hf.closed (in_of_taken hf.operands argc) (List.forall_mem_cons.mpr ⟨hcaller, hf.waiting⟩)
  refine hcall.mono ?_ fun _ _ hf => hf
  rintro _ t ⟨rfl, ht⟩
  exact ht

lemma callBuiltin {b : Builtin} {argc : Nat}
    (hf : Finds h.program s ⟨id, pc, locals, ops⟩ rest (.callBuiltin b argc)) :
    Steps h s ⟨id, pc, locals, ops⟩ rest (.callBuiltin b argc) := by
  have hlen : argc ≤ ops.length := hf.enough
  have hargs : (ops.take argc).reverse.length = argc := by
    rw [List.length_reverse, List.length_take, Nat.min_eq_left hlen]
  rw [Steps, exec_callBuiltin h rest _ _ _ _ b hlen]
  refine pushing_yields (hf.goes _ List.mem_cons_self (ops.drop argc) 1 (by simp [Instr.takes, Instr.gives])
    (hf.dropped argc)) hf.waiting ?_
  refine (builtin_yields b _ (by rw [hargs]; exact hf.range)).mono ?_ fun _ _ hf => hf
  rintro d t ⟨hframes, -, hgrows, hd⟩
  exact ⟨hframes, hgrows, hd hf.closed (in_of_taken hf.operands argc)⟩

lemma makeArray {count : Nat} (hf : Finds h.program s ⟨id, pc, locals, ops⟩ rest (.makeArray count)) :
    Steps h s ⟨id, pc, locals, ops⟩ rest (.makeArray count) := by
  have hlen : count ≤ ops.length := hf.enough
  rw [Steps, exec_makeArray h rest _ _ _ _ hlen]
  refine hf.push (by simp [Instr.next, Instr.takes, Instr.gives]) (hf.dropped count) (newArray_tame _ _ _) ?_
  rintro d t ⟨ht, rfl⟩
  refine ⟨ht ▸ hf.closed.push fun d hd => ?_, ?_⟩
  · exact in_of_taken hf.operands count d (List.mem_toArray.mp hd)
  · rw [ht]
    exact Nat.lt_of_lt_of_eq (Nat.lt_succ_self _) (Array.size_push _).symm

lemma ret (hf : Finds h.program s ⟨id, pc, locals, ops⟩ rest .ret) : Steps h s ⟨id, pc, locals, ops⟩ rest .ret := by
  obtain ⟨d, ops, rfl⟩ := List.exists_cons_of_length_pos hf.enough
  have hd := (List.forall_mem_cons.mp hf.operands).1
  cases rest with
  | nil => exact ⟨hf.closed, hd⟩
  | cons caller rest =>
    obtain ⟨hcaller, hr⟩ := List.forall_mem_cons.mp hf.waiting
    exact ⟨hf.closed, _, rest, rfl, hcaller.push hd, hr⟩

end Finds

lemma exec_yields {h : Host} {i : Instr} (hf : Finds h.program s f rest i)
    (hall : ∀ (id : Nat) (g : Function), h.program.functions[id]? = some g → ∃ H, g.Heights h.program H) :
    Steps h s f rest i := by
  cases i with
  | int v => exact hf.add trivial List.mem_cons_self
  | nil => exact hf.add trivial List.mem_cons_self
  | bool b => exact hf.add trivial List.mem_cons_self
  | str k => exact hf.str
  | load slot => exact hf.load
  | store slot => exact hf.store
  | pop => exact hf.pop
  | unary op => exact hf.unary
  | binary op => exact hf.binary
  | expectBool => exact hf.expectBool
  | jump target => exact hf.resume List.mem_cons_self hf.operands
  | jumpIfFalse target => exact hf.jumpIfFalse
  | jumpKeep settled target => exact hf.jumpKeep
  | call callee argc => exact hf.call hall
  | callBuiltin b argc => exact hf.callBuiltin
  | ret => exact hf.ret
  | makeArray count => exact hf.makeArray
  | index => exact hf.index
  | storeIndex => exact hf.storeIndex

lemma step_yields {h : Host} (hh : h.program = p)
    (hall : ∀ (id : Nat) (g : Function), p.functions[id]? = some g → ∃ H, g.Heights p H)
    (hs : Safe p s) : Yields (step h) s (Stepped p) fun f _ => NotBroken f := by
  subst hh
  rw [step]
  rw [yields_bind]
  refine Yields.mono (tick_tame h s) ?_ fun f _ hf => hf.kind
  rintro _ t ⟨hst, ht⟩
  obtain ⟨f, rest, hframes, hf, hr⟩ := hs.calls
  rw [yields_bind, yields_modifyGet]
  simp only [hst.frames, hframes]
  obtain ⟨g, H, hof, hpc, hH⟩ := hf
  have hi := Array.getElem?_eq_getElem hpc
  simp only [hof.function, Option.bind_some, hi]
  rw [← ht] at hof hr
  exact exec_yields (Finds.of_heights hof hH hi (ht ▸ hs.closed) hr) hall

lemma advance_yields {h : Host} (hh : h.program = p)
    (hall : ∀ (id : Nat) (g : Function), p.functions[id]? = some g → ∃ H, g.Heights p H) (n : Nat)
    (hs : Safe p s) : Yields (advance h n) s (Stepped p) fun f _ => NotBroken f := by
  induction n generalizing s with
  | zero => exact hs
  | succ n ih =>
    rw [advance, yields_bind]
    refine (step_yields hh hall hs).mono ?_ fun _ _ hf => hf
    intro r t hr
    cases r with
    | some d => exact hr
    | none => exact ih hr

end Step

/-! Values on their way in and out. -/

section Exchange

variable (h : Host)

mutual

lemma takeIn_tame (s : State) (v : Value) :
    Tame (takeIn h v) s fun d t => s.heap.Closed → Sound d t := by
  cases v with
  | nil => exact Tame.pure fun hc => ⟨hc, trivial⟩
  | bool b => exact Tame.pure fun hc => ⟨hc, trivial⟩
  | int v => exact Tame.pure fun hc => ⟨hc, trivial⟩
  | str text => exact (newString_plain text).mono fun d t hd hc => hd.sound hc
  | array vs =>
    rw [takeIn]
    apply (takeInAll_tame s #[] vs).bind
    intro items t _ hitems
    apply (newArray_tame h t items).mono
    rintro _ u ⟨hu, rfl⟩ hc
    obtain ⟨hc, hitems, -⟩ := hitems hc (by simp)
    refine ⟨hu ▸ hc.push hitems, ?_⟩
    rw [hu]
    exact Nat.lt_of_lt_of_eq (Nat.lt_succ_self _) (Array.size_push _).symm

lemma takeInAll_tame (s : State) (done : Array Datum) (vs : List Value) :
    Tame (takeInAll h done vs) s fun ds t => s.heap.Closed → (∀ d ∈ done, d.In s.heap.size) →
      t.heap.Closed ∧ (∀ d ∈ ds, d.In t.heap.size) ∧ ds.size = done.size + vs.length := by
  cases vs with
  | nil => exact Tame.pure fun hc hd => ⟨hc, hd, rfl⟩
  | cons v vs =>
    rw [takeInAll]
    apply (takeIn_tame s v).bind
    intro d t hst hd
    apply (takeInAll_tame t (done.push d) vs).mono
    intro ds u hds hc hdone
    have hd := hd hc
    have hpush : ∀ e ∈ done.push d, e.In t.heap.size := by
      intro e he
      rcases Array.mem_push.mp he with he | rfl
      · exact (hdone e he).mono hst.grows
      · exact hd.inside
    obtain ⟨hc', hds, hsize⟩ := hds hd.closed hpush
    refine ⟨hc', hds, ?_⟩
    rw [hsize, Array.size_push, List.length_cons]
    omega

end

lemma foldlM_tame {α β : Type} {f : β → α → Run β} (hf : ∀ b a s, Tame (f b a) s fun _ _ => True)
    (items : List α) (b : β) (s : State) : Tame (items.foldlM f b) s fun _ _ => True := by
  induction items generalizing b s with
  | nil => exact Tame.pure trivial
  | cons a items ih =>
    rw [List.foldlM_cons]
    apply (hf b a s).bind
    intro b t _ _
    exact ih b t

lemma giveOut_tame (levels : Nat) (d : Datum) (s : State) :
    Tame (giveOut h levels d) s fun _ _ => True := by
  induction levels generalizing d s with
  | zero =>
    unfold giveOut
    apply (tick_tame h s).bind
    intro _ t _ _
    cases d with
    | str text => exact (charge_tame h t _).bind fun _ _ _ _ => Tame.pure trivial
    | _ => exact Tame.pure trivial
  | succ levels ih =>
    unfold giveOut
    apply (tick_tame h s).bind
    intro _ t _ _
    cases d with
    | str text => exact (charge_tame h t _).bind fun _ _ _ _ => Tame.pure trivial
    | array handle =>
      apply Tame.get
      apply (charge_tame h t _).bind
      intro _ u _ _
      rw [← Array.foldlM_toList]
      refine (foldlM_tame ?_ _ _ u).bind fun _ _ _ _ => Tame.pure trivial
      intro done e v
      exact (ih e v).bind fun _ _ _ _ => Tame.pure trivial
    | _ => exact Tame.pure trivial

end Exchange

/-! Whole runs. -/

/-- All that the next instruction reaches for is there: its code, the operands it takes, the slot, the string,
the function or the arguments that it names, and the arrays among the operands. -/
structure State.InBounds (p : Program) (s : State) : Prop where
  closed : s.heap.Closed
  next : ∃ f rest g, ∃ i : Instr, s.frames = f :: rest ∧ p.functions[f.function]? = some g ∧
    g.code[f.pc]? = some i ∧ i.takes ≤ f.operands.length ∧ i.InRange p f.locals.size ∧
    ∀ d ∈ f.operands, d.In s.heap.size

lemma Safe.inBounds {p : Program} {s : State} (hs : Safe p s) : s.InBounds p := by
  obtain ⟨f, rest, hframes, ⟨g, H, hof, hpc, hH⟩, hr⟩ := hs.calls
  have hi := Array.getElem?_eq_getElem hpc
  have hf := Finds.of_heights hof hH hi hs.closed hr
  exact ⟨hs.closed, f, rest, g, _, hframes, hof.function, hi, hf.enough, hf.range, hf.operands⟩

section Runs

variable {p : Program} {h : Host} (hh : h.program = p)
  (hall : ∀ (id : Nat) (g : Function), p.functions[id]? = some g → ∃ H, g.Heights p H)

include hh hall

lemma call_yields {id : Nat} {g : Function} (hg : p.functions[id]? = some g) (args : List Value)
    (limit : Nat) : Yields (call h id args) (.start limit) (fun _ t => Safe p t) fun f _ => NotBroken f := by
  obtain ⟨H, hH⟩ := hall id g hg
  rw [call]
  rw [yields_bind]
  refine Yields.mono (takeInAll_tame h (.start limit) #[] args) ?_ fun f _ hf => hf.kind
  rintro ds t ⟨hst, hds⟩
  obtain ⟨hc, hds, -⟩ := hds (fun items hi => (Array.not_mem_empty _ hi).elim) (by simp)
  rw [yields_bind]
  have hds : ∀ d ∈ ds.toList, d.In t.heap.size := fun d hd => hds d (Array.mem_toList_iff.mp hd)
  have hframes : ∀ g ∈ t.frames, g.Fits p t.heap.size 1 := by
    rw [hst.frames]
    exact fun g hg => (List.not_mem_nil hg).elim
  refine (enter_yields hh hg hH hc hds hframes).mono ?_ fun _ _ hf => hf
  rintro _ u ⟨-, hu⟩
  exact hu

lemma invoke_yields {id : Nat} {g : Function} (hg : p.functions[id]? = some g) (args : List Value)
    (limit n : Nat) : Yields (invoke h id args n) (.start limit) (fun _ _ => True) fun f _ => NotBroken f := by
  rw [invoke]
  rw [yields_bind]
  refine (call_yields hh hall hg args limit).mono ?_ fun _ _ hf => hf
  intro _ t ht
  rw [proceed]
  rw [yields_bind, yields_bind]
  refine (advance_yields hh hall n ht).mono ?_ fun _ _ hf => hf
  intro r u _
  cases r with
  | none => exact (by decide : FaultKind.interrupted ≠ .internalError)
  | some d =>
    dsimp only
    rw [yields_bind]
    exact Yields.mono (giveOut_tame h renderDepth d u) (fun _ _ _ => trivial) fun f _ hf => hf.kind

end Runs

end Machine

end ScriptHost
