import ScriptHost.Proofs.Compile.Ready

/-!
How code is laid out. The code of a list is that of its parts one after another, and where no jump stays
symbolic the code of a function is that of its body, instruction for instruction.
-/

namespace ScriptHost

namespace Emit

@[simp] lemma size_one (i : Instr) (p : Position) : (one i p).size = 1 := rfl

lemma exprs_done (c : Context) (s : Slots) (start : Nat) (done : Code) (es : List Expr) :
    exprs c s start done es = done ++ exprs c s (start + done.size) #[] es := by
  induction es generalizing start done with
  | nil => simp [exprs]
  | cons e es ih =>
    rw [exprs, ih, exprs, ih (start + done.size)]
    simp [Array.append_assoc, Nat.add_assoc]

lemma exprs_cons (c : Context) (s : Slots) (start : Nat) (e : Expr) (es : List Expr) :
    exprs c s start #[] (e :: es) =
      expr c s start e ++ exprs c s (start + (expr c s start e).size) #[] es := by
  rw [exprs, exprs_done]
  simp

lemma stmts_done (c : Context) (s : Slots) (start : Nat) (done : Code) (xs : List Stmt) :
    stmts c s start done xs = done ++ stmts c s (start + done.size) #[] xs := by
  induction xs generalizing s start done with
  | nil => simp [stmts]
  | cons x xs ih =>
    simp only [stmts]
    rw [ih, ih _ (start + done.size)]
    simp [Array.append_assoc, Nat.add_assoc]

lemma stmts_cons (c : Context) (s : Slots) (start : Nat) (x : Stmt) (xs : List Stmt) :
    stmts c s start #[] (x :: xs) =
      (stmt c s start x).1 ++
        stmts c (stmt c s start x).2 (start + (stmt c s start x).1.size) #[] xs := by
  simp only [stmts]
  rw [stmts_done]
  simp

lemma expr_unary (c : Context) (s : Slots) (start : Nat) (q : Position) {op : UnaryOp} {operand : Expr}
    (h : ¬ ∃ p v, op = .neg ∧ operand = .int p v) :
    expr c s start (.unary q op operand) = expr c s start operand ++ one (.unary op) q := by
  rw [expr]
  intro p v hop hv
  exact h ⟨p, v, hop, hv⟩

def StoresIn (P : Nat → Prop) (code : Code) : Prop :=
  ∀ l ∈ code, ∀ slot, l.op = .plain (.store slot) → P slot

section StoresIn

variable {P Q : Nat → Prop}

lemma StoresIn.mono {code : Code} (h : StoresIn P code) (hPQ : ∀ slot, P slot → Q slot) : StoresIn Q code :=
  fun l hl slot hs => hPQ slot (h l hl slot hs)

lemma storesIn_append (P : Nat → Prop) (code code' : Code) :
    StoresIn P (code ++ code') ↔ StoresIn P code ∧ StoresIn P code' := by
  simp only [StoresIn, Array.mem_append]
  exact ⟨fun h => ⟨fun l hl => h l (.inl hl), fun l hl => h l (.inr hl)⟩,
    fun h l hl => hl.elim (h.1 l) (h.2 l)⟩

lemma storesIn_settle (P : Nat → Prop) (exit round : Nat) (code : Code) :
    StoresIn P (code.map (Line.settle exit round)) ↔ StoresIn P code := by
  simp only [StoresIn, Array.mem_map]
  constructor
  · intro h l hl slot hs
    refine h _ ⟨l, hl, rfl⟩ slot ?_
    simp [Line.settle, hs]
  · rintro h _ ⟨l, hl, rfl⟩ slot hs
    apply h l hl slot
    rw [Line.settle] at hs
    split at hs
    · exact hs
    · cases hs
    · cases hs

lemma storesIn_one (P : Nat → Prop) (i : Instr) (p : Position) :
    StoresIn P (one i p) ↔ ∀ slot, i = .store slot → P slot := by
  simp [StoresIn, one]

end StoresIn

def StoresBelow (bound : Nat) (code : Code) : Prop :=
  ∀ l ∈ code, ∀ slot, l.op = .plain (.store slot) → slot < bound

lemma storesBelow_append (bound : Nat) (code code' : Code) :
    StoresBelow bound (code ++ code') ↔ StoresBelow bound code ∧ StoresBelow bound code' :=
  storesIn_append (· < bound) code code'

lemma storesBelow_settle (bound exit round : Nat) (code : Code) :
    StoresBelow bound (code.map (Line.settle exit round)) ↔ StoresBelow bound code :=
  storesIn_settle (· < bound) exit round code

lemma le_foldl_slots (ls : List Line) (n : Nat) :
    let used := ls.foldl (fun n l => match l.op with | .plain (.store s) => max n (s + 1) | _ => n) n
    n ≤ used ∧ ∀ l ∈ ls, ∀ slot, l.op = .plain (.store slot) → slot < used := by
  induction ls generalizing n with
  | nil => exact ⟨Nat.le_refl n, by simp⟩
  | cons k ls ih =>
    obtain ⟨hn, hls⟩ := ih (match k.op with | .plain (.store s) => max n (s + 1) | _ => n)
    refine ⟨Nat.le_trans ?_ hn, List.forall_mem_cons.mpr ⟨fun slot hs => Nat.lt_of_lt_of_le ?_ hn, hls⟩⟩
    · split <;> omega
    · rw [hs]
      exact Nat.le_max_right n (slot + 1)

lemma storesBelow_usedSlots (code : Code) : StoresBelow (usedSlots code) code := by
  intro l hl slot hs
  rw [usedSlots]
  rw [← Array.foldl_toList]
  exact (le_foldl_slots code.toList 0).2 l (Array.mem_toList_iff.mpr hl) slot hs

lemma storesBelow_mono {bound bound' : Nat} (h : bound ≤ bound') {code : Code}
    (hc : StoresBelow bound code) : StoresBelow bound' code :=
  fun l hl slot hs => Nat.lt_of_lt_of_le (hc l hl slot hs) h

def Settled (code : Code) : Prop :=
  ∀ l ∈ code, l.instr?.isSome

lemma getElem?_filterMap_instr? (ls : List Line) (h : ∀ l ∈ ls, l.instr?.isSome) (pc : Nat) :
    (ls.filterMap Line.instr?)[pc]? = (ls[pc]?).bind Line.instr? := by
  induction ls generalizing pc with
  | nil => rfl
  | cons l ls ih =>
    obtain ⟨hl, hls⟩ := List.forall_mem_cons.mp h
    obtain ⟨i, hi⟩ := Option.isSome_iff_exists.mp hl
    rw [List.filterMap_cons_some hi]
    cases pc with
    | zero => simp [hi]
    | succ pc => simpa using ih hls pc

lemma storesBelow_one (bound : Nat) (i : Instr) (p : Position) :
    StoresBelow bound (one i p) ↔ ∀ slot, i = .store slot → slot < bound :=
  storesIn_one (· < bound) i p

end Emit

def Stmt.slots (s : Slots) : Stmt → Slots
  | .declare _ name _ => s.declare name
  | _ => s

lemma Stmt.shows {c : Emit.Context} {inLoop : Bool} {s : Slots} {names : List String} (h : s.Shows names)
    (x : Stmt) (hx : x.Ready c inLoop names) : (x.slots s).Shows (x.names names) := by
  cases x with
  | declare _ name _ => exact h.declare hx.1
  | _ => exact h

namespace Emit

lemma stmt_slots (c : Context) (s : Slots) (start : Nat) (x : Stmt) :
    (stmt c s start x).2 = x.slots s := by
  cases x with
  | assign _ t _ => cases t <;> rfl
  | branch _ _ _ otherwise => cases otherwise <;> rfl
  | give _ value => cases value <;> rfl
  | _ => rfl

lemma next_slots {c : Context} {s : Slots} {start bound : Nat} {x : Stmt} (hs : s.next ≤ bound)
    (h : StoresBelow bound (stmt c s start x).1) : (x.slots s).next ≤ bound := by
  cases x with
  | declare p name init =>
    rw [stmt, storesBelow_append, storesBelow_one] at h
    exact h.2 _ rfl
  | _ => exact hs

/-- Code stands in a function from an address on; its loop is left at `exit` and goes round again at `round`. -/
def Laid (g : Function) (exit round start : Nat) (code : Code) : Prop :=
  ∀ (i : Nat) (l : Line), code[i]? = some l → g.code[start + i]? = (l.settle exit round).instr?

section Laid

variable {g : Function} {exit round start : Nat} {code code' : Code}

lemma laid_append : Laid g exit round start (code ++ code') ↔
    Laid g exit round start code ∧ Laid g exit round (start + code.size) code' := by
  constructor
  · intro h
    refine ⟨fun i l hl => h i l ?_, fun i l hl => ?_⟩
    · have hi := (Array.getElem?_eq_some_iff.mp hl).1
      rw [Array.getElem?_append_left hi, hl]
    · have hl' : (code ++ code')[code.size + i]? = some l := by
        rw [Array.getElem?_append_right (Nat.le_add_right _ _), Nat.add_sub_cancel_left, hl]
      rw [Nat.add_assoc, h _ l hl']
  · rintro ⟨h, h'⟩ i l hl
    rw [Array.getElem?_append] at hl
    split at hl
    · exact h i l hl
    · next hi =>
      rw [show start + i = start + code.size + (i - code.size) by omega]
      exact h' _ l hl

lemma laid_single {l : Line} :
    Laid g exit round start #[l] ↔ g.code[start]? = (l.settle exit round).instr? := by
  constructor
  · exact fun h => h 0 l rfl
  · intro h i l' hl
    obtain ⟨hi, rfl⟩ := Array.getElem?_eq_some_iff.mp hl
    obtain rfl : i = 0 := Nat.lt_one_iff.mp hi
    exact h

lemma laid_one {i : Instr} {p : Position} :
    Laid g exit round start (one i p) ↔ g.code[start]? = some i :=
  laid_single

lemma laid_settle {exit' round' : Nat} (h : Laid g exit round start (code.map (Line.settle exit' round'))) :
    Laid g exit' round' start code := by
  intro i l hl
  rw [h i (l.settle exit' round') (by rw [Array.getElem?_map, hl, Option.map_some])]
  obtain ⟨op, line⟩ := l
  cases op <;> rfl

lemma settle_instr? {l : Line} (h : l.instr?.isSome) : (l.settle exit round).instr? = l.instr? := by
  obtain ⟨op, line⟩ := l
  cases op with
  | plain => rfl
  | _ => cases h

end Laid

section Function

variable {c : Context} {d : Definition}

lemma filter_settled {code : Code} (h : Settled code) : code.filter (·.instr?.isSome) = code :=
  Array.filter_eq_self.mpr h

lemma function_code (h : Settled (body c d.decl)) (pc : Nat) :
    (function c d).code[pc]? = ((body c d.decl)[pc]?).bind Line.instr? := by
  have hf := filter_settled h
  simp only [function, hf]
  rw [← Array.getElem?_toList, Array.toList_filterMap,
    getElem?_filterMap_instr? _ fun l hl => h l (Array.mem_toList_iff.mp hl), Array.getElem?_toList]

lemma function_laid (h : Settled (body c d.decl)) (exit round : Nat) :
    Laid (function c d) exit round 0 (body c d.decl) := by
  intro i l hl
  rw [Nat.zero_add, function_code h, hl, Option.bind_some,
    settle_instr? (h l (Array.mem_of_getElem? hl))]

lemma function_code_size (h : Settled (body c d.decl)) :
    (function c d).code.size = (body c d.decl).size := by
  have hc := function_code h
  refine Nat.le_antisymm (Nat.not_lt.mp fun hlt => ?_) (Nat.not_lt.mp fun hlt => ?_)
  · have := hc (body c d.decl).size
    rw [Array.getElem?_eq_getElem hlt, Array.getElem?_eq_none (Nat.le_refl _)] at this
    cases this
  · have := hc (function c d).code.size
    rw [Array.getElem?_eq_none (Nat.le_refl _), Array.getElem?_eq_getElem hlt, Option.bind_some] at this
    have hl := h _ (Array.getElem_mem hlt)
    rw [← this] at hl
    cases hl

lemma function_stores (h : Settled (body c d.decl)) :
    StoresBelow (function c d).locals (body c d.decl) := by
  simp only [function, filter_settled h]
  exact storesBelow_mono (Nat.le_max_right _ _) (storesBelow_usedSlots _)

lemma function_params (h : d.decl.paramNames.Nodup) : (function c d).arity ≤ (function c d).locals := by
  have hn := Slots.ofParams_next h
  rw [FunctionDecl.paramNames, List.length_map] at hn
  exact Nat.le_trans (Nat.le_of_eq hn.symm) (Nat.le_max_left _ _)

end Function

end Emit

namespace Compiler

variable {c : Catalog} {p : Program}

lemma Compiled.getElem? (h : Compiled c p) (id : Nat) :
    p.functions[id]? = (c.definitions[id]?).map (Emit.function (context c)) := by
  rw [h.functions, List.getElem?_toArray, List.getElem?_map]

lemma Compiled.find? (h : Compiled c p) {name : String} {id : Nat} {d : Definition}
    (hf : c.find? name = some (id, d)) : p.functions[id]? = some (Emit.function (context c) d) := by
  rw [h.getElem?, (Catalog.find?_some hf).1, Option.map_some]

lemma Compiled.entryPoint?_eq (h : Compiled c p) (name : String) (arity : Nat) :
    p.entryPoint? name arity = (c.find? name).bind fun x =>
      if x.2.unit == p.entryUnit && x.2.decl.arity == arity then some x.1 else none := by
  have hindex : p.indexOf? name = c.definitions.findIdx? (·.decl.name == name) := by
    rw [Program.indexOf?, h.functions, List.findIdx?_toArray, List.findIdx?_map]
    rfl
  change ((p.indexOf? name).bind fun id => (p.functions[id]?).bind fun f =>
    if f.unit == p.entryUnit && f.arity == arity then some id else none) = _
  rw [hindex, Catalog.find?]
  cases c.definitions.findIdx? (·.decl.name == name) with
  | none => rfl
  | some id =>
    rw [Option.bind_some, Option.bind_some, h.getElem?]
    cases c.definitions[id]? <;> rfl

lemma Compiled.entryPoint? (h : Compiled c p) {d : Definition} (hd : d ∈ c.definitions)
    (hu : d.unit = p.entryUnit) :
    ∃ id, c.find? d.decl.name = some (id, d) ∧ p.entryPoint? d.decl.name d.decl.arity = some id := by
  obtain ⟨id, -, hf⟩ := h.distinct.find? hd
  refine ⟨id, hf, ?_⟩
  rw [h.entryPoint?_eq, hf, Option.bind_some, hu, beq_self_eq_true, beq_self_eq_true, Bool.and_self, if_pos rfl]

lemma Compiled.definition (h : Compiled c p) {id : Nat} {g : Function} (hg : p.functions[id]? = some g) :
    ∃ d ∈ c.definitions, g = Emit.function (context c) d ∧ d.decl.Ready (context c) := by
  rw [h.getElem?] at hg
  obtain ⟨d, hd, rfl⟩ := Option.map_eq_some_iff.mp hg
  have hm := List.mem_of_getElem? hd
  exact ⟨d, hm, rfl, h.ready d hm⟩

lemma Compiled.literal (h : Compiled c p) {v : String}
    (hv : v ∈ (context c).strings) : p.strings[(context c).strings.idxOf v]? = some v := by
  rw [h.strings, List.getElem?_toArray]
  exact List.getElem?_idxOf hv

end Compiler

end ScriptHost
