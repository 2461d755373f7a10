import ScriptHost.Proofs.Compile.Flows

/-!
Variables in scope in generated code. Their slots are those from zero on, so no two of them have one slot. Control
leaves scopes anywhere, but comes into the scope of a variable only where that is stored to first.
-/

namespace ScriptHost

namespace Emit

structure Variable where
  name : String
  slot : Nat
  /-- The address of the instruction that stores to it first. A parameter has none. -/
  first : Option Nat
deriving DecidableEq, Repr

/-- The variables in scope at an instruction, newest first, and the one that it loads or stores. -/
structure Note where
  scope : List Variable
  subject : Option Variable
deriving DecidableEq, Repr

def slotsOf (V : List Variable) : Slots :=
  ⟨V.map Variable.name, V.length, by simp⟩

/-- The variables have the slots from zero on, the newest one the highest. -/
def Stacked (V : List Variable) : Prop :=
  V.map Variable.slot = (List.range V.length).reverse

namespace Stacked

variable {V W : List Variable} {x : Variable}

lemma nil : Stacked [] := rfl

lemma cons_iff : Stacked (x :: V) ↔ x.slot = V.length ∧ Stacked V := by
  rw [Stacked, List.map_cons, List.length_cons, List.range_succ, List.reverse_append]
  exact List.cons_eq_cons

lemma cons (hx : x.slot = V.length) (h : Stacked V) : Stacked (x :: V) :=
  cons_iff.mpr ⟨hx, h⟩

lemma suffix (h : Stacked V) (hW : W <:+ V) : Stacked W := by
  obtain ⟨U, rfl⟩ := hW
  induction U with
  | nil => exact h
  | cons x U ih => exact ih (cons_iff.mp h).2

lemma nodup (h : Stacked V) : (V.map Variable.slot).Nodup := by
  rw [h]
  exact List.nodup_reverse.mpr List.nodup_range

lemma slot_lt (h : Stacked V) (hx : x ∈ V) : x.slot < V.length := by
  have hm := List.mem_map_of_mem (f := Variable.slot) hx
  rw [h] at hm
  exact List.mem_range.mp (List.mem_reverse.mp hm)

lemma exists_slot (h : Stacked V) {slot : Nat} (hs : slot < V.length) : ∃ x ∈ V, x.slot = slot := by
  have hm : slot ∈ V.map Variable.slot := by
    rw [h]
    exact List.mem_reverse.mpr (List.mem_range.mpr hs)
  exact List.mem_map.mp hm

lemma eq_of_slot (h : Stacked V) {y : Variable} (hx : x ∈ V) (hy : y ∈ V) (hs : x.slot = y.slot) : x = y :=
  List.inj_on_of_nodup_map h.nodup hx hy hs

lemma find?_slot (h : Stacked V) (hx : x ∈ V) : V.find? (·.slot == x.slot) = some x := by
  have hsome : (V.find? (·.slot == x.slot)).isSome := List.find?_isSome.mpr ⟨x, hx, beq_self_eq_true x.slot⟩
  obtain ⟨y, hy⟩ := Option.isSome_iff_exists.mp hsome
  rw [hy, h.eq_of_slot (List.mem_of_find?_eq_some hy) hx (by simpa using List.find?_some hy)]

lemma find?_name (h : Stacked V) (name : String) :
    (V.find? (·.name == name)).map Variable.slot = (slotsOf V).find? name := by
  induction V with
  | nil => rfl
  | cons x V ih =>
    obtain ⟨hx, hV⟩ := cons_iff.mp h
    have hdeclare : slotsOf (x :: V) = (slotsOf V).declare x.name := rfl
    rw [hdeclare, Slots.find?_declare, List.find?_cons, ← ih hV]
    by_cases hname : x.name = name
    · rw [if_pos hname, beq_iff_eq.mpr hname]
      exact congrArg some hx
    · rw [if_neg hname, beq_eq_false_iff_ne.mpr hname]

end Stacked

def Op.slot? : Op → Option Nat
  | plain (.load slot) => some slot
  | plain (.store slot) => some slot
  | _ => none

/-- What is noted with a line that is written where the variables are in scope. -/
def note (V : List Variable) (l : Line) : Note :=
  ⟨V, l.op.slot?.bind fun slot => V.find? (·.slot == slot)⟩

def notes (V : List Variable) (code : Code) : Array Note :=
  code.map (note V)

@[simp] lemma size_notes (V : List Variable) (code : Code) : (notes V code).size = code.size :=
  Array.size_map

lemma getElem?_notes {V : List Variable} {code : Code} {k : Nat} {l : Line} (hl : code[k]? = some l) :
    (notes V code)[k]? = some (note V l) := by
  rw [notes, Array.getElem?_map, hl, Option.map_some]

lemma eq_note {V : List Variable} {code : Code} {k : Nat} {l : Line} {n : Note} (hl : code[k]? = some l)
    (hn : (notes V code)[k]? = some n) : n = note V l :=
  Option.some.inj (hn.symm.trans (getElem?_notes hl))

lemma notes_append (V : List Variable) (code code' : Code) : notes V (code ++ code') = notes V code ++ notes V code' :=
  Array.map_append

lemma notes_plain {i : Instr} (hi : (Op.plain i).slot? = none) (V : List Variable) (p : Position) :
    notes V (one i p) = #[⟨V, none⟩] := by
  rw [notes, one, List.map_toArray, List.map_cons, List.map_nil, note, hi]
  rfl

def storedAt (V : List Variable) (name : String) (pc : Nat) : Variable :=
  ⟨name, V.length, some pc⟩

section Notes

variable (c : Context)

def behind (V : List Variable) (start : Nat) : Stmt → List Variable
  | .declare _ name init => storedAt V name (start + (expr c (slotsOf V) start init).size) :: V
  | _ => V

def allBehind (V : List Variable) (start : Nat) : List Stmt → List Variable
  | [] => V
  | x :: xs => allBehind (behind c V start x) (start + (stmt c (slotsOf V) start x).1.size) xs

mutual

def stmtNotes (V : List Variable) (start : Nat) : Stmt → Array Note
  | .declare p name init =>
    let code := expr c (slotsOf V) start init
    let x := storedAt V name (start + code.size)
    notes V code ++ notes (x :: V) (one (.store x.slot) p)
  | .assign p t value => notes V (stmt c (slotsOf V) start (.assign p t value)).1
  | .branch p cond body none =>
    let cond := expr c (slotsOf V) start cond
    notes V (cond ++ one (.jumpIfFalse 0) p) ++ stmtsNotes V (start + cond.size + 1) body
  | .branch p cond body (some otherwise) =>
    let cond := expr c (slotsOf V) start cond
    let first := start + cond.size + 1
    let middle := first + (stmts c (slotsOf V) first #[] body).size + 1
    notes V (cond ++ one (.jumpIfFalse 0) p) ++ stmtsNotes V first body ++ notes V (one (.jump 0) p)
      ++ stmtsNotes V middle otherwise
  | .loop p cond body =>
    let cond := expr c (slotsOf V) start cond
    notes V (cond ++ one (.jumpIfFalse 0) p) ++ stmtsNotes V (start + cond.size + 1) body
      ++ notes V (one (.jump start) p)
  | .count p name first bound body =>
    let first := expr c (slotsOf V) start first
    let counter := storedAt V name (start + first.size)
    let W := counter :: V
    let bound := expr c (slotsOf W) (start + first.size + 1) bound
    let last := storedAt W "" (start + first.size + 1 + bound.size)
    let U := last :: W
    let check := start + first.size + 1 + bound.size + 1
    notes V first ++ notes W (one (.store counter.slot) p ++ bound) ++ notes U (one (.store last.slot) p)
      ++ notes U (one (.load counter.slot) p ++ one (.load last.slot) p ++ one (.binary .lt) p
        ++ one (.jumpIfFalse 0) p)
      ++ stmtsNotes U (check + 4) body
      ++ notes U (one (.load counter.slot) p ++ one (.int 1) p ++ one (.binary .add) p
        ++ one (.store counter.slot) p ++ one (.jump check) p)
  | .give p none => notes V (one .nil p ++ one .ret p)
  | .give p (some e) => notes V (expr c (slotsOf V) start e ++ one .ret p)
  | .leave p => notes V #[⟨.leave, p.line⟩]
  | .again p => notes V #[⟨.again, p.line⟩]
  | .block _ body => stmtsNotes V start body
  | .eval p e => notes V (expr c (slotsOf V) start e ++ one .pop p)

def stmtsNotes (V : List Variable) (start : Nat) : List Stmt → Array Note
  | [] => #[]
  | x :: xs =>
    stmtNotes V start x ++ stmtsNotes (behind c V start x) (start + (stmt c (slotsOf V) start x).1.size) xs

end

def param (V : List Variable) (name : String) : List Variable :=
  if name ∈ V.map Variable.name then V else ⟨name, V.length, none⟩ :: V

def paramVariables (names : List String) : List Variable :=
  names.foldl param []

def bodyNotes (f : FunctionDecl) : Array Note :=
  let V := paramVariables f.paramNames
  stmtsNotes c V 0 f.body ++ notes (allBehind c V 0 f.body) (one .nil f.place ++ one .ret f.place)

end Notes

section Params

variable {V : List Variable}

lemma slotsOf_param (V : List Variable) (name : String) : slotsOf (param V name) =
    if name ∈ (slotsOf V).names then slotsOf V else (slotsOf V).declare name :=
  apply_ite slotsOf _ _ _

lemma slotsOf_paramVariables (names : List String) : slotsOf (paramVariables names) = .ofParams names := by
  have hfold : ∀ V, slotsOf (names.foldl param V) =
      names.foldl (fun s n => if n ∈ s.names then s else s.declare n) (slotsOf V) := by
    induction names with
    | nil => exact fun V => rfl
    | cons n names ih => exact fun V => (ih (param V n)).trans (by rw [slotsOf_param]; rfl)
  exact hfold []

lemma paramVariables_length {names : List String} (h : names.Nodup) : (paramVariables names).length = names.length :=
  (congrArg Slots.next (slotsOf_paramVariables names)).trans (Slots.ofParams_next h)

lemma Stacked.param (h : Stacked V) (name : String) : Stacked (Emit.param V name) := by
  rw [Emit.param]
  split
  · exact h
  · exact h.cons rfl

lemma paramVariables_stacked (names : List String) : Stacked (paramVariables names) := by
  have hfold : ∀ V, Stacked V → Stacked (names.foldl param V) := by
    induction names with
    | nil => exact fun V h => h
    | cons n names ih => exact fun V h => ih _ (h.param n)
  exact hfold [] .nil

lemma paramVariables_first (names : List String) : ∀ x ∈ paramVariables names, x.first = none := by
  have hfold : ∀ V : List Variable, (∀ x ∈ V, x.first = none) → ∀ x ∈ names.foldl param V, x.first = none := by
    induction names with
    | nil => exact fun V h => h
    | cons n names ih =>
      refine fun V h => ih _ ?_
      rw [Emit.param]
      split
      · exact h
      · exact List.forall_mem_cons.mpr ⟨rfl, h⟩
  exact hfold [] fun x hx => (List.not_mem_nil hx).elim

end Params

section Behind

variable (c : Context) (V : List Variable) (start : Nat)

lemma slotsOf_behind (x : Stmt) : slotsOf (behind c V start x) = x.slots (slotsOf V) := by
  cases x <;> rfl

lemma suffix_behind (x : Stmt) : V <:+ behind c V start x := by
  cases x with
  | declare => exact List.suffix_cons _ V
  | _ => exact List.suffix_refl V

lemma suffix_allBehind (xs : List Stmt) : V <:+ allBehind c V start xs := by
  induction xs generalizing V start with
  | nil => exact List.suffix_refl V
  | cons x xs ih => exact (suffix_behind c V start x).trans (ih _ _)

end Behind

end Emit

end ScriptHost
