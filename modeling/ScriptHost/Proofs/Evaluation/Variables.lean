import Mathlib.Data.List.Basic
import ScriptHost.Proofs.Compile.Ready
import ScriptHost.Proofs.Evaluation.Evaluate

/-!
The variables of the evaluator are kept in the slots of a call.
-/

namespace ScriptHost.Evaluation

/-- The variables that slots are for, newest first. A slot without a name is hidden from the source. -/
def shown (locals : Array Datum) : List String → Variables
  | [] => []
  | n :: ns => if n = "" then shown locals ns else (n, (locals[ns.length]?).getD .nil) :: shown locals ns

def hidden (locals : Array Datum) : List String → List Datum
  | [] => []
  | n :: ns => if n = "" then (locals[ns.length]?).getD .nil :: hidden locals ns else hidden locals ns

section Cons

variable (locals : Array Datum) {n : String} (ns : List String)

lemma shown_cons (hn : n ≠ "") :
    shown locals (n :: ns) = (n, (locals[ns.length]?).getD .nil) :: shown locals ns :=
  if_neg hn

lemma shown_hide : shown locals ("" :: ns) = shown locals ns :=
  if_pos rfl

lemma hidden_cons (hn : n ≠ "") : hidden locals (n :: ns) = hidden locals ns :=
  if_neg hn

lemma hidden_hide :
    hidden locals ("" :: ns) = (locals[ns.length]?).getD .nil :: hidden locals ns :=
  if_pos rfl

end Cons

section Store

variable {locals : Array Datum} {names : List String} {slot : Nat} (d : Datum)

lemma getElem?_store_ne {i : Nat} (h : slot ≠ i) : (locals.setIfInBounds slot d)[i]? = locals[i]? := by
  rw [Array.getElem?_setIfInBounds, if_neg h]

lemma getElem?_store (h : slot < locals.size) : (locals.setIfInBounds slot d)[slot]? = some d := by
  rw [Array.getElem?_setIfInBounds, if_pos rfl, if_pos h]

lemma shown_store_high (h : names.length ≤ slot) :
    shown (locals.setIfInBounds slot d) names = shown locals names := by
  induction names with
  | nil => rfl
  | cons n ns ih =>
    rw [List.length_cons] at h
    rw [shown, shown, ih (by omega), getElem?_store_ne d (by omega)]

lemma hidden_store_high (h : names.length ≤ slot) :
    hidden (locals.setIfInBounds slot d) names = hidden locals names := by
  induction names with
  | nil => rfl
  | cons n ns ih =>
    rw [List.length_cons] at h
    rw [hidden, hidden, ih (by omega), getElem?_store_ne d (by omega)]

lemma shown_declare {name : String} (hn : name ≠ "") (h : names.length < locals.size) :
    shown (locals.setIfInBounds names.length d) (name :: names) = (name, d) :: shown locals names := by
  rw [shown_cons _ _ hn, shown_store_high d (Nat.le_refl _), getElem?_store d h, Option.getD_some]

lemma hidden_declare {name : String} (hn : name ≠ "") :
    hidden (locals.setIfInBounds names.length d) (name :: names) = hidden locals names := by
  rw [hidden_cons _ _ hn, hidden_store_high d (Nat.le_refl _)]

lemma hidden_store_hide (h : names.length < locals.size) :
    hidden (locals.setIfInBounds names.length d) ("" :: names) = d :: hidden locals names := by
  rw [hidden_hide, hidden_store_high d (Nat.le_refl _), getElem?_store d h, Option.getD_some]

end Store

/-! A name stands for the same variable on both sides. -/

section Find

variable {s : Slots} {name : String} {slot : Nat}

lemma find?_cons {n : String} {ns : List String}
    (h : Slots.find? ⟨n :: ns, (n :: ns).length, rfl⟩ name = some slot) :
    n = name ∧ slot = ns.length ∨
      n ≠ name ∧ slot < ns.length ∧ Slots.find? ⟨ns, ns.length, rfl⟩ name = some slot := by
  have hd := Slots.find?_declare ⟨ns, ns.length, rfl⟩ n name
  rw [show Slots.declare ⟨ns, ns.length, rfl⟩ n = ⟨n :: ns, (n :: ns).length, rfl⟩ from rfl, h] at hd
  by_cases hn : n = name
  · rw [if_pos hn] at hd
    exact .inl ⟨hn, Option.some.inj hd⟩
  · rw [if_neg hn] at hd
    exact .inr ⟨hn, Slots.find?_lt hd.symm, hd.symm⟩

lemma lookup_shown (locals : Array Datum) (hn : name ≠ "") (h : s.find? name = some slot) :
    (shown locals s.names).lookup name = some ((locals[slot]?).getD .nil) := by
  obtain ⟨names, _, rfl⟩ := s
  induction names with
  | nil => cases h
  | cons n ns ih =>
    rcases find?_cons h with ⟨rfl, rfl⟩ | ⟨hne, -, hns⟩
    · simp only [shown_cons _ _ hn, List.lookup_cons_self]
    · by_cases hhide : n = ""
      · subst hhide
        simp only [shown_hide]
        exact ih hns
      · have hbeq : (name == n) = false := beq_eq_false_iff_ne.mpr (Ne.symm hne)
        simp only [shown_cons _ _ hhide, List.lookup_cons, hbeq]
        exact ih hns

lemma shown_assign {locals : Array Datum} (d : Datum) (hn : name ≠ "") (h : s.find? name = some slot)
    (hs : slot < locals.size) :
    shown (locals.setIfInBounds slot d) s.names = assign name d (shown locals s.names) := by
  obtain ⟨names, _, rfl⟩ := s
  induction names with
  | nil => cases h
  | cons n ns ih =>
    rcases find?_cons h with ⟨rfl, rfl⟩ | ⟨hne, hlt, hns⟩
    · simp only [shown_declare d hn hs, shown_cons _ _ hn, assign, if_true]
    · by_cases hhide : n = ""
      · subst hhide
        simp only [shown_hide]
        exact ih hns
      · simp only [shown_cons _ _ hhide, assign, if_neg hne]
        rw [getElem?_store_ne d (by omega), ih hns]

lemma hidden_assign (locals : Array Datum) (d : Datum) (hn : name ≠ "")
    (h : s.find? name = some slot) :
    hidden (locals.setIfInBounds slot d) s.names = hidden locals s.names := by
  obtain ⟨names, _, rfl⟩ := s
  induction names with
  | nil => cases h
  | cons n ns ih =>
    rcases find?_cons h with ⟨rfl, rfl⟩ | ⟨hne, hlt, hns⟩
    · rw [hidden_cons _ _ hn, hidden_cons _ _ hn, hidden_store_high d (Nat.le_refl _)]
    · rw [hidden, hidden, ih hns, getElem?_store_ne d (by omega)]

end Find

/-! Blocks. -/

/-- Locals later on in a block. There may be more variables, and what is hidden from the source is as it was. -/
structure Later (names : List String) (locals : Array Datum) (names' : List String)
    (locals' : Array Datum) : Prop where
  size : locals'.size = locals.size
  hidden : hidden locals' names = hidden locals names
  grown : ∃ extra, (∀ n ∈ extra, n ≠ "") ∧ names' = extra ++ names

section Later

variable {names names' names'' : List String} {locals locals' locals'' : Array Datum}

lemma hidden_append (locals : Array Datum) {extra : List String} (he : ∀ n ∈ extra, n ≠ "") :
    hidden locals (extra ++ names) = hidden locals names := by
  induction extra with
  | nil => rfl
  | cons n extra ih =>
    obtain ⟨hn, he⟩ := List.forall_mem_cons.mp he
    rw [List.cons_append, hidden_cons _ _ hn, ih he]

lemma length_shown (locals locals' : Array Datum) (names : List String) :
    (shown locals names).length = (shown locals' names).length := by
  induction names with
  | nil => rfl
  | cons n ns ih =>
    by_cases hn : n = ""
    · rw [shown, shown, if_pos hn, if_pos hn, ih]
    · rw [shown_cons _ _ hn, shown_cons _ _ hn, List.length_cons, List.length_cons, ih]

lemma shown_append (locals : Array Datum) (extra names : List String) :
    ∃ vars, shown locals (extra ++ names) = vars ++ shown locals names := by
  induction extra with
  | nil => exact ⟨[], rfl⟩
  | cons n extra ih =>
    obtain ⟨vars, hv⟩ := ih
    by_cases hn : n = ""
    · exact ⟨vars, by rw [List.cons_append, shown, if_pos hn, hv]⟩
    · exact ⟨_ :: vars, by rw [List.cons_append, shown_cons _ _ hn, hv, List.cons_append]⟩

lemma Later.refl : Later names locals names locals :=
  ⟨rfl, rfl, [], by simp, rfl⟩

lemma Later.trans (h : Later names locals names' locals') (h' : Later names' locals' names'' locals'') :
    Later names locals names'' locals'' := by
  obtain ⟨hsize, hhidden, extra, he, rfl⟩ := h
  obtain ⟨hsize', hhidden', extra', he', rfl⟩ := h'
  refine ⟨hsize'.trans hsize, ?_, extra' ++ extra, ?_, (List.append_assoc _ _ _).symm⟩
  · rw [hidden_append _ he, hidden_append _ he] at hhidden'
    exact hhidden'.trans hhidden
  · intro n hn
    exact (List.mem_append.mp hn).elim (he' n) (he n)

lemma Later.back (h : Later names locals names' locals') : Later names locals names locals' :=
  ⟨h.size, h.hidden, [], by simp, rfl⟩

lemma Later.declare {name : String} (d : Datum) (hn : name ≠ "") :
    Later names locals (name :: names) (locals.setIfInBounds names.length d) :=
  ⟨Array.size_setIfInBounds, hidden_store_high d (Nat.le_refl _), [name], by simpa using hn, rfl⟩

lemma Later.assign {s : Slots} {name : String} {slot : Nat} (d : Datum) (hn : name ≠ "")
    (h : s.find? name = some slot) :
    Later s.names locals s.names (locals.setIfInBounds slot d) :=
  ⟨Array.size_setIfInBounds, hidden_assign locals d hn h, [], by simp, rfl⟩

lemma Later.restored (h : Later names locals names' locals') (flow : Flow) :
    restored (shown locals names) (flow, shown locals' names') = (flow, shown locals' names) := by
  obtain ⟨-, -, extra, -, rfl⟩ := h
  obtain ⟨vars, hv⟩ := shown_append locals' extra names
  have hlen : (vars ++ shown locals' names).length - (shown locals names).length = vars.length := by
    rw [List.length_append, length_shown locals locals']
    omega
  rw [Evaluation.restored, hv, hlen, List.drop_left]

end Later

/-! The variables that a call starts with. -/

lemma shown_zip {locals : Array Datum} {names : List String} {args : List Datum}
    (hn : ∀ n ∈ names, n ≠ "") (hlen : names.length = args.length)
    (hl : ∀ i < args.length, locals[i]? = args.reverse[i]?) : shown locals names = names.zip args := by
  induction names generalizing args with
  | nil => rfl
  | cons n ns ih =>
    obtain ⟨hn, hns⟩ := List.forall_mem_cons.mp hn
    cases args with
    | nil => cases hlen
    | cons d ds =>
      have hlen : ns.length = ds.length := Nat.succ.inj hlen
      have hd := hl ds.length (Nat.lt_succ_self _)
      rw [List.reverse_cons, List.getElem?_append_right (by simp), List.length_reverse, Nat.sub_self] at hd
      rw [shown_cons _ _ hn, hlen, hd, List.zip_cons_cons]
      refine congrArg ((n, d) :: ·) (ih hns hlen fun i hi => ?_)
      rw [hl i (Nat.lt_succ_of_lt hi), List.reverse_cons, List.getElem?_append_left (by simpa using hi)]

lemma shown_frameOf (g : Function) (id : Nat) {names : List String} {args : List Datum}
    (hn : ∀ n ∈ names, n ≠ "") (hlen : names.length = args.length) :
    shown (Machine.frameOf g id args).locals names.reverse = (names.zip args).reverse := by
  have hzip : (names.zip args).reverse = names.reverse.zip args.reverse := List.reverse_zipWith hlen
  rw [hzip]
  apply shown_zip (fun n hm => hn n (List.mem_reverse.mp hm)) (by simpa using hlen)
  intro i hi
  rw [List.length_reverse] at hi
  rw [List.reverse_reverse, Machine.frameOf, Array.getElem?_append_left (by simpa using hi),
    List.getElem?_toArray]

end ScriptHost.Evaluation
