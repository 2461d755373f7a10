import Mathlib.Data.List.Basic
import ScriptHost.Proofs.Machine.Yields

/-!
What operators and builtins do, whatever their operands. None of them is left without operands, and their
results are values that are there.
-/

namespace ScriptHost.Machine

structure Sound (d : Datum) (t : State) : Prop where
  closed : t.heap.Closed
  inside : d.In t.heap.size

section Operators

variable (h : Host) (s : State)

def Plain (s : State) (d : Datum) (t : State) : Prop :=
  t.heap = s.heap ∧ d.In 0

variable {h s}

lemma Plain.sound {d : Datum} {t : State} (hp : Plain s d t) (hc : s.heap.Closed) : Sound d t :=
  ⟨hp.1 ▸ hc, hp.2.mono (Nat.zero_le _)⟩

lemma tame_plain {d : Datum} (hd : d.In 0) : Tame (pure d) s (Plain s) :=
  Tame.pure ⟨rfl, hd⟩

lemma newString_plain (text : String) : Tame (newString h text) s (Plain s) := by
  apply (newString_tame h s text).mono
  rintro _ t ⟨ht, rfl⟩
  exact ⟨ht, trivial⟩

lemma displayed_plain (values : Array Datum) :
    Tame (do newString h (← display h values)) s (Plain s) := by
  apply (display_tame h s values).bind
  intro text t _ ht
  apply (newString_plain text).mono
  rintro d u ⟨hu, hd⟩
  exact ⟨hu.trans ht, hd⟩

lemma exactly_tame (result : Option Int64) : Tame (exactly h result) s (Plain s) := by
  unfold exactly
  split
  · exact tame_plain trivial
  · exact Tame.fail h _ (by decide)

lemma arithmetic_tame (op : Int64 → Int64 → Option Int64) (divides : Bool) (lhs rhs : Datum) :
    Tame (arithmetic h op divides lhs rhs) s (Plain s) := by
  unfold arithmetic
  split
  · split
    · exact Tame.fail h _ (by decide)
    · exact exactly_tame _
  · exact Tame.fail h _ (by decide)

lemma add_tame (lhs rhs : Datum) : Tame (add h lhs rhs) s (Plain s) := by
  unfold add
  split
  · exact exactly_tame _
  · exact displayed_plain _
  · exact displayed_plain _
  · exact Tame.fail h _ (by decide)

lemma compare_tame (ints : Int64 → Int64 → Bool) (strs : String → String → Bool) (lhs rhs : Datum) :
    Tame (compare h ints strs lhs rhs) s (Plain s) := by
  unfold compare
  split
  · exact tame_plain trivial
  · exact tame_plain trivial
  · exact Tame.fail h _ (by decide)

lemma binary_tame (op : BinaryOp) (lhs rhs : Datum) : Tame (binary h op lhs rhs) s (Plain s) := by
  cases op with
  | add => exact add_tame lhs rhs
  | sub => exact arithmetic_tame _ _ lhs rhs
  | mul => exact arithmetic_tame _ _ lhs rhs
  | div => exact arithmetic_tame _ _ lhs rhs
  | rem => exact arithmetic_tame _ _ lhs rhs
  | eq => exact tame_plain trivial
  | ne => exact tame_plain trivial
  | lt => exact compare_tame _ _ lhs rhs
  | le => exact compare_tame _ _ lhs rhs
  | gt => exact compare_tame _ _ lhs rhs
  | ge => exact compare_tame _ _ lhs rhs

lemma unary_tame (op : UnaryOp) (d : Datum) : Tame (unary h op d) s (Plain s) := by
  unfold unary
  split
  · exact exactly_tame _
  · exact Tame.fail h _ (by decide)
  · exact tame_plain trivial
  · exact Tame.fail h _ (by decide)

lemma position_tame (i : Datum) (length : Nat) :
    Tame (position h i length) s fun _ t => t.heap = s.heap := by
  unfold position
  split
  · split
    · exact Tame.pure rfl
    · exact Tame.fail h _ (by decide)
  · exact Tame.fail h _ (by decide)

lemma index_tame (target i : Datum) :
    Tame (index h target i) s fun d t => s.heap.Closed → Sound d t := by
  unfold index
  split
  · next handle =>
    apply Tame.get
    apply (position_tame i _).bind
    intro n t _ ht
    apply Tame.pure
    intro hc
    rw [← ht] at hc ⊢
    refine ⟨hc, ?_⟩
    rw [Array.getD_eq_getD_getElem?]
    cases hi : (t.heap.items handle)[n]? with
    | none => trivial
    | some d => exact hc.items handle d (Array.mem_of_getElem? hi)
  · apply (position_tame i _).bind
    intro n t _ ht
    apply (newString_plain _).mono
    intro d u hd hc
    exact hd.sound (ht ▸ hc)
  · exact Tame.fail h _ (by decide)

lemma storeIndex_tame (target i value : Datum) :
    Tame (storeIndex h target i value) s fun _ t =>
      s.heap.Closed → value.In s.heap.size → t.heap.Closed := by
  unfold storeIndex
  split
  · next handle =>
    apply Tame.get
    apply (position_tame i _).bind
    intro n t _ ht
    refine Tame.modify ⟨rfl, rfl, rfl, rfl, Nat.le_of_eq Array.size_modify.symm⟩ fun hc hv => ?_
    rw [← ht] at hc hv
    apply hc.modify handle (·.setIfInBounds n value)
    intro items hitems d hd
    rcases Array.mem_or_eq_of_mem_setIfInBounds hd with hd | rfl
    · exact hitems d hd
    · exact hv
  · exact Tame.fail h _ (by decide)

end Operators

section Builtins

variable {h : Host} {s : State}

lemma push_tame (target value : Datum) :
    Tame (push h target value) s fun d t => s.heap.Closed → value.In s.heap.size → Sound d t := by
  unfold push
  split
  · next handle =>
    apply (charge_tame h s _).bind
    intro _ t _ ht
    refine (Tame.modify (Q := fun _ u => u.heap = t.heap.modify handle (·.push value))
      ⟨rfl, rfl, rfl, rfl, Nat.le_of_eq Array.size_modify.symm⟩ rfl).bind ?_
    intro _ u _ hu
    refine Tame.pure fun hc hv => ⟨?_, trivial⟩
    rw [← ht] at hc hv
    rw [hu]
    apply hc.modify handle _
    intro items hitems d hd
    rcases Array.mem_push.mp hd with hd | rfl
    · exact hitems d hd
    · exact hv
  · exact Tame.fail h _ (by decide)

lemma pop_tame (target : Datum) : Tame (pop h target) s fun d t => s.heap.Closed → Sound d t := by
  unfold pop
  split
  · next handle =>
    apply Tame.get
    split
    · next last hlast =>
      refine (Tame.modify (Q := fun _ u => u.heap = s.heap.modify handle (·.pop))
        ⟨rfl, rfl, rfl, rfl, Nat.le_of_eq Array.size_modify.symm⟩ rfl).bind ?_
      intro _ u _ hu
      refine Tame.pure fun hc => ⟨?_, ?_⟩
      · rw [hu]
        refine hc.modify handle _ fun items hitems d hd => hitems d ?_
        obtain ⟨i, hi, rfl⟩ := Array.mem_iff_getElem.mp hd
        rw [Array.getElem_pop]
        exact Array.getElem_mem _
      · rw [hu, Array.size_modify]
        exact hc.items handle last (Array.mem_of_back? hlast)
    · exact Tame.fail h _ (by decide)
  · exact Tame.fail h _ (by decide)

lemma len_tame (d : Datum) : Tame (len h d) s (Plain s) := by
  unfold len
  split
  · exact tame_plain trivial
  · exact Tame.get (tame_plain trivial)
  · exact Tame.fail h _ (by decide)

lemma abs_tame (d : Datum) : Tame (abs h d) s (Plain s) := by
  unfold abs
  split
  · exact exactly_tame _
  · exact Tame.fail h _ (by decide)

lemma pick_tame (side : Extremum) (a b : Datum) : Tame (pick h side a b) s (Plain s) := by
  unfold pick
  split
  · exact tame_plain trivial
  · exact Tame.fail h _ (by decide)

lemma displayed_fail (d : Datum) {kind : FaultKind} (hk : kind ≠ .internalError) :
    Tame (do fail h kind (← display h #[d]) : Run Datum) s (Plain s) := by
  apply (display_tame h s _).bind
  intro text t _ _
  exact Tame.fail h _ hk

lemma assert_tame (holds : Datum) (message : Option Datum) :
    Tame (assert h holds message) s (Plain s) := by
  unfold assert
  split
  · exact tame_plain trivial
  · exact displayed_fail _ (by decide)
  · exact Tame.fail h _ (by decide)
  · exact Tame.fail h _ (by decide)

lemma builtin_tame (b : Builtin) (args : List Datum) (hb : ∀ stream newline, b ≠ .print stream newline)
    (ha : b.arity.1 ≤ args.length ∧ args.length ≤ b.arity.2) :
    Tame (builtin h b args) s fun d t =>
      s.heap.Closed → (∀ a ∈ args, a.In s.heap.size) → Sound d t := by
  have hplain : ∀ {op : Run Datum}, Tame op s (Plain s) → Tame op s fun d t =>
      s.heap.Closed → (∀ a ∈ args, a.In s.heap.size) → Sound d t :=
    fun hop => hop.mono fun d t hd hc _ => hd.sound hc
  have hone : args.length = 1 → ∃ a, args = [a] := List.length_eq_one_iff.mp
  have htwo : args.length = 2 → ∃ a b, args = [a, b] := List.length_eq_two.mp
  cases b with
  | print stream newline => exact absurd rfl (hb stream newline)
  | str =>
    obtain ⟨d, rfl⟩ := hone (Nat.le_antisymm ha.2 ha.1)
    exact hplain (displayed_plain _)
  | len =>
    obtain ⟨d, rfl⟩ := hone (Nat.le_antisymm ha.2 ha.1)
    exact hplain (len_tame d)
  | push =>
    obtain ⟨target, value, rfl⟩ := htwo (Nat.le_antisymm ha.2 ha.1)
    exact (push_tame target value).mono fun d t hd hc hargs => hd hc (hargs value (by simp))
  | pop =>
    obtain ⟨target, rfl⟩ := hone (Nat.le_antisymm ha.2 ha.1)
    exact (pop_tame target).mono fun d t hd hc _ => hd hc
  | abs =>
    obtain ⟨d, rfl⟩ := hone (Nat.le_antisymm ha.2 ha.1)
    exact hplain (abs_tame d)
  | pick side =>
    obtain ⟨a, b, rfl⟩ := htwo (Nat.le_antisymm ha.2 ha.1)
    exact hplain (pick_tame side a b)
  | throw =>
    obtain ⟨d, rfl⟩ := hone (Nat.le_antisymm ha.2 ha.1)
    exact hplain (displayed_fail d (by decide))
  | assert =>
    rcases Nat.le_iff_lt_or_eq.mp ha.2 with hlt | heq
    · obtain ⟨holds, rfl⟩ := hone (Nat.le_antisymm (Nat.le_of_lt_succ hlt) ha.1)
      exact hplain (assert_tame holds none)
    · obtain ⟨holds, message, rfl⟩ := htwo heq
      exact hplain (assert_tame holds (some message))

lemma builtin_tame_or (b : Builtin) (args : List Datum) (hb : ∀ stream newline, b ≠ .print stream newline) :
    Tame (builtin h b args) s (fun _ _ => True) ∨ builtin h b args = broken h := by
  unfold builtin
  split
  · next stream newline => exact absurd rfl (hb stream newline)
  · exact .inl ((displayed_plain _).mono fun _ _ _ => trivial)
  · exact .inl ((len_tame _).mono fun _ _ _ => trivial)
  · exact .inl ((push_tame _ _).mono fun _ _ _ => trivial)
  · exact .inl ((pop_tame _).mono fun _ _ _ => trivial)
  · exact .inl ((abs_tame _).mono fun _ _ _ => trivial)
  · exact .inl ((pick_tame _ _ _).mono fun _ _ _ => trivial)
  · exact .inl ((displayed_fail _ (by decide)).mono fun _ _ _ => trivial)
  · exact .inl ((assert_tame _ _).mono fun _ _ _ => trivial)
  · exact .inl ((assert_tame _ _).mono fun _ _ _ => trivial)
  · exact .inr rfl

lemma print_yields (stream : Stream) (newline : Bool) (args : Array Datum) :
    Yields (print h stream newline args) s
      (fun d t => d = .nil ∧ t.heap = s.heap ∧ t.frames = s.frames ∧ t.depth = s.depth)
      fun f _ => f.kind ≠ .internalError := by
  rw [print]
  rw [yields_bind, yields_get, yields_bind]
  refine Yields.mono (show?_tame h s _ _ args) ?_ fun f _ hf => hf.kind
  rintro ⟨line, stop⟩ t ⟨ht, hheap⟩
  have hwrite : ∀ text, Yields (do
      modify (·.write stream text)
      return Datum.nil) t
      (fun d u => d = .nil ∧ u.heap = s.heap ∧ u.frames = s.frames ∧ u.depth = s.depth)
      fun f _ => f.kind ≠ .internalError := by
    intro text
    rw [yields_bind, yields_modify, yields_pure]
    cases stream <;> exact ⟨rfl, hheap, ht.frames, ht.depth⟩
  rcases stop with _ | _ | _
  · exact hwrite _
  · exact hwrite _
  · exact (by decide : FaultKind.interrupted ≠ .internalError)

lemma builtin_yields (b : Builtin) (args : List Datum)
    (ha : b.arity.1 ≤ args.length ∧ args.length ≤ b.arity.2) :
    Yields (builtin h b args) s
      (fun d t => t.frames = s.frames ∧ t.depth = s.depth ∧ s.heap.size ≤ t.heap.size ∧
        (s.heap.Closed → (∀ a ∈ args, a.In s.heap.size) → Sound d t))
      fun f _ => f.kind ≠ .internalError := by
  by_cases hb : ∃ stream newline, b = .print stream newline
  · obtain ⟨stream, newline, rfl⟩ := hb
    refine (print_yields stream newline args.toArray).mono ?_ fun f t hf => hf
    rintro _ t ⟨rfl, hheap, hframes, hdepth⟩
    exact ⟨hframes, hdepth, Nat.le_of_eq (by rw [hheap]), fun hc _ => ⟨hheap ▸ hc, trivial⟩⟩
  · have hne : ∀ stream newline, b ≠ .print stream newline := fun stream newline heq =>
      hb ⟨stream, newline, heq⟩
    refine Yields.mono (builtin_tame b args hne ha) ?_ fun f t hf => hf.kind
    rintro d t ⟨hst, hd⟩
    exact ⟨hst.frames, hst.depth, hst.grows, hd⟩

end Builtins

end ScriptHost.Machine
