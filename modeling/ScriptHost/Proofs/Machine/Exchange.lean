import Mathlib.Algebra.Order.BigOperators.Group.List
import Mathlib.Algebra.Order.Ring.Nat
import ScriptHost.Proofs.Evaluation.Alike
import ScriptHost.Proofs.Machine.Memory

/-!
Values on their way into a run and out of it again. An array that is taken in goes behind the arrays that are there,
so what stands for a value goes on to do so while the heap grows; one that is given out is followed down to a number
of levels, on a heap with cycles too.
-/

namespace ScriptHost

namespace Value

mutual

def nesting : Value → Nat
  | array vs => nestings vs + 1
  | _ => 0

def nestings : List Value → Nat
  | [] => 0
  | v :: vs => max (nesting v) (nestings vs)

end

/-- A value with a text in place of each array that has a number of arrays around it. -/
def cut : Nat → Value → Value
  | 0, array _ => .str deepText
  | levels + 1, array vs => .array (vs.map (cut levels))
  | _, v => v

lemma nestings_le {levels : Nat} {vs : List Value} : nestings vs ≤ levels ↔ ∀ v ∈ vs, v.nesting ≤ levels := by
  induction vs with
  | nil => simp [nestings]
  | cons v vs ih => rw [nestings, Nat.max_le, ih, List.forall_mem_cons]

lemma cut_eq_self_iff (levels : Nat) (v : Value) : v.cut levels = v ↔ v.nesting ≤ levels := by
  induction levels generalizing v with
  | zero => cases v <;> simp [cut, nesting]
  | succ levels ih =>
    cases v with
    | array vs =>
      have hmap : vs.map (cut levels) = vs ↔ ∀ v ∈ vs, v.cut levels = v := by
        conv_lhs => rhs; rw [← List.map_id vs]
        exact List.map_inj_left
      rw [cut, nesting, Nat.add_le_add_iff_right, nestings_le, array.injEq, hmap]
      exact forall₂_congr fun v _ => ih v
    | _ => simp [cut, nesting]

end Value

namespace Heap

def Begins (heap heap' : Heap) : Prop :=
  heap.toList <+: heap'.toList

lemma Begins.refl (heap : Heap) : heap.Begins heap :=
  List.prefix_rfl

lemma Begins.trans {heap heap' heap'' : Heap} (h : heap.Begins heap') (h' : heap'.Begins heap'') :
    heap.Begins heap'' :=
  List.IsPrefix.trans h h'

lemma begins_push (heap : Heap) (items : Array Datum) : heap.Begins (heap.push items) := by
  rw [Begins, Array.toList_push]
  exact List.prefix_append _ _

lemma Begins.items_last {heap heap' : Heap} {items : Array Datum} (h : Heap.Begins (heap.push items) heap') :
    heap'.items heap.size = items := by
  obtain ⟨more, hmore⟩ := h
  rw [Heap.items, Array.getD_eq_getD_getElem?, ← Array.getElem?_toList, ← hmore, Array.toList_push, List.append_assoc,
    ← Array.length_toList, List.getElem?_append_right (Nat.le_refl _), Nat.sub_self]
  rfl

lemma size_items_le {heap : Heap} {width : Nat} (h : ∀ items ∈ heap, items.size ≤ width) (handle : Nat) :
    (heap.items handle).size ≤ width := by
  rw [Heap.items, Array.getD_eq_getD_getElem?]
  cases hi : heap[handle]? with
  | none => exact Nat.zero_le width
  | some items => exact h items (Array.mem_of_getElem? hi)

lemma exists_width (heap : Heap) : ∃ width, ∀ items ∈ heap, items.size ≤ width := by
  refine ⟨(heap.toList.map Array.size).sum, fun items hi => ?_⟩
  exact List.single_le_sum (fun _ _ => Nat.zero_le _) _ (List.mem_map_of_mem (Array.mem_toList_iff.mpr hi))

end Heap

namespace Machine

/-- What stands for a value, on a heap and on all that it may grow into. -/
def StandsFor (heap : Heap) (d : Datum) (v : Value) : Prop :=
  ∀ heap' : Heap, heap.Begins heap' → ∀ levels, copy heap' levels d = v.cut levels

lemma StandsFor.grow {heap heap' : Heap} {d : Datum} {v : Value} (h : StandsFor heap d v) (hb : heap.Begins heap') :
    StandsFor heap' d v :=
  fun _ hb' => h _ (hb.trans hb')

lemma standsFor_array {heap : Heap} {items : Array Datum} {vs : List Value}
    (h : List.Forall₂ (StandsFor heap) items.toList vs) :
    StandsFor (heap.push items) (.array heap.size) (.array vs) := by
  intro heap' hb levels
  cases levels with
  | zero => rw [copy, Value.cut]
  | succ levels =>
    have hcopies : items.toList.map (copy heap' levels) = vs.map (Value.cut levels) := by
      rw [← List.forall₂_eq_eq_eq, List.forall₂_map_left_iff, List.forall₂_map_right_iff]
      exact h.imp fun d v hd => hd heap' ((heap.begins_push items).trans hb) levels
    rw [copy, hb.items_last, Value.cut, hcopies]

section Taken

variable {h : Host}

lemma charge_quiet (hq : h.Quiet) (bytes : Nat) (s : State) :
    charge h bytes s = .ok () { s with allocated := charged s.allocated bytes } := by
  apply charge_ok
  rw [hq.ceiling]
  intro c hc
  cases hc

lemma newArray_quiet (hq : h.Quiet) (items : Array Datum) (s : State) :
    newArray h items s = .ok (.array s.heap.size) { s with
      allocated := charged s.allocated (slotBytes * (items.size + 1)), heap := s.heap.push items } :=
  bind_of_ok (charge_quiet hq _ s) _

mutual

lemma takeIn_quiet (hq : h.Quiet) (v : Value) (s : State) :
    ∃ d t, takeIn h v s = .ok d t ∧ s.heap.Begins t.heap ∧ StandsFor t.heap d v := by
  cases v with
  | nil => exact ⟨.nil, s, rfl, .refl _, fun _ _ levels => by cases levels <;> rfl⟩
  | bool b => exact ⟨.bool b, s, rfl, .refl _, fun _ _ levels => by cases levels <;> rfl⟩
  | int n => exact ⟨.int n, s, rfl, .refl _, fun _ _ levels => by cases levels <;> rfl⟩
  | str text =>
    exact ⟨.str text, _, bind_of_ok (charge_quiet hq _ s) _, .refl _, fun _ _ levels => by cases levels <;> rfl⟩
  | array vs =>
    obtain ⟨items, t, hitems, hb, hstand⟩ := takeInAll_quiet hq vs #[] [] s .nil
    have harray : StandsFor (t.heap.push items) (.array t.heap.size) (.array vs) := standsFor_array hstand
    have htaken : takeIn h (.array vs) s = newArray h items t := by rw [takeIn, bind_of_ok hitems]
    exact ⟨_, _, htaken.trans (newArray_quiet hq items t), hb.trans (t.heap.begins_push items), harray⟩

lemma takeInAll_quiet (hq : h.Quiet) (vs : List Value) (done : Array Datum) (ws : List Value) (s : State)
    (hdone : List.Forall₂ (StandsFor s.heap) done.toList ws) :
    ∃ items t, takeInAll h done vs s = .ok items t ∧ s.heap.Begins t.heap ∧
      List.Forall₂ (StandsFor t.heap) items.toList (ws ++ vs) := by
  cases vs with
  | nil =>
    rw [List.append_nil]
    exact ⟨done, s, rfl, .refl _, hdone⟩
  | cons v vs =>
    obtain ⟨d, t, hd, hb, hstand⟩ := takeIn_quiet hq v s
    have hdone : List.Forall₂ (StandsFor t.heap) (done.push d).toList (ws ++ [v]) := by
      rw [Array.toList_push]
      exact List.rel_append (hdone.imp fun _ _ hd => hd.grow hb) (.cons hstand .nil)
    obtain ⟨items, u, hitems, hb', hstand⟩ := takeInAll_quiet hq vs (done.push d) (ws ++ [v]) t hdone
    refine ⟨items, u, ?_, hb.trans hb', ?_⟩
    · rw [takeInAll, bind_of_ok hd]
      exact hitems
    · rwa [List.append_assoc] at hstand

end

end Taken

section Given

variable {h : Host}

lemma tick_counts (s : State) : Yields (tick h) s (fun _ t => t.heap = s.heap ∧ t.steps = s.steps + 1)
    fun _ t => ¬ h.Quiet ∧ t.steps = s.steps + 1 := by
  rw [tick, yields_bind, yields_modify, yields_bind, yields_get]
  split
  · next hraised =>
    refine ⟨fun hq => ?_, rfl⟩
    rw [hq.signal, Bool.and_false] at hraised
    cases hraised
  · exact ⟨rfl, rfl⟩

lemma charge_counts (bytes : Nat) (s : State) :
    Yields (charge h bytes) s (fun _ t => t.heap = s.heap ∧ t.steps = s.steps)
      fun _ t => ¬ h.Quiet ∧ t.steps = s.steps := by
  rw [charge, yields_bind, yields_modify]
  cases hc : h.memoryCeiling with
  | none => exact ⟨rfl, rfl⟩
  | some c =>
    dsimp only
    rw [yields_bind, yields_get]
    split
    · refine ⟨fun hq => ?_, rfl⟩
      rw [hq.ceiling] at hc
      cases hc
    · exact ⟨rfl, rfl⟩

variable {heap : Heap} {levels visits : Nat}

lemma items_counts
    (hd : ∀ d s, s.heap = heap → Yields (giveOut h levels d) s
      (fun v t => v = copy heap levels d ∧ t.heap = heap ∧ t.steps ≤ s.steps + visits)
      fun _ t => ¬ h.Quiet ∧ t.steps ≤ s.steps + visits)
    (ds : List Datum) (done : Array Value) (s : State) (hs : s.heap = heap) :
    Yields (ds.foldlM (fun done d => return done.push (← giveOut h levels d)) done) s
      (fun vs t => vs.toList = done.toList ++ ds.map (copy heap levels) ∧ t.heap = heap ∧
        t.steps ≤ s.steps + ds.length * visits)
      fun _ t => ¬ h.Quiet ∧ t.steps ≤ s.steps + ds.length * visits := by
  induction ds generalizing done s with
  | nil => exact ⟨by simp, hs, Nat.le_add_right _ _⟩
  | cons d ds ih =>
    rw [List.foldlM_cons, List.length_cons, Nat.succ_mul, yields_bind, yields_bind]
    refine (hd d s hs).mono ?_ fun _ t hf => ⟨hf.1, by omega⟩
    rintro v t ⟨rfl, ht, hle⟩
    rw [yields_pure]
    refine (ih _ t ht).mono ?_ fun _ u hf => ⟨hf.1, by omega⟩
    rintro vs u ⟨hvs, hu, hle'⟩
    exact ⟨by simp [hvs], hu, by omega⟩

/-- Giving out comes to an end on every heap. Where nothing is in the way it gives the copy, and the values it visits
are bounded by the sizes of the arrays and the levels, however the arrays refer to each other. -/
lemma giveOut_counts {width : Nat} (levels : Nat) (d : Datum) (s : State) (hw : ∀ items ∈ s.heap, items.size ≤ width) :
    Yields (giveOut h levels d) s
      (fun v t => v = copy s.heap levels d ∧ t.heap = s.heap ∧ t.steps ≤ s.steps + (width + 1) ^ (levels + 1))
      fun _ t => ¬ h.Quiet ∧ t.steps ≤ s.steps + (width + 1) ^ (levels + 1) := by
  unfold giveOut
  have hone : 1 ≤ (width + 1) ^ (levels + 1) := Nat.one_le_pow _ _ (Nat.succ_pos width)
  rw [yields_bind]
  refine (tick_counts s).mono ?_ fun _ _ hf => ⟨hf.1, by omega⟩
  rintro _ t ⟨hheap, hsteps⟩
  have hle : t.steps ≤ s.steps + (width + 1) ^ (levels + 1) := by omega
  cases d with
  | nil => exact ⟨by rw [copy], hheap, hle⟩
  | bool b => exact ⟨by rw [copy], hheap, hle⟩
  | int v => exact ⟨by rw [copy], hheap, hle⟩
  | str text =>
    rw [yields_bind]
    refine (charge_counts _ t).mono ?_ fun _ _ hf => ⟨hf.1, by omega⟩
    rintro _ u ⟨hheap', hsteps'⟩
    exact ⟨by rw [copy], hheap'.trans hheap, by omega⟩
  | array handle =>
    cases levels with
    | zero => exact ⟨rfl, hheap, hle⟩
    | succ levels =>
      dsimp only
      rw [yields_bind, yields_get, yields_bind, hheap]
      refine (charge_counts _ t).mono ?_ fun _ _ hf => ⟨hf.1, by omega⟩
      rintro _ u ⟨hheap', hsteps'⟩
      have hitems := items_counts (h := h) (fun d s' hs' => hs' ▸ giveOut_counts levels d s' (hs' ▸ hw))
        (s.heap.items handle).toList #[] u (hheap'.trans hheap)
      -- One visit for the array itself, and the rest of its power for the items.
      have hvisits : (s.heap.items handle).toList.length * (width + 1) ^ (levels + 1) + 1 ≤
          (width + 1) ^ (levels + 1 + 1) := by
        have hone : 1 ≤ (width + 1) ^ (levels + 1) := Nat.one_le_pow _ _ (Nat.succ_pos width)
        have hwide := Nat.mul_le_mul_right ((width + 1) ^ (levels + 1)) (Heap.size_items_le hw handle)
        rw [Array.length_toList, Nat.pow_succ (n := width + 1) (m := levels + 1), Nat.mul_succ, Nat.mul_comm _ width]
        omega
      rw [yields_bind, ← Array.foldlM_toList]
      refine hitems.mono ?_ fun _ _ hf => ⟨hf.1, by omega⟩
      rintro vs w ⟨hvs, hw', hle'⟩
      rw [List.nil_append] at hvs
      exact ⟨by rw [hvs, copy], hw', by omega⟩

lemma giveOut_quiet (hq : h.Quiet) (levels : Nat) (d : Datum) (s : State) :
    ∃ t, giveOut h levels d s = .ok (copy s.heap levels d) t := by
  have hcounts := giveOut_counts (h := h) levels d s s.heap.exists_width.choose_spec
  cases hg : giveOut h levels d s with
  | ok v t =>
    obtain ⟨rfl, -⟩ := hcounts.ok hg
    exact ⟨t, rfl⟩
  | error f t => exact ((hcounts.error hg).1 hq).elim

end Given

end Machine

end ScriptHost
