import ScriptHost.Proofs.Machine.Exchange
import ScriptHost.Proofs.Machine.Strings

/-!
The two ways from a value to its text. One follows the handles on the heap, the other gives the value out first and
writes what was given out. They part only at arrays that are nested too deep: what stands for such an array is a string
once it is given out, and a string inside an array has quotes around it.
-/

namespace ScriptHost

namespace Value

def innerText (v : Value) : String :=
  v.writeOnto true ""

mutual

lemma writeOnto_eq (inside : Bool) (out : String) (v : Value) :
    v.writeOnto inside out = out ++ v.writeOnto inside "" := by
  cases v with
  | nil => simp [writeOnto]
  | bool b => cases b <;> simp [writeOnto]
  | int n => simp [writeOnto]
  | str s => cases inside <;> simp [writeOnto]
  | array vs =>
    cases vs with
    | nil => simp [writeOnto]
    | cons v vs =>
      rw [writeOnto, writeOnto, writeItems_eq, writeOnto_eq true, writeItems_eq (writeOnto true ("" ++ "[") v),
        writeOnto_eq true ("" ++ "[")]
      simp only [String.append_assoc, String.empty_append]

lemma writeItems_eq (out : String) (vs : List Value) :
    writeItems out vs = out ++ ", ".intercalate ("" :: vs.map innerText) ++ "]" := by
  cases vs with
  | nil => simp [writeItems]
  | cons v vs =>
    rw [writeItems, writeItems_eq, writeOnto_eq, List.map_cons, String.intercalate_cons_cons, String.empty_append,
      ← String.append_empty (s := innerText v), String.intercalate_cons_append, innerText]
    simp only [String.append_assoc]

end

lemma innerText_array (vs : List Value) :
    (array vs).innerText = "[" ++ ", ".intercalate (vs.map innerText) ++ "]" := by
  cases vs with
  | nil => simp [innerText, writeOnto]
  | cons v vs =>
    rw [innerText, writeOnto, writeItems_eq, writeOnto_eq, List.map_cons, ← String.append_empty (s := innerText v),
      String.intercalate_cons_append, innerText]
    simp only [String.append_assoc, String.empty_append]

lemma render_array (vs : List Value) : (array vs).render = (array vs).innerText := by
  cases vs <;> rfl

end Value

/-- `Unfolds heap d n x`: the value `x` stands at depth `n` in the unfolding of `d`. -/
inductive Datum.Unfolds (heap : Heap) : Datum → Nat → Datum → Prop
  | self (d : Datum) : Unfolds heap d 0 d
  | item {handle n : Nat} {d x : Datum} :
      d ∈ (heap.items handle).toList → Unfolds heap d n x → Unfolds heap (.array handle) (n + 1) x

namespace Machine

open Rendering

section Texts

variable {heap : Heap}

lemma cuts_eq_zero_iff (levels : Nat) (d : Datum) :
    cuts heap levels d = 0 ↔ ∀ n handle, d.Unfolds heap n (.array handle) → n < levels := by
  induction levels generalizing d with
  | zero =>
    cases d with
    | array handle => exact iff_of_false Nat.one_ne_zero fun h => Nat.not_lt_zero _ (h 0 handle (.self _))
    | _ => exact iff_of_true rfl (by rintro _ _ ⟨⟩)
  | succ levels ih =>
    cases d with
    | array handle =>
      rw [cuts, List.sum_eq_zero_iff_forall_eq_nat, List.forall_mem_map]
      constructor
      · rintro h _ _ (_ | ⟨hd, hx⟩)
        · exact Nat.succ_pos levels
        · exact Nat.succ_lt_succ ((ih _).mp (h _ hd) _ _ hx)
      · exact fun h d hd => (ih d).mpr fun n handle hx => Nat.lt_of_succ_lt_succ (h _ _ (.item hd hx))
    | _ => exact iff_of_true rfl (by rintro _ _ ⟨⟩)

lemma size_intercalate {f g : Datum → String} {extra : Datum → Nat}
    (h : ∀ d, (f d).utf8ByteSize + 2 * extra d = (g d).utf8ByteSize) (separator : String) (ds : List Datum) :
    (separator.intercalate (ds.map f)).utf8ByteSize + 2 * (ds.map extra).sum =
      (separator.intercalate (ds.map g)).utf8ByteSize := by
  induction ds with
  | nil => rfl
  | cons d ds ih =>
    have hd := h d
    cases ds with
    | nil => simpa using hd
    | cons e ds =>
      simp only [List.map_cons, String.intercalate_cons_cons, String.utf8ByteSize_append, List.sum_cons] at ih ⊢
      omega

lemma innerText_copy_of_flat (levels : Nat) {d : Datum} (hd : ∀ handle, d ≠ .array handle) :
    innerText heap levels d = (copy heap levels d).innerText := by
  cases d with
  | nil => simp [innerText, copy, Value.innerText, Value.writeOnto]
  | bool b => cases b <;> simp [innerText, copy, Value.innerText, Value.writeOnto]
  | int n => simp [innerText, copy, Value.innerText, Value.writeOnto]
  | str text => simp [innerText, copy, Value.innerText, Value.writeOnto]
  | array handle => exact absurd rfl (hd handle)

lemma cuts_of_flat (levels : Nat) {d : Datum} (hd : ∀ handle, d ≠ .array handle) : cuts heap levels d = 0 := by
  cases d with
  | array handle => exact absurd rfl (hd handle)
  | _ => simp [cuts]

lemma size_innerText (levels : Nat) (d : Datum) :
    (innerText heap levels d).utf8ByteSize + 2 * cuts heap levels d =
      (copy heap levels d).innerText.utf8ByteSize := by
  have hflat (levels : Nat) {d : Datum} (hd : ∀ handle, d ≠ .array handle) :
      (innerText heap levels d).utf8ByteSize + 2 * cuts heap levels d =
        (copy heap levels d).innerText.utf8ByteSize := by
    rw [cuts_of_flat levels hd, innerText_copy_of_flat levels hd, Nat.mul_zero, Nat.add_zero]
  induction levels generalizing d with
  | zero =>
    cases d with
    | array handle => rfl
    | _ => exact hflat 0 fun _ => nofun
  | succ levels ih =>
    cases d with
    | array handle =>
      have hitems := size_intercalate ih ", " (heap.items handle).toList
      rw [innerText, copy, cuts, Value.innerText_array, List.map_map]
      simp only [String.utf8ByteSize_append, Function.comp_def]
      omega
    | _ => exact hflat (levels + 1) fun _ => nofun

lemma innerText_copy {levels : Nat} {d : Datum} (h : cuts heap levels d = 0) :
    innerText heap levels d = (copy heap levels d).innerText := by
  induction levels generalizing d with
  | zero =>
    cases d with
    | array handle => cases h
    | _ => exact innerText_copy_of_flat 0 fun _ => nofun
  | succ levels ih =>
    cases d with
    | array handle =>
      rw [cuts, List.sum_eq_zero_iff_forall_eq_nat, List.forall_mem_map] at h
      have hitems : (heap.items handle).toList.map (innerText heap levels) =
          ((heap.items handle).toList.map (copy heap levels)).map Value.innerText := by
        rw [List.map_map]
        exact List.map_congr_left fun d hd => ih (h d hd)
      rw [innerText, copy, Value.innerText_array, hitems]
    | _ => exact innerText_copy_of_flat (levels + 1) fun _ => nofun

lemma outerText_eq_render_iff (heap : Heap) (d : Datum) :
    outerText heap d = (copy heap renderDepth d).render ↔
      ∀ n handle, d.Unfolds heap n (.array handle) → n < renderDepth := by
  rw [← cuts_eq_zero_iff]
  cases d with
  | array handle =>
    have hsize : (innerText heap renderDepth (.array handle)).utf8ByteSize + 2 * cuts heap renderDepth (.array handle) =
        (copy heap renderDepth (.array handle)).innerText.utf8ByteSize := size_innerText renderDepth _
    have hrender : (copy heap renderDepth (.array handle)).render = (copy heap renderDepth (.array handle)).innerText :=
      Value.render_array _
    rw [hrender]
    refine ⟨fun h => ?_, innerText_copy⟩
    change innerText heap renderDepth (.array handle) = _ at h
    rw [h] at hsize
    omega
  | str text => exact iff_of_true (String.empty_append (s := text)).symm rfl
  | nil => exact iff_of_true rfl rfl
  | bool b => exact iff_of_true (by cases b <;> rfl) rfl
  | int n => exact iff_of_true (String.empty_append (s := toString n.toInt)).symm rfl

end Texts

/-- The text that `str` and a renderer with room for it make of a value, where nothing is in the way, is the text of
the value that is given out exactly if no array in its unfolding is nested too deep. -/
theorem printers_agree_iff {h : Host} (hq : h.Quiet) (s : State) (d : Datum) :
    ∃ v t text, giveOut h renderDepth d s = .ok v t ∧
      (∀ limit, text.utf8ByteSize ≤ limit →
        (render s.heap (fun _ => false) "" limit #[d]).2 = none ∧
          (render s.heap (fun _ => false) "" limit #[d]).1.text = text) ∧
      (∃ n, let u := { s with clock := s.clock + n }
        builtin h .str [d] s =
          if text.utf8ByteSize < wordLimit then
            .ok (.str text) { u with allocated := charged s.allocated text.utf8ByteSize }
          else outOfMemory h chargeLimit u) ∧
      (text = v.render ↔ ∀ n handle, d.Unfolds s.heap n (.array handle) → n < renderDepth) := by
  obtain ⟨t, ht⟩ := giveOut_quiet hq renderDepth d s
  have hwhole : wholeText s.heap "" #[d] = outerText s.heap d := String.intercalate_singleton
  refine ⟨_, t, outerText s.heap d, ht, fun limit hlimit => ?_, ?_, outerText_eq_render_iff s.heap d⟩
  · have hadded := render_added s.heap (fun _ => false) "" limit #[d]
    rw [hwhole] at hadded
    rcases hr : render s.heap (fun _ => false) "" limit #[d] with ⟨r, _ | _ | _⟩
    · rw [hr] at hadded
      exact ⟨rfl, hadded.1⟩
    · rw [hr] at hadded
      exact absurd hlimit (Nat.not_le_of_lt hadded.2)
    · rw [hr] at hadded
      obtain ⟨n, hn⟩ := hadded
      cases hn
  · have hnone {P : Nat → Prop} : ∀ c ∈ h.memoryCeiling, P c := by
      rw [hq.ceiling]
      exact nofun
    have hsig (n : Nat) : h.raised (s.clock + n) = false := by rw [hq.signal]
    obtain ⟨n, hn⟩ := newString_builds #[d] hnone hnone hsig
    refine ⟨n, hn.trans ?_⟩
    rw [State.withinCeiling, hq.ceiling, hwhole]

def gallery : Heap :=
  #[#[.str "say \"no\"", .int (-7), .nil], #[.array 0, .bool true, .array 0, .array 3], #[.array 2], #[]]

theorem printers_agree_iff_gallery :
    let h : Host := ⟨nesting, 8, none, fun _ => false⟩
    let s : State := { State.start 64 with heap := gallery }
    (∃ v t u, giveOut h renderDepth (.array 1) s = .ok v t ∧ builtin h .str [.array 1] s = .ok (.str v.render) u ∧
      v.render = "[[\"say \\\"no\\\"\", -7, nil], true, [\"say \\\"no\\\"\", -7, nil], []]") ∧
    ∃ v t text, giveOut h renderDepth (.array 2) s = .ok v t ∧
      (render gallery (fun _ => false) "" text.utf8ByteSize #[.array 2]).1.text = text ∧ text ≠ v.render := by
  intro h s
  have hq : h.Quiet := ⟨rfl, rfl⟩
  constructor
  · have hshallow : ∀ n handle, Datum.Unfolds gallery (.array 1) n (.array handle) → n < renderDepth :=
      (cuts_eq_zero_iff renderDepth (.array 1)).mp (by decide +kernel)
    obtain ⟨v, t, text, hv, -, ⟨n, hn⟩, htext⟩ := printers_agree_iff hq s (.array 1)
    obtain ⟨t', hcopy⟩ := giveOut_quiet hq renderDepth (.array 1) s
    have hrender : v.render =
        "[[\"say \\\"no\\\"\", -7, nil], true, [\"say \\\"no\\\"\", -7, nil], []]" := by
      rw [hcopy] at hv
      cases hv
      decide +kernel
    rw [htext.mpr hshallow] at hn
    exact ⟨v, t, _, hv, hn.trans (if_pos (by rw [hrender]; decide +kernel)), hrender⟩
  · have hround (n : Nat) : Datum.Unfolds gallery (.array 2) n (.array 2) := by
      induction n with
      | zero => exact .self _
      | succ n ih => exact .item (List.mem_singleton_self _) ih
    obtain ⟨v, t, text, hv, hshown, -, htext⟩ := printers_agree_iff hq s (.array 2)
    refine ⟨v, t, text, hv, (hshown _ (Nat.le_refl _)).2, fun h => ?_⟩
    exact absurd (htext.mp h renderDepth 2 (hround renderDepth)) (Nat.lt_irrefl _)

end Machine

end ScriptHost
