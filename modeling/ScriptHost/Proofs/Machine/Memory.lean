import ScriptHost.Proofs.Machine.Limits

/-!
Memory below a ceiling. All that a run keeps is charged before it is kept, so the arrays and strings at hand and the
value given out are never larger than the ceiling.
-/

namespace ScriptHost

def Datum.Within (c : Nat) : Datum → Prop
  | .str s => s.utf8ByteSize ≤ c
  | _ => True

def arrayCost (items : Array Datum) : Nat :=
  slotBytes * (items.size + 1)

namespace Heap

def cost (heap : Heap) : Nat :=
  (heap.toList.map arrayCost).sum

lemma cost_push (heap : Heap) (items : Array Datum) : cost (heap.push items) = heap.cost + arrayCost items := by
  rw [cost, cost, Array.toList_push, List.map_append, List.sum_append]
  simp

lemma cost_modify_le (heap : Heap) (handle more : Nat) {f : Array Datum → Array Datum}
    (hf : ∀ items, arrayCost (f items) ≤ arrayCost items + more) :
    cost (heap.modify handle f) ≤ heap.cost + more := by
  rw [cost, cost, Array.toList_modify]
  generalize heap.toList = arrays
  induction arrays generalizing handle with
  | nil => simp
  | cons items arrays ih =>
    cases handle with
    | zero =>
      have := hf items
      rw [List.modify_zero_cons, List.map_cons, List.map_cons, List.sum_cons, List.sum_cons]
      omega
    | succ handle =>
      have := ih handle
      rw [List.modify_succ_cons, List.map_cons, List.map_cons, List.sum_cons, List.sum_cons]
      omega

/-- What is allocated covers all arrays and stays below the ceiling, and so does each string in them. -/
structure Accounted (c : Nat) (heap : Heap) (allocated : Nat) : Prop where
  charged : heap.cost ≤ allocated
  below : allocated ≤ c
  within : ∀ items ∈ heap, ∀ d ∈ items, d.Within c

namespace Accounted

variable {c n : Nat} {heap : Heap}

lemma modify (more : Nat) {n' handle : Nat} (h : heap.Accounted c n) {f : Array Datum → Array Datum}
    (hf : ∀ items, arrayCost (f items) ≤ arrayCost items + more)
    (hw : ∀ items, (∀ d ∈ items, d.Within c) → ∀ d ∈ f items, d.Within c) (hn : n + more ≤ n') (hc : n' ≤ c) :
    Heap.Accounted c (heap.modify handle f) n' := by
  have hcost := h.charged
  refine ⟨Nat.le_trans (cost_modify_le heap handle more hf) (by omega), hc, ?_⟩
  intro items hi
  obtain ⟨i, hlt, rfl⟩ := Array.mem_iff_getElem.mp hi
  rw [Array.size_modify] at hlt
  rw [Array.getElem_modify]
  split
  · exact hw _ (h.within _ (Array.getElem_mem hlt))
  · exact h.within _ (Array.getElem_mem hlt)

lemma items (h : heap.Accounted c n) (handle : Nat) : ∀ d ∈ heap.items handle, d.Within c := by
  intro d hd
  obtain ⟨items, hitems, hd⟩ := Heap.exists_items hd
  exact h.within items hitems d hd

end Accounted

end Heap

namespace Machine

lemma charged_eq {c n bytes : Nat} (hlt : c < chargeLimit) (hc : charged n bytes ≤ c) :
    charged n bytes = n + bytes := by
  rw [charged] at hc ⊢
  omega

/-- Runs whose memory is accounted for; nothing is said of faults. -/
def accounting (c : Nat) : Pairing where
  functions := Eq
  values := Datum.Within c
  memory := Heap.Accounted c
  faults _ _ := True
  cut _ := True

lemma accounting_keeps {c : Nat} (hlt : c < chargeLimit) : (accounting c).Keeps (some c) where
  nil := trivial
  bool _ := trivial
  int _ := trivial
  array _ := trivial
  string {heap n text} _ hc := by
    have heq := charged_eq hlt (hc c rfl)
    have := hc c rfl
    change text.utf8ByteSize ≤ c
    omega
  items h := h.items
  charge {heap n bytes} h hc := by
    have heq := charged_eq hlt (hc c rfl)
    exact ⟨Nat.le_trans h.charged (by omega), hc c rfl, h.within⟩
  alloc {heap n items} h hi hc := by
    have heq := charged_eq hlt (hc c rfl)
    have hcost := h.charged
    refine ⟨?_, hc c rfl, ?_⟩
    · rw [Heap.cost_push, arrayCost]
      omega
    · intro xs hxs
      rcases Array.mem_push.mp hxs with hxs | rfl
      · exact h.within xs hxs
      · exact hi
  push {heap n value} handle h hv hc := by
    have heq := charged_eq hlt (hc c rfl)
    refine h.modify slotBytes (fun items => ?_) (fun items hi d hd => ?_) (Nat.le_of_eq heq.symm) (hc c rfl)
    · rw [arrayCost, arrayCost, Array.size_push]
      exact Nat.le_of_eq (Nat.mul_succ _ _)
    · rcases Array.mem_push.mp hd with hd | rfl
      · exact hi d hd
      · exact hv
  store {heap n value} handle i h hv := by
    refine h.modify 0 (fun items => ?_) (fun items hi d hd => ?_) (Nat.le_refl n) h.below
    · exact Nat.le_of_eq (by simp [arrayCost])
    · rcases Array.mem_or_eq_of_mem_setIfInBounds hd with hd | rfl
      · exact hi d hd
      · exact hv
  shorten {heap n} handle h := by
    refine h.modify 0 (fun items => ?_) (fun items hi d hd => ?_) (Nat.le_refl n) h.below
    · rw [arrayCost, arrayCost, Array.size_pop]
      exact Nat.mul_le_mul_left _ (by omega)
    · obtain ⟨i, hi', rfl⟩ := Array.mem_iff_getElem.mp hd
      rw [Array.getElem_pop]
      exact hi _ (Array.getElem_mem _)

/-- Memory is accounted for, and no string at hand is larger than the ceiling. -/
structure State.Accounted (c : Nat) (s : State) : Prop where
  memory : s.heap.Accounted c s.allocated
  locals : ∀ f ∈ s.frames, ∀ d ∈ f.locals, d.Within c
  operands : ∀ f ∈ s.frames, ∀ d ∈ f.operands, d.Within c

section Accounted

variable {c : Nat}

lemma accounted_iff (s : State) : (accounting c).coupling.states s s ↔ s.Accounted c := by
  constructor
  · rintro ⟨hbeside, hmemory⟩
    have hframes := List.forall₂_same.mp hbeside.frames
    refine ⟨hmemory, fun f hf => ?_, fun f hf => ?_⟩
    · obtain ⟨-, hlocals, -⟩ := hframes f hf
      exact hlocals
    · obtain ⟨-, -, hops⟩ := hframes f hf
      exact hops
  · intro h
    have hframes := List.forall₂_same.mpr fun f hf =>
      (⟨rfl, h.locals f hf, h.operands f hf⟩ : (accounting c).Frames f f)
    exact ⟨.mk hframes, h.memory⟩

variable {h : Host} (hc : h.memoryCeiling = some c) (hlt : c < chargeLimit)

include hc hlt

lemma accounting_joins : (accounting c).Joins h h where
  keeps := hc ▸ accounting_keeps hlt
  raised := rfl
  limits := .inl ⟨rfl, rfl⟩
  faults _ _ _ _ _ := trivial
  functions {id id'} hid := by
    change id = id' at hid
    subst hid
    cases h.program.functions[id]? with
    | none => exact .none
    | some g => exact .some (Function.Alike.refl (fun _ => rfl) _ g)

end Accounted

end Machine

namespace Value

mutual

def weight : Value → Nat
  | str s => s.utf8ByteSize
  | array vs => slotBytes * (vs.length + 1) + weights vs
  | _ => 0

def weights : List Value → Nat
  | [] => 0
  | v :: vs => weight v + weights vs

end

end Value

namespace Machine

/-- A value as it is given out with some levels of nesting left. -/
def copy (heap : Heap) : Nat → Datum → Value
  | _, .nil => .nil
  | _, .bool b => .bool b
  | _, .int v => .int v
  | _, .str s => .str s
  | 0, .array _ => .str deepText
  | levels + 1, .array handle => .array ((heap.items handle).toList.map (copy heap levels))

/-- The arrays in it that are nested too deep. -/
def cuts (heap : Heap) : Nat → Datum → Nat
  | 0, .array _ => 1
  | levels + 1, .array handle => ((heap.items handle).toList.map (cuts heap levels)).sum
  | _, _ => 0

section GiveOut

variable {c : Nat} {h : Host} (hc : h.memoryCeiling = some c) (hlt : c < chargeLimit)

include hc hlt

lemma charge_yields (bytes : Nat) (s : State) : Yields (charge h bytes) s
    (fun _ t => t.heap = s.heap ∧ t.allocated = s.allocated + bytes ∧ t.allocated ≤ c) fun _ _ => True := by
  rw [Yields]
  by_cases hb : charged s.allocated bytes ≤ c
  · rw [charge_ok fun c' hc' => (Option.some.inj (hc.symm.trans hc')) ▸ hb]
    exact ⟨rfl, charged_eq hlt hb, hb⟩
  · rw [charge_full hc (Nat.lt_of_not_le hb)]
    trivial

omit hc hlt in
lemma tick_yields (s : State) : Yields (tick h) s (fun _ t => t.heap = s.heap ∧ t.allocated = s.allocated)
    fun _ _ => True := by
  rw [tick, yields_bind, yields_modify, yields_bind, yields_get]
  split
  · trivial
  · exact ⟨rfl, rfl⟩

omit hc hlt in
lemma items_yields {heap : Heap} {levels : Nat}
    (hd : ∀ d s, s.heap = heap → s.allocated ≤ c → Yields (giveOut h levels d) s (fun v t => v = copy heap levels d ∧
      t.heap = heap ∧ t.allocated ≤ c ∧
      t.allocated + deepText.utf8ByteSize * cuts heap levels d = s.allocated + v.weight) fun _ _ => True)
    (ds : List Datum) (done : Array Value) (s : State) (hheap : s.heap = heap) (hs : s.allocated ≤ c) :
    Yields (ds.foldlM (fun done d => return done.push (← giveOut h levels d)) done) s
      (fun vs t => vs.toList = done.toList ++ ds.map (copy heap levels) ∧ t.heap = heap ∧ t.allocated ≤ c ∧
        t.allocated + deepText.utf8ByteSize * (ds.map (cuts heap levels)).sum =
          s.allocated + Value.weights (ds.map (copy heap levels))) fun _ _ => True := by
  induction ds generalizing done s with
  | nil => exact ⟨by simp, hheap, hs, by simp [Value.weights]⟩
  | cons d ds ih =>
    rw [List.foldlM_cons, yields_bind, yields_bind]
    refine (hd d s hheap hs).mono ?_ fun _ _ hf => hf
    rintro v t ⟨rfl, ht, hle, hweight⟩
    rw [yields_pure]
    refine (ih _ t ht hle).mono ?_ fun _ _ hf => hf
    rintro vs u ⟨hvs, hu, hle', hweights⟩
    refine ⟨by simp [hvs], hu, hle', ?_⟩
    rw [List.map_cons, List.map_cons, List.sum_cons, Value.weights, Nat.mul_add]
    omega

lemma giveOut_yields (levels : Nat) (d : Datum) (s : State) (hs : s.allocated ≤ c) : Yields (giveOut h levels d) s
    (fun v t => v = copy s.heap levels d ∧ t.heap = s.heap ∧ t.allocated ≤ c ∧
      t.allocated + deepText.utf8ByteSize * cuts s.heap levels d = s.allocated + v.weight) fun _ _ => True := by
  unfold giveOut
  rw [yields_bind]
  refine (tick_yields s).mono ?_ fun _ _ hf => hf
  rintro _ t ⟨hheap, halloc⟩
  rw [← halloc] at hs ⊢
  cases d with
  | nil => exact ⟨by rw [copy], hheap, hs, by simp [cuts, Value.weight]⟩
  | bool b => exact ⟨by rw [copy], hheap, hs, by simp [cuts, Value.weight]⟩
  | int v => exact ⟨by rw [copy], hheap, hs, by simp [cuts, Value.weight]⟩
  | str text =>
    rw [yields_bind]
    refine (charge_yields hc hlt _ t).mono ?_ fun _ _ hf => hf
    rintro _ u ⟨hheap', halloc', hle⟩
    refine ⟨by rw [copy], hheap'.trans hheap, hle, ?_⟩
    simp [cuts, Value.weight, halloc']
  | array handle =>
    cases levels with
    | zero => exact ⟨rfl, hheap, hs, by simp [cuts, Value.weight]⟩
    | succ levels =>
      dsimp only
      rw [yields_bind, yields_get, yields_bind]
      refine (charge_yields hc hlt _ t).mono ?_ fun _ _ hf => hf
      rintro _ u ⟨hheap', halloc', hle⟩
      rw [hheap] at halloc' hheap' ⊢
      have hitems := items_yields (fun d s' hs' => hs' ▸ giveOut_yields levels d s')
        (s.heap.items handle).toList #[] u hheap' hle
      rw [yields_bind, ← Array.foldlM_toList]
      refine hitems.mono ?_ fun _ _ hf => hf
      rintro vs w ⟨hvs, hw, hle', hweights⟩
      rw [List.nil_append] at hvs
      refine ⟨by rw [hvs, copy], hw, hle', ?_⟩
      rw [cuts, Value.weight, hvs, List.length_map, Array.length_toList]
      omega

end GiveOut

/-- The states of a call from outside that has not failed, each with the values on their way in or out. -/
inductive Reached (h : Host) (id : Nat) (args : List Value) (limit : Nat) : State → List Datum → Prop
  | taken {count : Nat} {ds : Array Datum} {s : State} :
      takeInAll h #[] (args.take count) (.start limit) = .ok ds s → Reached h id args limit s ds.toList
  | called {s : State} : call h id args (.start limit) = .ok () s → Reached h id args limit s []
  | stepped {s t : State} : Reached h id args limit s [] → step h s = .ok none t → Reached h id args limit t []
  | returned {s t : State} {d : Datum} :
      Reached h id args limit s [] → step h s = .ok (some d) t → Reached h id args limit t [d]
  | given {s t : State} {d : Datum} {v : Value} :
      Reached h id args limit s [d] → giveOut h renderDepth d s = .ok v t → Reached h id args limit t [d]

section Reached

variable {c : Nat} {h : Host} {id : Nat} {args : List Value} {limit : Nat}

lemma reached_advance {s t : State} {d : Datum} {steps : Nat} (hs : Reached h id args limit s [])
    (ha : advance h steps s = .ok (some d) t) : Reached h id args limit t [d] := by
  induction steps generalizing s with
  | zero => cases ha
  | succ steps ih =>
    rw [advance] at ha
    cases hx : step h s with
    | error f u =>
      rw [bind_of_error hx] at ha
      cases ha
    | ok r u =>
      rw [bind_of_ok hx] at ha
      cases r with
      | none => exact ih (.stepped hs hx) ha
      | some e =>
        cases ha
        exact .returned hs hx

lemma Coupled.keeps {c : Coupling} {α : Type} {Q : α → Prop} {x : Run α} (hx : Coupled c Q x x) {s t : State} {a : α}
    (hs : c.states s s) (ha : x s = .ok a t) : c.states t t ∧ Q a := by
  have hends := hx s s hs
  rw [ha] at hends
  exact ⟨hends.2.2, hends.2.1⟩

lemma Pairing.Joins.reached {P : Pairing} (hjoins : P.Joins h h) (hid : P.functions id id)
    (hstart : P.coupling.states (.start limit) (.start limit)) {s : State} {ds : List Datum}
    (hs : Reached h id args limit s ds) : P.coupling.states s s ∧ ∀ d ∈ ds, P.values d := by
  induction hs with
  | @taken count ds s hs =>
    have hnone : ∀ d ∈ (#[] : Array Datum), P.values d := fun d hd => (Array.not_mem_empty d hd).elim
    obtain ⟨hs, hds⟩ := (hjoins.works.takeInAll (args.take count) hnone).keeps hstart hs
    exact ⟨hs, fun d hd => hds d (Array.mem_toList_iff.mp hd)⟩
  | called hs =>
    obtain ⟨hs, -⟩ := (hjoins.call hid args).keeps hstart hs
    exact ⟨hs, fun d hd => (List.not_mem_nil hd).elim⟩
  | stepped _ hx ih => exact ⟨(hjoins.step.keeps ih.1 hx).1, ih.2⟩
  | returned _ hx ih =>
    obtain ⟨ht, hd⟩ := hjoins.step.keeps ih.1 hx
    exact ⟨ht, List.forall_mem_singleton.mpr (hd _ rfl)⟩
  | given _ hx ih => exact ⟨((hjoins.works.giveOut renderDepth _).keeps ih.1 hx).1, ih.2⟩

lemma start_accounted (c limit : Nat) : (State.start limit).Accounted c :=
  ⟨⟨Nat.le_refl 0, Nat.zero_le c, fun items hi => (Array.not_mem_empty items hi).elim⟩,
    (fun _ hf => (List.not_mem_nil hf).elim), fun _ hf => (List.not_mem_nil hf).elim⟩

lemma reached_accounted (hc : h.memoryCeiling = some c) (hlt : c < chargeLimit) {s : State} {ds : List Datum}
    (hs : Reached h id args limit s ds) :
    s.Accounted c ∧ ∀ d ∈ ds, d.Within c := by
  rw [← accounted_iff s]
  exact (accounting_joins hc hlt).reached rfl ((accounted_iff _).mpr (start_accounted c limit)) hs

end Reached

/-- Memory accounting. In every state that a call from outside comes to without a fault, the bytes of all arrays are
covered by what is allocated, which is at most the ceiling, and so is each string at hand. The arrays and strings of a
value that is given out come to no more than the ceiling, but for the texts that stand for arrays nested too deep. -/
theorem memory_is_accounted {c : Nat} {h : Host} (hc : h.memoryCeiling = some c) (hlt : c < chargeLimit) (id : Nat)
    (args : List Value) (limit : Nat) :
    (∀ s ds, Reached h id args limit s ds → s.Accounted c ∧ ∀ d ∈ ds, d.Within c) ∧
    ∀ steps v t, invoke h id args steps (.start limit) = .ok v t →
      ∃ s d, Reached h id args limit s [d] ∧ v = copy s.heap renderDepth d ∧
        v.weight ≤ c + deepText.utf8ByteSize * cuts s.heap renderDepth d := by
  refine ⟨fun s ds hs => reached_accounted hc hlt hs, fun steps v t hv => ?_⟩
  rw [invoke] at hv
  cases hcall : call h id args (.start limit) with
  | error f s =>
    rw [bind_of_error hcall] at hv
    cases hv
  | ok _ s =>
    rw [bind_of_ok hcall, proceed, bind_assoc] at hv
    cases ha : advance h steps s with
    | error f u =>
      rw [bind_of_error ha] at hv
      cases hv
    | ok r u =>
      rw [bind_of_ok ha] at hv
      cases r with
      | none => cases hv
      | some d =>
        have hd := reached_advance (.called hcall) ha
        have hgives := giveOut_yields hc hlt renderDepth d u (reached_accounted hc hlt hd).1.memory.below
        simp only [bind_assoc, pure_bind] at hv
        cases hg : giveOut h renderDepth d u with
        | error f w =>
          rw [bind_of_error hg] at hv
          cases hv
        | ok v' w =>
          rw [bind_of_ok hg] at hv
          cases hv
          obtain ⟨hv, -, hle, hweight⟩ := hgives.ok hg
          exact ⟨u, d, hd, hv, by omega⟩

def nesting : Program :=
  { session := 0
    functions := #[{
      name := "main"
      unit := "m"
      arity := 0
      locals := 0
      code := #[.int 1, .str 0, .makeArray 1, .makeArray 2, .ret]
      lines := #[1, 1, 1, 1, 1] }]
    strings := #["ab"]
    entryUnit := "m"
    warnings := [] }

def weightOf? : EStateM.Result Fault State Value → Option Nat
  | .ok v _ => some v.weight
  | .error _ _ => none

-- Half of the ceiling goes to the run and half to the value that is given out.
theorem memory_is_accounted_nesting :
    let h : Host := ⟨nesting, 8, some 164, fun _ => false⟩
    ∃ v t s d, invoke h 0 [] 10 (.start 64) = .ok v t ∧ v.weight = 82 ∧ Reached h 0 [] 64 s [d] ∧
      s.Accounted 164 ∧ v = copy s.heap renderDepth d ∧
      v.weight ≤ 164 + deepText.utf8ByteSize * cuts s.heap renderDepth d := by
  intro h
  obtain ⟨hreached, hgiven⟩ := memory_is_accounted (h := h) rfl (by decide) 0 [] 64
  have hweight : weightOf? (invoke h 0 [] 10 (.start 64)) = some 82 := by decide +kernel
  cases hv : invoke h 0 [] 10 (.start 64) with
  | error f t =>
    rw [hv] at hweight
    cases hweight
  | ok v t =>
    rw [hv] at hweight
    obtain ⟨s, d, hs, hcopy, hle⟩ := hgiven 10 v t hv
    exact ⟨v, t, s, d, rfl, Option.some.inj hweight, hs, (hreached s [d] hs).1, hcopy, hle⟩

end Machine

end ScriptHost
