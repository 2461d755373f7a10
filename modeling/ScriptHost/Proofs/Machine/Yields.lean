import Mathlib.Tactic.Lemma
import ScriptHost.Machine.Library

/-!
What parts of a run do. A part yields a result or a fault; one that only works on values leaves the calls
under way and the output alone.
-/

namespace ScriptHost

def Datum.In (size : Nat) : Datum → Prop
  | .array handle => handle < size
  | _ => True

lemma Datum.In.mono {size size' : Nat} (h : size ≤ size') {d : Datum} (hd : d.In size) : d.In size' := by
  cases d with
  | array => exact Nat.lt_of_lt_of_le hd h
  | _ => trivial

lemma Heap.exists_items {heap : Heap} {handle : Nat} {d : Datum} (hd : d ∈ heap.items handle) :
    ∃ items ∈ heap, d ∈ items := by
  rw [Heap.items, Array.getD_eq_getD_getElem?] at hd
  cases hi : heap[handle]? with
  | none => simp [hi] at hd
  | some items =>
    rw [hi] at hd
    exact ⟨items, Array.mem_of_getElem? hi, hd⟩

def Heap.Closed (heap : Heap) : Prop :=
  ∀ items ∈ heap, ∀ d ∈ items, d.In heap.size

lemma Heap.Closed.items {heap : Heap} (h : heap.Closed) (handle : Nat) :
    ∀ d ∈ heap.items handle, d.In heap.size := by
  intro d hd
  obtain ⟨items, hitems, hd⟩ := Heap.exists_items hd
  exact h items hitems d hd

lemma Heap.Closed.push {heap : Heap} (h : heap.Closed) {items : Array Datum}
    (hi : ∀ d ∈ items, d.In heap.size) : Heap.Closed (heap.push items) := by
  intro xs hxs d hd
  rw [Array.size_push]
  rcases Array.mem_push.mp hxs with hxs | rfl
  · exact (h xs hxs d hd).mono (Nat.le_succ _)
  · exact (hi d hd).mono (Nat.le_succ _)

lemma Heap.Closed.modify {heap : Heap} (h : heap.Closed) (handle : Nat) (f : Array Datum → Array Datum)
    (hf : ∀ items, (∀ d ∈ items, d.In heap.size) → ∀ d ∈ f items, d.In heap.size) :
    Heap.Closed (heap.modify handle f) := by
  intro xs hxs d hd
  rw [Array.size_modify]
  obtain ⟨i, hi, rfl⟩ := Array.mem_iff_getElem.mp hxs
  rw [Array.size_modify] at hi
  rw [Array.getElem_modify] at hd
  split at hd
  · exact hf _ (h _ (Array.getElem_mem hi)) d hd
  · exact h _ (Array.getElem_mem hi) d hd

/-! One part after another. -/

section Bind

variable {ε σ α β : Type} {op : EStateM ε σ α} {s t : σ}

lemma bind_of_ok {a : α} (h : op s = .ok a t) (k : α → EStateM ε σ β) : (op >>= k) s = k a t := by
  change EStateM.bind op k s = _
  rw [EStateM.bind, h]

lemma bind_of_error {e : ε} (h : op s = .error e t) (k : α → EStateM ε σ β) :
    (op >>= k) s = .error e t := by
  change EStateM.bind op k s = _
  rw [EStateM.bind, h]

lemma bind_get (k : σ → EStateM ε σ β) (s : σ) : ((get : EStateM ε σ σ) >>= k) s = k s s := rfl

lemma bind_modifyGet (f : σ → α × σ) (k : α → EStateM ε σ β) (s : σ) :
    ((modifyGet f : EStateM ε σ α) >>= k) s = k (f s).1 (f s).2 := rfl

end Bind

namespace Machine

/-- From `s`, a part of a run gives a result that satisfies `Q`, or a fault that satisfies `E`. -/
def Yields {α : Type} (op : Run α) (s : State) (Q : α → State → Prop) (E : Fault → State → Prop) : Prop :=
  match op s with
  | .ok a t => Q a t
  | .error f t => E f t

section Yields

variable {α β : Type} {s : State} {Q Q' : α → State → Prop} {E E' : Fault → State → Prop}

lemma yields_pure (a : α) : Yields (pure a) s Q E ↔ Q a s := Iff.rfl

lemma yields_bind (op : Run α) (k : α → Run β) {Q : β → State → Prop} :
    Yields (op >>= k) s Q E ↔ Yields op s (fun a t => Yields (k a) t Q E) E := by
  cases ho : op s with
  | ok a t =>
    rw [Yields, Yields, bind_of_ok ho, ho]
    exact Iff.rfl
  | error f t => rw [Yields, Yields, bind_of_error ho, ho]

lemma yields_get {Q : State → State → Prop} : Yields get s Q E ↔ Q s s := Iff.rfl

lemma yields_modify (f : State → State) {Q : PUnit → State → Prop} :
    Yields (modify f) s Q E ↔ Q ⟨⟩ (f s) := Iff.rfl

lemma yields_modifyGet (f : State → α × State) :
    Yields (modifyGet f) s Q E ↔ Q (f s).1 (f s).2 := Iff.rfl

lemma Yields.mono {op : Run α} (h : Yields op s Q E) (hQ : ∀ a t, Q a t → Q' a t)
    (hE : ∀ f t, E f t → E' f t) : Yields op s Q' E' := by
  rw [Yields] at h ⊢
  split at h
  · next heq => exact hQ _ _ h
  · exact hE _ _ h

lemma Yields.ok {op : Run α} (h : Yields op s Q E) {a : α} {t : State} (ho : op s = .ok a t) : Q a t := by
  rw [Yields] at h
  rwa [ho] at h

lemma Yields.error {op : Run α} (h : Yields op s Q E) {f : Fault} {t : State} (ho : op s = .error f t) :
    E f t := by
  rw [Yields] at h
  rwa [ho] at h

end Yields

/-- What work on values leaves alone; arrays may be new. -/
structure Steady (s t : State) : Prop where
  frames : t.frames = s.frames
  depth : t.depth = s.depth
  out : t.out = s.out
  err : t.err = s.err
  grows : s.heap.size ≤ t.heap.size

lemma Steady.refl (s : State) : Steady s s :=
  ⟨rfl, rfl, rfl, rfl, Nat.le_refl _⟩

lemma Steady.trans {s t u : State} (h : Steady s t) (h' : Steady t u) : Steady s u :=
  ⟨h'.frames.trans h.frames, h'.depth.trans h.depth, h'.out.trans h.out, h'.err.trans h.err,
    Nat.le_trans h.grows h'.grows⟩

structure Fails (s : State) (f : Fault) (t : State) : Prop where
  kind : f.kind ≠ .internalError
  out : t.out = s.out
  err : t.err = s.err

/-- Work on values, with a result that satisfies `Q`. -/
def Tame {α : Type} (op : Run α) (s : State) (Q : α → State → Prop) : Prop :=
  Yields op s (fun a t => Steady s t ∧ Q a t) (Fails s)

section Tame

variable {α β : Type} {s : State} {Q Q' : α → State → Prop}

lemma Tame.pure {a : α} (h : Q a s) : Tame (pure a) s Q :=
  ⟨Steady.refl s, h⟩

lemma Tame.mono {op : Run α} (h : Tame op s Q) (hQ : ∀ a t, Q a t → Q' a t) : Tame op s Q' :=
  Yields.mono h (fun a t ha => ⟨ha.1, hQ a t ha.2⟩) fun _ _ hf => hf

lemma Tame.bind {op : Run α} {k : α → Run β} {R : β → State → Prop} (h : Tame op s Q)
    (hk : ∀ a t, Steady s t → Q a t → Tame (k a) t R) : Tame (op >>= k) s R := by
  rw [Tame, yields_bind]
  refine Yields.mono h (fun a t ⟨hs, hq⟩ => ?_) fun f t hf => hf
  refine Yields.mono (hk a t hs hq) (fun b u hb => ⟨hs.trans hb.1, hb.2⟩) fun f u hf => ?_
  exact ⟨hf.kind, hf.out.trans hs.out, hf.err.trans hs.err⟩

lemma Tame.get {k : State → Run β} {R : β → State → Prop} (h : Tame (k s) s R) :
    Tame (get >>= k) s R := by
  rw [Tame, yields_bind]
  exact h

lemma Tame.modify {f : State → State} (hf : Steady s (f s)) {Q : PUnit → State → Prop} (h : Q ⟨⟩ (f s)) :
    Tame (modify f) s Q :=
  ⟨hf, h⟩

lemma Tame.fail (h : Host) {kind : FaultKind} (message : String) (hk : kind ≠ .internalError) :
    Tame (fail h kind message : Run α) s Q :=
  ⟨hk, rfl, rfl⟩

end Tame

/-! The parts that runs are made of. -/

section Parts

variable (h : Host) (s : State)

lemma tick_tame : Tame (tick h) s fun _ t => t.heap = s.heap := by
  rw [tick]
  have hs : Steady s s.tick := ⟨rfl, rfl, rfl, rfl, Nat.le_refl _⟩
  apply (Tame.modify (Q := fun _ t => t.heap = s.heap) hs rfl).bind
  intro _ t _ ht
  apply Tame.get
  split
  · exact Tame.fail h _ (by decide)
  · exact Tame.pure ht

lemma charge_tame (bytes : Nat) : Tame (charge h bytes) s fun _ t => t.heap = s.heap := by
  rw [charge]
  refine (Tame.modify (Q := fun _ t => t.heap = s.heap) ⟨rfl, rfl, rfl, rfl, Nat.le_refl _⟩ rfl).bind ?_
  intro _ t _ ht
  split
  · apply Tame.get
    split
    · exact Tame.fail h _ (by decide)
    · exact Tame.pure ht
  · exact Tame.pure ht

lemma newString_tame (text : String) :
    Tame (newString h text) s fun d t => t.heap = s.heap ∧ d = .str text := by
  rw [newString]
  apply (charge_tame h s _).bind
  intro _ t _ ht
  exact Tame.pure ⟨ht, rfl⟩

lemma newArray_tame (items : Array Datum) :
    Tame (newArray h items) s fun d t => t.heap = s.heap.push items ∧ d = .array s.heap.size := by
  rw [newArray]
  apply (charge_tame h s _).bind
  intro _ t hst ht
  refine ⟨⟨rfl, rfl, rfl, rfl, ?_⟩, ?_, ?_⟩
  · exact Nat.le_of_lt (by simp)
  · simp only [ht]
  · simp only [ht]

lemma show?_tame (separator : String) (limit : Nat) (values : Array Datum) :
    Tame (show? h separator limit values) s fun _ t => t.heap = s.heap :=
  ⟨⟨rfl, rfl, rfl, rfl, Nat.le_refl _⟩, rfl⟩

lemma display_tame (values : Array Datum) : Tame (display h values) s fun _ t => t.heap = s.heap := by
  rw [display]
  apply Tame.get
  refine (show?_tame h _ _ _ values).bind ?_
  rintro ⟨text, stop⟩ t _ ht
  split
  · exact Tame.pure ht
  · exact Tame.fail h _ (by decide)
  · exact Tame.fail h _ (by decide)

end Parts

end Machine

end ScriptHost
