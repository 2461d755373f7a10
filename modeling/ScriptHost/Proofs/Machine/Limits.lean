import ScriptHost.Proofs.Machine.Output
import ScriptHost.Proofs.Machine.Simulation

/-!
What limits do to a run. A run under tighter limits goes through the same states as one under wider limits, until it
ends with a fault of its limits.
-/

namespace ScriptHost

lemma Instr.Alike.refl {functions : Nat → Nat → Prop} (hf : ∀ id, functions id id) (p : Program) (i : Instr) :
    i.Alike functions (p.SameString p) i := by
  cases i with
  | str => exact .str rfl
  | call => exact .call (hf _)
  | _ => exact .same (by rintro _ ⟨⟩) (by rintro _ _ ⟨⟩)

lemma Function.Alike.refl {functions : Nat → Nat → Prop} (hf : ∀ id, functions id id) (p : Program) (g : Function) :
    g.Alike functions (p.SameString p) g :=
  ⟨rfl, List.forall₂_same.mpr fun i _ => Instr.Alike.refl hf p i⟩

namespace Machine

/-- Runs of one program that are in the same state until the first one is cut short by a limit. -/
def lockstep : Pairing where
  functions := Eq
  values _ := True
  memory _ _ := True
  faults := Eq
  cut f := f.kind.Limit

lemma lockstep_frames {frames frames' : List Frame} (h : List.Forall₂ lockstep.Frames frames frames') :
    frames = frames' := by
  induction h with
  | nil => rfl
  | cons hf _ ih =>
    obtain ⟨hid, -, -⟩ := hf
    change _ = _ at hid
    rw [hid, ih]

lemma lockstep_beside {s s' : State} (h : lockstep.Beside s s') : s = s' := by
  obtain ⟨hframes⟩ := h
  rw [← lockstep_frames hframes]

lemma lockstep_refl (s : State) : lockstep.coupling.states s s := by
  have hframes : ∀ frames : List Frame, List.Forall₂ lockstep.Frames frames frames := by
    intro frames
    induction frames with
    | nil => exact .nil
    | cons f frames ih => exact .cons (.mk rfl (fun _ _ => trivial) fun _ _ => trivial) ih
  exact ⟨.mk (hframes s.frames), trivial⟩

section Tighter

variable {h h' : Host} (hprogram : h.program = h'.program) (hraised : h.raised = h'.raised) (ht : h.Tighter h')

include hprogram hraised ht

lemma tighter_joins : lockstep.Joins h h' where
  keeps := by constructor <;> intros <;> trivial
  raised := hraised
  limits := .inr ⟨ht, fun _ hf => hf⟩
  faults kind message frames frames' hframes := by
    rw [lockstep_frames hframes, hprogram]
    rfl
  functions {id id'} hid := by
    change id = id' at hid
    rw [hid, hprogram]
    cases h'.program.functions[id']? with
    | none => exact .none
    | some g => exact .some (Function.Alike.refl (fun _ => rfl) _ g)

omit hprogram hraised ht in
lemma Coupled.same_or_limit {α : Type} {Q : α → Prop} {x y : Run α} (hxy : Coupled lockstep.coupling Q x y)
    (s : State) : x s = y s ∨ ∃ f t, x s = .error f t ∧ f.kind.Limit := by
  have hends := hxy s s (lockstep_refl s)
  cases hx : x s with
  | ok a t =>
    cases hy : y s with
    | ok b u =>
      rw [hx, hy] at hends
      obtain ⟨rfl, -, hstates⟩ := hends
      exact .inl (by rw [lockstep_beside hstates.1])
    | error g u =>
      rw [hx, hy] at hends
      exact hends.elim
  | error f t =>
    cases hy : y s with
    | ok b u =>
      rw [hx, hy] at hends
      exact .inr ⟨f, t, rfl, hends⟩
    | error g u =>
      rw [hx, hy] at hends
      rcases hends with hcut | ⟨hf, hstates⟩
      · exact .inr ⟨f, t, rfl, hcut⟩
      · change f = g at hf
        exact .inl (by rw [hf, lockstep_beside hstates])

omit ht in
lemma line?_eq (s : State) : line? h s = line? h' s := by
  obtain ⟨p, depth, ceiling, raised⟩ := h
  obtain ⟨p', depth', ceiling', raised'⟩ := h'
  subst hprogram hraised
  rfl

lemma lines_isPrefix (steps : Nat) (s : State) : lines h steps s <+: lines h' steps s := by
  induction steps generalizing s with
  | zero => exact List.prefix_rfl
  | succ steps ih =>
    rw [lines, lines, line?_eq hprogram hraised]
    rcases (tighter_joins hprogram hraised ht).step.same_or_limit s with heq | ⟨f, t, hs, -⟩
    · rw [heq]
      apply List.prefix_append_right_inj _ |>.mpr
      cases step h' s with
      | ok r t =>
        cases r with
        | none => exact ih t
        | some d => exact List.prefix_rfl
      | error f t => exact List.prefix_rfl
    · rw [hs, List.append_nil]
      exact List.prefix_append _ _

end Tighter

lemma lines_mono (h : Host) {steps more : Nat} (hle : steps ≤ more) (s : State) :
    lines h steps s <+: lines h more s := by
  induction steps generalizing more s with
  | zero => exact List.nil_prefix
  | succ steps ih =>
    obtain ⟨more, rfl⟩ : ∃ m, more = m + 1 := ⟨more - 1, by omega⟩
    rw [lines, lines]
    apply List.prefix_append_right_inj _ |>.mpr
    cases step h s with
    | ok r t =>
      cases r with
      | none => exact ih (Nat.le_of_succ_le_succ hle) t
      | some d => exact List.prefix_rfl
    | error f t => exact List.prefix_rfl

def texts (h : Host) (id : Nat) (args : List Value) (limit steps : Nat) (stream : Stream) : List String :=
  match call h id args (.start limit) with
  | .ok () s => (Line.on stream (lines h steps s)).map (·.written limit)
  | .error _ _ => []

section Texts

variable {h : Host} {id : Nat} {args : List Value} {limit steps : Nat}

lemma capture_start (limit : Nat) (stream : Stream) : (State.start limit).capture stream = ⟨limit, {}⟩ := by
  cases stream <;> rfl

lemma started_writes : Yields (started h id args steps) (.start limit)
    (fun _ t => ∀ stream, t.capture stream = (⟨limit, {}⟩ : Capture).writeAll (texts h id args limit steps stream))
    fun _ t => ∀ stream, t.capture stream =
      (⟨limit, {}⟩ : Capture).writeAll (texts h id args limit steps stream) := by
  have hcall : Tells (call h id args) (.start limit) [] := call_tells id args
  rw [Tells] at hcall
  rw [started, yields_bind]
  rw [Yields] at hcall ⊢
  simp only [texts]
  cases hs : call h id args (.start limit) with
  | error f t =>
    rw [hs] at hcall
    intro stream
    rw [hcall stream, capture_start]
    rfl
  | ok u s =>
    rw [hs] at hcall
    have hshows : ∀ {t : State}, Shows (lines h steps s) s t → ∀ stream, t.capture stream =
        (⟨limit, {}⟩ : Capture).writeAll ((Line.on stream (lines h steps s)).map (·.written limit)) := by
      intro t ht stream
      rw [(hcall.trans ht) stream, capture_start]
      rfl
    exact Yields.mono (proceed_tells steps) (fun _ _ ht => hshows ht) fun _ _ ht => hshows ht

end Texts

/-- Limits only cut runs short. Under wider limits on calls and memory, a run that ends, and not with a fault of its
limits, ends in the same way and with the same output. One that does end with such a fault has written to each stream a
first part of what is written under the wider limits. -/
theorem limits_only_cut_runs_short {h h' : Host} (hprogram : h.program = h'.program)
    (hraised : h.raised = h'.raised) (ht : h.Tighter h') (id : Nat) (args : List Value) (limit steps : Nat) :
    (∀ v t, started h id args steps (.start limit) = .ok v t → started h' id args steps (.start limit) = .ok v t) ∧
    (∀ f t, started h id args steps (.start limit) = .error f t → ¬ f.kind.Limit →
      started h' id args steps (.start limit) = .error f t) ∧
    ∀ f t, started h id args steps (.start limit) = .error f t → f.kind.Limit → ∀ stream,
      t.capture stream = (⟨limit, {}⟩ : Capture).writeAll (texts h id args limit steps stream) ∧
      ∀ more, steps ≤ more → texts h id args limit steps stream <+: texts h' id args limit more stream := by
  have hjoins := tighter_joins hprogram hraised ht
  have hid : lockstep.functions id id := rfl
  have hstarted := (hjoins.started hid args steps).same_or_limit (.start limit)
  refine ⟨?_, ?_, ?_⟩
  · intro v t hv
    rcases hstarted with heq | ⟨f, u, hf, -⟩
    · exact heq.symm.trans hv
    · rw [hv] at hf
      cases hf
  · intro f t hf hlimit
    rcases hstarted with heq | ⟨g, u, hg, hg'⟩
    · exact heq.symm.trans hf
    · rw [hf] at hg
      cases hg
      exact absurd hg' hlimit
  · intro f t hf _ stream
    refine ⟨started_writes.error hf stream, fun more hle => ?_⟩
    rw [texts, texts]
    rcases (hjoins.call hid args).same_or_limit (.start limit) with heq | ⟨g, u, hg, -⟩
    · rw [heq]
      cases call h' id args (.start limit) with
      | error g u => exact List.prefix_rfl
      | ok _ s =>
        have hlines : lines h steps s <+: lines h' more s :=
          (lines_isPrefix hprogram hraised ht steps s).trans (lines_mono h' hle s)
        exact (hlines.filter _).map _
    · rw [hg]
      exact List.nil_prefix

def doubling : Program :=
  { session := 0
    functions := #[{
      name := "main"
      unit := "m"
      arity := 0
      locals := 0
      code := #[.str 0, .callBuiltin (.print .out false) 1, .pop, .str 0, .str 0, .binary .add, .ret]
      lines := #[1, 1, 1, 1, 1, 1, 1] }]
    strings := #["ab"]
    entryUnit := "m"
    warnings := [] }

def doubler (depth : Nat) (ceiling : Option Nat) : Host :=
  ⟨doubling, depth, ceiling, fun _ => false⟩

def faultOf? : EStateM.Result Fault State (Option Value) → Option FaultKind
  | .ok _ _ => none
  | .error f _ => some f.kind

lemma exists_fault {r : EStateM.Result Fault State (Option Value)} {kind : FaultKind} (h : faultOf? r = some kind) :
    ∃ f t, r = .error f t ∧ f.kind = kind := by
  cases r with
  | ok => cases h
  | error f t => exact ⟨f, t, rfl, Option.some.inj h⟩

theorem limits_only_cut_runs_short_doubling :
    ∃ f t v u, started (doubler 8 (some 6)) 0 [] 10 (.start 64) = .error f t ∧ f.kind = .outOfMemory ∧
      texts (doubler 8 (some 6)) 0 [] 64 10 .out = ["ab"] ∧
      texts (doubler 8 (some 6)) 0 [] 64 10 .out <+: texts (doubler 9 none) 0 [] 64 20 .out ∧
      started (doubler 8 (some 14)) 0 [] 10 (.start 64) = .ok v u ∧
      started (doubler 9 none) 0 [] 10 (.start 64) = .ok v u := by
  have htight : ∀ c < wordLimit, (doubler 8 (some c)).Tighter (doubler 9 none) := fun c hc =>
    ⟨Nat.le_succ 8, (fun _ hc => nomatch hc), fun _ hc' => Option.mem_some.mp hc' ▸ hc⟩
  have hfault : faultOf? (started (doubler 8 (some 6)) 0 [] 10 (.start 64)) = some .outOfMemory := by
    decide +kernel
  obtain ⟨f, t, hf, hkind⟩ := exists_fault hfault
  obtain ⟨-, -, hcut⟩ := limits_only_cut_runs_short (Eq.refl doubling) (by rfl) (htight 6 (by decide)) 0 [] 64 10
  obtain ⟨-, htexts⟩ := hcut f t hf (.inl hkind) .out
  have hvalue : faultOf? (started (doubler 8 (some 14)) 0 [] 10 (.start 64)) = none := by decide +kernel
  obtain ⟨hsame, -⟩ := limits_only_cut_runs_short (Eq.refl doubling) (by rfl) (htight 14 (by decide)) 0 [] 64 10
  cases hv : started (doubler 8 (some 14)) 0 [] 10 (.start 64) with
  | ok v u => exact ⟨f, t, v, u, hf, hkind, by decide +kernel, htexts 20 (by decide), rfl, hsame v u hv⟩
  | error g u =>
    rw [hv] at hvalue
    cases hvalue

end Machine

end ScriptHost
