import ScriptHost.Proofs.Evaluation.Correct
import ScriptHost.Proofs.Machine.Limits
import ScriptHost.Proofs.Machine.Parts
import ScriptHost.Proofs.Machine.Render

/-!
Signals that stay up. The steps of a run, the values it gives out and those it shows are counted, and at each multiple
of a fixed number the signal is looked at, so whatever goes on once it is up comes to one of these looks.
-/

namespace ScriptHost

def Host.UpFrom (h : Host) (time : Nat) : Prop :=
  ∀ t, time ≤ t → h.raised t = true

lemma exists_look (n : Nat) : ∃ last, last % pollInterval = 0 ∧ n < last ∧ last ≤ n + pollInterval := by
  unfold pollInterval
  exact ⟨n / 1024 * 1024 + 1024, by omega, by omega, by omega⟩

/-! Renderings. -/

namespace Rendering

/-- A rendering goes on or ends before it visits the value `last`, or is stopped there. -/
def Before (last : Nat) : Step → Prop
  | .ok r => r.visits < last
  | .error (.full, r) => r.visits < last
  | .error (.interrupted, r) => r.visits ≤ last

def StaysBefore (last : Nat) (part : Rendering → Step) : Prop :=
  ∀ r : Rendering, r.visits < last → Before last (part r)

section Visits

variable {last : Nat} {raised : Nat → Bool} (hlast : last % pollInterval = 0) (hraised : raised last = true)

lemma staysBefore_pure : StaysBefore last pure := fun _ hr => hr

lemma staysBefore_append (s : String) : StaysBefore last (append · s) := by
  intro r hr
  change Before last (append r s)
  rw [append]
  split <;> exact hr

include hlast hraised in
lemma staysBefore_visit : StaysBefore last (visit raised) := by
  intro r hr
  rw [visit]
  dsimp only
  split
  · exact hr
  · next hgoes =>
    refine Nat.lt_of_le_of_ne hr ?_
    rintro rfl
    simp [hlast, hraised] at hgoes

lemma StaysBefore.bind {part next : Rendering → Step} (hp : StaysBefore last part) (hn : StaysBefore last next) :
    StaysBefore last fun r => part r >>= next := by
  intro r hr
  have hpart := hp r hr
  change Before last (part r >>= next)
  cases hq : part r with
  | ok q =>
    rw [hq] at hpart
    exact hn q hpart
  | error e =>
    rw [hq] at hpart
    exact hpart

lemma staysBefore_separated {datum : Rendering → Datum → Step} (hd : ∀ d, StaysBefore last (datum · d))
    (separator : String) (items : Array Datum) : StaysBefore last (separated datum separator · items) := by
  have hall : ∀ (ds : List Datum) (first : Bool),
      StaysBefore last fun r => Prod.fst <$> ds.foldlM (another datum separator) (r, first) := by
    intro ds
    induction ds with
    | nil => exact fun first => staysBefore_pure
    | cons d ds ih =>
      intro first
      cases first with
      | true => simpa [another, List.foldlM_cons] using (hd d).bind (ih false)
      | false =>
        simpa [another, List.foldlM_cons] using (staysBefore_append separator).bind ((hd d).bind (ih false))
  simp only [separated_eq]
  exact hall items.toList true

include hlast hraised

lemma staysBefore_inner (heap : Heap) (levels : Nat) (d : Datum) :
    StaysBefore last (inner heap raised levels · d) := by
  have hvisited : ∀ s, StaysBefore last fun r => r.visit raised >>= (append · s) := fun s =>
    (staysBefore_visit hlast hraised).bind (staysBefore_append s)
  induction levels generalizing d with
  | zero => cases d <;> exact hvisited _
  | succ levels ih =>
    cases d with
    | array handle =>
      have hitems := (staysBefore_separated ih ", " (heap.items handle)).bind (staysBefore_append "]")
      exact (staysBefore_visit hlast hraised).bind ((staysBefore_append "[").bind hitems)
    | _ => exact hvisited _

lemma staysBefore_outer (heap : Heap) (d : Datum) : StaysBefore last (outer heap raised · d) := by
  cases d with
  | str s => exact (staysBefore_visit hlast hraised).bind (staysBefore_append s)
  | _ => exact staysBefore_inner hlast hraised heap renderDepth _

end Visits

end Rendering

lemma render_visits (raised : Nat → Bool) {last : Nat} (hlast : last % pollInterval = 0) (hpos : 0 < last)
    (hraised : raised last = true) (heap : Heap) (separator : String) (limit : Nat) (values : Array Datum) :
    let r := render heap raised separator limit values
    r.1.visits < last ∨ r.2 = some .interrupted ∧ r.1.visits ≤ last := by
  have hstays := Rendering.staysBefore_separated (Rendering.staysBefore_outer hlast hraised heap) separator values
    ⟨"", limit, 0⟩ hpos
  intro r
  have hr : r = render heap raised separator limit values := rfl
  rw [render] at hr
  change Rendering.Before last (Rendering.separated _ _ _ _) at hstays
  cases hsep : Rendering.separated (Rendering.outer heap raised) separator ⟨"", limit, 0⟩ values with
  | ok q =>
    rw [hsep] at hr hstays
    rw [hr]
    exact .inl hstays
  | error e =>
    obtain ⟨stop, q⟩ := e
    rw [hsep] at hr hstays
    rw [hr]
    cases stop with
    | full => exact .inl hstays
    | interrupted => exact .inr ⟨rfl, hstays⟩

namespace Machine

/-- A run ends before the look at the step `last`, or with it. -/
def Stopped (h : Host) (last : Nat) (f : Fault) (t : State) : Prop :=
  t.steps < last ∨ f.kind = .interrupted ∧ ∃ u : State, u.steps < last ∧ tick h u = .error f t

lemma Stopped.mono {h : Host} {last last' : Nat} {f : Fault} {t : State} (hf : Stopped h last f t)
    (hle : last ≤ last') : Stopped h last' f t := by
  rcases hf with hlt | ⟨hkind, u, hlt, hu⟩
  · exact .inl (Nat.lt_of_lt_of_le hlt hle)
  · exact .inr ⟨hkind, u, Nat.lt_of_lt_of_le hlt hle, hu⟩

lemma tick_lt {h : Host} {s : State} {last : Nat} (hlast : last % pollInterval = 0) (hlt : s.steps < last)
    (hup : s.steps + 1 = last → h.raised (s.clock + 1) = true) :
    Yields (tick h) s (fun _ t => t = s.tick ∧ s.steps + 1 < last) (Stopped h last) := by
  have htick : tick h s = if s.tick.steps % pollInterval = 0 ∧ h.raised s.tick.clock = true
      then interrupted h s.tick else .ok () s.tick := by
    rw [tick]
    change (if _ then _ else _ : Run Unit) s.tick = _
    simp only [Bool.and_eq_true, decide_eq_true_eq]
    split <;> rfl
  by_cases hraised : s.tick.steps % pollInterval = 0 ∧ h.raised s.tick.clock = true
  · rw [if_pos hraised] at htick
    rw [Yields, htick]
    exact .inr ⟨rfl, s, hlt, htick⟩
  · rw [if_neg hraised] at htick
    rw [Yields, htick]
    refine ⟨rfl, Nat.lt_of_le_of_ne hlt ?_⟩
    rintro rfl
    exact hraised ⟨hlast, hup rfl⟩

lemma giveOut_keeps {h : Host} {K : State → Prop} {E : Fault → State → Prop}
    (htick : ∀ s, K s → Yields (tick h) s (fun _ t => K t) E)
    (hcharge : ∀ bytes s, K s → Yields (charge h bytes) s (fun _ t => K t) E) (levels : Nat) (d : Datum) (s : State)
    (hs : K s) : Yields (giveOut h levels d) s (fun _ t => K t) E := by
  induction levels generalizing d s with
  | zero =>
    unfold giveOut
    rw [yields_bind]
    refine (htick s hs).mono ?_ fun _ _ hf => hf
    intro _ t ht
    cases d with
    | str text =>
      rw [yields_bind]
      exact (hcharge _ t ht).mono (fun _ _ hu => hu) fun _ _ hf => hf
    | _ => exact ht
  | succ levels ih =>
    unfold giveOut
    rw [yields_bind]
    refine (htick s hs).mono ?_ fun _ _ hf => hf
    intro _ t ht
    cases d with
    | str text =>
      rw [yields_bind]
      exact (hcharge _ t ht).mono (fun _ _ hu => hu) fun _ _ hf => hf
    | array handle =>
      have hitems : ∀ (ds : List Datum) (done : Array Value) (u : State), K u →
          Yields (ds.foldlM (fun done d => return done.push (← giveOut h levels d)) done) u (fun _ t => K t) E := by
        intro ds
        induction ds with
        | nil => exact fun done u hu => hu
        | cons d ds ihds =>
          intro done u hu
          rw [List.foldlM_cons, yields_bind, yields_bind]
          exact (ih d u hu).mono (fun v w hw => ihds _ w hw) fun _ _ hf => hf
      dsimp only
      rw [yields_bind, yields_get, yields_bind]
      refine (hcharge _ t ht).mono ?_ fun _ _ hf => hf
      intro _ u hu
      rw [yields_bind, ← Array.foldlM_toList]
      exact (hitems _ _ u hu).mono (fun _ _ hw => hw) fun _ _ hf => hf
    | _ => exact ht

lemma charge_still (h : Host) (bytes : Nat) (s : State) :
    Yields (charge h bytes) s (fun _ t => t.steps = s.steps ∧ t.clock = s.clock)
      fun _ t => t.steps = s.steps ∧ t.clock = s.clock := by
  rw [charge, yields_bind, yields_modify]
  cases h.memoryCeiling with
  | none => exact ⟨rfl, rfl⟩
  | some c =>
    dsimp only
    rw [yields_bind, yields_get]
    split <;> exact ⟨rfl, rfl⟩

/-! Runs on their way to a look. -/

/-- At least `least` steps are done, the look at the step `last` comes later, and the signal is up by then. -/
structure Nearing (time last least : Nat) (s : State) : Prop where
  least : least ≤ s.steps
  before : s.steps < last
  up : time + s.steps ≤ s.clock + last

def nearing (h : Host) (time last least : Nat) : Coupling where
  states s t := s = t ∧ Nearing time last least s
  faults f s g t := f = g ∧ s = t ∧ Stopped h last f s
  cut _ := False

section Near

variable {h : Host} {time last least : Nat} {α : Type} {Q : α → Prop} {op : Run α}

lemma coupled_nearing : Coupled (nearing h time last least) Q op op ↔
    ∀ s, Nearing time last least s →
      Yields op s (fun a t => Q a ∧ Nearing time last least t) (Stopped h last) := by
  constructor
  · intro hop s hs
    have hends := hop s s ⟨rfl, hs⟩
    rw [Yields]
    cases hr : op s with
    | ok a t =>
      rw [hr] at hends
      exact ⟨hends.2.1, hends.2.2.2⟩
    | error f t =>
      rw [hr] at hends
      exact (hends.resolve_left id).2.2
  · rintro hop s _ ⟨rfl, hs⟩
    have hyields := hop s hs
    rw [Yields] at hyields
    cases hr : op s with
    | ok a t =>
      rw [hr] at hyields
      exact ⟨rfl, hyields.1, rfl, hyields.2⟩
    | error f t =>
      rw [hr] at hyields
      exact .inr ⟨rfl, rfl, hyields⟩

lemma Nearing.still {s t : State} (hs : Nearing time last least s) (hsteps : t.steps = s.steps)
    (hclock : s.clock ≤ t.clock) : Nearing time last least t :=
  ⟨hsteps ▸ hs.least, hsteps ▸ hs.before, by rw [hsteps]; have := hs.up; omega⟩

lemma charge_nearing (bytes : Nat) (s : State) (hs : Nearing time last least s) :
    Yields (charge h bytes) s (fun _ t => Nearing time last least t) (Stopped h last) := by
  refine (charge_still h bytes s).mono (fun _ t ht => hs.still ht.1 (Nat.le_of_eq ht.2.symm)) fun _ t ht => ?_
  exact .inl (ht.1 ▸ hs.before)

lemma Nearing.weaken {s : State} (hs : Nearing time last (least + 1) s) : Nearing time last least s :=
  ⟨Nat.le_of_succ_le hs.least, hs.before, hs.up⟩

lemma tick_nearing (hup : h.UpFrom time) (hlast : last % pollInterval = 0) (s : State)
    (hs : Nearing time last least s) :
    Yields (tick h) s (fun _ t => Nearing time last (least + 1) t) (Stopped h last) := by
  have hclock := hs.up
  refine (tick_lt hlast hs.before fun heq => hup _ (by omega)).mono ?_ fun _ _ hf => hf
  rintro _ _ ⟨rfl, hlt⟩
  refine ⟨Nat.succ_le_succ hs.least, hlt, ?_⟩
  change time + (s.steps + 1) ≤ s.clock + 1 + last
  omega

lemma modify_nearing {f : State → State} (hsteps : ∀ s, (f s).steps = s.steps) (hclock : ∀ s, s.clock ≤ (f s).clock) :
    Coupled (nearing h time last least) (fun _ => True) (modify f) (modify f) :=
  Coupled.modify fun s _ hs => ⟨congrArg f hs.1, hs.2.still (hsteps s) (hclock s)⟩

lemma nearing_works (hup : h.UpFrom time) (hlast : last % pollInterval = 0) :
    Works (nearing h time last least) h h fun _ => True := by
  have hfail : ∀ {α : Type} (Q : α → Prop) (kind : FaultKind) (message : String),
      Coupled (nearing h time last least) Q (fail h kind message) (fail h kind message) :=
    fun Q kind message => coupled_nearing.mpr fun s hs => .inl hs.before
  have hcharge : ∀ bytes, Coupled (nearing h time last least) (fun _ => True) (charge h bytes) (charge h bytes) :=
    fun bytes => coupled_nearing.mpr fun s hs =>
      (charge_nearing bytes s hs).mono (fun _ _ ht => ⟨trivial, ht⟩) fun _ _ hf => hf
  have hshown : ∀ separator limit values, Coupled (nearing h time last least) (fun _ => True)
      (show? h separator limit values) (show? h separator limit values) :=
    fun separator limit values => coupled_nearing.mpr fun s hs =>
      ⟨trivial, hs.still rfl (Nat.le_add_right _ _)⟩
  exact {
    nil := trivial
    bool := fun _ => trivial
    int := fun _ => trivial
    heap := fun hs => congrArg State.heap hs.1
    items := fun _ _ _ _ => trivial
    capture := fun hs stream => congrArg (State.capture · stream) hs.1
    fail := hfail
    tick := coupled_nearing.mpr fun s hs => (tick_nearing hup hlast s hs).mono
      (fun _ _ ht => ⟨trivial, ht.weaken⟩) fun _ _ hf => hf
    charge := hcharge
    newString := fun _ => (hcharge _).bind fun _ _ => Coupled.pure trivial
    newArray := fun _ => (hcharge _).bind fun _ _ => coupled_nearing.mpr fun s hs =>
      ⟨trivial, hs.still rfl (Nat.le_refl _)⟩
    shown := hshown
    display := fun values => Coupled.get fun s s' hs => by
      rw [← hs.1]
      apply (hshown _ _ _).bind
      rintro ⟨text, _ | _ | _⟩ _
      · exact Coupled.pure trivial
      · exact hfail _ _ _
      · exact hfail _ _ _
    write := fun stream text hs =>
      ⟨congrArg (State.write · stream text) hs.1, hs.2.still (by cases stream <;> rfl) (by cases stream <;> exact Nat.le_refl _)⟩
    push := fun handle value _ => by
      apply (hcharge _).bind
      intro _ _
      apply (modify_nearing _ _).bind
      · exact fun _ _ => Coupled.pure trivial
      · exact fun _ => rfl
      · exact fun _ => Nat.le_refl _
    store := fun handle i value _ hs => ⟨by rw [hs.1], hs.2.still rfl (Nat.le_refl _)⟩
    shorten := fun handle hs => ⟨by rw [hs.1], hs.2.still rfl (Nat.le_refl _)⟩ }

lemma enter_nearing (id : Nat) (args : List Datum) :
    Coupled (nearing h time last least) (fun _ => True) (enter h id args) (enter h id args) := by
  apply coupled_nearing.mpr
  intro s hs
  by_cases hd : h.callDepth ≤ s.depth
  · rw [Yields, enter_deep hd]
    exact .inl hs.before
  · cases hg : h.program.functions[id]? with
    | some g =>
      rw [Yields, enter_ok hd hg]
      exact ⟨trivial, hs.still rfl (Nat.le_refl _)⟩
    | none =>
      rw [Yields, enter_none hd hg]
      exact .inl hs.before

lemma exec_nearing (hup : h.UpFrom time) (hlast : last % pollInterval = 0) (f : Frame) (rest : List Frame) (i : Instr) :
    Coupled (nearing h time last least) (fun _ => True) (exec h { f with pc := f.pc + 1 } rest i)
      (exec h { f with pc := f.pc + 1 } rest i) := by
  have hw : Works (nearing h time last least) h h fun _ => True := nearing_works hup hlast
  have hframes : ∀ {β : Type} {R : β → Prop} (frames : List Frame) {k : Run β},
      Coupled (nearing h time last least) R k k →
      Coupled (nearing h time last least) R (do
        modify fun s => { s with frames := frames }
        k) (do
        modify fun s => { s with frames := frames }
        k) := by
    intro β R frames k hk
    apply (modify_nearing _ _).bind
    · exact fun _ _ => hk
    · exact fun _ => rfl
    · exact fun _ => Nat.le_refl _
  have hgoes := exec_goesOn h rest f i
  generalize exec h { f with pc := f.pc + 1 } rest i = op at hgoes ⊢
  have hreturn : ∀ (frames : List Frame) (result : Option Datum),
      Coupled (nearing h time last least) (fun _ => True) (do
        modify fun s => { s with frames := frames, depth := s.depth - 1 }
        return result) (do
        modify fun s => { s with frames := frames, depth := s.depth - 1 }
        return result) := by
    intro frames result
    apply (modify_nearing _ _).bind
    · exact fun _ _ => Coupled.pure trivial
    · exact fun _ => rfl
    · exact fun _ => Nat.le_refl _
  -- An instruction has one of a few shapes; what it computes on the way is left to `hw`.
  cases hgoes with
  | resume pc ops => exact hframes _ (Coupled.pure trivial)
  | put slot d ops => exact hframes _ (Coupled.pure trivial)
  | push ops ho =>
    apply hframes
    apply (ho.coupled hw).bind
    intro d _
    apply (modify_nearing _ _).bind
    · exact fun _ _ => Coupled.pure trivial
    · exact fun s => by split <;> rfl
    · exact fun s => by split <;> exact Nat.le_refl _
  | store ops target index value =>
    apply hframes
    exact (hw.storeIndex target index trivial).bind fun _ _ => Coupled.pure trivial
  | enter id args ops => exact hframes _ (enter_nearing id args)
  | give d g below => exact hreturn _ none
  | last d => exact hreturn [] (some d)
  | fault frames kind message => exact hframes _ (hw.fail _ kind message)

lemma step_nearing (hup : h.UpFrom time) (hlast : last % pollInterval = 0) (s : State)
    (hs : Nearing time last least s) :
    Yields (step h) s (fun _ t => Nearing time last (least + 1) t) (Stopped h last) := by
  rw [step, yields_bind]
  refine (tick_nearing hup hlast s hs).mono ?_ fun _ _ hf => hf
  intro _ t ht
  rw [yields_bind, yields_modifyGet]
  have htaken : Nearing time last (least + 1) { t with frames := [] } := ht.still rfl (Nat.le_refl _)
  cases hframes : t.frames with
  | nil => exact .inl ht.before
  | cons f rest =>
    dsimp only
    cases (h.program.functions[f.function]?).bind fun g => g.code[f.pc]? with
    | none => exact .inl ht.before
    | some i =>
      refine (coupled_nearing.mp (exec_nearing hup hlast _ rest i) _ htaken).mono ?_ fun _ _ hf => hf
      exact fun _ _ hu => hu.2

lemma advance_nearing (hup : h.UpFrom time) (hlast : last % pollInterval = 0) (n : Nat) (s : State)
    (hs : Nearing time last least s) :
    Yields (advance h n) s (fun r t => Nearing time last least t ∧ (r = none → least + n ≤ t.steps))
      (Stopped h last) := by
  induction n generalizing least s with
  | zero => exact ⟨hs, fun _ => hs.least⟩
  | succ n ih =>
    rw [advance, yields_bind]
    refine (step_nearing hup hlast s hs).mono ?_ fun _ _ hf => hf
    intro r t ht
    cases r with
    | some d => exact ⟨ht.weaken, fun hr => absurd hr (Option.some_ne_none d)⟩
    | none =>
      refine (ih t ht).mono ?_ fun _ _ hf => hf
      rintro r u ⟨hu, hle⟩
      exact ⟨hu.weaken, fun hr => by have := hle hr; omega⟩

lemma giveOut_nearing (hup : h.UpFrom time) (hlast : last % pollInterval = 0) (levels : Nat) (d : Datum) (s : State)
    (hs : Nearing time last least s) :
    Yields (giveOut h levels d) s (fun _ t => Nearing time last least t) (Stopped h last) :=
  giveOut_keeps (fun t ht => (tick_nearing hup hlast t ht).mono (fun _ _ hu => hu.weaken) fun _ _ hf => hf)
    charge_nearing levels d s hs

lemma proceed_nearing (hup : h.UpFrom time) (hlast : last % pollInterval = 0) (n : Nat) (s : State)
    (hs : Nearing time last least s) :
    Yields (proceed h n) s (fun r t => t.steps < last ∧ (r = none → least + n < last)) (Stopped h last) := by
  rw [proceed, yields_bind]
  refine (advance_nearing hup hlast n s hs).mono ?_ fun _ _ hf => hf
  rintro r t ⟨ht, hle⟩
  cases r with
  | none => exact ⟨ht.before, fun _ => Nat.lt_of_le_of_lt (hle rfl) ht.before⟩
  | some d =>
    rw [yields_bind]
    refine (giveOut_nearing hup hlast renderDepth d t ht).mono ?_ fun _ _ hf => hf
    exact fun v u hu => ⟨hu.before, fun hr => absurd hr (Option.some_ne_none v)⟩

lemma call_nearing (hup : h.UpFrom time) (hlast : last % pollInterval = 0) (id : Nat) (args : List Value) (s : State)
    (hs : Nearing time last least s) :
    Yields (call h id args) s (fun _ t => Nearing time last least t) (Stopped h last) := by
  have hw : Works (nearing h time last least) h h fun _ => True := nearing_works hup hlast
  have hcall : Coupled (nearing h time last least) (fun _ => True) (call h id args) (call h id args) := by
    apply (hw.takeInAll args fun d hd => (Array.not_mem_empty d hd).elim).bind
    intro ds _
    exact (enter_nearing id ds.toList).bind fun _ _ => Coupled.pure trivial
  exact (coupled_nearing.mp hcall s hs).mono (fun _ _ ht => ht.2) fun _ _ hf => hf

end Near

def wait (time : Nat) (s : State) : Nat :=
  time - (s.clock + 1)

section Signals

variable {h : Host} {time : Nat} (hup : h.UpFrom time) (s : State)

lemma exists_nearing (time : Nat) : ∃ last, last % pollInterval = 0 ∧ last ≤ s.steps + (wait time s + pollInterval) ∧
    Nearing time last s.steps s := by
  obtain ⟨last, hlast, hlt, hle⟩ := exists_look (s.steps + wait time s)
  refine ⟨last, hlast, by omega, Nat.le_refl _, by omega, ?_⟩
  rw [wait] at hlt
  omega

include hup

lemma proceed_stops (n : Nat) : Yields (proceed h n) s
    (fun r t => t.steps < s.steps + (wait time s + pollInterval) ∧ (r = none → n < wait time s + pollInterval))
    (Stopped h (s.steps + (wait time s + pollInterval))) := by
  obtain ⟨last, hlast, hle, hs⟩ := exists_nearing s time
  refine (proceed_nearing hup hlast n s hs).mono ?_ fun _ _ hf => hf.mono hle
  rintro r t ⟨ht, hn⟩
  exact ⟨by omega, fun hr => by have := hn hr; omega⟩

lemma giveOut_stops (levels : Nat) (d : Datum) : Yields (giveOut h levels d) s
    (fun _ t => t.steps < s.steps + (wait time s + pollInterval))
    (Stopped h (s.steps + (wait time s + pollInterval))) := by
  obtain ⟨last, hlast, hle, hs⟩ := exists_nearing s time
  refine (giveOut_nearing hup hlast levels d s hs).mono ?_ fun _ _ hf => hf.mono hle
  exact fun _ t ht => Nat.lt_of_lt_of_le ht.before hle

lemma show?_stops (separator : String) (limit : Nat) (values : Array Datum) :
    Yields (show? h separator limit values) s
      (fun r t => t.clock < s.clock + (wait time s + pollInterval) ∨
        r.2 = some .interrupted ∧ t.clock ≤ s.clock + (wait time s + pollInterval))
      fun _ _ => False := by
  obtain ⟨last, hlast, hlt, hle⟩ := exists_look (wait time s)
  have hraised : h.raised (s.clock + last) = true := hup _ (by rw [wait] at hlt; omega)
  have hvisits := render_visits (fun n => h.raised (s.clock + n)) hlast (Nat.zero_lt_of_lt hlt) hraised s.heap
    separator limit values
  rw [show?, yields_modifyGet]
  dsimp only at hvisits ⊢
  rcases hvisits with hv | ⟨hstop, hv⟩
  · exact .inl (by omega)
  · exact .inr ⟨hstop, by omega⟩

lemma started_stops (id : Nat) (args : List Value) (n : Nat) : Yields (started h id args n) s
    (fun r t => t.steps < s.steps + (wait time s + pollInterval) ∧ (r = none → n < wait time s + pollInterval))
    (Stopped h (s.steps + (wait time s + pollInterval))) := by
  obtain ⟨last, hlast, hle, hs⟩ := exists_nearing s time
  rw [started, yields_bind]
  refine (call_nearing hup hlast id args s hs).mono ?_ fun _ _ hf => hf.mono hle
  intro _ t ht
  refine (proceed_nearing hup hlast n t ht).mono ?_ fun _ _ hf => hf.mono hle
  rintro r u ⟨hu, hn⟩
  exact ⟨by omega, fun hr => by have := hn hr; omega⟩

lemma started_ends (id : Nat) (args : List Value) {n : Nat} (hn : wait time s + pollInterval ≤ n) (t : State) :
    started h id args n s ≠ .ok none t := by
  intro ht
  have hlt := ((started_stops hup s id args n).ok ht).2 rfl
  omega

end Signals

/-- A signal that stays up ends every run. Whatever the program, its arrays and the state of the run: once the signal is
up, fewer than 1024 further instructions are carried out and values given out, and each rendering visits fewer than 1024
further values; after these the run is over, by itself or with the look at the signal. The same holds where the signal
goes up later, from then on, so a call from outside comes to an end, the same one however many steps it is allowed. -/
theorem raised_signal_ends_runs {h : Host} {time : Nat} (hup : h.UpFrom time) (s : State) :
    let within := wait time s + pollInterval
    (∀ n, Yields (proceed h n) s (fun r t => t.steps < s.steps + within ∧ (r = none → n < within))
      (Stopped h (s.steps + within))) ∧
    (∀ levels d, Yields (giveOut h levels d) s (fun _ t => t.steps < s.steps + within)
      (Stopped h (s.steps + within))) ∧
    (∀ separator limit values, Yields (show? h separator limit values) s
      (fun r t => t.clock < s.clock + within ∨ r.2 = some .interrupted ∧ t.clock ≤ s.clock + within)
      fun _ _ => False) ∧
    ∀ id args, ∃ r, (∀ t, r ≠ .ok none t) ∧ ∀ n, within ≤ n → started h id args n s = r := by
  refine ⟨proceed_stops hup s, giveOut_stops hup s, show?_stops hup s, fun id args => ?_⟩
  have hends := started_ends hup s id args (Nat.le_refl _)
  exact ⟨_, hends, fun n hn => Evaluation.started_ended hn hends⟩

def spinning : SourceUnit :=
  ⟨"m", "fn main() { while true { } }", true⟩

def rising (p : Program) : Host :=
  ⟨p, 8, none, (5 ≤ ·)⟩

def stopsSpinning (r : Except CompileError Program) : Bool :=
  match r with
  | .ok p => faultOf? (started (rising p) 0 [] 1028 (.start 64)) == some .interrupted
  | .error _ => false

theorem raised_signal_ends_runs_spinning : ∃ p f t, Compiler.compile {} 0 [spinning] = .ok p ∧
    f.kind = .interrupted ∧ ∀ n, 1028 ≤ n → started (rising p) 0 [] n (.start 64) = .error f t := by
  have hstops : stopsSpinning (Compiler.compile {} 0 [spinning]) = true := by decide +kernel
  cases hp : Compiler.compile {} 0 [spinning] with
  | error e =>
    rw [hp] at hstops
    cases hstops
  | ok p =>
    rw [hp] at hstops
    obtain ⟨f, t, hf, hkind⟩ := exists_fault (beq_iff_eq.mp hstops)
    have hup : (rising p).UpFrom 5 := fun t ht => decide_eq_true ht
    obtain ⟨-, -, -, hends⟩ := raised_signal_ends_runs hup (.start 64)
    obtain ⟨r, -, hr⟩ := hends 0 []
    have hwithin : wait 5 (.start 64) + pollInterval = 1028 := rfl
    rw [hwithin] at hr
    exact ⟨p, f, t, rfl, hkind, fun n hn => (hr n hn).trans ((hr 1028 (Nat.le_refl _)).symm.trans hf)⟩

end Machine

theorem Execution.proceed_ends (x : Execution) (limits : SandboxLimits) (s : Machine.State) :
    ∃ o, x.proceed limits (x.limit + pollInterval) s = .ended o := by
  have hup : (x.host limits).UpFrom x.limit := fun t ht => decide_eq_true ht
  have hstops := Machine.proceed_stops hup s (x.limit + pollInterval)
  rw [Execution.proceed]
  cases hp : (Machine.proceed (x.host limits) (x.limit + pollInterval)).run s with
  | error f t => exact ⟨_, rfl⟩
  | ok r t =>
    cases r with
    | some v => exact ⟨_, rfl⟩
    | none =>
      have hlt := (hstops.ok hp).2 rfl
      rw [Machine.wait] at hlt
      omega

end ScriptHost
