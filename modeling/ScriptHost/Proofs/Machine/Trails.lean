import ScriptHost.Proofs.Machine.Parts
import ScriptHost.Sandbox.Execution

/-!
Runs with the states on their way. A step works on the innermost call, so a call that waits for another one is as it
was when that one returns, and its locals change only where its own code stores to them.
-/

namespace ScriptHost.Machine

inductive Goes (p : Program) (i : Instr) (f : Frame) (rest : List Frame) : List Frame → Prop
  | stays (pc : Nat) (ops : List Datum) : (∀ slot, i ≠ .store slot) → pc ∈ i.targets f.pc →
      Goes p i f rest (⟨f.function, pc, f.locals, ops⟩ :: rest)
  | stores (slot pc : Nat) (d : Datum) (ops : List Datum) : i = .store slot → slot < f.locals.size →
      f.operands = d :: ops → pc ∈ i.targets f.pc →
      Goes p i f rest (⟨f.function, pc, f.locals.setIfInBounds slot d, ops⟩ :: rest)
  | calls (id pc : Nat) (g : Function) (args ops : List Datum) : i = .call id args.length →
      p.functions[id]? = some g → f.operands = args.reverse ++ ops → pc ∈ i.targets f.pc →
      Goes p i f rest (frameOf g id args :: ⟨f.function, pc, f.locals, ops⟩ :: rest)
  | returns (g : Frame) (below : List Frame) (ops : List Datum) :
      rest = g :: below → Goes p i f rest ({ g with operands := ops } :: below)

def Leads (op : Run (Option Datum)) (s : State) (Q : List Frame → Prop) : Prop :=
  Yields op s (fun r t => r = none → Q t.frames) fun _ _ => True

section Leads

variable {h : Host} {s : State} {Q : List Frame → Prop} {f : Frame} {rest : List Frame}

lemma resume_leads (hq : Q (f :: rest)) : Leads (resume f rest) s Q :=
  fun _ => hq

lemma pushing_leads {op : Run Datum} (hop : Yields op { s with frames := f :: rest }
      (fun _ t => t.frames = f :: rest) fun _ _ => True)
    (hq : ∀ d, Q ({ f with operands := d :: f.operands } :: rest)) : Leads (pushing f rest op) s Q := by
  rw [Leads, pushing, yields_bind, yields_modify, yields_bind]
  refine hop.mono ?_ fun _ _ _ => trivial
  intro d t ht
  rw [yields_bind, yields_modify, yields_pure]
  intro _
  simp only [ht]
  exact hq d

lemma Tame.frames {α : Type} {op : Run α} {R : α → State → Prop} (hop : Tame op s R) :
    Yields op s (fun _ t => t.frames = s.frames) fun _ _ => True :=
  Yields.mono hop (fun _ _ ht => ht.1.frames) fun _ _ _ => trivial

lemma enter_frames {id : Nat} {args : List Datum}
    (hq : ∀ g, h.program.functions[id]? = some g → Q (frameOf g id args :: s.frames)) :
    Yields (enter h id args) s (fun _ t => Q t.frames) fun _ _ => True := by
  by_cases hd : h.callDepth ≤ s.depth
  · rw [Yields, enter_deep hd]
    trivial
  · cases hg : h.program.functions[id]? with
    | some g =>
      rw [Yields, enter_ok hd hg]
      exact hq g hg
    | none =>
      rw [Yields, enter_none hd hg]
      trivial

lemma builtin_frames (b : Builtin) (args : List Datum) :
    Yields (builtin h b args) s (fun _ t => t.frames = s.frames) fun _ _ => True := by
  by_cases hb : ∃ stream newline, b = .print stream newline
  · obtain ⟨stream, newline, rfl⟩ := hb
    exact (print_yields _ _ _).mono (fun _ _ ht => ht.2.2.1) fun _ _ _ => trivial
  · rcases builtin_tame_or (s := s) b args fun stream newline heq => hb ⟨stream, newline, heq⟩ with ht | heq
    · exact ht.frames
    · rw [heq]
      trivial

lemma Operates.frames {i : Instr} {op : Run Datum} (ho : Operates h i op) :
    Yields op s (fun _ t => t.frames = s.frames) fun _ _ => True := by
  rcases ho.tame_or s with ht | ⟨b, argc, args, -, rfl⟩
  · exact ht.frames
  · exact builtin_frames b args

lemma exec_goes (f : Frame) (rest : List Frame) (i : Instr) :
    Leads (exec h { f with pc := f.pc + 1 } rest i) s (Goes h.program i f rest) := by
  have hgoes := exec_goesOn h rest f i
  generalize exec h { f with pc := f.pc + 1 } rest i = op at hgoes ⊢
  cases hgoes with
  | resume pc ops hi hpc => exact resume_leads (.stays pc ops hi hpc)
  | put slot d ops hi hslot hops =>
    subst hi
    exact resume_leads (.stores slot _ d ops rfl hslot hops (.head _))
  | push ops ho => exact pushing_leads ho.frames fun d => .stays _ _ ho.not_store (ho.next_target _)
  | store ops target index value hi =>
    subst hi
    rw [Leads, yields_bind, yields_modify, yields_bind]
    refine (storeIndex_tame target index value).frames.mono ?_ fun _ _ _ => trivial
    intro _ t ht _
    rw [ht]
    exact .stays _ _ nofun (.head _)
  | enter id args ops hi hops =>
    subst hi
    rw [Leads, yields_bind, yields_modify]
    refine (enter_frames fun g hg => ?_).mono (fun _ _ ht _ => ht) fun _ _ _ => trivial
    exact .calls id _ g args ops rfl hg hops (.head _)
  | give d g below hrest => exact fun _ => .returns g below _ hrest
  | last d => exact fun hnone => nomatch hnone
  | fault frames kind message => trivial

end Leads

section Step

variable {h : Host} {s t : State}

lemma step_goes (hs : step h s = .ok none t) : ∃ f rest g i, s.frames = f :: rest ∧
    h.program.functions[f.function]? = some g ∧ g.code[f.pc]? = some i ∧ Goes h.program i f rest t.frames := by
  have hsteps : Yields (step h) s (fun r t => r = none → ∃ f rest g i, s.frames = f :: rest ∧
      h.program.functions[f.function]? = some g ∧ g.code[f.pc]? = some i ∧ Goes h.program i f rest t.frames)
      fun _ _ => True := by
    rw [step, yields_bind]
    refine Yields.mono (tick_tame h s) ?_ fun _ _ _ => trivial
    rintro _ u ⟨hu, -⟩
    rw [yields_bind, yields_modifyGet, ← hu.frames]
    cases u.frames with
    | nil => trivial
    | cons f rest =>
      cases hg : h.program.functions[f.function]? with
      | none => simp only [hg, Option.bind_none]; trivial
      | some g =>
        cases hi : g.code[f.pc]? with
        | none => simp only [hg, hi, Option.bind_some]; trivial
        | some i =>
          simp only [hg, hi, Option.bind_some]
          refine Yields.mono (exec_goes _ _ _) (fun r t ht hr => ?_) fun _ _ _ => trivial
          exact ⟨f, rest, g, i, rfl, hg, hi, ht hr⟩
  exact hsteps.ok hs rfl

def Interrupted (h : Host) (s : State) : Prop :=
  ∃ f t, step h s = .error f t ∧ f.kind = .interrupted

lemma tick_ok_or (h : Host) (s : State) :
    tick h s = .ok () s.tick ∨ ∃ f t, tick h s = .error f t ∧ f.kind = .interrupted := by
  change (if s.tick.steps % pollInterval = 0 && h.raised s.tick.clock then interrupted h else pure ()) s.tick = _ ∨
    ∃ f t, (if s.tick.steps % pollInterval = 0 && h.raised s.tick.clock then interrupted h else pure ()) s.tick =
      .error f t ∧ _
  split
  · exact .inr ⟨_, _, rfl, rfl⟩
  · exact .inl rfl

lemma step_of_tick (ht : tick h s = .ok () s.tick) {f : Frame} {rest : List Frame} {g : Function} {i : Instr}
    (hframes : s.frames = f :: rest) (hg : h.program.functions[f.function]? = some g)
    (hi : g.code[f.pc]? = some i) :
    step h s = exec h { f with pc := f.pc + 1 } rest i { s.tick with frames := [] } := by
  have hframes : s.tick.frames = f :: rest := hframes
  rw [step, bind_of_ok ht, bind_modifyGet, hframes]
  simp only [hg, hi, Option.bind_some]

lemma pushing_pure (f : Frame) (rest : List Frame) (d : Datum) :
    pushing f rest (pure d) = resume { f with operands := d :: f.operands } rest := rfl

lemma step_or_interrupted {f f' : Frame} {rest : List Frame} {g : Function} {i : Instr}
    (hframes : s.frames = f :: rest) (hg : h.program.functions[f.function]? = some g)
    (hi : g.code[f.pc]? = some i)
    (hexec : exec h { f with pc := f.pc + 1 } rest i = resume f' rest) :
    (∃ t, step h s = .ok none t ∧ t.frames = f' :: rest) ∨ Interrupted h s := by
  rcases tick_ok_or h s with ht | ⟨e, u, ht, he⟩
  · have hstep := step_of_tick ht hframes hg hi
    rw [hexec] at hstep
    exact .inl ⟨_, hstep, rfl⟩
  · exact .inr ⟨e, u, bind_of_error ht _, he⟩

end Step

inductive Trail (h : Host) : State → List State → State → Prop
  | refl (s : State) : Trail h s [] s
  | step {s t u : State} {trail : List State} :
      step h s = .ok none t → Trail h t trail u → Trail h s (s :: trail) u

lemma Trail.trans {h : Host} {s t u : State} {trail trail' : List State} (hs : Trail h s trail t)
    (ht : Trail h t trail' u) : Trail h s (trail ++ trail') u := by
  induction hs with
  | refl => exact ht
  | step hstep _ ih => exact .step hstep (ih ht)

lemma exists_trail {h : Host} {s t : State} {steps : Nat} (ha : advance h steps s = .ok none t) :
    ∃ trail, Trail h s trail t := by
  induction steps generalizing s with
  | zero =>
    cases ha
    exact ⟨[], .refl _⟩
  | succ steps ih =>
    rw [advance] at ha
    cases hx : step h s with
    | error f u =>
      rw [bind_of_error hx] at ha
      cases ha
    | ok r u =>
      rw [bind_of_ok hx] at ha
      cases r with
      | none =>
        obtain ⟨trail, htrail⟩ := ih ha
        exact ⟨s :: trail, .step hx htrail⟩
      | some d => cases ha

/-- A call under way: its function and the calls around it. -/
structure Activation where
  function : Nat
  rest : List Frame

namespace Activation

variable (a : Activation)

/-- In the state `s` the call has the frame `f`, and waits for the calls `above` if there are any. -/
structure Has (f : Frame) (above : List Frame) (s : State) : Prop where
  function : f.function = a.function
  frames : s.frames = above ++ f :: a.rest

def At (pc : Nat) (s : State) : Prop :=
  ∃ f, a.Has f [] s ∧ f.pc = pc

/-- Control is in the call, at an address from `lo` on and before `hi`, or in a call that it waits for. -/
def Within (lo hi : Nat) (s : State) : Prop :=
  ∃ f above, a.Has f above s ∧ (above = [] → lo ≤ f.pc ∧ f.pc < hi)

variable {a} {h : Host} {s t : State} {f f' : Frame} {above above' : List Frame}

lemma Has.eq (hf' : a.Has f' above' s) (above : List Frame) (hs : s.frames = above ++ f :: a.rest) : f' = f := by
  have heq : (above' ++ [f']) ++ a.rest = (above ++ [f]) ++ a.rest := by
    rw [List.append_assoc, List.append_assoc]
    exact hf'.frames.symm.trans hs
  have hlast := congrArg List.getLast? (List.append_cancel_right heq)
  rw [List.getLast?_concat, List.getLast?_concat] at hlast
  exact Option.some.inj hlast

lemma Within.mono {lo hi lo' hi' : Nat} (hw : a.Within lo hi s) (hlo : lo' ≤ lo) (hhi : hi ≤ hi') :
    a.Within lo' hi' s := by
  obtain ⟨f, above, hf, hpc⟩ := hw
  exact ⟨f, above, hf, fun habove => ⟨Nat.le_trans hlo (hpc habove).1, Nat.lt_of_lt_of_le (hpc habove).2 hhi⟩⟩

def Called (a : Activation) (p : Program) (args : List Datum) (s : State) : Prop :=
  ∃ f rest g ops, s.frames = f :: rest ∧ p.functions[f.function]? = some g ∧
    g.code[f.pc]? = some (.call a.function args.length) ∧ f.operands = args.reverse ++ ops ∧
    a.rest = ⟨f.function, f.pc + 1, f.locals, ops⟩ :: rest

lemma Has.before (hs : step h s = .ok none t) (hf' : a.Has f' above' t) :
    (∃ f above, a.Has f above s) ∨
      ∃ g args, above' = [] ∧ h.program.functions[a.function]? = some g ∧ f' = frameOf g a.function args ∧
        a.Called h.program args s := by
  obtain ⟨e, rest, g, i, hframes, hg, hi, hgoes⟩ := step_goes hs
  have hts := hf'.frames
  generalize t.frames = frames at hgoes hts
  cases hgoes with
  | stays | stores =>
    cases above' with
    | nil =>
      obtain ⟨rfl, rfl⟩ := List.cons_eq_cons.mp hts
      exact .inl ⟨e, [], hf'.function, hframes⟩
    | cons inner above =>
      obtain ⟨-, rfl⟩ := List.cons_eq_cons.mp hts
      exact .inl ⟨f', e :: above, hf'.function, hframes⟩
  | calls id pc callee args ops hcall hcallee hops hpc =>
    cases above' with
    | nil =>
      obtain ⟨rfl, hrest⟩ := List.cons_eq_cons.mp hts
      obtain rfl : id = a.function := hf'.function
      subst hcall
      obtain rfl := List.mem_singleton.mp hpc
      exact .inr ⟨callee, args, rfl, hcallee, rfl, e, rest, g, ops, hframes, hg, hi, hops, hrest.symm⟩
    | cons inner above =>
      obtain ⟨-, hts⟩ := List.cons_eq_cons.mp hts
      cases above with
      | nil =>
        obtain ⟨rfl, rfl⟩ := List.cons_eq_cons.mp hts
        exact .inl ⟨e, [], hf'.function, hframes⟩
      | cons next above =>
        obtain ⟨-, rfl⟩ := List.cons_eq_cons.mp hts
        exact .inl ⟨f', e :: above, hf'.function, hframes⟩
  | returns caller below ops hrest =>
    subst hrest
    cases above' with
    | nil =>
      obtain ⟨rfl, rfl⟩ := List.cons_eq_cons.mp hts
      exact .inl ⟨caller, [e], hf'.function, hframes⟩
    | cons inner above =>
      obtain ⟨-, rfl⟩ := List.cons_eq_cons.mp hts
      exact .inl ⟨f', e :: caller :: above, hf'.function, hframes⟩

/-- A step leaves a call alone that waits for another one. In the innermost call it goes on to one of the targets of an
instruction, and keeps the locals unless that is a store, which puts the newest operand in its slot. -/
lemma Has.step (hs : step h s = .ok none t) (hf : a.Has f above s) (hf' : a.Has f' above' t) :
    above ≠ [] ∧ f'.pc = f.pc ∧ f'.locals = f.locals ∨
    above = [] ∧ ∃ g i, h.program.functions[a.function]? = some g ∧ g.code[f.pc]? = some i ∧ f'.pc ∈ i.targets f.pc ∧
      ((∀ slot, i ≠ .store slot) ∧ f'.locals = f.locals ∨
        ∃ slot d ops, i = .store slot ∧ slot < f.locals.size ∧ f.operands = d :: ops ∧
          f'.locals = f.locals.setIfInBounds slot d) := by
  obtain ⟨e, rest, g, i, hframes, hg, hi, hgoes⟩ := step_goes hs
  rw [hf.frames] at hframes
  generalize hts : t.frames = frames at hgoes
  cases above with
  | nil =>
    obtain ⟨rfl, rfl⟩ := List.cons_eq_cons.mp hframes
    refine .inr ⟨rfl, g, i, hf.function ▸ hg, hi, ?_⟩
    cases hgoes with
    | stays pc ops hplain hpc =>
      obtain rfl := hf'.eq [] hts
      exact ⟨hpc, .inl ⟨hplain, rfl⟩⟩
    | stores slot pc d ops hstore hslot hops hpc =>
      obtain rfl := hf'.eq [] hts
      exact ⟨hpc, .inr ⟨slot, d, ops, hstore, hslot, hops, rfl⟩⟩
    | calls id pc callee args ops hcall hcallee hops hpc =>
      obtain rfl := hf'.eq [frameOf callee id args] hts
      subst hcall
      exact ⟨hpc, .inl ⟨nofun, rfl⟩⟩
    | returns caller below ops hrest =>
      -- The call is over, but it has a frame in `t`.
      have hlen := congrArg List.length (hts.symm.trans hf'.frames)
      rw [hrest, List.length_append, List.length_cons, List.length_cons, List.length_cons] at hlen
      omega
  | cons inner above =>
    obtain ⟨rfl, rfl⟩ := List.cons_eq_cons.mp hframes
    refine .inl ⟨List.cons_ne_nil _ _, ?_⟩
    cases hgoes with
    | stays pc ops hplain hpc =>
      obtain rfl := hf'.eq (_ :: above) hts
      exact ⟨rfl, rfl⟩
    | stores slot pc d ops hstore hslot hops hpc =>
      obtain rfl := hf'.eq (_ :: above) hts
      exact ⟨rfl, rfl⟩
    | calls id pc callee args ops hcall hcallee hops hpc =>
      obtain rfl := hf'.eq (frameOf callee id args :: _ :: above) hts
      exact ⟨rfl, rfl⟩
    | returns caller below ops hrest =>
      cases above with
      | nil =>
        obtain ⟨rfl, rfl⟩ := List.cons_eq_cons.mp hrest
        obtain rfl := hf'.eq [] hts
        exact ⟨rfl, rfl⟩
      | cons next above =>
        obtain ⟨rfl, rfl⟩ := List.cons_eq_cons.mp hrest
        obtain rfl := hf'.eq (_ :: above) hts
        exact ⟨rfl, rfl⟩

lemma Has.trail {trail : List State} {lo hi : Nat} (ht : Trail h s trail t) (hw : ∀ u ∈ trail, a.Within lo hi u)
    (hf : a.Has f above s) (hf' : a.Has f' above' t) {g : Function}
    (hg : h.program.functions[a.function]? = some g) :
    f'.locals.size = f.locals.size ∧
      ∀ slot, (∀ pc, lo ≤ pc → pc < hi → g.code[pc]? ≠ some (.store slot)) → f'.locals[slot]? = f.locals[slot]? := by
  induction ht generalizing f above with
  | refl =>
    obtain rfl := hf'.eq above hf.frames
    exact ⟨rfl, fun _ _ => rfl⟩
  | @step s t u trail hs ht ih =>
    obtain ⟨hhere, hw⟩ := List.forall_mem_cons.mp hw
    have hmid : ∃ f₁ above₁, a.Has f₁ above₁ t := by
      cases ht with
      | refl => exact ⟨f', above', hf'⟩
      | step _ _ =>
        obtain ⟨f₁, above₁, hf₁, -⟩ := hw t List.mem_cons_self
        exact ⟨f₁, above₁, hf₁⟩
    obtain ⟨f₁, above₁, hf₁⟩ := hmid
    obtain ⟨hsize, hslots⟩ := ih hw hf₁ hf'
    have hlocals : f₁.locals = f.locals ∨ above = [] ∧ ∃ g' slot d, h.program.functions[a.function]? = some g' ∧
        g'.code[f.pc]? = some (.store slot) ∧ f₁.locals = f.locals.setIfInBounds slot d := by
      rcases hf.step hs hf₁ with
        ⟨-, -, hlocals⟩ | ⟨rfl, g', i, hg', hi, -, ⟨-, hlocals⟩ | ⟨slot, d, ops, rfl, -, -, hlocals⟩⟩
      · exact .inl hlocals
      · exact .inl hlocals
      · exact .inr ⟨rfl, g', slot, d, hg', hi, hlocals⟩
    rcases hlocals with hlocals | ⟨rfl, g', slot, d, hg', hi, hlocals⟩
    · rw [hlocals] at hsize hslots
      exact ⟨hsize, hslots⟩
    · obtain rfl : g' = g := Option.some.inj (hg'.symm.trans hg)
      rw [hlocals, Array.size_setIfInBounds] at hsize
      refine ⟨hsize, fun k hk => ?_⟩
      obtain ⟨f₂, above₂, hf₂, hpc⟩ := hhere
      obtain rfl := hf₂.eq [] hf.frames
      obtain ⟨hlo, hhi⟩ := hpc (List.append_cancel_right (hf₂.frames.symm.trans hf.frames))
      have hne : slot ≠ k := fun heq => hk f₂.pc hlo hhi (heq ▸ hi)
      rw [hslots k hk, hlocals, Array.getElem?_setIfInBounds, if_neg hne]

end Activation

end ScriptHost.Machine
