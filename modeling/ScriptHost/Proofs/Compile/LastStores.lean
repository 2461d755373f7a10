import ScriptHost.Proofs.Compile.Built
import ScriptHost.Proofs.Compile.Safety
import ScriptHost.Proofs.Compile.Threads
import ScriptHost.Proofs.Machine.Reach

/-!
What loads read. Slots are used again when scopes end, and the machine knows nothing of scopes, but in every run a load
reads what was last stored to its own variable since the scope of that variable was entered, in the same call.
-/

namespace ScriptHost

open Emit (Note Op Scoped Stacked Variable paramVariables)

namespace Machine

namespace Activation

section Last

variable (a : Activation) (p : Program) (g : Function) (ns : Array Note) (x : Variable)

def Stores (d : Datum) (s : State) : Prop :=
  ∃ f n ops, a.Has f [] s ∧ g.code[f.pc]? = some (.store x.slot) ∧ ns[f.pc]? = some n ∧ n.subject = some x ∧
    f.operands = d :: ops

def Inside (s : State) : Prop :=
  ∃ f above n, a.Has f above s ∧ ns[f.pc]? = some n ∧ x ∈ n.scope ∧ x.first ≠ some f.pc

/-- What the variable has at the end of a run, of which the newest state comes first: the argument that was passed for
it to the call, or what the call last stored to it, if the call has been within its scope ever since. -/
inductive Last : List State → Datum → Prop
  | passed {s : State} {past : List State} {args : List Datum} {d : Datum} : (∀ v ∈ past.head?, a.Called p args v) →
      s.frames = frameOf g a.function args :: a.rest → x.first = none → args[x.slot]? = some d →
      a.Inside ns x s → Last (s :: past) d
  | stored {s t : State} {past : List State} {d : Datum} :
      a.Stores g ns x d s → a.Inside ns x t → Last (t :: s :: past) d
  | kept {s t : State} {past : List State} {d : Datum} :
      Last (s :: past) d → (∀ d', ¬ a.Stores g ns x d' s) → a.Inside ns x t → Last (t :: s :: past) d

end Last

variable {a : Activation} {p : Program} {g : Function} {ns : Array Note} {x : Variable} {s t : State} {f f' : Frame}
  {above above' : List Frame} {args : List Datum} {d d' : Datum}

lemma frameOf_local (g : Function) (id : Nat) {k : Nat} (hd : args[k]? = some d) :
    (frameOf g id args).locals[k]? = some d := by
  have hk : k < args.toArray.size := (List.getElem?_eq_some_iff.mp hd).1
  rw [frameOf, Array.getElem?_append_left hk, List.getElem?_toArray, hd]

lemma Has.above_eq (hf : a.Has f above s) (hf' : a.Has f' above' s) : above.length = above'.length := by
  have hlen := congrArg List.length (hf.frames.symm.trans hf'.frames)
  rw [List.length_append, List.length_append, List.length_cons, List.length_cons] at hlen
  omega

lemma Called.not_has (h : a.Called p args s) : ¬ a.Has f above s := by
  intro hf
  obtain ⟨e, rest, _, _, hframes, _, _, _, hrest⟩ := h
  have hlen := congrArg List.length (hf.frames.symm.trans hframes)
  rw [hrest, List.length_append, List.length_cons, List.length_cons, List.length_cons] at hlen
  omega

lemma Last.has {past : List State} (h : a.Last p g ns x (s :: past) d) : ∃ f above, a.Has f above s := by
  cases h with
  | passed _ _ _ _ hin | stored _ hin | kept _ _ hin =>
    obtain ⟨f, above, -, hf, -⟩ := hin
    exact ⟨f, above, hf⟩

lemma Stores.eq (h : a.Stores g ns x d s) (h' : a.Stores g ns x d' s) : d = d' := by
  obtain ⟨f, n, ops, hf, -, -, -, hops⟩ := h
  obtain ⟨f', n', ops', hf', -, -, -, hops'⟩ := h'
  obtain rfl := hf.eq [] hf'.frames
  exact (List.cons_eq_cons.mp (hops.symm.trans hops')).1

lemma Stores.has (h : a.Stores g ns x d s) : ∃ f above, a.Has f above s := by
  obtain ⟨f, -, -, hf, -⟩ := h
  exact ⟨f, [], hf⟩

lemma Last.unique {states : List State} (h : a.Last p g ns x states d) (h' : a.Last p g ns x states d') : d = d' := by
  have hcalled : ∀ {s : State} {past : List State} {args : List Datum}, (∀ v ∈ (s :: past).head?, a.Called p args v) →
      ¬ ∃ f above, a.Has f above s := fun hcalled ⟨f, above, hf⟩ => (hcalled _ rfl).not_has hf
  induction h with
  | passed hc hframes hfirst hd hin =>
    cases h' with
    | passed hc' hframes' hfirst' hd' hin' =>
      obtain ⟨hframe, -⟩ := List.cons_eq_cons.mp (hframes.symm.trans hframes')
      have hlocal := frameOf_local g a.function hd
      rw [hframe, frameOf_local g a.function hd'] at hlocal
      exact (Option.some.inj hlocal).symm
    | stored hstores => exact absurd hstores.has (hcalled hc)
    | kept hlast => exact absurd hlast.has (hcalled hc)
  | stored hstores hin =>
    cases h' with
    | passed hc' => exact absurd hstores.has (hcalled hc')
    | stored hstores' => exact hstores.eq hstores'
    | kept _ hnone => exact absurd hstores (hnone _)
  | kept hlast hnone hin ih =>
    cases h' with
    | passed hc' => exact absurd hlast.has (hcalled hc')
    | stored hstores' => exact absurd hstores' (hnone _)
    | kept hlast' => exact ih hlast'

end Activation

section Tracks

variable {h : Host} {id : Nat} {g : Function} {ns : Array Note} {P : List Variable} {s t : State} {past : List State}

/-- Each call of a function is at an address with a note, and has the last value of each variable in scope there in the
slot of that variable. -/
def Tracks (p : Program) (id : Nat) (g : Function) (ns : Array Note) (past : List State) (s : State) : Prop :=
  ∀ (a : Activation) (f : Frame) (above : List Frame), a.function = id → a.Has f above s →
    ∃ n, ns[f.pc]? = some n ∧ ∀ x ∈ n.scope, x.first ≠ some f.pc →
      ∃ d, f.locals[x.slot]? = some d ∧ a.Last p g ns x (s :: past) d

lemma tracks_called (hscoped : Scoped g ns P) (hP : Stacked P) (hfirst : ∀ x ∈ P, x.first = none) {a : Activation}
    {args : List Datum} (hargs : P.length ≤ args.length) (hframes : s.frames = frameOf g a.function args :: a.rest)
    (hc : ∀ v ∈ past.head?, a.Called h.program args v) :
    ∃ n, ns[0]? = some n ∧ ∀ x ∈ n.scope, x.first ≠ some 0 →
      ∃ d, (frameOf g a.function args).locals[x.slot]? = some d ∧ a.Last h.program g ns x (s :: past) d := by
  obtain ⟨n, hn, hcomes⟩ := hscoped.start
  refine ⟨n, hn, fun x hx hx0 => ?_⟩
  have hxP := hcomes.mem hx hx0
  have hslot := Nat.lt_of_lt_of_le (hP.slot_lt hxP) hargs
  have hd : args[x.slot]? = some args[x.slot] := List.getElem?_eq_getElem hslot
  exact ⟨_, Activation.frameOf_local g a.function hd,
    .passed hc hframes (hfirst x hxP) hd ⟨_, [], n, ⟨rfl, hframes⟩, hn, hx, hx0⟩⟩

lemma Tracks.moves (hscoped : Scoped g ns P) (htracks : Tracks h.program id g ns past s) {a : Activation} {f f' : Frame}
    {above : List Frame} (ha : a.function = id) (hf : a.Has f [] s) (hf' : a.Has f' above t) {i : Instr}
    (hi : g.code[f.pc]? = some i) (hpc : f'.pc ∈ i.targets f.pc)
    (hlocals : (∀ slot, i ≠ .store slot) ∧ f'.locals = f.locals ∨ ∃ slot d ops, i = .store slot ∧
      slot < f.locals.size ∧ f.operands = d :: ops ∧ f'.locals = f.locals.setIfInBounds slot d) :
    ∃ n, ns[f'.pc]? = some n ∧ ∀ x ∈ n.scope, x.first ≠ some f'.pc →
      ∃ d, f'.locals[x.slot]? = some d ∧ a.Last h.program g ns x (t :: s :: past) d := by
  obtain ⟨n, hn, hvars⟩ := htracks a f [] ha hf
  obtain ⟨hstacked, hsubject, hfirst⟩ := hscoped.fits f.pc i n hi hn
  obtain ⟨n', hn', hcomes⟩ := hscoped.next f.pc i n hi hn _ hpc
  have hown : ∀ {x d'}, a.Stores g ns x d' s → i = .store x.slot ∧ n.subject = some x := by
    rintro x d' ⟨f₂, n₂, ops, hf₂, hi₂, hn₂, hx, -⟩
    obtain rfl := hf.eq [] hf₂.frames
    obtain rfl := Option.some.inj (hn.symm.trans hn₂)
    exact ⟨Option.some.inj (hi.symm.trans hi₂), hx⟩
  refine ⟨n', hn', fun x hx hx' => ?_⟩
  have hin : a.Inside ns x t := ⟨f', above, n', hf', hn', hx, hx'⟩
  have hxn := hcomes.mem hx hx'
  rcases hlocals with ⟨hplain, hlocals⟩ | ⟨slot, d, ops, rfl, hslot, hops, hlocals⟩
  · have hnew : x.first ≠ some f.pc := fun heq => hplain _ (Op.plain.inj (hfirst x hxn heq).1)
    obtain ⟨d, hd, hlast⟩ := hvars x hxn hnew
    exact ⟨d, hlocals ▸ hd, .kept hlast (fun _ hstores => hplain _ (hown hstores).1) hin⟩
  · obtain ⟨y, hy, hny, rfl⟩ := hsubject slot rfl
    by_cases hxy : x = y
    · subst hxy
      refine ⟨d, ?_, .stored ⟨f, n, ops, hf, hi, hn, hny, hops⟩ hin⟩
      rw [hlocals, Array.getElem?_setIfInBounds_self_of_lt hslot]
    -- no other variable in scope has the slot that is stored to
    · have hother : n.subject ≠ some x := fun heq => hxy (Option.some.inj (heq.symm.trans hny))
      have hne : y.slot ≠ x.slot := fun heq => hxy (hstacked.eq_of_slot hy hxn heq).symm
      obtain ⟨d', hd', hlast⟩ := hvars x hxn fun heq => hother (hfirst x hxn heq).2
      refine ⟨d', ?_, .kept hlast (fun _ hstores => hother (hown hstores).2) hin⟩
      rw [hlocals, Array.getElem?_setIfInBounds_ne hne, hd']

lemma Tracks.step (hg : h.program.functions[id]? = some g) (hscoped : Scoped g ns P) (hP : Stacked P)
    (hfirst : ∀ x ∈ P, x.first = none) (harity : P.length = g.arity)
    (hall : ∀ (k : Nat) (f : Function), h.program.functions[k]? = some f → ∃ H, f.Heights h.program H)
    (htracks : Tracks h.program id g ns past s) (hs : step h s = .ok none t) :
    Tracks h.program id g ns (s :: past) t := by
  intro a f' above' ha hf'
  rcases hf'.before hs with ⟨f, above, hf⟩ | ⟨g', args, rfl, hg', rfl, hcalled⟩
  · rcases hf.step hs hf' with ⟨habove, hpc, hlocals⟩ | ⟨rfl, g', i, hg', hi, hpc, hlocals⟩
    · obtain ⟨n, hn, hvars⟩ := htracks a f above ha hf
      rw [hpc, hlocals]
      refine ⟨n, hn, fun x hx hx' => ?_⟩
      obtain ⟨d, hd, hlast⟩ := hvars x hx hx'
      refine ⟨d, hd, .kept hlast ?_ ⟨f', above', n, hf', hpc ▸ hn, hx, hpc ▸ hx'⟩⟩
      rintro d' ⟨f₂, -, -, hf₂, -⟩
      exact habove (List.length_eq_zero_iff.mp (hf.above_eq hf₂))
    · rw [ha] at hg'
      obtain rfl : g' = g := Option.some.inj (hg'.symm.trans hg)
      exact htracks.moves hscoped ha hf hf' hi hpc hlocals
  · rw [ha] at hg'
    obtain rfl : g' = g := Option.some.inj (hg'.symm.trans hg)
    have hargs : P.length ≤ args.length := by
      obtain ⟨f, rest, gf, ops, -, hgf, hcall, -⟩ := hcalled
      obtain ⟨H, hH⟩ := hall _ _ hgf
      obtain ⟨callee, hcallee, hsize⟩ := hH.range _ _ hcall
      rw [ha] at hcallee
      obtain rfl : callee = g' := Option.some.inj (hcallee.symm.trans hg)
      exact Nat.le_of_eq (harity.trans hsize)
    exact tracks_called hscoped hP hfirst hargs hf'.frames fun v hv => Option.some.inj hv ▸ hcalled

/-- A run comes to the state `t` by way of the states `trail`: a function is called from outside, and steps follow. -/
def Visits (h : Host) (trail : List State) (t : State) : Prop :=
  ∃ id args limit g s, h.program.functions[id]? = some g ∧ g.arity = args.length ∧
    call h id args (.start limit) = .ok () s ∧ Trail h s trail t

lemma Visits.tracks {trail : List State} (hv : Visits h trail t) (hg : h.program.functions[id]? = some g)
    (hscoped : Scoped g ns P) (hP : Stacked P) (hfirst : ∀ x ∈ P, x.first = none) (harity : P.length = g.arity)
    (hall : ∀ (k : Nat) (f : Function), h.program.functions[k]? = some f → ∃ H, f.Heights h.program H) :
    Tracks h.program id g ns trail.reverse t := by
  obtain ⟨entry, args, limit, g', s, hg', hargs, hcall, htrail⟩ := hv
  have hstart : Tracks h.program id g ns [] s := by
    obtain ⟨g₁, ds, hg₁, hsize, hframes⟩ := call_begins hcall
    intro a f above ha hf
    have hone := congrArg List.length (hf.frames.symm.trans hframes)
    rw [List.length_append, List.length_cons, List.length_singleton] at hone
    obtain rfl : above = [] := List.length_eq_zero_iff.mp (by omega)
    have hboth := hf.frames.symm.trans hframes
    obtain ⟨rfl, hrest⟩ := List.cons_eq_cons.mp hboth
    obtain rfl : entry = a.function := hf.function
    rw [ha] at hg₁ hg'
    obtain rfl : g₁ = g := Option.some.inj (hg₁.symm.trans hg)
    obtain rfl : g' = g₁ := Option.some.inj (hg'.symm.trans hg)
    have hds : P.length ≤ ds.length := Nat.le_of_eq (by rw [harity, hargs, hsize])
    exact tracks_called hscoped hP hfirst hds (hrest ▸ hframes) nofun
  -- The induction is on the steps; what is tracked at a state holds with all states before it.
  have hrun : ∀ {past : List State}, Tracks h.program id g ns past s →
      Tracks h.program id g ns (trail.reverse ++ past) t := by
    clear hstart hcall
    induction htrail with
    | refl s => exact fun htracks => htracks
    | @step s t u trail hs ht ih =>
      intro past htracks
      rw [List.reverse_cons, List.append_assoc, List.singleton_append]
      exact ih (htracks.step hg hscoped hP hfirst harity hall hs)
  exact List.append_nil trail.reverse ▸ hrun hstart

end Tracks

/-- What the innermost call loads in the state `t`, after the states `trail`, is the one value that the variable noted
with the load has there, and nothing but the signal keeps it from being loaded. -/
def LoadsLast (h : Host) (id : Nat) (g : Function) (ns : Array Note) (trail : List State) (t : State) : Prop :=
  ∀ (f : Frame) (rest : List Frame) (slot : Nat), t.frames = f :: rest → f.function = id →
    g.code[f.pc]? = some (.load slot) →
      ∃ n x d, ns[f.pc]? = some n ∧ n.subject = some x ∧ x ∈ n.scope ∧ x.slot = slot ∧ f.locals[slot]? = some d ∧
        (∀ d', Activation.Last ⟨id, rest⟩ h.program g ns x (t :: trail.reverse) d' ↔ d' = d) ∧
        ((∃ u, step h t = .ok none u ∧ u.frames = ⟨id, f.pc + 1, f.locals, d :: f.operands⟩ :: rest) ∨
          Interrupted h t)

lemma Tracks.loadsLast {h : Host} {id : Nat} {g : Function} {ns : Array Note} {P : List Variable} {trail : List State}
    {t : State} (htracks : Tracks h.program id g ns trail.reverse t) (hg : h.program.functions[id]? = some g)
    (hscoped : Scoped g ns P) : LoadsLast h id g ns trail t := by
  intro f rest slot hframes hf hload
  subst hf
  obtain ⟨n, hn, hvars⟩ := htracks ⟨f.function, rest⟩ f [] rfl ⟨rfl, hframes⟩
  obtain ⟨-, hsubject, hfirst⟩ := hscoped.fits f.pc _ n hload hn
  obtain ⟨x, hx, hnx, rfl⟩ := hsubject slot rfl
  obtain ⟨d, hd, hlast⟩ := hvars x hx fun heq => nomatch Op.plain.inj (hfirst x hx heq).1
  refine ⟨n, x, d, hn, hnx, hx, rfl, hd, fun d' => ⟨fun h' => h'.unique hlast, fun heq => heq ▸ hlast⟩, ?_⟩
  exact step_or_interrupted hframes hg hload (exec_load h rest f.function (f.pc + 1) f.locals f.operands hd)

end Machine

namespace OnePass

/-- The variables in scope have slots of their own, and room for them and for all that the code names is counted. When
the parameters are declared, they are counted as well. -/
structure Draft.Apart (names : List String) (d : Draft) : Prop where
  next : d.next = d.visible.length
  distinct : (d.visible.map Variable.slot).Nodup
  below : ∀ x ∈ d.visible, x.slot < d.next
  counted : d.next ≤ d.most
  used : ∀ i ∈ d.code, ∀ slot, i = .load slot ∨ i = .store slot → slot < d.most
  params : names.length ≤ d.most ∨ d.Declaring names

lemma Draft.Keeps.apart {names : List String} {d : Draft} (h : d.Keeps names) : d.Apart names := by
  obtain ⟨hsound, hparams⟩ := h
  refine ⟨hsound.next, hsound.stacked.nodup, fun x hx => hsound.next ▸ hsound.stacked.slot_lt hx, hsound.most,
    fun i hi slot hslot => hsound.used i hi slot ?_, hparams⟩
  rcases hslot with rfl | rfl <;> rfl

end OnePass

namespace Compiler

variable {units : List SourceUnit} {id : Nat} {d : Definition}

/-- Slots of variables never clash. However a submission is wrong elsewhere and wherever the limits stop it, each draft
of a function that breaks no rule has slots apart for its variables. In every run of a submission that compiles, each
load reads the last value of the variable that it was written for. -/
theorem slots_never_clash (hd : (gathered units).definitions[id]? = some d)
    (hclean : ∀ x ∈ Check.function (gathered units) d.decl, x.problem.severity = .warning) :
    (∀ limit, ∀ e ∈ OnePass.drafts limit (context (gathered units)) d, e.Apart d.decl.paramNames) ∧
    ∀ (limits : CompilerLimits) (session : Nat) (p : Program), compile limits session units = .ok p →
      ∃ g w, p.functions[id]? = some g ∧
        OnePass.build limits.functionInstructions (context (gathered units)) d = .ok g w ∧
        ∀ (h : Host) (trail : List Machine.State) (t : Machine.State), h.program = p →
          Machine.Visits h trail t → Machine.LoadsLast h id g w.draft.notes trail t := by
  have hready := gathered_ready (List.mem_of_getElem? hd) hclean
  refine ⟨fun limit e he => (OnePass.drafts_keep hready e he).apart, fun limits session p hp => ?_⟩
  have hc := (compile_ok hp).1
  have hsource : gathered units = source units := congrArg Prod.fst hc.distinct.ofUnits
  rw [hsource] at hd ⊢
  obtain ⟨w, hbuild, -, -, hw⟩ := built_in_one_pass hp (List.mem_of_getElem? hd)
  have hg : p.functions[id]? = some (Emit.function (context (source units)) d) := by
    rw [hc.getElem?, hd, Option.map_some]
  have hnotes : w.draft.notes = Emit.bodyNotes (context (source units)) d.decl := hw.noted.trans (Array.empty_append ..)
  have hscoped := Emit.function_scoped hc hd
  have hparams := (hc.ready d (List.mem_of_getElem? hd)).params
  refine ⟨_, w, hg, hbuild, fun h trail t hh hv => ?_⟩
  subst hh
  have harity : (paramVariables d.decl.paramNames).length = d.decl.arity :=
    (Emit.paramVariables_length hparams).trans (List.length_map _)
  have htracks := hv.tracks hg hscoped (Emit.paramVariables_stacked _) (Emit.paramVariables_first _) harity
    fun k f hf => Emit.function_heights hc hf
  exact hnotes ▸ htracks.loadsLast hg hscoped

def comesToLoad (args : List Value) (steps slot : Nat) (d : Datum) : Except CompileError Program → Bool
  | .error _ => false
  | .ok p =>
    match p.functions[0]?, Machine.call ⟨p, 8, none, fun _ => false⟩ 0 args (.start 64) with
    | some g, .ok _ s =>
      match Machine.advance ⟨p, 8, none, fun _ => false⟩ steps s with
      | .ok none t => g.arity == args.length && t.frames.head?.any fun f =>
          f.function == 0 && g.code[f.pc]? == some (.load slot) && f.locals[slot]? == some d
      | _ => false
    | _, _ => false

lemma exists_load {r : Except CompileError Program} {args : List Value} {steps slot : Nat} {d : Datum}
    (hr : comesToLoad args steps slot d r = true) : ∃ p g trail t f rest, r = .ok p ∧ p.functions[0]? = some g ∧
      Machine.Visits ⟨p, 8, none, fun _ => false⟩ trail t ∧ t.frames = f :: rest ∧ f.function = 0 ∧
      g.code[f.pc]? = some (.load slot) ∧ f.locals[slot]? = some d := by
  cases r with
  | error => cases hr
  | ok p =>
    rw [comesToLoad] at hr
    split at hr
    next g _ s hg hcall =>
      split at hr
      next t hadvance =>
        obtain ⟨trail, htrail⟩ := Machine.exists_trail hadvance
        cases hframes : t.frames with
        | nil => simp [hframes] at hr
        | cons f rest =>
          simp only [hframes, List.head?_cons, Option.any_some, Bool.and_eq_true, beq_iff_eq] at hr
          obtain ⟨harity, ⟨hf, hload⟩, hd⟩ := hr
          have hv : Machine.Visits ⟨p, 8, none, fun _ => false⟩ trail t :=
            ⟨0, args, 64, g, s, hg, harity, hcall, htrail⟩
          exact ⟨p, g, trail, t, f, rest, rfl, hg, hv, hframes, hf, hload, hd⟩
      next => cases hr
    next => cases hr

def siblings : SourceUnit :=
  ⟨"m", "fn main(n) { while n > 1 { let a = n - 1; n = a; } { let b = 2; return b + n; } }", true⟩

lemma siblings_definition : ∃ d, (gathered [siblings]).definitions[0]? = some d ∧
    ∀ x ∈ Check.function (gathered [siblings]) d.decl, x.problem.severity = .warning := by
  have hclean : ((gathered [siblings]).definitions[0]?.any fun d =>
      (Check.function (gathered [siblings]) d.decl).all fun x => x.problem.severity = .warning) = true := by
    decide +kernel
  obtain ⟨d, hd, hclean⟩ := (Option.any_eq_true _ _).mp hclean
  exact ⟨d, hd, fun x hx => of_decide_eq_true (List.all_eq_true.mp hclean x hx)⟩

theorem slots_never_clash_siblings : ∃ d p g w trail t f rest x,
    (gathered [siblings]).definitions[0]? = some d ∧ compile {} 0 [siblings] = .ok p ∧ p.functions[0]? = some g ∧
      (∀ e ∈ OnePass.drafts 64 (context (gathered [siblings])) d, e.Apart d.decl.paramNames) ∧
      OnePass.build 1048576 (context (gathered [siblings])) d = .ok g w ∧
      Machine.Visits ⟨p, 8, none, fun _ => false⟩ trail t ∧ t.frames = f :: rest ∧ g.code[f.pc]? = some (.load 1) ∧
      (w.draft.notes[f.pc]?).bind Note.subject = some x ∧ x.slot = 1 ∧
      Machine.Activation.Last ⟨0, rest⟩ p g w.draft.notes x (t :: trail.reverse) (.int 2) := by
  have hload : comesToLoad [.int 2] 17 1 (.int 2) (compile {} 0 [siblings]) = true := by decide +kernel
  obtain ⟨p, g, trail, t, f, rest, hp, hg, hv, hframes, hf, hcode, hslot⟩ := exists_load hload
  obtain ⟨d, hd, hclean⟩ := siblings_definition
  obtain ⟨hapart, hruns⟩ := slots_never_clash hd hclean
  obtain ⟨g', w, hg', hbuild, hloads⟩ := hruns {} 0 p hp
  obtain rfl : g' = g := Option.some.inj (hg'.symm.trans hg)
  obtain ⟨n, x, v, hn, hx, -, hxs, hvalue, hlast, -⟩ := hloads _ trail t rfl hv f rest 1 hframes hf hcode
  obtain rfl : v = .int 2 := Option.some.inj (hvalue.symm.trans hslot)
  refine ⟨d, p, g', w, trail, t, f, rest, x, hd, hp, hg, hapart 64, hbuild, hv, hframes, hcode, ?_, hxs,
    (hlast _).mpr rfl⟩
  rw [hn, Option.bind_some, hx]

end Compiler

end ScriptHost
