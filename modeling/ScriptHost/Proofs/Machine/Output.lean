import ScriptHost.Proofs.Machine.Parts
import ScriptHost.Proofs.Machine.Render
import ScriptHost.Proofs.Machine.Safety
import ScriptHost.Proofs.Sandbox.Lines

/-!
What a run writes. A step that carries out a call of a printing builtin writes one line, cut to the limit of its
stream, and no other step writes anything.
-/

namespace ScriptHost

def Line.on (stream : Stream) (lines : List Line) : List Line :=
  lines.filter (·.stream = stream)

lemma Line.on_append (stream : Stream) (lines more : List Line) :
    Line.on stream (lines ++ more) = Line.on stream lines ++ Line.on stream more :=
  List.filter_append lines more

namespace Machine

def Shows (lines : List Line) (s t : State) : Prop :=
  ∀ stream, t.capture stream =
    (s.capture stream).writeAll ((Line.on stream lines).map (·.written (s.capture stream).limit))

section Shows

variable {lines more : List Line} {s t u : State}

lemma shows_nil (h : ∀ stream, t.capture stream = s.capture stream) : Shows [] s t := h

lemma Shows.trans (h : Shows lines s t) (h' : Shows more t u) : Shows (lines ++ more) s u := by
  intro stream
  have hlimit : (t.capture stream).limit = (s.capture stream).limit := by
    rw [h stream, Capture.limit_writeAll]
  rw [h' stream, hlimit, h stream, Line.on_append, List.map_append, Capture.writeAll_append]

lemma shows_line {l : Line} {stream : Stream} (hl : l.stream = stream)
    (hon : t.capture stream = (s.capture stream).write (l.written (s.capture stream).limit))
    (hoff : ∀ other, other ≠ stream → t.capture other = s.capture other) : Shows [l] s t := by
  intro other
  by_cases ho : other = stream
  · subst ho
    simpa [Line.on, Capture.writeAll, hl] using hon
  · simpa [Line.on, Capture.writeAll, hl, Ne.symm ho] using hoff other ho

end Shows

def Tells {α : Type} (op : Run α) (s : State) (lines : List Line) : Prop :=
  Yields op s (fun _ t => Shows lines s t) fun _ t => Shows lines s t

section Tells

variable {α β : Type} {h : Host} {s : State} {lines : List Line}

lemma tells_pure (a : α) : Tells (pure a) s [] := shows_nil fun _ => rfl

lemma tells_fail (kind : FaultKind) (message : String) : Tells (fail h kind message : Run α) s [] :=
  shows_nil fun _ => rfl

lemma Tame.tells {op : Run α} {Q : α → State → Prop} (hop : Tame op s Q) : Tells op s [] := by
  refine Yields.mono hop (fun a t ha => shows_nil fun stream => ?_) fun f t hf => shows_nil fun stream => ?_
  · cases stream with
    | out => exact ha.1.out
    | err => exact ha.1.err
  · cases stream with
    | out => exact hf.out
    | err => exact hf.err

lemma Tells.bind {op : Run α} {k : α → Run β} (hop : Tells op s lines)
    (hk : ∀ a t, Tells (k a) t []) : Tells (op >>= k) s lines := by
  rw [Tells, yields_bind]
  refine Yields.mono hop (fun a t ht => ?_) fun f t ht => ht
  have hnil : lines ++ [] = lines := List.append_nil lines
  exact Yields.mono (hk a t) (fun b u hu => hnil ▸ ht.trans hu) fun f u hu => hnil ▸ ht.trans hu

lemma Shows.frames {frames : List Frame} {t : State} (ht : Shows lines { s with frames := frames } t) :
    Shows lines s t := by
  intro stream
  have hs := ht stream
  cases stream <;> exact hs

lemma Tells.setFrames {k : PUnit → Run α} (frames : List Frame)
    (hk : Tells (k ⟨⟩) { s with frames := frames } lines) :
    Tells ((modify fun s => { s with frames := frames }) >>= k) s lines := by
  rw [Tells, yields_bind, yields_modify]
  exact Yields.mono hk (fun _ _ ht => ht.frames) fun _ _ ht => ht.frames

lemma Tells.takeFrames {k : List Frame → Run α} (hk : Tells (k s.frames) { s with frames := [] } lines) :
    Tells ((modifyGet fun s => (s.frames, { s with frames := [] })) >>= k) s lines := by
  rw [Tells, yields_bind, yields_modifyGet]
  exact Yields.mono hk (fun _ _ ht => ht.frames) fun _ _ ht => ht.frames

end Tells

section Print

variable (h : Host) (s : State) (stream : Stream) (newline : Bool) (args : Array Datum)

def rendering : Rendering × Option RenderStop :=
  render s.heap (fun n => h.raised (s.clock + n)) " " (s.capture stream).limit args

def lineOf : Line where
  stream := stream
  text := wholeText s.heap " " args
  newline := newline
  stopped := (rendering h s stream args).2 = some .interrupted
  some_of_stopped hs := wholeText_ne_of_interrupted (by decide) (of_decide_eq_true hs)

variable {h s stream args}

lemma yields_show {Q : String × Option RenderStop → State → Prop} {E : Fault → State → Prop} :
    Yields (show? h " " (s.capture stream).limit args) s Q E ↔
      Q ((rendering h s stream args).1.text, (rendering h s stream args).2)
        { s with clock := s.clock + (rendering h s stream args).1.visits } := Iff.rfl

lemma written_stopped (hs : (rendering h s stream args).2 = some .interrupted) :
    (lineOf h s stream newline args).written (s.capture stream).limit = "" :=
  if_pos (decide_eq_true hs)

lemma written_lineOf (hs : (rendering h s stream args).2 ≠ some .interrupted) :
    (lineOf h s stream newline args).written (s.capture stream).limit =
      if newline then (rendering h s stream args).1.text.push '\n' else (rendering h s stream args).1.text := by
  have htext : (rendering h s stream args).1.text =
      Text.fit (s.capture stream).limit (wholeText s.heap " " args) := render_text hs
  rw [htext]
  exact if_neg (by simpa [lineOf] using hs)

variable (stream)

lemma capture_write (text : String) : (s.write stream text).capture stream = (s.capture stream).write text := by
  cases stream <;> rfl

lemma capture_write_ne (text : String) {other : Stream} (ho : other ≠ stream) :
    (s.write stream text).capture other = s.capture other := by
  cases stream <;> cases other <;> first | rfl | exact absurd rfl ho

variable (h s args)

lemma print_tells : Tells (print h stream newline args) s [lineOf h s stream newline args] := by
  rw [Tells, print, yields_bind, yields_get, yields_bind, yields_show]
  have hclock : ∀ other, ({ s with clock := s.clock + (rendering h s stream args).1.visits } : State).capture other
      = s.capture other := fun other => by cases other <;> rfl
  have hstream : (lineOf h s stream newline args).stream = stream := rfl
  by_cases hs : (rendering h s stream args).2 = some .interrupted
  · rw [hs]
    refine shows_line hstream ?_ fun other _ => hclock other
    rw [written_stopped newline hs, Capture.write_empty]
    exact hclock stream
  · have hwrite : Shows [lineOf h s stream newline args] s
        (({ s with clock := s.clock + (rendering h s stream args).1.visits } : State).write stream
          (if newline then (rendering h s stream args).1.text.push '\n' else (rendering h s stream args).1.text)) := by
      refine shows_line hstream ?_ fun other ho => ?_
      · rw [capture_write, hclock, written_lineOf newline hs]
      · rw [capture_write_ne stream _ ho, hclock]
    cases hstop : (rendering h s stream args).2 with
    | none => exact hwrite
    | some stop =>
      cases stop with
      | full => exact hwrite
      | interrupted => exact absurd hstop hs

end Print

section Parts

variable (h : Host) (s : State)

lemma builtin_tells {b : Builtin} (hb : ∀ stream newline, b ≠ .print stream newline) (args : List Datum) :
    Tells (builtin h b args) s [] := by
  rcases builtin_tame_or b args hb with ht | heq
  · exact ht.tells
  · rw [heq]
    exact tells_fail _ _

variable {s}

lemma resume_tells (f : Frame) (rest : List Frame) : Tells (resume f rest) s [] :=
  Tells.setFrames (f :: rest) (tells_pure none)

lemma pushing_tells {f : Frame} {rest : List Frame} {op : Run Datum} {lines : List Line}
    (hop : Tells op { s with frames := f :: rest } lines) : Tells (pushing f rest op) s lines := by
  refine Tells.setFrames (f :: rest) (hop.bind fun d t => ?_)
  apply shows_nil
  intro stream
  dsimp only
  cases t.frames <;> cases stream <;> rfl

lemma enter_tells (id : Nat) (args : List Datum) : Tells (enter h id args) s [] := by
  have hget : Tells (get : Run State) s [] := shows_nil fun _ => rfl
  rw [enter]
  apply hget.bind
  intro u t
  dsimp only
  split
  · exact tells_fail _ _
  · split
    · exact shows_nil fun stream => by cases stream <;> rfl
    · exact tells_fail _ _

lemma fall_tells {α : Type} (frames : List Frame) {op : Run α} (hop : ∀ t, Tells op t []) :
    Tells (do
      modify fun s => { s with frames := frames }
      op) s [] :=
  Tells.setFrames frames (hop _)

lemma exec_tells (f : Frame) (rest : List Frame) {i : Instr}
    (hi : ∀ stream newline argc, i ≠ .callBuiltin (.print stream newline) argc) :
    Tells (exec h { f with pc := f.pc + 1 } rest i) s [] := by
  have hgoes := exec_goesOn h rest f i
  generalize exec h { f with pc := f.pc + 1 } rest i = op at hgoes ⊢
  cases hgoes with
  | resume pc ops => exact resume_tells _ _
  | put slot d ops => exact resume_tells _ _
  | push ops ho =>
    apply pushing_tells
    rcases ho.tame_or _ with ht | ⟨b, argc, args, rfl, rfl⟩
    · exact ht.tells
    · exact builtin_tells h _ (fun stream newline hb => hi stream newline argc (by rw [hb])) args
  | store ops target index value =>
    apply fall_tells _
    intro t
    exact (storeIndex_tame target index value).tells.bind fun _ _ => tells_pure none
  | enter id args ops => exact fall_tells _ fun t => enter_tells h _ _
  | give d g below => exact shows_nil fun stream => by cases stream <;> rfl
  | last d => exact shows_nil fun stream => by cases stream <;> rfl
  | fault frames kind message => exact fall_tells _ fun t => tells_fail _ _

end Parts

section Steps

variable (h : Host)

/-- The line that an instruction writes for the innermost call `f`. Only calls of printing builtins write one. -/
def written? (s : State) (f : Frame) : Instr → Option Line
  | .callBuiltin (.print stream newline) argc =>
    if argc ≤ f.operands.length then
      some (lineOf h s stream newline (f.operands.take argc).reverse.toArray)
    else none
  | _ => none

def next? (s : State) : Option Line :=
  match s.frames with
  | [] => none
  | f :: _ => ((h.program.functions[f.function]?).bind fun g => g.code[f.pc]?).bind (written? h s f)

def line? (s : State) : Option Line :=
  match tick h s with
  | .ok _ t => next? h t
  | .error _ _ => none

def lines : Nat → State → List Line
  | 0, _ => []
  | steps + 1, s =>
    (line? h s).toList ++
      match step h s with
      | .ok none t => lines steps t
      | _ => []

variable {h} {s : State}

lemma lineOf_frames (frames : List Frame) (stream : Stream) (newline : Bool) (args : Array Datum) :
    lineOf h { s with frames := frames } stream newline args = lineOf h s stream newline args := by
  cases stream <;> rfl

lemma written?_eq_none {f : Frame} {i : Instr}
    (hi : ∀ stream newline argc, i ≠ .callBuiltin (.print stream newline) argc) : written? h s f i = none := by
  cases i with
  | callBuiltin b argc =>
    cases b with
    | print stream newline => exact absurd rfl (hi stream newline argc)
    | _ => rfl
  | _ => rfl

lemma written_tells (f : Frame) (rest : List Frame) (i : Instr) :
    Tells (exec h { f with pc := f.pc + 1 } rest i) { s with frames := [] } (written? h s f i).toList := by
  by_cases hi : ∃ stream newline argc, i = .callBuiltin (.print stream newline) argc
  · obtain ⟨stream, newline, argc, rfl⟩ := hi
    rw [written?]
    by_cases ha : argc ≤ f.operands.length
    · rw [if_pos ha, exec_callBuiltin h rest _ _ _ _ _ ha]
      apply pushing_tells
      rw [← lineOf_frames [],
        ← lineOf_frames (⟨f.function, f.pc + 1, f.locals, f.operands.drop argc⟩ :: rest)]
      exact print_tells h _ stream newline _
    · rw [if_neg ha, exec_callBuiltin_few h rest _ _ _ _ _ ha]
      exact fall_tells _ fun t => tells_fail _ _
  · have hi : ∀ stream newline argc, i ≠ .callBuiltin (.print stream newline) argc :=
      fun stream newline argc heq => hi ⟨stream, newline, argc, heq⟩
    rw [written?_eq_none hi]
    exact exec_tells h _ rest hi

lemma next_tells : Tells (do
    match ← modifyGet fun s => (s.frames, { s with frames := [] }) with
    | [] => fail h .internalError "no active frame"
    | f :: rest =>
      match (h.program.functions[f.function]?).bind fun g => g.code[f.pc]? with
      | some instr => exec h { f with pc := f.pc + 1 } rest instr
      | none => fail h .internalError "program counter out of bounds") s (next? h s).toList := by
  apply Tells.takeFrames
  rw [next?]
  cases s.frames with
  | nil => exact tells_fail _ _
  | cons f rest =>
    dsimp only
    cases (h.program.functions[f.function]?).bind fun g => g.code[f.pc]? with
    | none => exact tells_fail _ _
    | some i => exact written_tells f rest i

lemma step_tells : Tells (step h) s (line? h s).toList := by
  have htick : Tells (tick h) s [] := (tick_tame h s).tells
  rw [Tells, step, yields_bind]
  rw [Tells] at htick
  rw [Yields] at htick ⊢
  rw [line?]
  cases ht : tick h s with
  | error f t =>
    rw [ht] at htick
    exact htick
  | ok a t =>
    rw [ht] at htick
    exact Yields.mono next_tells (fun _ _ hu => htick.trans hu) fun _ _ hu => htick.trans hu

lemma advance_tells (steps : Nat) (s : State) : Tells (advance h steps) s (lines h steps s) := by
  induction steps generalizing s with
  | zero => exact tells_pure none
  | succ steps ih =>
    have hstep : Tells (step h) s (line? h s).toList := step_tells
    rw [Tells, advance, yields_bind, lines]
    rw [Tells] at hstep
    rw [Yields] at hstep ⊢
    cases hs : step h s with
    | error f t =>
      rw [hs] at hstep
      rw [List.append_nil]
      exact hstep
    | ok d t =>
      rw [hs] at hstep
      cases d with
      | some d =>
        rw [List.append_nil]
        exact hstep
      | none => exact Yields.mono (ih t) (fun _ _ hu => hstep.trans hu) fun _ _ hu => hstep.trans hu

lemma call_tells (id : Nat) (args : List Value) : Tells (call h id args) s [] := by
  rw [call]
  apply (takeInAll_tame h s #[] args).tells.bind
  intro ds t
  exact (enter_tells h id ds.toList).bind fun _ _ => tells_pure ()

lemma proceed_tells (steps : Nat) : Tells (proceed h steps) s (lines h steps s) := by
  rw [proceed]
  apply (advance_tells steps s).bind
  intro d t
  cases d with
  | some d => exact (giveOut_tame h renderDepth d t).tells.bind fun _ _ => tells_pure _
  | none => exact tells_pure none

end Steps

end Machine

end ScriptHost
