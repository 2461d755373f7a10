import ScriptHost.Proofs.Engine.Verdicts

/-!
What a cancellation answers. A call is followed from its start to its answer while any other party may go on between
its steps. What it answers is the verdict on record, unless it came when the session was over; and a session that it
took out of the queue is neither compiled nor run.
-/

namespace ScriptHost.Protocol

/-- A call that is followed: the steps that it took, newest first, each with the books that it found, and the parties
before and behind it. -/
inductive Followed (config : EngineConfig) (start : Party) :
    List (Scheduler × Party) → List Event → List Party → Scheduler → Party → List Party → Prop
  | come {log : List Event} {s : State} : Run config log s → start.Coming →
      Followed config start [] log [] s.books start s.parties
  | own {trail : List (Scheduler × Party)} {log es : List Event} {before after : List Party} {s s' : Scheduler}
      {p p' : Party} : Followed config start trail log before s p after → Move s p es s' p' →
      Followed config start ((s, p) :: trail) (es ++ log) before s' p' after
  | ahead {trail : List (Scheduler × Party)} {log es : List Event} {left right after : List Party}
      {s s' : Scheduler} {p q q' : Party} : Followed config start trail log (left ++ q :: right) s p after →
      Move s q es s' q' → Followed config start trail (es ++ log) (left ++ q' :: right) s' p after
  | behind {trail : List (Scheduler × Party)} {log es : List Event} {before left right : List Party}
      {s s' : Scheduler} {p q q' : Party} : Followed config start trail log before s p (left ++ q :: right) →
      Move s q es s' q' → Followed config start trail (es ++ log) before s' p (left ++ q' :: right)
  | call {trail : List (Scheduler × Party)} {log : List Event} {before after : List Party} {s : Scheduler}
      {p q : Party} : Followed config start trail log before s p after → q.Coming →
      Followed config start trail log (q :: before) s p after

section Histories

variable {config : EngineConfig} {start p p' : Party} {trail : List (Scheduler × Party)} {log es : List Event}
  {before after : List Party} {s s' : Scheduler}

lemma Party.Coming.step {s : State} (h : p.Coming) : Step s [] { s with parties := p :: s.parties } := by
  cases h with
  | submit now submission => exact .submit now submission
  | cancel id => exact .cancel id
  | drain => exact .drain

lemma Followed.run (h : Followed config start trail log before s p after) :
    Run config log ⟨s, before ++ p :: after⟩ := by
  induction h with
  | come hrun hcome => exact hrun.step hcome.step
  | own _ m ih => exact ih.step (.move m)
  | ahead _ m ih =>
    rw [List.append_assoc, List.cons_append] at ih ⊢
    exact ih.step (.move m)
  | behind _ m ih =>
    rw [← List.cons_append, ← List.append_assoc] at ih ⊢
    exact ih.step (.move m)
  | call _ hcome ih => exact ih.step hcome.step

lemma Followed.moves (hm : Moves s p es s' p') (h : Followed config start trail log before s p after) :
    ∃ trail', trail ⊆ trail' ∧ Followed config start trail' (es ++ log) before s' p' after := by
  induction hm generalizing trail log with
  | nil => exact ⟨trail, List.Subset.refl _, h⟩
  | cons m _ ih =>
    obtain ⟨trail', hsubset, h'⟩ := ih (h.own m)
    rw [List.append_assoc]
    exact ⟨trail', fun x hx => hsubset (List.mem_cons_of_mem _ hx), h'⟩

end Histories

def Took (id : Nat) (trail : List (Scheduler × Party)) : Prop :=
  ∃ s queue, (s, .withdrawing id) ∈ trail ∧ s.queue.remove? id = some queue

def CameTooLate (id : Nat) (trail : List (Scheduler × Party)) : Prop :=
  ∃ s x, (s, .viewing id) ∈ trail ∧ s.session? id = some x ∧ x.isOver = true

section Trails

variable {id : Nat} {trail trail' : List (Scheduler × Party)} {s : Scheduler} {p : Party}

lemma took_cons : Took id ((s, p) :: trail) ↔
    (p = .withdrawing id ∧ ∃ queue, s.queue.remove? id = some queue) ∨ Took id trail := by
  constructor
  · rintro ⟨s', queue, hmem, hq⟩
    rcases List.mem_cons.mp hmem with heq | hmem
    · cases heq
      exact .inl ⟨rfl, queue, hq⟩
    · exact .inr ⟨s', queue, hmem, hq⟩
  · rintro (⟨rfl, queue, hq⟩ | ⟨s', queue, hmem, hq⟩)
    · exact ⟨s, queue, List.mem_cons_self, hq⟩
    · exact ⟨s', queue, List.mem_cons_of_mem _ hmem, hq⟩

lemma Took.mono (h : trail ⊆ trail') : Took id trail → Took id trail' := by
  rintro ⟨s, queue, hmem, hq⟩
  exact ⟨s, queue, h hmem, hq⟩

end Trails

inductive Party.Asks (id : Nat) : Party → Prop
  | seeking : Asks id (.seeking id)
  | viewing : Asks id (.viewing id)
  | withdrawing : Asks id (.withdrawing id)
  | stopping : Asks id (.stopping id)
  | awaiting : Asks id (.awaiting id)
  | done : Asks id .over

/-- How far a cancellation has come, and what it knows of its session. -/
inductive Cancels (s : Scheduler) (id : Nat) (trail : List (Scheduler × Party)) : Party → Prop
  | asks {p : Party} : p.Asks id → ¬ Took id trail → Cancels s id trail p
  | ends {stage : Stage} : Took id trail → Cancels s id trail (.ending .cancellation id .cancelled stage)
  | tooLate {x : Session} : ¬ Took id trail → CameTooLate id trail → s.session? id = some x →
      Cancels s id trail (.answered id false)
  | learned {x : Session} {v : Verdict} : s.session? id = some x → x.verdict = some v →
      (Took id trail → v = .cancelled) → Cancels s id trail (.answered id v.isCancelled)

section Cancellations

variable {config : EngineConfig} {id : Nat} {trail : List (Scheduler × Party)} {log es : List Event}
  {before after : List Party} {s s' : Scheduler} {p p' q q' : Party}

lemma Cancels.mono (m : Move s q es s' q') (h : Cancels s id trail p) : Cancels s' id trail p := by
  cases h with
  | asks hasks hnot => exact .asks hasks hnot
  | ends htook => exact .ends htook
  | tooLate hnot hlate hx =>
    obtain ⟨x', hx', -⟩ := m.later hx
    exact .tooLate hnot hlate hx'
  | learned hx hv htook =>
    obtain ⟨x', hx', hlater⟩ := m.later hx
    exact .learned hx' (hlater.verdict hv) htook

lemma Party.Asks.own (h : p.Asks id) (hnot : ¬ Took id trail) (m : Move s p es s' p') :
    Cancels s' id ((s, p) :: trail) p' := by
  -- only the step that takes the session out of the queue adds to what was taken
  have hsame (hp : p ≠ .withdrawing id) : ¬ Took id ((s, p) :: trail) := by
    rw [took_cons]
    rintro (⟨rfl, -⟩ | htook)
    · exact hp rfl
    · exact hnot htook
  cases h with
  | seeking =>
    have hnot := hsame Party.noConfusion
    cases m with
    | find => exact .asks .viewing hnot
    | miss => exact .asks .done hnot
  | viewing =>
    have hnot := hsame Party.noConfusion
    cases m with
    | tooLate hx hover => exact .tooLate hnot ⟨s, _, List.mem_cons_self, hx, hover⟩ hx
    | waits => exact .asks .withdrawing hnot
    | goesOn => exact .asks .stopping hnot
  | withdrawing =>
    cases m with
    | withdraw hq => exact .ends (took_cons.mpr (.inl ⟨rfl, _, hq⟩))
    | gone hq =>
      refine .asks .stopping fun htook => ?_
      rcases took_cons.mp htook with ⟨-, queue, hq'⟩ | htook
      · rw [hq] at hq'
        cases hq'
      · exact hnot htook
  | stopping =>
    have hnot := hsame Party.noConfusion
    cases m with
    | stop => exact .asks .awaiting hnot
  | awaiting =>
    have hnot := hsame Party.noConfusion
    cases m with
    | learn hx _ hv => exact .learned hx hv fun htook => (hnot htook).elim
    | unlearned => exact .asks .done hnot
  | done => cases m

lemma Cancels.own (h : Cancels s id trail p) (hagrees : p.Agrees s) (m : Move s p es s' p') :
    Cancels s' id ((s, p) :: trail) p' := by
  cases h with
  | asks hasks hnot => exact hasks.own hnot m
  | @ends stage htook =>
    have htook : Took id ((s, .ending .cancellation id .cancelled stage) :: trail) := took_cons.mpr (.inr htook)
    cases m with
    | retire =>
      obtain ⟨hv, x, hx, hrecorded, -⟩ := hagrees
      exact .learned hx hrecorded fun _ => hv
    | _ => exact .ends htook
  | tooLate => cases m
  | learned => cases m

theorem Followed.cancels (h : Followed config (.seeking id) trail log before s p after) :
    Cancels s id trail p := by
  induction h with
  | come => exact .asks .seeking fun ⟨_, _, hmem, _⟩ => (List.not_mem_nil hmem).elim
  | own h m ih => exact ih.own (h.run.agrees _ List.mem_append_cons_self) m
  | ahead _ m ih => exact ih.mono m
  | behind _ m ih => exact ih.mono m
  | call _ _ ih => exact ih

lemma Followed.withdrawn {start : Party} (h : Followed config start trail log before s p after)
    (htook : Took id trail) : .withdrawn id ∈ log := by
  induction h with
  | come =>
    obtain ⟨_, _, hmem, _⟩ := htook
    cases hmem
  | own _ m ih =>
    rcases took_cons.mp htook with ⟨rfl, queue, hq⟩ | htook
    · cases m with
      | withdraw => exact List.mem_cons_self
      | gone hnone =>
        rw [hnone] at hq
        cases hq
    · exact List.mem_append_right _ (ih htook)
  | ahead _ _ ih => exact List.mem_append_right _ (ih htook)
  | behind _ _ ih => exact List.mem_append_right _ (ih htook)
  | call _ _ ih => exact ih htook

lemma Cancels.answer {yes : Bool} (h : Cancels s id trail (.answered id yes)) (htook : Took id trail) :
    yes = true := by
  cases h with
  | asks hasks => cases hasks
  | tooLate hnot => exact (hnot htook).elim
  | learned _ _ htrue =>
    rw [htrue htook]
    rfl

lemma moves_stage (c : Caller) (e : Ending) (stage : Stage) {x : Session} (h : s.session? id = some x) :
    ∃ es s' w, Moves s (.ending c id e stage) es s' (c.next id w) := by
  have hsettle {s : Scheduler} {x : Session} (h : s.session? id = some x) :
      ∃ es s' w, Moves s (.ending c id e .settle) es s' (c.next id w) := by
    cases hv : x.verdict with
    | some v => exact ⟨_, _, v, .cons (.settle h hv) (.cons .retire .nil)⟩
    | none => exact ⟨_, _, _, .cons (.unsettled h hv) (.cons .retire .nil)⟩
  have hrecord {s : Scheduler} {x : Session} (h : s.session? id = some x) :
      ∃ es s' w, Moves s (.ending c id e .record) es s' (c.next id w) := by
    obtain ⟨_, _, w, hm⟩ := hsettle (session?_modifySession s h (·.record (e.verdict s.config.maxOutputBytes)))
    exact ⟨_, _, w, .cons .record hm⟩
  have hjudge {s : Scheduler} {x : Session} (h : s.session? id = some x) :
      ∃ es s' w, Moves s (.ending c id e .judge) es s' (c.next id w) := by
    cases hv : x.verdict with
    | some v => exact ⟨_, _, v, .cons (.judged h hv) (.cons .retire .nil)⟩
    | none =>
      obtain ⟨_, _, w, hm⟩ := hrecord h
      exact ⟨_, _, w, .cons (.judge h hv) hm⟩
  cases stage with
  | count =>
    obtain ⟨_, _, w, hm⟩ := hjudge (s := { s with queue := s.queue.recordCompletion }) h
    exact ⟨_, _, w, .cons .count hm⟩
  | judge => exact hjudge h
  | record => exact hrecord h
  | settle => exact hsettle h
  | retire v => exact ⟨_, _, v, .cons .retire .nil⟩

lemma Followed.goes_on (h : Followed config (.seeking id) trail log before s p after) (htook : Took id trail) :
    ∃ es s', Moves s p es s' (.answered id true) := by
  have hcancels := h.cancels
  cases hcancels with
  | asks _ hnot => exact (hnot htook).elim
  | tooLate hnot => exact (hnot htook).elim
  | learned =>
    rw [h.cancels.answer htook]
    exact ⟨_, _, .nil⟩
  | @ends stage =>
    obtain ⟨x, hx⟩ := h.run.session_of_held List.mem_append_cons_self List.mem_cons_self
    obtain ⟨es, s', v, hm⟩ := moves_stage .cancellation .cancelled stage hx
    obtain ⟨trail', hsubset, h'⟩ := h.moves hm
    have hyes : v.isCancelled = true := h'.cancels.answer (htook.mono hsubset)
    rw [Caller.next, hyes] at hm
    exact ⟨es, s', hm⟩

lemma Run.uncompiled (h : Run config log ⟨s, before⟩) (hout : .withdrawn id ∈ log) :
    .compiled id ∉ log ∧ .launched id ∉ log := by
  have hwithdrawn := List.count_pos_iff.mpr hout
  have hadmitted := admitted_le_one h id
  have hsettled := settled_le_admitted h id
  have hleft := left_le_queued h id
  have hcompiled := compiled_le_taken h id
  have hlaunched := launched_le_compiled h id
  refine ⟨List.count_eq_zero.mp ?_, List.count_eq_zero.mp ?_⟩ <;> omega

end Cancellations

/-! What was compiled and run is counted. -/

namespace Event

def isCompiled : Event → Bool
  | compiled _ => true
  | _ => false

def isLaunched : Event → Bool
  | launched _ => true
  | _ => false

end Event

section Counters

variable {config : EngineConfig} {log : List Event} {s : State}

lemma Move.works {s s' : Scheduler} {p p' : Party} {es : List Event} (m : Move s p es s' p') :
    s'.stats.compilations = s.stats.compilations + es.countP Event.isCompiled ∧
      s'.stats.executions = s.stats.executions + es.countP Event.isLaunched := by
  cases m with
  | enqueue _ _ hq =>
    obtain ⟨-, rfl⟩ := Queue.push?_eq_some.mp hq
    exact ⟨rfl, rfl⟩
  | withdraw hq =>
    obtain ⟨-, rfl⟩ := Queue.remove?_eq_some.mp hq
    exact ⟨rfl, rfl⟩
  | take hq =>
    obtain ⟨pending, -, rfl⟩ := Queue.pop?_eq_some.mp hq
    exact ⟨rfl, rfl⟩
  | drain => simp [Scheduler.stats, Queue.drain, Function.comp_def, Event.isCompiled, Event.isLaunched]
  | _ => exact ⟨rfl, rfl⟩

theorem works_eq (h : Run config log s) :
    s.books.stats.compilations = log.countP Event.isCompiled ∧
      s.books.stats.executions = log.countP Event.isLaunched := by
  induction h with
  | start => exact ⟨rfl, rfl⟩
  | step _ hstep ih =>
    rw [List.countP_append, List.countP_append]
    cases hstep with
    | move m =>
      have := m.works
      simp only at ih ⊢
      omega
    | submit | cancel | drain => simpa using ih

end Counters

/-- However a cancellation and all other parties take their steps: yes means that the verdict on record is that the
session was cancelled; no means that it is another, or that the session was over when the call read its state; and a
call that took the session out of the queue goes on to answer yes, with the session neither compiled nor run, and so
counted neither among what was compiled nor among what was run. -/
theorem cancellations_answer_truly {config : EngineConfig} {id : Nat} {trail : List (Scheduler × Party)}
    {log : List Event} {before after : List Party} {s : Scheduler} {p : Party}
    (h : Followed config (.seeking id) trail log before s p after) :
    (∀ yes, p = .answered id yes → ∃ x, s.session? id = some x ∧ (yes = true → x.verdict = some .cancelled) ∧
        (yes = false → CameTooLate id trail ∨ ∃ v, x.verdict = some v ∧ v ≠ .cancelled)) ∧
      (Took id trail → (∃ es s', Moves s p es s' (.answered id true)) ∧ p ≠ .answered id false ∧
        .compiled id ∉ log ∧ .launched id ∉ log) ∧
      s.stats.compilations = log.countP Event.isCompiled ∧ s.stats.executions = log.countP Event.isLaunched := by
  refine ⟨fun yes hp => ?_, fun htook => ⟨h.goes_on htook, ?_, h.run.uncompiled (h.withdrawn htook)⟩, works_eq h.run⟩
  · subst hp
    cases h.cancels with
    | asks hasks => cases hasks
    | tooLate _ hlate hx => exact ⟨_, hx, fun hno => (Bool.false_ne_true hno).elim, fun _ => .inl hlate⟩
    | @learned x v hx hv =>
      refine ⟨x, hx, fun hyes => ?_, fun hno => .inr ⟨v, hv, ?_⟩⟩
      · cases v <;> first | exact hv | cases hyes
      · rintro rfl
        cases hno
  · rintro rfl
    cases h.cancels.answer htook

theorem cancellations_answer_truly_withdrawn : ∃ trail log before s after,
    Followed { slots := 1 } (.seeking 1) trail log before s (.answered 1 true) after ∧ Took 1 trail ∧
      .compiled 1 ∉ log ∧ ∃ x, s.session? 1 = some x ∧ x.verdict = some .cancelled := by
  obtain ⟨entry, hentry⟩ : ∃ entry, SourceUnit.entryOf lone.units = .ok entry := ⟨_, rfl⟩
  have hstart : Run { slots := 1 } [] (.start { slots := 1 }) := .start
  have hqueued := hstart.wait default hentry rfl
  have hviewing := (Followed.come hqueued (.cancel 1)).own (.find (by decide))
  have htaken := (hviewing.own (.waits rfl rfl)).own (.withdraw rfl)
  obtain ⟨⟨es, s, hm⟩, -⟩ := (cancellations_answer_truly htaken).2.1 (took_cons.mpr (.inl ⟨rfl, _, rfl⟩))
  obtain ⟨trail, hsubset, hanswered⟩ := htaken.moves hm
  have htook := Took.mono hsubset (took_cons.mpr (.inl ⟨rfl, _, rfl⟩))
  obtain ⟨htrue, hout, -⟩ := cancellations_answer_truly hanswered
  obtain ⟨x, hx, hyes, -⟩ := htrue true rfl
  exact ⟨trail, _, _, s, _, hanswered, htook, (hout htook).2.2.1, x, hx, hyes rfl⟩

end ScriptHost.Protocol
