import Mathlib.Tactic.Lemma
import ScriptHost.Engine.Worker

/-!
Calls on an engine that go on at the same time. A step of a call is one section under a lock, or one look at a
session or write to it, and any other call may go on between two steps. The operations of the scheduler are
what comes out when all steps of a call are taken in a row.
-/

namespace ScriptHost.Protocol

/-- Whose call ends a session; a drain goes on with the rest. -/
inductive Caller where
  | admission
  | cancellation
  | drain (rest : List Nat)
  | worker

inductive Stage where
  | count
  | judge
  | record
  | settle
  | retire (v : Verdict)

/-- A call that goes on, or a worker, by what it does next. -/
inductive Party where
  -- a submission
  | asking (now : Instant) (submission : Submission)
  | entering (id : Nat)
  | queueing (id : Nat)
  -- a cancellation
  | seeking (id : Nat)
  | viewing (id : Nat)
  | withdrawing (id : Nat)
  | stopping (id : Nat)
  | awaiting (id : Nat)
  | answered (id : Nat) (cancelled : Bool)
  -- a drain
  | draining
  | rejecting (ids : List Nat)
  -- a worker
  | idle
  | starting (id : Nat)
  | preparing (id : Nat)
  | counting (id : Nat)
  | compiling (id : Nat)
  | compiled (id : Nat) (program : Program)
  | launching (id : Nat) (program : Program)
  | running (id : Nat) (program : Program)
  | leaving (id : Nat) (ending : Ending)
  -- whoever ends a session
  | ending (caller : Caller) (id : Nat) (ending : Ending) (stage : Stage)
  | over

namespace Caller

def next (id : Nat) (v : Verdict) : Caller → Party
  | admission => .over
  | cancellation => .answered id v.isCancelled
  | drain rest => .rejecting rest
  | worker => .idle

end Caller

inductive Event where
  | admitted (id : Nat)
  | queued (id : Nat)
  | refused (id : Nat)
  | taken (id : Nat)
  | withdrawn (id : Nat)
  | drained (id : Nat)
  | passedOver (id : Nat)
  | compiled (id : Nat)
  | unlaunched (id : Nat)
  | launched (id : Nat)
  -- the end of a session is begun, and counted
  | ending (id : Nat)
  | ended (id : Nat)
  -- a worker is done
  | quit
deriving DecidableEq, Repr

/-! The two steps in which a submission becomes known. -/

def allot (s : Scheduler) (now : Instant) (submission : Submission) : Scheduler :=
  { s with
    sessions := s.sessions.push
      (.ofSubmission (s.sessions.size + 1) s.config.defaultDeadlineMs now submission) }

def enter (s : Scheduler) (id : Nat) : Scheduler :=
  { s with registry := s.registry.insert id }

def stop (s : Scheduler) (id : Nat) : Scheduler :=
  s.modifySession id fun session => { session with cancelRequested := true }

section Books

variable (s : Scheduler) (id : Nat)

@[simp]
lemma queue_allot (now : Instant) (submission : Submission) : (allot s now submission).queue = s.queue := rfl

@[simp]
lemma queue_enter : (enter s id).queue = s.queue := rfl

@[simp]
lemma queue_modifySession (f : Session → Session) : (s.modifySession id f).queue = s.queue := rfl

@[simp]
lemma queue_stop : (stop s id).queue = s.queue := rfl

end Books

/-- One step of one party, what it tells and what becomes of the books. How a compilation or a run ends is left
open, except that a compilation gives no other program or error than its own. -/
inductive Move : Scheduler → Party → List Event → Scheduler → Party → Prop
  -- a submission
  | allot {s : Scheduler} {now : Instant} {submission : Submission} :
      Move s (.asking now submission) [.admitted (s.sessions.size + 1)] (allot s now submission)
        (.entering (s.sessions.size + 1))
  | enter {s : Scheduler} {id : Nat} : Move s (.entering id) [] (enter s id) (.queueing id)
  | refuse {s : Scheduler} {id : Nat} {session : Session} {e : ShapeError} :
      s.session? id = some session → SourceUnit.entryOf session.units = .error e →
      Move s (.queueing id) [.refused id] s (.ending .admission id (.rejected e.message) .count)
  | overflow {s : Scheduler} {id : Nat} {session : Session} {entry : SourceUnit} :
      s.session? id = some session → SourceUnit.entryOf session.units = .ok entry →
      s.queue.push? id = none →
      Move s (.queueing id) [.refused id] s (.ending .admission id (.rejected "queue full") .count)
  | enqueue {s : Scheduler} {id : Nat} {session : Session} {entry : SourceUnit} {queue : Queue} :
      s.session? id = some session → SourceUnit.entryOf session.units = .ok entry →
      s.queue.push? id = some queue → Move s (.queueing id) [.queued id] { s with queue } .over
  -- a cancellation
  | find {s : Scheduler} {id : Nat} : id ∈ s.registry.known → Move s (.seeking id) [] s (.viewing id)
  | miss {s : Scheduler} {id : Nat} : id ∉ s.registry.known → Move s (.seeking id) [] s .over
  | tooLate {s : Scheduler} {id : Nat} {session : Session} :
      s.session? id = some session → session.isOver = true → Move s (.viewing id) [] s (.answered id false)
  | waits {s : Scheduler} {id : Nat} {session : Session} :
      s.session? id = some session → session.state = .queued → Move s (.viewing id) [] s (.withdrawing id)
  | goesOn {s : Scheduler} {id : Nat} {session : Session} :
      s.session? id = some session → session.isOver = false → session.state ≠ .queued →
      Move s (.viewing id) [] s (.stopping id)
  | withdraw {s : Scheduler} {id : Nat} {queue : Queue} : s.queue.remove? id = some queue →
      Move s (.withdrawing id) [.withdrawn id] { s with queue } (.ending .cancellation id .cancelled .count)
  | gone {s : Scheduler} {id : Nat} : s.queue.remove? id = none → Move s (.withdrawing id) [] s (.stopping id)
  | stop {s : Scheduler} {id : Nat} : Move s (.stopping id) [] (stop s id) (.awaiting id)
  | learn {s : Scheduler} {id : Nat} {session : Session} {v : Verdict} :
      s.session? id = some session → session.isOver = true → session.verdict = some v →
      Move s (.awaiting id) [] s (.answered id v.isCancelled)
  | unlearned {s : Scheduler} {id : Nat} {session : Session} :
      s.session? id = some session → session.isOver = true → session.verdict = none →
      Move s (.awaiting id) [] s .over
  -- a drain
  | drain {s : Scheduler} :
      Move s .draining (s.queue.drain.1.map .drained) { s with queue := s.queue.drain.2 }
        (.rejecting s.queue.drain.1)
  | reject {s : Scheduler} {id : Nat} {ids : List Nat} :
      Move s (.rejecting (id :: ids)) [] s (.ending (.drain ids) id (.rejected "engine shutting down") .count)
  | drained {s : Scheduler} : Move s (.rejecting []) [] s .over
  -- a worker
  | take {s : Scheduler} {id : Nat} {queue : Queue} : s.queue.pop? = some (id, queue) →
      Move s .idle [.taken id] { s with queue } (.starting id)
  | quit {s : Scheduler} : Move s .idle [.quit] s .over
  | skip {s : Scheduler} {id : Nat} {session : Session} :
      s.session? id = some session → session.cancelRequested = true →
      Move s (.starting id) [.passedOver id] s (.leaving id .cancelled)
  | start {s : Scheduler} {id : Nat} {session : Session} :
      s.session? id = some session → session.cancelRequested = false →
      Move s (.starting id) [] s (.preparing id)
  | prepare {s : Scheduler} {id : Nat} :
      Move s (.preparing id) [] (s.modifySession id (·.advance .compiling)) (.counting id)
  | compile {s : Scheduler} {id : Nat} :
      Move s (.counting id) [.compiled id] { s with queue := s.queue.recordCompilation } (.compiling id)
  | uncompiled {s : Scheduler} {id : Nat} {session : Session} {e : CompileError} :
      s.session? id = some session → Compiler.compile s.config.compilerLimits id session.units = .error e →
      Move s (.compiling id) [.unlaunched id] s (.leaving id (.uncompiled e))
  | stalled {s : Scheduler} {id : Nat} {reason : String} :
      Move s (.compiling id) [.unlaunched id] s (.leaving id (.uncompiled (.unavailable (.stalled reason))))
  | compiledTooLate {s : Scheduler} {id : Nat} :
      Move s (.compiling id) [.unlaunched id] s (.leaving id .compiledTooLate)
  | calledOff {s : Scheduler} {id : Nat} {session : Session} :
      s.session? id = some session → session.cancelRequested = true →
      Move s (.compiling id) [.unlaunched id] s (.leaving id .cancelled)
  | compiled {s : Scheduler} {id : Nat} {session : Session} {program : Program} :
      s.session? id = some session → Compiler.compile s.config.compilerLimits id session.units = .ok program →
      Move s (.compiling id) [] s (.compiled id program)
  | advance {s : Scheduler} {id : Nat} {program : Program} :
      Move s (.compiled id program) [] (s.modifySession id (·.advance .running)) (.launching id program)
  | launch {s : Scheduler} {id : Nat} {program : Program} :
      Move s (.launching id program) [.launched id] { s with queue := s.queue.recordExecution }
        (.running id program)
  | unlaunched {s : Scheduler} {id : Nat} {program : Program} {outcome : Outcome} {nanos : Nat} :
      Move s (.launching id program) [.unlaunched id] s (.leaving id (.executed outcome nanos))
  | executed {s : Scheduler} {id : Nat} {program : Program} {outcome : Outcome} {nanos : Nat} :
      Move s (.running id program) [] s (.leaving id (.executed outcome nanos))
  | release {s : Scheduler} {id : Nat} {e : Ending} :
      Move s (.leaving id e) [] { s with queue := s.queue.release } (.ending .worker id e .count)
  -- whoever ends a session
  | count {s : Scheduler} {c : Caller} {id : Nat} {e : Ending} :
      Move s (.ending c id e .count) [.ending id] { s with queue := s.queue.recordCompletion }
        (.ending c id e .judge)
  | judged {s : Scheduler} {c : Caller} {id : Nat} {e : Ending} {session : Session} {v : Verdict} :
      s.session? id = some session → session.verdict = some v →
      Move s (.ending c id e .judge) [] s (.ending c id e (.retire v))
  | judge {s : Scheduler} {c : Caller} {id : Nat} {e : Ending} {session : Session} :
      s.session? id = some session → session.verdict = none →
      Move s (.ending c id e .judge) [] s (.ending c id e .record)
  | record {s : Scheduler} {c : Caller} {id : Nat} {e : Ending} :
      Move s (.ending c id e .record) [] (s.modifySession id (·.record (e.verdict s.config.maxOutputBytes)))
        (.ending c id e .settle)
  | settle {s : Scheduler} {c : Caller} {id : Nat} {e : Ending} {session : Session} {v : Verdict} :
      s.session? id = some session → session.verdict = some v →
      Move s (.ending c id e .settle) [] (s.modifySession id (·.advance v.endState))
        (.ending c id e (.retire v))
  | unsettled {s : Scheduler} {c : Caller} {id : Nat} {e : Ending} {session : Session} :
      s.session? id = some session → session.verdict = none →
      Move s (.ending c id e .settle) [] s (.ending c id e (.retire (e.verdict s.config.maxOutputBytes)))
  | retire {s : Scheduler} {c : Caller} {id : Nat} {e : Ending} {v : Verdict} :
      Move s (.ending c id e (.retire v)) [.ended id]
        { s with registry := s.registry.retire s.config.retainedSessions id } (c.next id v)

structure State where
  books : Scheduler
  parties : List Party

inductive Step : State → List Event → State → Prop
  | move {s s' : Scheduler} {p p' : Party} {es : List Event} {before after : List Party} :
      Move s p es s' p' → Step ⟨s, before ++ p :: after⟩ es ⟨s', before ++ p' :: after⟩
  | submit {s : State} (now : Instant) (submission : Submission) :
      Step s [] { s with parties := .asking now submission :: s.parties }
  | cancel {s : State} (id : Nat) : Step s [] { s with parties := .seeking id :: s.parties }
  | drain {s : State} : Step s [] { s with parties := .draining :: s.parties }

def State.start (config : EngineConfig) : State :=
  ⟨.ofConfig config, List.replicate config.workerCount .idle⟩

/-- What an engine can have come to, with what was told on the way, newest first. -/
inductive Run (config : EngineConfig) : List Event → State → Prop
  | start : Run config [] (.start config)
  | step {log es : List Event} {s s' : State} : Run config log s → Step s es s' → Run config (es ++ log) s'

/-! Steps of one party in a row. -/

inductive Moves : Scheduler → Party → List Event → Scheduler → Party → Prop
  | nil {s : Scheduler} {p : Party} : Moves s p [] s p
  | cons {s s' s'' : Scheduler} {p p' p'' : Party} {es es' : List Event} :
      Move s p es s' p' → Moves s' p' es' s'' p'' → Moves s p (es' ++ es) s'' p''

lemma Moves.trans {s s' s'' : Scheduler} {p p' p'' : Party} {es es' : List Event}
    (h : Moves s p es s' p') (h' : Moves s' p' es' s'' p'') : Moves s p (es' ++ es) s'' p'' := by
  induction h with
  | nil => simpa using h'
  | cons m _ ih =>
    rw [← List.append_assoc]
    exact .cons m (ih h')

lemma Run.moves {config : EngineConfig} {log es : List Event} {s s' : Scheduler} {p p' : Party}
    (before : List Party) {after : List Party} (h : Moves s p es s' p')
    (hr : Run config log ⟨s, before ++ p :: after⟩) :
    Run config (es ++ log) ⟨s', before ++ p' :: after⟩ := by
  induction h generalizing log with
  | nil => exact hr
  | cons m _ ih =>
    rw [List.append_assoc]
    exact ih (hr.step (.move m))

/-! The operations of the scheduler. -/

section Operations

variable (s : Scheduler) {id : Nat} {session : Session}

lemma session?_eq (h : s.session? id = some session) : id ≠ 0 ∧ s.sessions[id - 1]? = some session := by
  rw [Scheduler.session?] at h
  split at h
  · cases h
  · next h0 => exact ⟨h0, h⟩

lemma modify_congr {sessions : Array Session} {i : Nat} (h : sessions[i]? = some session)
    {f g : Session → Session} (hfg : f session = g session) : sessions.modify i f = sessions.modify i g := by
  ext j hj hj'
  · simp
  · rw [Array.getElem_modify, Array.getElem_modify]
    split
    · next hij =>
      subst hij
      obtain ⟨_, hs⟩ := Array.getElem?_eq_some_iff.mp h
      rw [hs, hfg]
    · rfl

lemma modify_self {sessions : Array Session} {i : Nat} (h : sessions[i]? = some session)
    {f : Session → Session} (hf : f session = session) : sessions.modify i f = sessions := by
  rw [modify_congr h (g := id) hf]
  ext j hj hj'
  · simp
  · simp [Array.getElem_modify]

lemma modify_modify (sessions : Array Session) (i : Nat) (f g : Session → Session) :
    (sessions.modify i f).modify i g = sessions.modify i fun x => g (f x) := by
  ext j hj hj'
  · simp
  · simp only [Array.getElem_modify]
    split <;> rfl

lemma session?_modifySession (h : s.session? id = some session) (f : Session → Session) :
    (s.modifySession id f).session? id = some (f session) := by
  obtain ⟨h0, hs⟩ := session?_eq s h
  rw [Scheduler.session?, if_neg h0, Scheduler.modifySession, Array.getElem?_modify, hs]
  simp

lemma moves_finish (h : s.session? id = some session) (c : Caller) (e : Ending) :
    ∃ v, Moves s (.ending c id e .count) [.ended id, .ending id] (s.finish id e) (c.next id v) := by
  obtain ⟨-, hs⟩ := session?_eq s h
  cases hv : session.verdict with
  | some v =>
    have hsame : (session.finish s.config.maxOutputBytes e).2 = session := by simp [Session.finish, hv]
    refine ⟨v, ?_⟩
    rw [Scheduler.finish, Scheduler.modifySession, modify_self hs hsame]
    exact .cons .count (.cons (.judged h hv) (.cons .retire .nil))
  | none =>
    let v := e.verdict s.config.maxOutputBytes
    have hrecorded : (session.record v).verdict = some v := by simp [Session.record, hv]
    have hfinish : (session.finish s.config.maxOutputBytes e).2 = (session.record v).advance v.endState := by
      simp [Session.finish, hv, v]
    refine ⟨v, ?_⟩
    have hsessions : s.sessions.modify (id - 1) (fun x => (x.finish s.config.maxOutputBytes e).2) =
        (s.sessions.modify (id - 1) (·.record v)).modify (id - 1) (·.advance v.endState) := by
      rw [modify_congr hs (g := fun x => (x.record v).advance v.endState) hfinish, modify_modify]
    rw [Scheduler.finish, Scheduler.modifySession, hsessions]
    have hsession := session?_modifySession { s with queue := s.queue.recordCompletion } h (·.record v)
    exact .cons .count (.cons (.judge h hv) (.cons .record (.cons (.settle hsession hrecorded)
      (.cons .retire .nil))))

lemma moves_register (now : Instant) (submission : Submission) :
    Moves s (.asking now submission) [.admitted (s.register now submission).1] (s.register now submission).2
      (.queueing (s.register now submission).1) :=
  .cons .allot (.cons .enter .nil)

lemma session?_register (now : Instant) (submission : Submission) :
    (s.register now submission).2.session? (s.register now submission).1 =
      some (.ofSubmission (s.register now submission).1 s.config.defaultDeadlineMs now submission) := by
  simp [Scheduler.register, Scheduler.session?]

lemma moves_wait {now : Instant} {submission : Submission} {entry : SourceUnit} {queue : Queue}
    (hentry : SourceUnit.entryOf submission.units = .ok entry)
    (hqueue : (s.register now submission).2.queue.push? (s.register now submission).1 = some queue) :
    Moves s (.asking now submission)
      [.queued (s.register now submission).1, .admitted (s.register now submission).1]
      { (s.register now submission).2 with queue } .over :=
  (moves_register s now submission).trans
    (.cons (.enqueue (session?_register s now submission) hentry hqueue) .nil)

theorem moves_submit (now : Instant) (submission : Submission) :
    let r := s.submit now submission
    Moves s (.asking now submission) [.queued r.1, .admitted r.1] r.2 .over ∨
      Moves s (.asking now submission) [.ended r.1, .ending r.1, .refused r.1, .admitted r.1]
        r.2 .over := by
  intro r
  have hregister := moves_register s now submission
  have hsession := session?_register s now submission
  change Moves s _ [.queued (s.register now submission).1, _]
      ((s.register now submission).2.enqueue (s.register now submission).1 submission.units) _ ∨
    Moves s _ [_, .ending (s.register now submission).1, _, _]
      ((s.register now submission).2.enqueue (s.register now submission).1 submission.units) _
  rw [Scheduler.enqueue]
  split
  · next e he =>
    obtain ⟨v, hv⟩ := moves_finish _ hsession .admission (.rejected e.message)
    exact .inr (hregister.trans (.cons (.refuse hsession he) hv))
  · next entry hentry =>
    split
    · next hfull =>
      obtain ⟨v, hv⟩ := moves_finish _ hsession .admission (.rejected "queue full")
      exact .inr (hregister.trans (.cons (.overflow hsession hentry hfull) hv))
    · next queue hqueue => exact .inl (moves_wait s hentry hqueue)

theorem moves_withdraw (hk : id ∈ s.registry.known) (h : s.session? id = some session)
    (hq : session.state = .queued) {s' : Scheduler} (hw : s.withdraw? id = some s') :
    ∃ yes, Moves s (.seeking id) [.ended id, .ending id, .withdrawn id] s' (.answered id yes) := by
  obtain ⟨queue, hqueue, rfl⟩ := Option.map_eq_some_iff.mp hw
  obtain ⟨v, hv⟩ := moves_finish { s with queue } h .cancellation .cancelled
  exact ⟨v.isCancelled, .cons (.find hk) (.cons (.waits h hq) (.cons (.withdraw hqueue) hv))⟩

lemma session?_finish (id other : Nat) (e : Ending) (h : (s.session? other).isSome) :
    ((s.finish id e).session? other).isSome := by
  simp only [Scheduler.session?, Scheduler.finish, Scheduler.modifySession] at h ⊢
  split at h
  · cases h
  · next h0 =>
    rw [if_neg h0]
    simpa using h

lemma moves_rejecting (ids : List Nat) (h : ∀ id ∈ ids, (s.session? id).isSome) :
    ∃ es, Moves s (.rejecting ids) es
      (ids.foldl (fun s id => s.finish id (.rejected "engine shutting down")) s) .over := by
  induction ids generalizing s with
  | nil => exact ⟨_, .cons .drained .nil⟩
  | cons id ids ih =>
    obtain ⟨hid, hids⟩ := List.forall_mem_cons.mp h
    obtain ⟨session, hs⟩ := Option.isSome_iff_exists.mp hid
    obtain ⟨v, hv⟩ := moves_finish s hs (.drain ids) (.rejected "engine shutting down")
    obtain ⟨es, hes⟩ := ih (s.finish id (.rejected "engine shutting down"))
      fun other ho => session?_finish s id other _ (hids other ho)
    exact ⟨_, .cons .reject (hv.trans hes)⟩

theorem moves_drain (h : ∀ id ∈ s.queue.pending, (s.session? id).isSome) :
    ∃ es, Moves s .draining es s.drain .over := by
  obtain ⟨es, hes⟩ := moves_rejecting { s with queue := s.queue.drain.2 } s.queue.pending h
  exact ⟨_, .cons .drain hes⟩

theorem moves_claim {queue : Queue} (hp : s.queue.pop? = some (id, queue)) (h : s.session? id = some session)
    (hc : session.cancelRequested = false) :
    (Worker.claim s).2 = .compiling id ∧
      Moves s .idle [.compiled id, .taken id] (Worker.claim s).1 (.compiling id) := by
  rw [Worker.claim, hp]
  exact ⟨rfl, .cons (.take hp) (.cons (.start h hc) (.cons .prepare (.cons .compile .nil)))⟩

theorem moves_conclude (h : s.session? id = some session) (e : Ending) :
    ∃ s', Moves s (.leaving id e) [.ended id, .ending id] s' .idle ∧
      Worker.conclude s id e = Worker.claim s' := by
  obtain ⟨v, hv⟩ := moves_finish { s with queue := s.queue.release } h .worker e
  exact ⟨_, .cons .release hv, rfl⟩

end Operations

section Runs

variable {config : EngineConfig} {log : List Event} {s : State}

lemma Run.wait (h : Run config log s) (now : Instant) {submission : Submission} {entry : SourceUnit}
    {queue : Queue} (hentry : SourceUnit.entryOf submission.units = .ok entry)
    (hqueue : (s.books.register now submission).2.queue.push? (s.books.register now submission).1 = some queue) :
    Run config ([.queued (s.books.register now submission).1, .admitted (s.books.register now submission).1] ++ log)
      ⟨{ (s.books.register now submission).2 with queue }, .over :: s.parties⟩ :=
  (h.step (.submit now submission)).moves [] (moves_wait s.books hentry hqueue)

lemma Run.withdraw (h : Run config log s) (id : Nat) {session : Session} {s' : Scheduler}
    (hk : id ∈ s.books.registry.known) (hs : s.books.session? id = some session)
    (hq : session.state = .queued) (hw : s.books.withdraw? id = some s') :
    ∃ yes, Run config ([.ended id, .ending id, .withdrawn id] ++ log) ⟨s', .answered id yes :: s.parties⟩ := by
  obtain ⟨yes, hmoves⟩ := moves_withdraw s.books hk hs hq hw
  exact ⟨yes, (h.step (.cancel id)).moves [] hmoves⟩

end Runs

end ScriptHost.Protocol
