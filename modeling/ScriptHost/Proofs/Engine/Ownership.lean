import Mathlib
import ScriptHost.Proofs.Engine.Protocol

/-!
Who has a session. Accounts are kept for one session at a time: what came in, what went out and what the
parties and the books still have balance after every move, so a session that comes in once is in one place.
-/

namespace ScriptHost.Protocol

inductive Place where
  | admission
  | queue
  | worker
  | cancellation
  | drain
  | finished
deriving DecidableEq, Repr

namespace Caller

def place : Caller → Place
  | admission => .admission
  | cancellation => .cancellation
  | drain _ => .drain
  | worker => .worker

def rest : Caller → List Nat
  | drain rest => rest
  | _ => []

end Caller

namespace Party

def held : Party → List (Place × Nat)
  | entering id | queueing id => [(.admission, id)]
  | rejecting ids => ids.map (.drain, ·)
  | starting id | preparing id | counting id | compiling id | compiled id _ | launching id _ | running id _
  | leaving id _ => [(.worker, id)]
  | ending caller id _ _ => (caller.place, id) :: caller.rest.map (.drain, ·)
  | asking _ _ | seeking _ | viewing _ | withdrawing _ | stopping _ | awaiting _ | answered _ _ | draining
  | idle | .over => []

def unqueued : Party → List Nat
  | entering id | queueing id => [id]
  | _ => []

def uncompiled : Party → List Nat
  | starting id | preparing id | counting id => [id]
  | _ => []

def unlaunched : Party → List Nat
  | compiling id | compiled id _ | launching id _ => [id]
  | _ => []

def unended : Party → List Nat
  | rejecting ids => ids
  | starting id | preparing id | counting id | compiling id | compiled id _ | launching id _ | running id _
  | leaving id _ => [id]
  | ending caller id _ .count => id :: caller.rest
  | ending caller _ _ _ => caller.rest
  | _ => []

def holdsSlot : Party → Bool
  | starting _ | preparing _ | counting _ | compiling _ | compiled _ _ | launching _ _ | running _ _
  | leaving _ _ => true
  | _ => false

def isWorker : Party → Bool
  | idle | ending .worker _ _ _ => true
  | p => p.holdsSlot

end Party

def tally (kinds log : List Event) : Nat :=
  (kinds.map log.count).sum

@[simp]
lemma tally_nil (kinds : List Event) : tally kinds [] = 0 := by
  induction kinds with
  | nil => rfl
  | cons e kinds ih => simp [tally]

lemma tally_append (kinds es log : List Event) : tally kinds (es ++ log) = tally kinds es + tally kinds log := by
  induction kinds with
  | nil => rfl
  | cons e kinds ih =>
    simp only [tally, List.map_cons, List.sum_cons, List.count_append] at ih ⊢
    omega

inductive Party.Coming : Party → Prop
  | submit (now : Instant) (submission : Submission) : Coming (.asking now submission)
  | cancel (id : Nat) : Coming (.seeking id)
  | drain : Coming .draining

/-- Something that is counted in the parties, the books and the events, and that every move keeps in balance. -/
structure Account where
  party : Party → Nat
  books : Scheduler → Nat := fun _ => 0
  paid : List Event
  owed : List Event
  coming {p : Party} : p.Coming → party p = 0
  move {s s' : Scheduler} {p p' : Party} {es : List Event} : Move s p es s' p' →
    party p' + books s' + tally paid es = party p + books s + tally owed es

namespace Account

variable (a : Account)

def total (s : State) : Nat :=
  (s.parties.map a.party).sum + a.books s.books

lemma total_step {es : List Event} {s s' : State} (h : Step s es s') :
    a.total s' + tally a.paid es = a.total s + tally a.owed es := by
  cases h with
  | move m =>
    have := a.move m
    simp only [total, List.map_append, List.map_cons, List.sum_append, List.sum_cons]
    omega
  | submit now submission => simp [total, a.coming (.submit now submission)]
  | cancel id => simp [total, a.coming (.cancel id)]
  | drain => simp [total, a.coming .drain]

theorem balance {config : EngineConfig} {log : List Event} {s : State} (h : Run config log s) :
    a.total s + tally a.paid log = a.total (.start config) + tally a.owed log := by
  induction h with
  | start => simp
  | step _ hstep ih =>
    have := a.total_step hstep
    rw [tally_append, tally_append]
    omega

end Account

section Accounts

variable (i : Nat)

@[simp]
lemma count_map_drained (e : Event) (ids : List Nat) :
    (ids.map Event.drained).count e = match e with | .drained id => ids.count id | _ => 0 := by
  induction ids with
  | nil => cases e <;> rfl
  | cons id ids ih => cases e <;> simp_all [List.count_cons]

def keeping : Account where
  party p := (p.held.map Prod.snd).count i
  books s := s.queue.pending.count i
  paid := [.ended i]
  owed := [.admitted i]
  coming h := by cases h <;> rfl
  move m := by
    -- three moves change what waits, and a call that retires a session goes on as its caller does
    cases m with
    | enqueue _ _ h =>
      have := Queue.count_push? i h
      simp [Party.held, tally, this]
      omega
    | withdraw h =>
      have := Queue.count_remove? i h
      simp [Party.held, Caller.rest, tally]
      omega
    | take h =>
      have := Queue.count_pop? i h
      simp [Party.held, tally]
      omega
    | @retire c =>
      cases c <;>
        simp [Party.held, Caller.next, Caller.rest, tally, List.count_cons, Function.comp_def] <;> omega
    | _ =>
      simp [Party.held, Caller.rest, Queue.drain, tally, List.count_cons, Function.comp_def] <;> omega

def numbering : Account where
  party _ := 0
  books s := (List.range' 1 s.sessions.size).count i
  paid := []
  owed := [.admitted i]
  coming h := by cases h <;> rfl
  move m := by
    cases m with
    | allot => simp [allot, tally, List.range'_concat, List.count_cons, Nat.add_comm 1]
    | _ => simp [enter, stop, Scheduler.modifySession, tally]

def admission : Account where
  party p := p.unqueued.count i
  paid := [.queued i, .refused i]
  owed := [.admitted i]
  coming h := by cases h <;> rfl
  move m := by
    cases m with
    | @retire c => cases c <;> simp [Party.unqueued, Caller.next, tally]
    | _ => simp [Party.unqueued, Queue.drain, tally, List.count_cons]

def waiting : Account where
  party _ := 0
  books s := s.queue.pending.count i
  paid := [.taken i, .withdrawn i, .drained i]
  owed := [.queued i]
  coming h := by cases h <;> rfl
  move m := by
    cases m with
    | enqueue _ _ h =>
      have := Queue.count_push? i h
      simp [tally, List.count_cons, this]
    | withdraw h =>
      have := Queue.count_remove? i h
      simpa [tally, List.count_cons] using this
    | take h =>
      have := Queue.count_pop? i h
      simpa [tally, List.count_cons] using this
    | _ => simp [Queue.drain, tally]

def compilation : Account where
  party p := p.uncompiled.count i
  paid := [.passedOver i, .compiled i]
  owed := [.taken i]
  coming h := by cases h <;> rfl
  move m := by
    cases m with
    | @retire c => cases c <;> simp [Party.uncompiled, Caller.next, tally]
    | _ => simp [Party.uncompiled, Queue.drain, tally, List.count_cons]

def execution : Account where
  party p := p.unlaunched.count i
  paid := [.unlaunched i, .launched i]
  owed := [.compiled i]
  coming h := by cases h <;> rfl
  move m := by
    cases m with
    | @retire c => cases c <;> simp [Party.unlaunched, Caller.next, tally]
    | _ => simp [Party.unlaunched, Queue.drain, tally, List.count_cons]

def completion : Account where
  party p := p.unended.count i
  paid := [.ending i]
  owed := [.refused i, .taken i, .withdrawn i, .drained i]
  coming h := by cases h <;> rfl
  move m := by
    cases m with
    | @retire c => cases c <;> simp [Party.unended, Caller.next, Caller.rest, tally]
    | _ => simp [Party.unended, Caller.rest, Queue.drain, tally, List.count_cons]

def workers : Account where
  party p := p.isWorker.toNat
  paid := [.quit]
  owed := []
  coming h := by cases h <;> rfl
  move m := by
    cases m with
    | @count c | @judged c | @judge c | @record c | @settle c | @unsettled c | @retire c =>
      cases c <;> simp [Party.isWorker, Party.holdsSlot, Caller.next, tally]
    | _ => simp [Party.isWorker, Party.holdsSlot, Queue.drain, tally]

end Accounts

namespace Event

def isEnding : Event → Bool
  | ending _ => true
  | _ => false

end Event

section Counters

variable {s s' : Scheduler} {p p' : Party} {es : List Event}

lemma Move.completed (m : Move s p es s' p') :
    s'.stats.completed = s.stats.completed + es.countP Event.isEnding := by
  cases m with
  | enqueue _ _ h =>
    obtain ⟨-, rfl⟩ := Queue.push?_eq_some.mp h
    simp [Scheduler.stats, Event.isEnding]
  | withdraw h =>
    obtain ⟨-, rfl⟩ := Queue.remove?_eq_some.mp h
    simp [Scheduler.stats, Event.isEnding]
  | take h =>
    obtain ⟨pending, -, rfl⟩ := Queue.pop?_eq_some.mp h
    simp [Scheduler.stats, Queue.claim, Event.isEnding]
  | _ =>
    simp [Scheduler.stats, Queue.drain, Queue.recordCompilation, Queue.recordExecution, Queue.recordCompletion,
      Queue.release, Function.comp_def, Event.isEnding]

lemma Move.active (m : Move s p es s' p') (h : p.holdsSlot.toNat ≤ s.stats.active) :
    s'.stats.active + p.holdsSlot.toNat = s.stats.active + p'.holdsSlot.toNat := by
  cases m with
  | enqueue _ _ hq =>
    obtain ⟨-, rfl⟩ := Queue.push?_eq_some.mp hq
    rfl
  | withdraw hq =>
    obtain ⟨-, rfl⟩ := Queue.remove?_eq_some.mp hq
    rfl
  | take hq =>
    obtain ⟨pending, -, rfl⟩ := Queue.pop?_eq_some.mp hq
    rfl
  | release => exact Nat.sub_add_cancel h
  | @retire c => cases c <;> rfl
  | _ => rfl

end Counters

section Runs

variable {config : EngineConfig} {log : List Event} {s : State}

theorem completed_eq (h : Run config log s) : s.books.stats.completed = log.countP Event.isEnding := by
  induction h with
  | start => rfl
  | step _ hstep ih =>
    rw [List.countP_append]
    cases hstep with
    | move m =>
      have := m.completed
      simp only at ih ⊢
      omega
    | submit | cancel | drain => simpa using ih

theorem active_eq (h : Run config log s) : s.books.stats.active = s.parties.countP Party.holdsSlot := by
  induction h with
  | start =>
    rw [State.start, List.countP_replicate]
    rfl
  | step _ hstep ih =>
    cases hstep with
    | @move _ _ p p' _ before after m =>
      simp only [List.countP_append, List.countP_cons] at ih ⊢
      have := m.active
      cases hp : p.holdsSlot <;> cases hp' : p'.holdsSlot <;> simp_all <;> omega
    | submit | cancel | drain => simpa [List.countP_cons, Party.holdsSlot] using ih

lemma slots_le_workers (parties : List Party) :
    parties.countP Party.holdsSlot ≤ (parties.map workers.party).sum := by
  induction parties with
  | nil => simp
  | cons p parties ih =>
    rw [List.countP_cons, List.map_cons, List.sum_cons]
    have : (if p.holdsSlot then 1 else 0) ≤ workers.party p := by
      cases p <;> simp [workers, Party.isWorker, Party.holdsSlot]
    omega

theorem active_le (h : Run config log s) : s.books.stats.active ≤ config.workerCount := by
  have hworkers := workers.balance h
  have hslots := slots_le_workers s.parties
  have hstart : workers.total (.start config) = config.workerCount := by
    simp [Account.total, State.start, workers, Party.isWorker]
  rw [active_eq h]
  simp only [Account.total] at hworkers hstart
  simp [workers, tally] at *
  omega

lemma admitted_le_one (h : Run config log s) (i : Nat) : log.count (.admitted i) ≤ 1 := by
  have hbalance := (numbering i).balance h
  have hstart : (numbering i).total (.start config) = 0 := by
    simp [Account.total, State.start, Scheduler.ofConfig, numbering]
  have hnow : (numbering i).total s ≤ 1 := by
    have hnodup : (List.range' 1 s.books.sessions.size).Nodup := List.nodup_range'
    simpa [Account.total, numbering] using List.nodup_iff_count_le_one.mp hnodup i
  have hpaid : tally (numbering i).paid log = 0 := rfl
  have howed : tally (numbering i).owed log = log.count (.admitted i) := by simp [numbering, tally]
  omega

lemma settled_le_admitted (h : Run config log s) (i : Nat) :
    log.count (.queued i) + log.count (.refused i) ≤ log.count (.admitted i) := by
  have hbalance := (admission i).balance h
  simp [Account.total, State.start, admission, Party.unqueued, tally] at hbalance
  omega

lemma left_le_queued (h : Run config log s) (i : Nat) :
    log.count (.taken i) + log.count (.withdrawn i) + log.count (.drained i) ≤ log.count (.queued i) := by
  have hbalance := (waiting i).balance h
  simp [Account.total, State.start, Scheduler.ofConfig, waiting, tally] at hbalance
  omega

lemma compiled_le_taken (h : Run config log s) (i : Nat) :
    log.count (.compiled i) ≤ log.count (.taken i) := by
  have hbalance := (compilation i).balance h
  simp [Account.total, State.start, compilation, Party.uncompiled, tally] at hbalance
  omega

lemma launched_le_compiled (h : Run config log s) (i : Nat) :
    log.count (.launched i) ≤ log.count (.compiled i) := by
  have hbalance := (execution i).balance h
  simp [Account.total, State.start, execution, Party.unlaunched, tally] at hbalance
  omega

lemma ending_le_left (h : Run config log s) (i : Nat) :
    log.count (.ending i) ≤ log.count (.refused i) + log.count (.taken i) + log.count (.withdrawn i) +
      log.count (.drained i) := by
  have hbalance := (completion i).balance h
  simp [Account.total, State.start, completion, Party.unended, tally] at hbalance
  omega

end Runs

def places (log : List Event) (s : State) : List (Place × Nat) :=
  s.books.queue.pending.map (.queue, ·) ++ s.parties.flatMap Party.held ++ log.filterMap fun
    | .ended id => some (.finished, id)
    | _ => none

lemma count_places (log : List Event) (s : State) (i : Nat) :
    ((places log s).map Prod.snd).count i = (keeping i).total s + log.count (.ended i) := by
  have hparties : ((s.parties.flatMap Party.held).map Prod.snd).count i =
      (s.parties.map (keeping i).party).sum := by
    rw [List.map_flatMap, List.count_flatMap]
    rfl
  have hended : ((log.filterMap fun
      | .ended id => some (Place.finished, id)
      | _ => none).map Prod.snd).count i = log.count (.ended i) := by
    induction log with
    | nil => rfl
    | cons e log ih => cases e <;> simp_all [List.count_cons]
  rw [places, List.map_append, List.map_append, List.count_append, List.count_append, hparties, hended]
  simp [Account.total, keeping, Function.comp_def]
  omega

/-- In every state an engine comes to, what is admitted is in one place and with one party there. So a session
is ended once, counted once and compiled at most once, and not at all if it was refused or left the queue
without a worker. -/
theorem sessions_have_one_owner {config : EngineConfig} {log : List Event} {s : State} (h : Run config log s) :
    (∀ id, ((places log s).map Prod.snd).count id = log.count (.admitted id)) ∧
      (∀ id, log.count (.admitted id) ≤ 1) ∧ (∀ id, log.count (.ending id) ≤ 1) ∧
      s.books.stats.completed = log.countP Event.isEnding ∧
      s.books.stats.active = s.parties.countP Party.holdsSlot ∧
      s.books.stats.active ≤ config.workerCount ∧
      (∀ id, log.count (.compiled id) ≤ 1) ∧
      ∀ id, .refused id ∈ log ∨ .withdrawn id ∈ log ∨ .drained id ∈ log →
        .compiled id ∉ log ∧ .launched id ∉ log := by
  have hplaces (i : Nat) : ((places log s).map Prod.snd).count i = log.count (.admitted i) := by
    have hbalance := (keeping i).balance h
    have hstart : (keeping i).total (.start config) = 0 := by
      simp [Account.total, State.start, Scheduler.ofConfig, keeping, Party.held]
    have hpaid : tally (keeping i).paid log = log.count (.ended i) := by simp [keeping, tally]
    have howed : tally (keeping i).owed log = log.count (.admitted i) := by simp [keeping, tally]
    rw [count_places]
    omega
  have hadmitted := admitted_le_one h
  have hsettled := settled_le_admitted h
  have hleft := left_le_queued h
  have hcompiled := compiled_le_taken h
  refine ⟨hplaces, hadmitted, fun id => ?_, completed_eq h, active_eq h, active_le h, fun id => ?_,
    fun id hout => ?_⟩
  · have := ending_le_left h id
    grind
  · grind
  · have := launched_le_compiled h id
    simp only [← List.count_pos_iff] at hout ⊢
    grind

def lone : Submission :=
  { units := [{ name := "m", text := "fn main() {}", isEntry := true }] }

theorem sessions_have_one_owner_withdrawn : ∃ log s, Run { slots := 1 } log s ∧ .taken 1 ∈ log ∧
    .withdrawn 2 ∈ log ∧ .compiled 2 ∉ log ∧ ((places log s).map Prod.snd).count 2 = 1 := by
  obtain ⟨entry, hentry⟩ : ∃ entry, SourceUnit.entryOf lone.units = .ok entry := ⟨_, rfl⟩
  have hstart : Run { slots := 1 } [] (.start { slots := 1 }) := .start
  have hqueued := (hstart.wait default hentry rfl).wait default hentry rfl
  have htaken := hqueued.moves [.over, .over] (.cons (.take rfl) .nil)
  obtain ⟨yes, hrun⟩ := htaken.withdraw 2 (by decide) rfl rfl rfl
  have howned := sessions_have_one_owner hrun
  refine ⟨_, _, hrun, by decide, by decide, ?_, ?_⟩
  · exact (howned.2.2.2.2.2.2.2 2 (.inr (.inl (by decide)))).1
  · rw [howned.1]
    decide

end ScriptHost.Protocol
