import Mathlib.Tactic.Lemma
import ScriptHost.Engine.Config
import ScriptHost.Engine.Queue

/-!
How a worker that finds nothing to do is called. A push puts a session into the queue and then gives a signal:
it wakes one worker that sleeps, and if none does, it is remembered, but no more than one is. A worker looks
into the queue first, and goes to sleep in a step of its own, so that both can fall between two pushes.
-/

namespace ScriptHost.Signal

inductive Waiter where
  -- is to look into the queue
  | looking
  -- found it empty, and is to wait
  | turning
  | parked
  -- was called, and is to look again
  | woken
  | busy (id : Nat)
deriving DecidableEq, Repr

namespace Waiter

def looks : Waiter → Bool
  | looking | woken => true
  | _ => false

def isAwake : Waiter → Bool
  | looking | woken | busy _ => true
  | _ => false

end Waiter

inductive Pusher where
  | pushing (id : Nat)
  | signalling
  | over
deriving DecidableEq, Repr

structure State where
  queue : Queue
  permit : Bool
  workers : List Waiter
  pushers : List Pusher
deriving DecidableEq, Repr

namespace State

def start (config : EngineConfig) : State :=
  { queue := { capacity := config.queueCapacity }
    permit := false
    workers := List.replicate config.workerCount .looking
    pushers := [] }

/-- No push goes on, no worker is called and no signal is remembered. -/
def Settled (s : State) : Prop :=
  (∀ p ∈ s.pushers, p = .over) ∧ Waiter.woken ∉ s.workers ∧ s.permit = false

end State

inductive Step : State → State → Prop
  | call {q : Queue} {permit : Bool} {ws : List Waiter} {ps : List Pusher} (id : Nat) :
      Step ⟨q, permit, ws, ps⟩ ⟨q, permit, ws, .pushing id :: ps⟩
  | push {q q' : Queue} {id : Nat} {permit : Bool} {ws : List Waiter} (left : List Pusher)
      {right : List Pusher} : q.push? id = some q' →
      Step ⟨q, permit, ws, left ++ .pushing id :: right⟩ ⟨q', permit, ws, left ++ .signalling :: right⟩
  | refuse {q : Queue} {id : Nat} {permit : Bool} {ws : List Waiter} (left : List Pusher)
      {right : List Pusher} : q.push? id = none →
      Step ⟨q, permit, ws, left ++ .pushing id :: right⟩ ⟨q, permit, ws, left ++ .over :: right⟩
  | wake {q : Queue} {permit : Bool} (before : List Waiter) {after : List Waiter} (left : List Pusher)
      {right : List Pusher} :
      Step ⟨q, permit, before ++ .parked :: after, left ++ .signalling :: right⟩
        ⟨q, permit, before ++ .woken :: after, left ++ .over :: right⟩
  | remember {q : Queue} {permit : Bool} {ws : List Waiter} (left : List Pusher) {right : List Pusher} :
      .parked ∉ ws →
      Step ⟨q, permit, ws, left ++ .signalling :: right⟩ ⟨q, true, ws, left ++ .over :: right⟩
  | take {q q' : Queue} {id : Nat} {permit : Bool} {w : Waiter} (before : List Waiter) {after : List Waiter}
      {ps : List Pusher} : w.looks = true → q.pop? = some (id, q') →
      Step ⟨q, permit, before ++ w :: after, ps⟩ ⟨q', permit, before ++ .busy id :: after, ps⟩
  | miss {q : Queue} {permit : Bool} {w : Waiter} (before : List Waiter) {after : List Waiter}
      {ps : List Pusher} : w.looks = true → q.pop? = none →
      Step ⟨q, permit, before ++ w :: after, ps⟩ ⟨q, permit, before ++ .turning :: after, ps⟩
  | again {q : Queue} (before : List Waiter) {after : List Waiter} {ps : List Pusher} :
      Step ⟨q, true, before ++ .turning :: after, ps⟩ ⟨q, false, before ++ .looking :: after, ps⟩
  | park {q : Queue} (before : List Waiter) {after : List Waiter} {ps : List Pusher} :
      Step ⟨q, false, before ++ .turning :: after, ps⟩ ⟨q, false, before ++ .parked :: after, ps⟩
  | finish {q : Queue} {id : Nat} {permit : Bool} (before : List Waiter) {after : List Waiter}
      {ps : List Pusher} :
      Step ⟨q, permit, before ++ .busy id :: after, ps⟩ ⟨q.release, permit, before ++ .looking :: after, ps⟩

inductive Reached (config : EngineConfig) (allowed : State → Prop) : State → Prop
  | start : Reached config allowed (.start config)
  | step {s s' : State} : Reached config allowed s → allowed s → Step s s' → Reached config allowed s'

section Waiting

variable {config : EngineConfig} {allowed : State → Prop} {s s' : State}

/-- Someone sees to it that the queue is looked into, if anything waits. -/
def Attended (s : State) : Prop :=
  s.queue.pending = [] ∨ s.permit = true ∨ .signalling ∈ s.pushers ∨ ∃ w ∈ s.workers, w.isAwake = true

lemma attended_of_awake {q : Queue} {permit : Bool} {w : Waiter} {before after : List Waiter} {ps : List Pusher}
    (hw : w.isAwake = true) : Attended ⟨q, permit, before ++ w :: after, ps⟩ :=
  .inr (.inr (.inr ⟨w, by simp, hw⟩))

lemma Step.attended (h : Step s s') (hs : Attended s) : Attended s' := by
  cases h with
  | call id => simpa [Attended] using hs
  | push left hq => exact .inr (.inr (.inl (by simp)))
  | refuse left hq => simpa [Attended] using hs
  | wake => exact attended_of_awake rfl
  | remember left hq => exact .inr (.inl rfl)
  | take before hw hq => exact attended_of_awake rfl
  | miss before hw hq => exact .inl (Queue.pop?_eq_none.mp hq)
  | again => exact attended_of_awake rfl
  | park => simpa [Attended, Waiter.isAwake, or_and_right, exists_or] using hs
  | finish => exact attended_of_awake rfl

theorem Reached.attended (h : Reached config allowed s) : Attended s := by
  induction h with
  | start => exact .inl rfl
  | step _ _ hstep ih => exact hstep.attended ih

/-- Signals are remembered while no worker sleeps, and else there is one under way for each session. -/
structure Heard (s : State) : Prop where
  remembered : s.permit = true → .parked ∉ s.workers
  underway : s.permit = false → 0 < s.workers.count .parked + s.workers.count .turning →
    s.queue.pending.length ≤ s.pushers.count .signalling + s.workers.count .woken

lemma Step.heard (h : Step s s') (hone : s.workers.count .turning ≤ 1) (hs : Heard s) : Heard s' := by
  obtain ⟨hremembered, hunderway⟩ := hs
  cases h with
  | call id => exact ⟨hremembered, by simpa using hunderway⟩
  | push left hq =>
    obtain ⟨-, rfl⟩ := Queue.push?_eq_some.mp hq
    refine ⟨hremembered, fun hp hrest => ?_⟩
    have := hunderway hp hrest
    simp at this ⊢
    omega
  | refuse left hq => exact ⟨hremembered, by simpa using hunderway⟩
  | wake =>
    refine ⟨fun hp => absurd (hremembered hp) (by simp), fun hp _ => ?_⟩
    have := hunderway hp (Nat.add_pos_left (List.count_pos_iff.mpr (by simp)) _)
    simp at this ⊢
    omega
  | remember left hq => exact ⟨fun _ => hq, fun hp => by cases hp⟩
  | @take _ _ _ _ w _ _ _ hw hq =>
    obtain ⟨pending, hpending, rfl⟩ := Queue.pop?_eq_some.mp hq
    refine ⟨fun hp => ?_, fun hp hrest => ?_⟩
    · have := hremembered hp
      simp at this ⊢
      exact ⟨this.1, this.2.2⟩
    · cases w <;> cases hw
      all_goals
        have := hunderway hp (by simp at hrest ⊢; omega)
        simp [hpending] at this ⊢
        omega
  | miss before hw hq =>
    refine ⟨fun hp => ?_, fun hp hrest => ?_⟩
    · have := hremembered hp
      simp at this ⊢
      exact ⟨this.1, this.2.2⟩
    · rw [Queue.pop?_eq_none.mp hq]
      exact Nat.zero_le _
  | again =>
    -- the worker that takes the signal is the only one that was to wait, and nobody sleeps
    refine ⟨fun hp => by (cases hp), fun _ hrest => ?_⟩
    have hnone := List.count_eq_zero.mpr (hremembered rfl)
    simp only [List.count_append, List.count_cons, beq_self_eq_true, beq_iff_eq, reduceCtorEq, if_true, if_false]
      at hone hnone hrest
    omega
  | park =>
    refine ⟨fun hp => by (cases hp), fun hp _ => ?_⟩
    have := hunderway hp (Nat.add_pos_right _ (List.count_pos_iff.mpr (by simp)))
    simpa using this
  | finish =>
    refine ⟨fun hp => ?_, fun hp hrest => ?_⟩
    · simpa using hremembered hp
    · have := hunderway hp (by simpa using hrest)
      simpa using this

theorem Reached.heard (hone : ∀ s, allowed s → s.workers.count .turning ≤ 1) (h : Reached config allowed s) :
    Heard s := by
  induction h with
  | start => exact ⟨fun hp => by (cases hp), fun _ _ => Nat.zero_le _⟩
  | step _ hallowed hstep ih => exact hstep.heard (hone _ hallowed) ih

/-- Not every worker sleeps while a session waits; and none does, if no two ever were between their look into
the queue and their sleep at once. -/
theorem waiting_sessions_are_attended (h : Reached config allowed s) (hsettled : s.Settled)
    (hwaits : s.queue.pending ≠ []) :
    (∃ w ∈ s.workers, w.isAwake = true) ∧
      ((∀ s, allowed s → s.workers.count .turning ≤ 1) → .parked ∉ s.workers) := by
  obtain ⟨hover, hwoken, hpermit⟩ := hsettled
  have hsignal : .signalling ∉ s.pushers := fun hmem => by cases hover _ hmem
  refine ⟨?_, fun hone hparked => ?_⟩
  · rcases h.attended with hp | hp | hp | hawake
    · exact absurd hp hwaits
    · rw [hpermit] at hp
      cases hp
    · exact absurd hp hsignal
    · exact hawake
  · have hrest := List.count_pos_iff.mpr hparked
    have hlength := (h.heard hone).underway hpermit (by omega)
    rw [List.count_eq_zero.mpr hsignal, List.count_eq_zero.mpr hwoken] at hlength
    exact hwaits (List.length_eq_zero_iff.mp (Nat.le_zero.mp hlength))

end Waiting

def stranded : State :=
  { queue := { capacity := none, pending := [2], stats := { queued := 1, active := 1, peakActive := 1 } }
    permit := false
    workers := [.busy 1, .parked]
    pushers := [.over, .over] }

lemma reached_stranded : Reached { slots := 2 } (fun _ => True) stranded := by
  have hstart : Reached { slots := 2 } (fun _ => True) (.start { slots := 2 }) := .start
  have hturned := (hstart.step trivial (.miss [] rfl rfl)).step trivial (.miss [_] rfl rfl)
  have hfirst := ((hturned.step trivial (.call 1)).step trivial (.push [] rfl)).step trivial
    (.remember [] (by decide))
  have hsecond := ((hfirst.step trivial (.call 2)).step trivial (.push [] rfl)).step trivial
    (.remember [] (by decide))
  have htaken := (hsecond.step trivial (.again [])).step trivial (.take [] rfl rfl)
  exact htaken.step trivial (.park [_])

theorem worker_sleeps_beside_waiting_session :
    ∃ s, Reached { slots := 2 } (fun _ => True) s ∧ s.Settled ∧ s.queue.pending ≠ [] ∧ .parked ∈ s.workers :=
  ⟨stranded, reached_stranded, by simp [stranded, State.Settled], by decide, by decide⟩

theorem waiting_sessions_are_attended_stranded :
    ∃ w ∈ stranded.workers, w.isAwake = true :=
  (waiting_sessions_are_attended reached_stranded (by simp [stranded, State.Settled]) (by decide)).1

end ScriptHost.Signal
