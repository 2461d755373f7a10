import Mathlib.Data.List.Basic
import Mathlib.Logic.Function.Iterate
import Mathlib.Tactic.Lemma
import ScriptHost.Session.Basic

/-!
Calls that end one session, move it on or look at it, all at the same time. An end reads the verdict, records its own
unless there is one, reads again, and moves the session to the state that goes with what it read; between two of these
steps any other call may go on.
-/

namespace ScriptHost

namespace Session

def Settled (s : Session) : Prop :=
  s.isOver = true → ∃ v, s.verdict = some v ∧ s.state = v.endState

/-- What a session can become: its verdict stays, and so does the state in which it is over. -/
structure Later (s s' : Session) : Prop where
  verdict {v : Verdict} : s.verdict = some v → s'.verdict = some v
  state : s.isOver = true → s'.state = s.state

namespace Later

variable {s s' s'' : Session}

lemma refl (s : Session) : s.Later s where
  verdict hv := hv
  state _ := rfl

lemma isOver (h : s.Later s') (hs : s.isOver = true) : s'.isOver = true := by
  rw [Session.isOver, h.state hs]
  exact hs

lemma trans (h : s.Later s') (h' : s'.Later s'') : s.Later s'' where
  verdict hv := h'.verdict (h.verdict hv)
  state hs := (h'.state (h.isOver hs)).trans (h.state hs)

end Later

section Writes

variable (s : Session)

lemma verdict_advance (next : SessionState) : (s.advance next).verdict = s.verdict := by
  rw [advance]
  split <;> rfl

lemma advance_of_isOver (next : SessionState) (h : s.isOver = true) : s.advance next = s := by
  rw [advance, if_pos h]

lemma state_advance (next : SessionState) (h : s.isOver = false) : (s.advance next).state = next := by
  rw [advance, h]
  rfl

lemma isOver_advance {next : SessionState} (hnext : next.isTerminal = false) :
    (s.advance next).isOver = s.isOver := by
  cases hs : s.isOver with
  | true => rwa [advance_of_isOver s next hs]
  | false => rw [isOver, state_advance s next hs, hnext]

lemma later_record (v : Verdict) : s.Later (s.record v) where
  verdict hv := by rw [record, hv, Option.some_or]
  state _ := rfl

lemma later_advance (next : SessionState) : s.Later (s.advance next) where
  verdict hv := by rw [verdict_advance, hv]
  state hs := by rw [advance_of_isOver s next hs]

lemma isSome_record (v : Verdict) : (s.record v).verdict.isSome = true := by
  rw [record, Option.isSome_or, Option.isSome_some, Bool.or_true]

variable {s}

lemma Settled.record (h : s.Settled) (v : Verdict) : (s.record v).Settled := by
  intro hover
  obtain ⟨w, hw, hstate⟩ := h hover
  exact ⟨w, (s.later_record v).verdict hw, hstate⟩

lemma Settled.advance (h : s.Settled) {next : SessionState} (hnext : next.isTerminal = false) :
    (s.advance next).Settled := by
  intro hover
  rw [isOver_advance s hnext] at hover
  rw [advance_of_isOver s next hover]
  exact h hover

lemma Settled.settle (h : s.Settled) {v : Verdict} (hv : s.verdict = some v) : (s.advance v.endState).Settled := by
  cases hs : s.isOver with
  | true => rwa [advance_of_isOver s v.endState hs]
  | false => exact fun _ => ⟨v, by rw [verdict_advance, hv], state_advance s v.endState hs⟩

lemma isOver_settle (v : Verdict) : (s.advance v.endState).isOver = true := by
  cases hs : s.isOver with
  | true => rwa [advance_of_isOver s v.endState hs]
  | false =>
    rw [Session.isOver, state_advance s v.endState hs]
    exact v.isTerminal_endState

end Writes

end Session

namespace Finishing

inductive Request where
  | finish (ending : Ending)
  | advance (next : SessionState) (going : next.isTerminal = false)
  | view

/-- A call that goes on, by what it does next. -/
inductive Call where
  -- an end
  | judging (ending : Ending)
  | recording (v : Verdict)
  | confirming (v : Verdict)
  | settling (v : Verdict)
  | returned (v : Verdict)
  -- progress
  | advancing (next : SessionState) (going : next.isTerminal = false)
  | advanced
  -- a look at the state and then at the verdict
  | viewing
  | viewed (state : SessionState)
  | seen (state : SessionState) (verdict : Option Verdict)

def Request.call : Request → Call
  | finish e => .judging e
  | advance next going => .advancing next going
  | view => .viewing

namespace Call

/-- The next step of a call, and what becomes of the session. -/
def act (limit : Nat) (s : Session) : Call → Session × Call
  | judging e =>
    match s.verdict with
    | some v => (s, returned v)
    | none => (s, recording (e.verdict limit))
  | recording v => (s.record v, confirming v)
  | confirming v =>
    match s.verdict with
    | some w => (s, settling w)
    | none => (s, returned v)
  | settling v => (s.advance v.endState, returned v)
  | returned v => (s, returned v)
  | advancing next _ => (s.advance next, advanced)
  | advanced => (s, advanced)
  | viewing => (s, viewed s.state)
  | viewed state => (s, seen state s.verdict)
  | seen state verdict => (s, seen state verdict)

def left? : Call → Option Nat
  | judging _ => some 4
  | recording _ => some 3
  | confirming _ => some 2
  | settling _ => some 1
  | returned _ => some 0
  | _ => none

lemma left?_eq_zero {c : Call} (h : c.left? = some 0) : ∃ v, c = returned v := by
  cases c <;> first | exact ⟨_, rfl⟩ | cases h

lemma left?_act (limit : Nat) (s : Session) {c : Call} {n : Nat} (h : c.left? = some n) :
    ∃ m, (c.act limit s).2.left? = some m ∧ m ≤ n - 1 := by
  cases c with
  | judging | confirming =>
    cases h
    cases hv : s.verdict <;> simp [act, hv, left?]
  | recording | settling | returned =>
    cases h
    exact ⟨_, rfl, by decide⟩
  | advancing | advanced | viewing | viewed | seen => cases h

def Knows (s : Session) : Call → Prop
  | confirming _ => s.verdict.isSome = true
  | settling v => s.verdict = some v
  | returned v => s.verdict = some v
  | viewed state => state.isTerminal = true → ∃ v, s.verdict = some v ∧ state = v.endState
  | seen state verdict => state.isTerminal = true → ∃ v, verdict = some v ∧ s.verdict = some v ∧ state = v.endState
  | judging _ | recording _ | advancing _ _ | advanced | viewing => True

lemma Knows.mono {s s' : Session} {c : Call} (h : s.Later s') (hc : c.Knows s) : c.Knows s' := by
  cases c with
  | confirming =>
    obtain ⟨v, hv⟩ := Option.isSome_iff_exists.mp hc
    exact Option.isSome_iff_exists.mpr ⟨v, h.verdict hv⟩
  | settling | returned => exact h.verdict hc
  | viewed =>
    intro hover
    obtain ⟨v, hv, hstate⟩ := hc hover
    exact ⟨v, h.verdict hv, hstate⟩
  | seen =>
    intro hover
    obtain ⟨v, hseen, hv, hstate⟩ := hc hover
    exact ⟨v, hseen, h.verdict hv, hstate⟩
  | judging | recording | advancing | advanced | viewing => trivial

section Step

variable (limit : Nat) {s : Session}

lemma later_act (c : Call) : s.Later (c.act limit s).1 := by
  cases c with
  | judging | confirming =>
    rw [act]
    split <;> exact .refl s
  | recording v => exact s.later_record v
  | settling v => exact s.later_advance v.endState
  | advancing next => exact s.later_advance next
  | returned | advanced | viewing | viewed | seen => exact .refl s

lemma settled_act {c : Call} (hs : s.Settled) (hc : c.Knows s) : (c.act limit s).1.Settled := by
  cases c with
  | judging | confirming =>
    rw [act]
    split <;> exact hs
  | recording v => exact hs.record v
  | settling v => exact hs.settle hc
  | advancing next going => exact hs.advance going
  | returned | advanced | viewing | viewed | seen => exact hs

lemma knows_act {c : Call} (hs : s.Settled) (hc : c.Knows s) : (c.act limit s).2.Knows (c.act limit s).1 := by
  cases c with
  | judging e =>
    rw [act]
    split
    · next v hv => exact hv
    · trivial
  | recording v => exact s.isSome_record v
  | confirming v =>
    rw [act]
    split
    · next w hw => exact hw
    · next hnone =>
      -- the second read comes after a record, so it finds a verdict
      rw [Knows, hnone] at hc
      cases hc
  | settling v => exact (s.later_advance v.endState).verdict hc
  | returned v => exact hc
  | viewing => exact hs
  | viewed state =>
    intro hover
    obtain ⟨v, hv, hstate⟩ := hc hover
    exact ⟨v, hv, hv, hstate⟩
  | seen state verdict => exact hc
  | advancing | advanced => trivial

end Step

end Call

structure State where
  session : Session
  calls : List Call := []

/-- What happens next: a call comes, or one of those that came takes a step. -/
inductive Event where
  | come (request : Request)
  | turn (i : Nat)

def Event.isTurn (i : Nat) : Event → Bool
  | turn j => i == j
  | come _ => false

namespace State

def next (limit : Nat) (s : State) : Event → State
  | .come r => { s with calls := s.calls ++ [r.call] }
  | .turn i =>
    match s.calls[i]? with
    | none => s
    | some c => ⟨(c.act limit s.session).1, s.calls.set i (c.act limit s.session).2⟩

def run (limit : Nat) (s : State) (schedule : List Event) : State :=
  schedule.foldl (next limit) s

structure Sound (s : State) : Prop where
  session : s.session.Settled
  calls : ∀ c ∈ s.calls, c.Knows s.session

variable (limit : Nat) {s : State}

lemma later_next (e : Event) : s.session.Later (s.next limit e).session := by
  cases e with
  | come r => exact .refl _
  | turn i =>
    rw [next]
    split
    · exact .refl _
    · exact Call.later_act limit _

lemma Sound.next (h : s.Sound) (e : Event) : (s.next limit e).Sound := by
  cases e with
  | come r =>
    refine ⟨h.session, fun c hc => ?_⟩
    rcases List.mem_append.mp hc with hc | hc
    · exact h.calls c hc
    · rw [List.mem_singleton.mp hc]
      cases r <;> trivial
  | turn i =>
    rw [State.next]
    split
    · exact h
    · next c hc =>
      have hknows := h.calls c (List.mem_of_getElem? hc)
      refine ⟨Call.settled_act limit h.session hknows, fun d hd => ?_⟩
      rcases List.mem_or_eq_of_mem_set hd with hd | rfl
      · exact (h.calls d hd).mono (Call.later_act limit c)
      · exact Call.knows_act limit h.session hknows

lemma later_run (schedule : List Event) : s.session.Later (s.run limit schedule).session := by
  induction schedule generalizing s with
  | nil => exact .refl _
  | cons e schedule ih => exact (later_next limit e).trans ih

lemma Sound.run (h : s.Sound) (schedule : List Event) : (s.run limit schedule).Sound := by
  induction schedule generalizing s with
  | nil => exact h
  | cons e schedule ih => exact ih (h.next limit e)

lemma left?_next {i n : Nat} {c : Call} (hc : s.calls[i]? = some c) (hn : c.left? = some n) (e : Event) :
    ∃ d m, (s.next limit e).calls[i]? = some d ∧ d.left? = some m ∧ m ≤ n - (e.isTurn i).toNat := by
  cases e with
  | come r =>
    have hi := (List.getElem?_eq_some_iff.mp hc).1
    refine ⟨c, n, ?_, hn, Nat.le_refl n⟩
    rw [State.next, List.getElem?_append_left hi, hc]
  | turn j =>
    by_cases hij : i = j
    · subst hij
      obtain ⟨m, hm, hle⟩ := Call.left?_act limit s.session hn
      have hi := (List.getElem?_eq_some_iff.mp hc).1
      refine ⟨(c.act limit s.session).2, m, ?_, hm, by simpa [Event.isTurn] using hle⟩
      rw [State.next, hc]
      simp [hi]
    · have hturn : (Event.turn j).isTurn i = false := beq_false_of_ne hij
      refine ⟨c, n, ?_, hn, by rw [hturn]; exact Nat.le_refl n⟩
      rw [State.next]
      split
      · exact hc
      · rw [List.getElem?_set_ne (Ne.symm hij), hc]

lemma left?_run {i n : Nat} {c : Call} (hc : s.calls[i]? = some c) (hn : c.left? = some n) (schedule : List Event) :
    ∃ d m, (s.run limit schedule).calls[i]? = some d ∧ d.left? = some m ∧
      m ≤ n - schedule.countP (Event.isTurn i) := by
  induction schedule generalizing s c n with
  | nil => exact ⟨c, n, hc, hn, Nat.le_refl n⟩
  | cons e schedule ih =>
    obtain ⟨d, m, hd, hm, hle⟩ := left?_next limit hc hn e
    obtain ⟨d', m', hd', hm', hle'⟩ := ih hd hm
    refine ⟨d', m', hd', hm', ?_⟩
    rw [List.countP_cons]
    cases h : e.isTurn i <;> simp [h] at hle ⊢ <;> omega

lemma sound_of_queued {session : Session} (h : session.state = .queued) : Sound ⟨session, []⟩ where
  session hover := by
    rw [Session.isOver, h] at hover
    cases hover
  calls _ hc := (List.not_mem_nil hc).elim

end State

theorem run_finish (limit : Nat) (e : Ending) (s : Session) :
    State.run limit ⟨s, []⟩ (.come (.finish e) :: List.replicate 4 (.turn 0)) =
      ⟨(s.finish limit e).2, [.returned (s.finish limit e).1]⟩ := by
  cases hv : s.verdict with
  | some v => simp [State.run, State.next, Request.call, Call.act, Session.finish, hv]
  | none => simp [State.run, State.next, Request.call, Call.act, Session.finish, Session.record, hv]

/-- Whatever calls come to a new session, and in whatever order they take their steps: the verdict that is recorded
stays, a session that is over has it and stays in the state that goes with it, an end returns it once it has taken its
steps, and who sees that the session is over sees it too. -/
theorem verdict_is_settled_once (limit id deadlineMs : Nat) (created : Instant) (submission : Submission)
    (before after : List Event) :
    let s := State.run limit ⟨.ofSubmission id deadlineMs created submission, []⟩ before
    let s' := s.run limit after
    (∀ v, s.session.verdict = some v → s'.session.verdict = some v) ∧
      (s.session.isOver = true → ∃ v, s.session.verdict = some v ∧ s.session.state = v.endState) ∧
      (s.session.isOver = true → s'.session.state = s.session.state) ∧
      (∀ v, .returned v ∈ s.calls → s.session.verdict = some v) ∧
      (∀ (i : Nat) (e : Ending), s.calls[i]? = some (.judging e) → 4 ≤ after.countP (Event.isTurn i) →
        ∃ v, s'.calls[i]? = some (.returned v) ∧ s'.session.verdict = some v) ∧
      ∀ state verdict, .seen state verdict ∈ s.calls → state.isTerminal = true →
        ∃ v, verdict = some v ∧ s.session.verdict = some v ∧ state = v.endState := by
  intro s s'
  have hs : s.Sound := (State.sound_of_queued rfl).run limit before
  have hlater : s.session.Later s'.session := State.later_run limit after
  refine ⟨fun v => hlater.verdict, hs.session, hlater.state, fun v hv => hs.calls _ hv, fun i e hc hturns => ?_,
    fun state verdict hseen => hs.calls _ hseen⟩
  obtain ⟨d, m, hd, hm, hle⟩ := State.left?_run limit hc rfl after
  have hm0 : m = 0 := by omega
  obtain ⟨v, rfl⟩ := Call.left?_eq_zero (hm0 ▸ hm)
  exact ⟨v, hd, (hs.run limit after).calls _ (List.mem_of_getElem? hd)⟩

/-- Two ends that both found no verdict: the one that records later returns the verdict of the other, and progress
that comes in between is lost. -/
example :
    (State.run 8 ⟨.ofSubmission 1 1000 default default, []⟩
      [.come (.finish .cancelled), .come (.finish (.rejected "full")), .come (.advance .running rfl), .turn 0,
        .turn 1, .turn 1, .turn 0, .turn 0, .turn 0, .turn 2]).calls =
      [.returned (.rejected "full"), .confirming (.rejected "full"), .advanced] := by
  cbv

end Finishing

end ScriptHost
