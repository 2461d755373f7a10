import ScriptHost.Proofs.Engine.Ownership
import ScriptHost.Proofs.Session.Finishing

/-!
What becomes of the sessions of an engine. Few moves write to a session, and none takes its verdict back. Since a
session is ended once, whoever ends it finds no verdict and records its own.
-/

namespace ScriptHost.Protocol

inductive Write (s : Scheduler) : Party → Nat → (Session → Session) → Party → Prop
  | stop {id : Nat} :
      Write s (.stopping id) id (fun session => { session with cancelRequested := true }) (.awaiting id)
  | prepare {id : Nat} : Write s (.preparing id) id (·.advance .compiling) (.counting id)
  | advance {id : Nat} {program : Program} :
      Write s (.compiled id program) id (·.advance .running) (.launching id program)
  | record {c : Caller} {id : Nat} {e : Ending} :
      Write s (.ending c id e .record) id (·.record (e.verdict s.config.maxOutputBytes)) (.ending c id e .settle)
  | settle {c : Caller} {id : Nat} {e : Ending} {session : Session} {v : Verdict} :
      s.session? id = some session → session.verdict = some v →
      Write s (.ending c id e .settle) id (·.advance v.endState) (.ending c id e (.retire v))

section Moves

variable {s s' : Scheduler} {p p' : Party} {es : List Event} {i : Nat} {x : Session}

lemma Move.sessions (m : Move s p es s' p') :
    s'.sessions = s.sessions ∨ (∃ now submission, s' = Protocol.allot s now submission) ∨
      ∃ j f, Write s p j f p' ∧ s' = s.modifySession j f := by
  cases m with
  | allot => exact .inr (.inl ⟨_, _, rfl⟩)
  | stop => exact .inr (.inr ⟨_, _, .stop, rfl⟩)
  | prepare => exact .inr (.inr ⟨_, _, .prepare, rfl⟩)
  | advance => exact .inr (.inr ⟨_, _, .advance, rfl⟩)
  | record => exact .inr (.inr ⟨_, _, .record, rfl⟩)
  | settle hs hv => exact .inr (.inr ⟨_, _, .settle hs hv, rfl⟩)
  | _ => exact .inl rfl

lemma Move.config_eq (m : Move s p es s' p') : s'.config = s.config := by
  cases m <;> rfl

lemma Write.later {j : Nat} {f : Session → Session} (w : Write s p j f p') (x : Session) : x.Later (f x) := by
  cases w with
  | stop => exact ⟨fun hv => hv, fun _ => rfl⟩
  | prepare => exact x.later_advance _
  | advance => exact x.later_advance _
  | record => exact x.later_record _
  | settle => exact x.later_advance _

lemma session?_congr (h : s'.sessions = s.sessions) : s'.session? i = s.session? i := by
  rw [Scheduler.session?, Scheduler.session?, h]

lemma id_eq {j : Nat} {y : Session} (hi : s.session? i = some x) (hj : s.session? j = some y)
    (h : j - 1 = i - 1) : j = i := by
  have := (session?_eq s hi).1
  have := (session?_eq s hj).1
  omega

lemma session?_modify (s : Scheduler) (j i : Nat) (f : Session → Session) :
    (s.modifySession j f).session? i = (s.session? i).map fun x => if j - 1 = i - 1 then f x else x := by
  rw [Scheduler.session?, Scheduler.session?, Scheduler.modifySession]
  split
  · rfl
  · rw [Array.getElem?_modify]
    split <;> simp

lemma session?_allot (now : Instant) (submission : Submission) (h : s.session? i = some x) :
    (allot s now submission).session? i = some x := by
  obtain ⟨h0, hx⟩ := session?_eq s h
  have hi := (Array.getElem?_eq_some_iff.mp hx).1
  rw [Scheduler.session?, if_neg h0, allot, Array.getElem?_push_lt hi]
  exact hx ▸ (Array.getElem?_eq_getElem hi).symm

lemma of_session?_allot {now : Instant} {submission : Submission}
    (h : (allot s now submission).session? i = some x) :
    s.session? i = some x ∨
      x = .ofSubmission (s.sessions.size + 1) s.config.defaultDeadlineMs now submission := by
  obtain ⟨h0, hx⟩ := session?_eq _ h
  rw [allot, Array.getElem?_push] at hx
  split at hx
  · exact .inr (Option.some.inj hx).symm
  · rw [Scheduler.session?, if_neg h0]
    exact .inl hx

lemma Move.later (m : Move s p es s' p') (h : s.session? i = some x) :
    ∃ x', s'.session? i = some x' ∧ x.Later x' := by
  rcases m.sessions with hsame | ⟨now, submission, rfl⟩ | ⟨j, f, w, rfl⟩
  · exact ⟨x, by rw [session?_congr hsame, h], .refl x⟩
  · exact ⟨x, session?_allot now submission h, .refl x⟩
  · rw [session?_modify, h]
    refine ⟨_, rfl, ?_⟩
    split
    · exact w.later x
    · exact .refl x

lemma Write.settled {j : Nat} {f : Session → Session} (w : Write s p j f p') (h : s.session? i = some x)
    (hj : j - 1 = i - 1) (hx : x.Settled) : (f x).Settled := by
  cases w with
  | stop => exact hx
  | prepare => exact hx.advance rfl
  | advance => exact hx.advance rfl
  | record => exact hx.record _
  | @settle _ _ _ session v hs hv =>
    cases id_eq h hs hj
    rw [h] at hs
    cases hs
    exact hx.settle hv

lemma Move.settled (m : Move s p es s' p') (hs : ∀ j y, s.session? j = some y → y.Settled)
    (h : s'.session? i = some x) : x.Settled := by
  rcases m.sessions with hsame | ⟨now, submission, rfl⟩ | ⟨j, f, w, rfl⟩
  · exact hs i x (by rw [← session?_congr hsame, h])
  · rcases of_session?_allot h with hold | rfl
    · exact hs i x hold
    · intro hover
      cases hover
  · rw [session?_modify] at h
    obtain ⟨y, hy, rfl⟩ := Option.map_eq_some_iff.mp h
    split
    · next hj => exact w.settled hy hj (hs i y hy)
    · exact hs i y hy

/-! A session gets its verdict from a party that has judged it, and it is judged once. -/

def Party.judges : Party → List Nat
  | .ending _ id _ .judge | .ending _ id _ .record => [id]
  | _ => []

def Party.records : Party → List Nat
  | .ending _ id _ .record => [id]
  | _ => []

def recorded (s : Scheduler) (i : Nat) : Nat :=
  ((s.session? i).bind (·.verdict)).isSome.toNat

lemma recorded_eq (h : s.session? i = some x) : recorded s i = x.verdict.isSome.toNat := by
  rw [recorded, h, Option.bind_some]

lemma Write.recorded_le {j : Nat} {f : Session → Session} (w : Write s p j f p') (h : s.session? i = some x)
    (hj : j - 1 = i - 1) (h0 : 0 ∉ p.records) :
    (f x).verdict.isSome.toNat ≤ x.verdict.isSome.toNat + p.records.count i := by
  cases w with
  | stop => exact Nat.le_add_right _ _
  | prepare | advance | settle =>
    rw [x.verdict_advance]
    exact Nat.le_add_right _ _
  | record =>
    have hij : j = i := by
      have hi := (session?_eq s h).1
      have hj0 : j ≠ 0 := fun hj0 => h0 (List.mem_singleton.mpr hj0.symm)
      omega
    subst hij
    rw [Party.records, List.count_singleton_self]
    exact (Bool.toNat_le _).trans (Nat.le_add_left 1 _)

lemma Move.recorded_le (m : Move s p es s' p') (h0 : 0 ∉ p.records) :
    recorded s' i ≤ recorded s i + p.records.count i := by
  cases hx' : s'.session? i with
  | none =>
    rw [recorded, hx']
    exact Nat.zero_le _
  | some x' =>
    rcases m.sessions with hsame | ⟨now, submission, rfl⟩ | ⟨j, f, w, rfl⟩
    · rw [recorded, recorded, session?_congr hsame]
      exact Nat.le_add_right _ _
    · rcases of_session?_allot hx' with hold | rfl
      · rw [recorded_eq hx', recorded_eq hold]
        exact Nat.le_add_right _ _
      · rw [recorded_eq hx']
        exact Nat.zero_le _
    · have hx := hx'
      rw [session?_modify] at hx
      obtain ⟨y, hy, rfl⟩ := Option.map_eq_some_iff.mp hx
      rw [recorded_eq hx', recorded_eq hy]
      split
      · next hj => exact w.recorded_le hy hj h0
      · exact Nat.le_add_right _ _

lemma Move.judges_le (m : Move s p es s' p') :
    p'.judges.count i + p.records.count i ≤ p.judges.count i + es.count (.ending i) := by
  cases m with
  | @retire c => cases c <;> exact Nat.zero_le _
  | judged => exact Nat.zero_le _
  | _ => simp [Party.judges, Party.records, List.count_cons]

end Moves

section Runs

variable {config : EngineConfig} {log : List Event} {s : State} {id : Nat} {x : Session}

lemma Run.config_eq (h : Run config log s) : s.books.config = config := by
  induction h with
  | start => rfl
  | step _ hstep ih =>
    cases hstep with
    | move m => exact m.config_eq.trans ih
    | submit | cancel | drain => exact ih

lemma Step.later {s' : State} {es : List Event} (h : Step s es s') (hx : s.books.session? id = some x) :
    ∃ x', s'.books.session? id = some x' ∧ x.Later x' := by
  cases h with
  | move m => exact m.later hx
  | submit | cancel | drain => exact ⟨x, hx, .refl x⟩

theorem Run.settled (h : Run config log s) (hx : s.books.session? id = some x) : x.Settled := by
  induction h generalizing id x with
  | start => simp [State.start, Scheduler.ofConfig, Scheduler.session?] at hx
  | step _ hstep ih =>
    cases hstep with
    | move m => exact m.settled (fun _ _ => ih) hx
    | submit | cancel | drain => exact ih hx

/-! What is admitted has a session, and what a party holds is admitted. -/

lemma Run.admitted_iff (h : Run config log s) : .admitted id ∈ log ↔ (s.books.session? id).isSome = true := by
  have hbalance := (numbering id).balance h
  have hstart : (numbering id).total (.start config) = 0 := by
    simp [Account.total, State.start, Scheduler.ofConfig, numbering]
  have hnow : (numbering id).total s = (List.range' 1 s.books.sessions.size).count id := by
    simp [Account.total, numbering]
  have hpaid : tally (numbering id).paid log = 0 := rfl
  have howed : tally (numbering id).owed log = log.count (.admitted id) := by simp [numbering, tally]
  have hcount : log.count (.admitted id) = (List.range' 1 s.books.sessions.size).count id := by omega
  rw [← List.count_pos_iff, hcount, List.count_pos_iff, List.mem_range'_1, Scheduler.session?]
  split
  · simp [*]
  · rw [Option.isSome_iff_ne_none, Ne, Array.getElem?_eq_none_iff]
    omega

lemma Run.kept (h : Run config log s) (id : Nat) :
    (keeping id).total s + log.count (.ended id) = log.count (.admitted id) := by
  have hbalance := (keeping id).balance h
  have hstart : (keeping id).total (.start config) = 0 := by
    simp [Account.total, State.start, Scheduler.ofConfig, keeping, Party.held]
  have hpaid : tally (keeping id).paid log = log.count (.ended id) := by simp [keeping, tally]
  have howed : tally (keeping id).owed log = log.count (.admitted id) := by simp [keeping, tally]
  omega

lemma Run.admitted_of_held (h : Run config log s) {p : Party} (hp : p ∈ s.parties)
    (hid : id ∈ p.held.map Prod.snd) : .admitted id ∈ log := by
  have hkept := h.kept id
  have hheld : 0 < (keeping id).party p := List.count_pos_iff.mpr hid
  have hsum := List.le_sum_of_mem (List.mem_map_of_mem (f := (keeping id).party) hp)
  rw [← List.count_pos_iff]
  rw [Account.total] at hkept
  omega

lemma Run.session_of_held (h : Run config log s) {p : Party} (hp : p ∈ s.parties)
    (hid : id ∈ p.held.map Prod.snd) : ∃ x, s.books.session? id = some x :=
  Option.isSome_iff_exists.mp (h.admitted_iff.mp (h.admitted_of_held hp hid))

lemma Run.ending_le_one (h : Run config log s) (id : Nat) : log.count (.ending id) ≤ 1 := by
  have := admitted_le_one h id
  have := settled_le_admitted h id
  have := left_le_queued h id
  have := ending_le_left h id
  omega

lemma Run.judges_le (h : Run config log s) (id : Nat) :
    (s.parties.map fun p => p.judges.count id).sum + recorded s.books id ≤ log.count (.ending id) := by
  induction h with
  | start => simp [State.start, Party.judges, recorded, Scheduler.ofConfig, Scheduler.session?]
  | @step log es s s' hrun hstep ih =>
    cases hstep with
    | @move _ _ p p' _ before after m =>
      have h0 : 0 ∉ p.records := by
        intro hmem
        have hheld : 0 ∈ p.held.map Prod.snd := by
          unfold Party.records at hmem
          split at hmem
          · rw [List.mem_singleton.mp hmem]
            exact List.mem_cons_self
          · cases hmem
        obtain ⟨x, hx⟩ := hrun.session_of_held List.mem_append_cons_self hheld
        exact (session?_eq _ hx).1 rfl
      have hjudges := m.judges_le (i := id)
      have hrecorded := m.recorded_le (i := id) h0
      simp only [List.map_append, List.map_cons, List.sum_append, List.sum_cons, List.count_append] at ih ⊢
      omega
    | submit | cancel | drain => simpa [Party.judges] using ih

theorem Run.unrecorded (h : Run config log s) {p : Party} (hp : p ∈ s.parties) (hid : id ∈ p.judges) :
    ∃ x, s.books.session? id = some x ∧ x.verdict = none := by
  have hheld : id ∈ p.held.map Prod.snd := by
    unfold Party.judges at hid
    split at hid
    · rw [List.mem_singleton.mp hid]
      exact List.mem_cons_self
    · rw [List.mem_singleton.mp hid]
      exact List.mem_cons_self
    · cases hid
  obtain ⟨x, hx⟩ := h.session_of_held hp hheld
  have hsum := List.le_sum_of_mem (List.mem_map_of_mem (f := fun p => p.judges.count id) hp)
  have hcount : 0 < p.judges.count id := List.count_pos_iff.mpr hid
  have hle := h.judges_le id
  have hone := h.ending_le_one id
  rw [recorded_eq hx] at hle
  refine ⟨x, hx, ?_⟩
  cases hv : x.verdict with
  | none => rfl
  | some v =>
    rw [hv, Option.isSome_some, Bool.toNat_true] at hle
    omega

end Runs

/-! Whoever ends a session records the verdict of its own ending. -/

/-- What a party that ends a session knows of it. -/
def Party.Agrees (s : Scheduler) : Party → Prop
  | .ending _ id e .settle => ∃ x, s.session? id = some x ∧ x.verdict = some (e.verdict s.config.maxOutputBytes)
  | .ending _ id e (.retire v) =>
    v = e.verdict s.config.maxOutputBytes ∧ ∃ x, s.session? id = some x ∧ x.verdict = some v ∧ x.isOver = true
  | _ => True

section Agreement

variable {config : EngineConfig} {log es : List Event} {s s' : Scheduler} {p p' q : Party}

lemma Party.Agrees.mono (m : Move s p es s' p') (h : q.Agrees s) : q.Agrees s' := by
  unfold Party.Agrees at h ⊢
  rw [m.config_eq]
  split at h
  · obtain ⟨x, hx, hv⟩ := h
    obtain ⟨x', hx', hlater⟩ := m.later hx
    exact ⟨x', hx', hlater.verdict hv⟩
  · obtain ⟨hv, x, hx, hrecorded, hover⟩ := h
    obtain ⟨x', hx', hlater⟩ := m.later hx
    exact ⟨hv, x', hx', hlater.verdict hrecorded, hlater.isOver hover⟩
  · trivial

lemma Move.agrees (m : Move s p es s' p') (h : p.Agrees s)
    (hjudges : ∀ id ∈ p.judges, ∃ x, s.session? id = some x ∧ x.verdict = none) : p'.Agrees s' := by
  cases m with
  | judged hs hv =>
    obtain ⟨x, hx, hnone⟩ := hjudges _ List.mem_cons_self
    rw [hs] at hx
    cases hx
    rw [hv] at hnone
    cases hnone
  | @record c id e =>
    obtain ⟨x, hx, hnone⟩ := hjudges _ List.mem_cons_self
    exact ⟨_, session?_modifySession s hx _, by rw [Session.record, hnone]; rfl⟩
  | settle hs hv =>
    obtain ⟨x, hx, hrecorded⟩ := h
    rw [hs] at hx
    cases hx
    rw [hv] at hrecorded
    refine ⟨Option.some.inj hrecorded, _, session?_modifySession s hs _, ?_, Session.isOver_settle _⟩
    rw [Session.verdict_advance, hv]
  | unsettled hs hnone =>
    obtain ⟨x, hx, hrecorded⟩ := h
    rw [hs] at hx
    cases hx
    rw [hnone] at hrecorded
    cases hrecorded
  | @retire c => cases c <;> trivial
  | _ => trivial

theorem Run.agrees {s : State} (h : Run config log s) : ∀ p ∈ s.parties, p.Agrees s.books := by
  induction h with
  | start =>
    intro p hp
    rw [List.eq_of_mem_replicate hp]
    trivial
  | @step log es s s' hrun hstep ih =>
    cases hstep with
    | @move _ _ p p' _ before after m =>
      have hmem : p ∈ before ++ p :: after := List.mem_append_cons_self
      intro q hq
      have hq : q = p' ∨ q ∈ before ++ p :: after := by
        simp only [List.mem_append, List.mem_cons] at hq ⊢
        tauto
      rcases hq with rfl | hq
      · exact m.agrees (ih p hmem) fun id hid => hrun.unrecorded hmem hid
      · exact (ih q hq).mono m
    | submit | cancel | drain =>
      intro p hp
      rcases List.mem_cons.mp hp with rfl | hp
      · trivial
      · exact ih p hp

end Agreement

end ScriptHost.Protocol
