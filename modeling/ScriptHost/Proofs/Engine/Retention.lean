import ScriptHost.Proofs.Engine.Verdicts

/-!
What can be looked up. A session is known from its admission on, and those that are over are forgotten in the order
in which they were retired, all but the last few. Each is retired once, after it is over, so no other is forgotten
in its stead.
-/

namespace ScriptHost

namespace Registry

/-- Known is what was entered, without what was retired before the last `keep`. -/
structure Keeps (keep : Nat) (entered : Nat → Prop) (ends : List Nat) (r : Registry) : Prop where
  retired : r.retired = ends.rtake keep
  known (id : Nat) : id ∈ r.known ↔ entered id ∧ id ∉ ends.rdrop keep

namespace Keeps

variable {keep id : Nat} {entered entered' : Nat → Prop} {ends : List Nat} {r : Registry}

lemma congr (h : r.Keeps keep entered ends) (heq : ∀ id, entered' id ↔ entered id) :
    r.Keeps keep entered' ends where
  retired := h.retired
  known id := by rw [heq, h.known]

lemma insert (h : r.Keeps keep entered ends) (hid : id ∉ ends) (heq : ∀ i, entered' i ↔ i = id ∨ entered i) :
    (r.insert id).Keeps keep entered' ends where
  retired := h.retired
  known i := by
    have hnot : id ∉ ends.rdrop keep := fun hmem => hid (List.mem_of_mem_take hmem)
    rw [Registry.insert, List.mem_cons, h.known, heq]
    constructor
    · rintro (rfl | ⟨hentered, hi⟩)
      · exact ⟨.inl rfl, hnot⟩
      · exact ⟨.inr hentered, hi⟩
    · rintro ⟨rfl | hentered, hi⟩
      · exact .inl rfl
      · exact .inr ⟨hentered, hi⟩

lemma retire (h : r.Keeps keep entered ends) : (r.retire keep id).Keeps keep entered (ends ++ [id]) := by
  let gone := ends.length - keep
  let excess := (r.retired ++ [id]).length - keep
  have hgone : gone ≤ ends.length := Nat.sub_le _ _
  have hretired : r.retired ++ [id] = (ends ++ [id]).drop gone := by
    rw [h.retired, List.drop_append_of_le_length hgone]
    rfl
  -- what is forgotten now comes next after what was forgotten before
  have hsum : (ends ++ [id]).length - keep = gone + excess := by
    have hlength : (r.retired ++ [id]).length = ends.length + 1 - gone := by
      rw [hretired, List.length_drop, List.length_append, List.length_singleton]
    simp only [List.length_append, List.length_singleton, excess] at hlength ⊢
    omega
  refine ⟨?_, fun i => ?_⟩
  · change (r.retired ++ [id]).drop excess = _
    rw [hretired, List.drop_drop, List.rtake, hsum]
  · have htake : (ends ++ [id]).rdrop keep = ends.rdrop keep ++ (r.retired ++ [id]).take excess := by
      rw [List.rdrop, hsum, List.take_add, List.take_append_of_le_length hgone, hretired]
      rfl
    change i ∈ r.known.filter (· ∉ (r.retired ++ [id]).take excess) ↔ _
    rw [List.mem_filter, h.known, decide_eq_true_iff, htake, List.mem_append, not_or, and_assoc]

end Keeps

end Registry

namespace Protocol

def retirements (log : List Event) : List Nat :=
  (log.filterMap fun
    | .ended id => some id
    | _ => none).reverse

lemma retirements_append (es log : List Event) : retirements (es ++ log) = retirements log ++ retirements es := by
  rw [retirements, List.filterMap_append, List.reverse_append]
  rfl

lemma count_retirements (log : List Event) (id : Nat) : (retirements log).count id = log.count (.ended id) := by
  induction log with
  | nil => rfl
  | cons e log ih =>
    rw [← List.singleton_append, retirements_append, List.count_append, List.count_append, ih]
    cases e <;> simp [retirements, List.count_singleton, Nat.add_comm]

lemma mem_retirements {log : List Event} {id : Nat} : id ∈ retirements log ↔ .ended id ∈ log := by
  rw [← List.count_pos_iff, count_retirements, List.count_pos_iff]

namespace Party

/-- The session of a submission that is not in the registry yet. -/
def entrant : Party → List Nat
  | entering id => [id]
  | _ => []

def retiring : Party → List Nat
  | ending _ id _ (.retire _) => [id]
  | _ => []

def isEnding : Party → Bool
  | ending _ _ _ _ => true
  | _ => false

end Party

namespace State

def Quiet (s : State) : Prop :=
  ∀ p ∈ s.parties, p.isEnding = false

/-- A session was admitted, and its submission has put it into the registry. -/
def Entered (log : List Event) (s : State) (id : Nat) : Prop :=
  .admitted id ∈ log ∧ id ∉ s.parties.flatMap Party.entrant

def Live (s : State) (id : Nat) : Prop :=
  (∃ x, s.books.session? id = some x ∧ x.isOver = false) ∧ id ∉ s.parties.flatMap Party.entrant

def Over (s : State) (id : Nat) : Prop :=
  ∃ x, s.books.session? id = some x ∧ x.isOver = true

end State

inductive Entry (s : Scheduler) : Party → List Event → Registry → Party → Prop
  | allot {now : Instant} {submission : Submission} :
      Entry s (.asking now submission) [.admitted (s.sessions.size + 1)] s.registry
        (.entering (s.sessions.size + 1))
  | enter {id : Nat} : Entry s (.entering id) [] (s.registry.insert id) (.queueing id)
  | retire {c : Caller} {id : Nat} {e : Ending} {v : Verdict} :
      Entry s (.ending c id e (.retire v)) [.ended id] (s.registry.retire s.config.retainedSessions id) (c.next id v)
  | other {p p' : Party} {es : List Event} : p.entrant = [] → p'.entrant = [] → p.retiring = [] →
      (∀ id, .admitted id ∉ es) → (∀ id, .ended id ∉ es) → Entry s p es s.registry p'

section Moves

variable {s s' : Scheduler} {p p' : Party} {es : List Event} {id : Nat}

lemma State.entered_iff {log : List Event} {before after : List Party} :
    State.Entered log ⟨s, before ++ p :: after⟩ id ↔
      .admitted id ∈ log ∧ id ∉ p.entrant ∧ id ∉ (before ++ after).flatMap Party.entrant := by
  simp only [State.Entered, List.flatMap_append, List.flatMap_cons, List.mem_append]
  tauto

lemma Move.entry (m : Move s p es s' p') : Entry s p es s'.registry p' := by
  cases m with
  | allot => exact .allot
  | enter => exact .enter
  | retire => exact .retire
  | _ => exact .other rfl rfl rfl (by simp) (by simp)

@[simp]
lemma entrant_next (c : Caller) (id : Nat) (v : Verdict) : (c.next id v).entrant = [] := by
  cases c <;> rfl

lemma Entry.entrant {r : Registry} (h : Entry s p es r p') (hid : id ∈ p'.entrant) : .admitted id ∈ es := by
  cases h with
  | allot => simpa [Party.entrant] using hid
  | enter => cases hid
  | retire => simp at hid
  | other _ hnone => simp [hnone] at hid

lemma Entry.ended {r : Registry} (h : Entry s p es r p') (hid : id ∈ p.retiring) : .ended id ∈ es := by
  cases h with
  | allot | enter => cases hid
  | retire => simpa [Party.retiring] using hid
  | other _ _ hnone => simp [hnone] at hid

lemma Write.over {j : Nat} {f : Session → Session} {x : Session} (w : Write s p j f p')
    (hx : s.session? id = some x) (hj : j - 1 = id - 1) (h : (f x).isOver = true) :
    x.isOver = true ∨ id ∈ p'.retiring := by
  cases w with
  | stop | record => exact .inl h
  | prepare | advance =>
    rw [Session.isOver_advance x rfl] at h
    exact .inl h
  | settle hs => exact .inr (List.mem_singleton.mpr (id_eq hx hs hj).symm)

lemma Move.over {x' : Session} (m : Move s p es s' p') (hx' : s'.session? id = some x')
    (hover : x'.isOver = true) :
    (∃ x, s.session? id = some x ∧ x.isOver = true) ∨ id ∈ p'.retiring := by
  rcases m.sessions with hsame | ⟨now, submission, rfl⟩ | ⟨j, f, w, rfl⟩
  · exact .inl ⟨x', session?_congr hsame ▸ hx', hover⟩
  · rcases of_session?_allot hx' with hold | rfl
    · exact .inl ⟨x', hold, hover⟩
    · cases hover
  · rw [session?_modify] at hx'
    obtain ⟨x, hx, rfl⟩ := Option.map_eq_some_iff.mp hx'
    split at hover
    · next hj =>
      rcases w.over hx hj hover with hold | hretiring
      · exact .inl ⟨x, hx, hold⟩
      · exact .inr hretiring
    · exact .inl ⟨x, hx, hover⟩

end Moves

section Runs

variable {config : EngineConfig} {log : List Event} {s : State} {id : Nat}

lemma count_entrant_le (p : Party) (id : Nat) : p.entrant.count id ≤ (keeping id).party p := by
  cases p with
  | entering => rfl
  | _ => exact Nat.zero_le _

lemma Run.entrant_le_one (h : Run config log s) (id : Nat) :
    (s.parties.flatMap Party.entrant).count id + log.count (.ended id) ≤ 1 := by
  have hkept := h.kept id
  have hadmitted := admitted_le_one h id
  have hheld : (s.parties.map fun p => p.entrant.count id).sum ≤ (s.parties.map (keeping id).party).sum :=
    List.sum_le_sum fun p _ => count_entrant_le p id
  rw [List.count_flatMap]
  rw [Account.total] at hkept
  simp only [Function.comp_def]
  omega

lemma Run.enters {books : Scheduler} {before after : List Party}
    (h : Run config log ⟨books, before ++ .entering id :: after⟩) :
    .admitted id ∈ log ∧ id ∉ retirements log ∧ id ∉ (before ++ after).flatMap Party.entrant := by
  have hcount := h.entrant_le_one id
  simp only [List.flatMap_append, List.flatMap_cons, List.count_append, Party.entrant,
    List.count_singleton_self] at hcount
  refine ⟨h.admitted_of_held List.mem_append_cons_self List.mem_cons_self, ?_, ?_⟩
  · rw [← List.count_pos_iff, count_retirements]
    omega
  · rw [← List.count_pos_iff, List.flatMap_append, List.count_append]
    omega

lemma Run.nodup_retirements (h : Run config log s) : (retirements log).Nodup := by
  rw [List.nodup_iff_count_le_one]
  intro id
  rw [count_retirements]
  have := h.entrant_le_one id
  omega

lemma Run.unadmitted (h : Run config log s) : .admitted (s.books.sessions.size + 1) ∉ log := by
  rw [h.admitted_iff, Scheduler.session?]
  simp

theorem Run.keeps (h : Run config log s) :
    s.books.registry.Keeps config.retainedSessions (s.Entered log) (retirements log) := by
  induction h with
  | start =>
    refine ⟨List.drop_nil.symm, fun id => ?_⟩
    simp [State.Entered, State.start, Scheduler.ofConfig]
  | @step log es s s' hrun hstep ih =>
    cases hstep with
    | @move books books' p p' _ before after m =>
      have hentry := m.entry
      -- Only three kinds of step concern the registry, and each has its own lemma about what is kept.
      rw [retirements_append]
      generalize books'.registry = r at hentry ⊢
      cases hentry with
      | allot =>
        have hnew := hrun.unadmitted
        rw [show retirements [_] = [] from rfl, List.append_nil]
        refine ih.congr fun id => ?_
        rw [State.entered_iff, State.entered_iff]
        by_cases hid : id = books.sessions.size + 1
        · subst hid
          simp [Party.entrant, hnew]
        · simp [Party.entrant, hid]
      | @enter id =>
        obtain ⟨hmem, hended, hothers⟩ := hrun.enters
        rw [show retirements [] = [] from rfl, List.append_nil]
        refine ih.insert hended fun i => ?_
        rw [State.entered_iff, State.entered_iff]
        by_cases hi : i = id
        · subst hi
          exact iff_of_true ⟨hmem, List.not_mem_nil, hothers⟩ (.inl rfl)
        · simp [Party.entrant, hi]
      | retire =>
        rw [show retirements [_] = [_] from rfl, hrun.config_eq]
        refine ih.retire.congr fun id => ?_
        rw [State.entered_iff, State.entered_iff, entrant_next]
        simp [Party.entrant]
      | other hp hp' _ hadmitted hended =>
        have hnone : retirements es = [] :=
          List.eq_nil_iff_forall_not_mem.mpr fun id hid => hended id (mem_retirements.mp hid)
        rw [hnone, List.append_nil]
        refine ih.congr fun id => ?_
        rw [State.entered_iff, State.entered_iff, hp, hp', List.mem_append, or_iff_right (hadmitted id)]
    | submit | cancel | drain => exact ih

/-! In a state in which no session is being ended, those that are over have been retired. -/

lemma Step.over {s' : State} {es : List Event} (h : Step s es s') (hover : s.Over id) : s'.Over id := by
  obtain ⟨x, hx, hover⟩ := hover
  obtain ⟨x', hx', hlater⟩ := h.later hx
  exact ⟨x', hx', hlater.isOver hover⟩

lemma Run.over_of_retired (h : Run config log s) (hid : id ∈ retirements log) : s.Over id := by
  induction h with
  | start => cases hid
  | @step log es s s' hrun hstep ih =>
    rw [retirements_append, List.mem_append] at hid
    refine hstep.over (hid.elim ih fun hnew => ?_)
    cases hstep with
    | @move books books' p p' _ before after m =>
      have hagrees := hrun.agrees p List.mem_append_cons_self
      have hentry := m.entry
      generalize books'.registry = r at hentry
      cases hentry with
      | allot | enter => cases hnew
      | retire =>
        cases List.mem_singleton.mp hnew
        obtain ⟨-, x, hx, -, hover⟩ := hagrees
        exact ⟨x, hx, hover⟩
      | other _ _ _ _ hended => exact (hended id (mem_retirements.mp hnew)).elim
    | submit | cancel | drain => cases hnew

lemma Run.retiring_of_over (h : Run config log s) (hover : s.Over id) :
    id ∈ s.parties.flatMap Party.retiring ∨ id ∈ retirements log := by
  induction h with
  | start => simp [State.Over, State.start, Scheduler.ofConfig, Scheduler.session?] at hover
  | @step log es s s' hrun hstep ih =>
    rw [retirements_append, List.mem_append]
    cases hstep with
    | @move books books' p p' _ before after m =>
      simp only [List.flatMap_append, List.flatMap_cons, List.mem_append] at ih ⊢
      obtain ⟨x, hx, hover⟩ := hover
      rcases m.over hx hover with hbefore | hnew
      · rcases ih hbefore with (hbefore | hself | hafter) | hretired
        · exact .inl (.inl hbefore)
        · exact .inr (.inr (mem_retirements.mpr (m.entry.ended hself)))
        · exact .inl (.inr (.inr hafter))
        · exact .inr (.inl hretired)
      · exact .inl (.inr (.inl hnew))
    | submit | cancel | drain =>
      rcases ih hover with hretiring | hretired
      · exact .inl hretiring
      · exact .inr (.inl hretired)

theorem Run.retired_iff_over (h : Run config log s) (hquiet : s.Quiet) :
    id ∈ retirements log ↔ s.Over id := by
  refine ⟨h.over_of_retired, fun hover => (h.retiring_of_over hover).resolve_left ?_⟩
  rw [List.mem_flatMap]
  rintro ⟨p, hp, hid⟩
  have := hquiet p hp
  cases p <;> first | cases hid | cases this

end Runs

/-- How an engine can go on from a state, with what is told on the way, newest first. -/
inductive Onward (s : State) : List Event → State → Prop
  | refl : Onward s [] s
  | step {log es : List Event} {s' s'' : State} : Onward s log s' → Step s' es s'' → Onward s (es ++ log) s''

section Onward

variable {config : EngineConfig} {log es : List Event} {s s' : State} {id : Nat}

lemma Run.onward (h : Run config log s) (ho : Onward s es s') : Run config (es ++ log) s' := by
  induction ho with
  | refl => exact h
  | step _ hstep ih =>
    rw [List.append_assoc]
    exact ih.step hstep

lemma Onward.moves {b b' : Scheduler} {p p' : Party} (before : List Party) {after : List Party}
    (h : Moves b p es b' p') (ho : Onward s log ⟨b, before ++ p :: after⟩) :
    Onward s (es ++ log) ⟨b', before ++ p' :: after⟩ := by
  induction h generalizing log with
  | nil => exact ho
  | cons m _ ih =>
    rw [List.append_assoc]
    exact ih (ho.step (.move m))

lemma onward_refuse (s : State) (now : Instant) {submission : Submission} {e : ShapeError}
    (hentry : SourceUnit.entryOf submission.units = .error e) :
    let r := s.books.submit now submission
    Onward s [.ended r.1, .ending r.1, .refused r.1, .admitted r.1] ⟨r.2, .over :: s.parties⟩ := by
  intro r
  have hsession := session?_register s.books now submission
  obtain ⟨v, hv⟩ := moves_finish _ hsession .admission (.rejected e.message)
  have hr : r.2 = (s.books.register now submission).2.finish r.1 (.rejected e.message) := by
    change (s.books.register now submission).2.enqueue r.1 submission.units = _
    rw [Scheduler.enqueue, hentry]
  rw [hr]
  exact (Onward.refl.step (.submit now submission)).moves []
    ((moves_register s.books now submission).trans (.cons (.refuse hsession hentry) hv))

lemma Run.entered_step (h : Run config log s) (hstep : Step s es s') (hid : s.Entered log id) :
    s'.Entered (es ++ log) id := by
  have hone := admitted_le_one (h.step hstep) id
  cases hstep with
  | move m =>
    rw [State.entered_iff] at hid ⊢
    obtain ⟨hadmitted, -, hothers⟩ := hid
    refine ⟨List.mem_append_right _ hadmitted, fun hentrant => ?_, hothers⟩
    -- ids are not given out twice
    have htwice := List.count_pos_iff.mpr (m.entry.entrant hentrant)
    have hbefore := List.count_pos_iff.mpr hadmitted
    rw [List.count_append] at hone
    omega
  | submit | cancel | drain => exact hid

lemma Run.entered_onward (h : Run config log s) (ho : Onward s es s') (hid : s.Entered log id) :
    s'.Entered (es ++ log) id := by
  induction ho with
  | refl => exact hid
  | step ho hstep ih =>
    rw [List.append_assoc]
    exact (h.onward ho).entered_step hstep ih

lemma rdrop_subset_append (keep : Nat) (ends more : List Nat) : ends.rdrop keep ⊆ (ends ++ more).rdrop keep := by
  have hmore : ends.length ≤ (ends ++ more).length := by
    rw [List.length_append]
    exact Nat.le_add_right _ _
  have htake := List.take_prefix_take_left (l := ends ++ more) (Nat.sub_le_sub_right hmore keep)
  rw [List.take_append_of_le_length (Nat.sub_le _ _)] at htake
  exact htake.subset

lemma Run.evicted (h : Run config log s) (ho : Onward s es s') (hs : id ∈ s.books.registry.known)
    (hs' : id ∉ s'.books.registry.known) : id ∈ (retirements (es ++ log)).rdrop config.retainedSessions := by
  have hentered := h.entered_onward ho ((h.keeps.known id).mp hs).1
  by_contra hnot
  exact hs' (((h.onward ho).keeps.known id).mpr ⟨hentered, hnot⟩)

lemma Run.forgets (h : Run config log s) (ho : Onward s es s')
    (hid : id ∈ (retirements log).rdrop config.retainedSessions) : id ∉ s'.books.registry.known := by
  intro hknown
  have hnot := (((h.onward ho).keeps.known id).mp hknown).2
  rw [retirements_append] at hnot
  exact hnot (rdrop_subset_append _ _ _ hid)

lemma Run.known_iff (h : Run config log s) (hquiet : s.Quiet) :
    id ∈ s.books.registry.known ↔ s.Live id ∨ id ∈ s.books.registry.retired := by
  have hover : id ∈ retirements log ↔ s.Over id := h.retired_iff_over hquiet
  rw [h.keeps.known, h.keeps.retired]
  constructor
  · rintro ⟨⟨hadmitted, hentrant⟩, hkept⟩
    obtain ⟨x, hx⟩ := Option.isSome_iff_exists.mp (h.admitted_iff.mp hadmitted)
    cases hs : x.isOver with
    | false => exact .inl ⟨⟨x, hx, hs⟩, hentrant⟩
    | true =>
      have hmem := hover.mpr ⟨x, hx, hs⟩
      have hsplit : (retirements log).rdrop config.retainedSessions ++
          (retirements log).rtake config.retainedSessions = retirements log := List.take_append_drop _ _
      rw [← hsplit, List.mem_append] at hmem
      exact .inr (hmem.resolve_left hkept)
  · rintro (⟨⟨x, hx, hs⟩, hentrant⟩ | hlatest)
    · refine ⟨⟨h.admitted_iff.mpr (Option.isSome_of_eq_some hx), hentrant⟩, fun hgone => ?_⟩
      obtain ⟨y, hy, hyover⟩ := hover.mp (List.mem_of_mem_take hgone)
      rw [hx] at hy
      cases hy
      rw [hs] at hyover
      cases hyover
    · have hmem := List.mem_of_mem_drop hlatest
      obtain ⟨x, hx, -⟩ := hover.mp hmem
      have hentrant := h.entrant_le_one id
      have hended := List.count_pos_iff.mpr (mem_retirements.mp hmem)
      refine ⟨⟨h.admitted_iff.mpr (Option.isSome_of_eq_some hx), ?_⟩, fun hgone => ?_⟩
      · exact List.count_eq_zero.mp (by omega)
      · exact List.disjoint_take_drop h.nodup_retirements le_rfl hgone hlatest

end Onward

/-- However calls and workers take their steps: while no session is being ended, those that are over are the ones that
were retired, and the registry has what is not over and the last few that were retired, in the order in which they
were, each once. A session that is forgotten is over, and is never known again. -/
theorem registry_keeps_live_and_latest {config : EngineConfig} {log : List Event} {s : State}
    (h : Run config log s) :
    (s.Quiet → ∀ id, id ∈ s.books.registry.known ↔ s.Live id ∨ id ∈ s.books.registry.retired) ∧
      (s.Quiet → ∀ id, id ∈ retirements log ↔ s.Over id) ∧
      s.books.registry.retired = (retirements log).rtake config.retainedSessions ∧ (retirements log).Nodup ∧
      ∀ es s' id, Onward s es s' → id ∈ s.books.registry.known → id ∉ s'.books.registry.known →
        s'.Over id ∧ ∀ es' s'', Onward s' es' s'' → id ∉ s''.books.registry.known := by
  refine ⟨fun hquiet id => h.known_iff hquiet, fun hquiet id => h.retired_iff_over hquiet, h.keeps.retired,
    h.nodup_retirements, fun es s' id ho hs hs' => ?_⟩
  have h' := h.onward ho
  have hgone := h.evicted ho hs hs'
  exact ⟨h'.over_of_retired (List.mem_of_mem_take hgone), fun es' s'' ho' => h'.forgets ho' hgone⟩

theorem registry_keeps_live_and_latest_refused : ∃ log s es s',
    Run { slots := 1, retainedSessions := 1 } log s ∧ Onward s es s' ∧ 1 ∈ s.books.registry.known ∧
      s'.books.registry.retired = [2] ∧
      (∀ id, id ∈ s'.books.registry.known ↔ s'.Live id ∨ id ∈ s'.books.registry.retired) ∧
      ∀ es' s'', Onward s' es' s'' → 1 ∉ s''.books.registry.known := by
  have hrefused : SourceUnit.entryOf (default : Submission).units = .error .empty := rfl
  have hrun := Run.start.onward (onward_refuse (.start { slots := 1, retainedSessions := 1 }) default hrefused)
  have hsecond := fun s => onward_refuse s default hrefused
  refine ⟨_, _, _, _, hrun, hsecond _, by decide, rfl, ?_, ?_⟩
  · exact (registry_keeps_live_and_latest (hrun.onward (hsecond _))).1
      (by simp [State.Quiet, State.start, Party.isEnding])
  · exact ((registry_keeps_live_and_latest hrun).2.2.2.2 _ _ 1 (hsecond _) (by decide) (by decide)).2

end Protocol

end ScriptHost
