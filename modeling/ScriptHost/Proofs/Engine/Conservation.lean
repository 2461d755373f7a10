import Mathlib.Data.List.Infix
import Mathlib.Data.List.Nodup
import Mathlib.Order.Bounds.Basic
import Mathlib.Tactic.Lemma
import ScriptHost.Engine.Queue

/-!
Histories of a queue. Whatever is done to it, no session is lost or given out twice, those that are served come in the
order in which they were put in, and the counters say what the history says.
-/

namespace ScriptHost.Queue

inductive Act where
  | push (id : Nat)
  | pop
  | remove (id : Nat)
  | drain
  | release
deriving DecidableEq, Repr

def Act.pushed? : Act → Option Nat
  | push id => some id
  | _ => none

inductive Event where
  | accepted (id : Nat)
  -- the session is handed back
  | refused (id : Nat)
  | popped (id : Nat)
  | removed (id : Nat)
  | drained (ids : List Nat)
  -- a slot is handed back
  | released
  -- there was nothing to give out, and no slot to hand back
  | idle
deriving DecidableEq, Repr

def act (q : Queue) : Act → Event × Queue
  | .push id =>
    match q.push? id with
    | some q => (.accepted id, q)
    | none => (.refused id, q)
  | .pop =>
    match q.pop? with
    | some (id, q) => (.popped id, q)
    | none => (.idle, q)
  | .remove id =>
    match q.remove? id with
    | some q => (.removed id, q)
    | none => (.idle, q)
  | .drain => (.drained q.drain.1, q.drain.2)
  | .release => (if q.stats.active = 0 then .idle else .released, q.release)

def run (capacity : Option Nat) (acts : List Act) : List Event × Queue :=
  acts.foldl (fun (log, q) a => (log ++ [(q.act a).1], (q.act a).2)) ([], { capacity })

lemma run_concat (capacity : Option Nat) (acts : List Act) (a : Act) :
    run capacity (acts ++ [a]) =
      ((run capacity acts).1 ++ [((run capacity acts).2.act a).1], ((run capacity acts).2.act a).2) :=
  List.foldl_concat _ _ _ _

inductive Does (q : Queue) : Act → Event → Queue → Prop
  | accept {id : Nat} : q.isFull = false → Does q (.push id) (.accepted id)
      { q with
        pending := q.pending ++ [id]
        stats := { q.stats with queued := q.pending.length + 1 } }
  | refuse {id : Nat} : q.isFull = true → Does q (.push id) (.refused id) q
  | pop {id : Nat} {pending : List Nat} : q.pending = id :: pending → Does q .pop (.popped id)
      { q with pending, stats := claim q.stats }
  | remove {id : Nat} : id ∈ q.pending → Does q (.remove id) (.removed id)
      { q with
        pending := q.pending.erase id
        stats := { q.stats with queued := (q.pending.erase id).length } }
  | drain : Does q .drain (.drained q.pending)
      { q with pending := [], stats := { q.stats with queued := 0 } }
  | release {n : Nat} : q.stats.active = n + 1 → Does q .release .released
      { q with stats := { q.stats with active := n } }
  | idle {a : Act} : a.pushed? = none → Does q a .idle q

lemma act_push (q : Queue) (id : Nat) : q.act (.push id) =
    if q.isFull then (.refused id, q)
    else (.accepted id,
      { q with
        pending := q.pending ++ [id]
        stats := { q.stats with queued := q.pending.length + 1 } }) := by
  rw [act, push?]
  split <;> simp_all

lemma act_does (q : Queue) (a : Act) : Does q a (q.act a).1 (q.act a).2 := by
  cases a with
  | push id =>
    rw [act_push]
    split
    · next hfull => exact .refuse hfull
    · next hroom => exact .accept (Bool.eq_false_iff.mpr hroom)
  | pop =>
    rw [act]
    split
    · next id q' h =>
      obtain ⟨pending, hpending, rfl⟩ := pop?_eq_some.mp h
      exact .pop hpending
    · exact .idle rfl
  | remove id =>
    rw [act]
    split
    · next q' h =>
      obtain ⟨hid, rfl⟩ := remove?_eq_some.mp h
      exact .remove hid
    · exact .idle rfl
  | drain => exact .drain
  | release =>
    rw [act]
    cases h : q.stats.active with
    | zero =>
      have hsame : q.release = q := by
        obtain ⟨capacity, pending, stats⟩ := q
        cases stats
        cases h
        rfl
      rw [hsame]
      exact .idle rfl
    | succ n =>
      have hless : q.release = { q with stats := { q.stats with active := n } } := by rw [release, h]; rfl
      rw [hless]
      exact .release h

section Logs

def accepted (log : List Event) : List Nat :=
  log.filterMap fun
    | .accepted id => some id
    | _ => none

def served (log : List Event) : List Nat :=
  log.flatMap fun
    | .popped id => [id]
    | .drained ids => ids
    | _ => []

def removed (log : List Event) : List Nat :=
  log.filterMap fun
    | .removed id => some id
    | _ => none

def pops (log : List Event) : Nat :=
  log.countP fun
    | .popped _ => true
    | _ => false

variable (log : List Event) (e : Event)

lemma accepted_concat : accepted (log ++ [e]) = accepted log ++ accepted [e] :=
  List.filterMap_append

lemma served_concat : served (log ++ [e]) = served log ++ served [e] :=
  List.flatMap_append

lemma removed_concat : removed (log ++ [e]) = removed log ++ removed [e] :=
  List.filterMap_append

lemma pops_concat : pops (log ++ [e]) = pops log + pops [e] :=
  List.countP_append

end Logs

structure Books (capacity : Option Nat) (log : List Event) (q : Queue) : Prop where
  capacity_eq : q.capacity = capacity
  room : ∀ n ∈ capacity, q.pending.length ≤ n
  conserved : (served log ++ q.pending ++ removed log).Perm (accepted log)
  order : (accepted log).Nodup → served log ++ q.pending = (accepted log).filter (· ∉ removed log)
  queued : q.stats.queued = q.pending.length
  active : q.stats.active + log.count .released = pops log
  peak : q.stats.active ≤ q.stats.peakActive

namespace Books

variable {capacity : Option Nat} {log : List Event} {q q' : Queue} {a : Act} {e : Event}

lemma isFull_iff (h : Books capacity log q) : q.isFull = true ↔ capacity = some q.pending.length := by
  have hroom := h.room
  rw [isFull, h.capacity_eq]
  cases capacity with
  | none => simp
  | some n =>
    have := hroom n rfl
    rw [Option.any_some, decide_eq_true_iff, Option.some.injEq]
    omega

lemma room_act (h : Books capacity log q) (hd : Does q a e q') : ∀ n ∈ capacity, q'.pending.length ≤ n := by
  intro n hn
  have hroom := h.room n hn
  cases hd with
  | accept hfull =>
    have hne : n ≠ q.pending.length := by
      rintro rfl
      exact Bool.eq_false_iff.mp hfull (h.isFull_iff.mpr hn)
    rw [List.length_append, List.length_singleton]
    omega
  | pop hpending =>
    rw [hpending, List.length_cons] at hroom
    exact Nat.le_of_succ_le hroom
  | remove => exact List.length_erase_le.trans hroom
  | drain => exact Nat.zero_le n
  | refuse | release | idle => exact hroom

lemma conserved_act (h : Books capacity log q) (hd : Does q a e q') :
    (served (log ++ [e]) ++ q'.pending ++ removed (log ++ [e])).Perm (accepted (log ++ [e])) := by
  rw [List.perm_iff_count]
  intro i
  have hi := h.conserved.count_eq i
  rw [served_concat, removed_concat, accepted_concat]
  simp only [List.count_append] at hi ⊢
  cases hd with
  | accept =>
    simp [served, removed, accepted] at hi ⊢
    omega
  | pop hpending =>
    simp [served, removed, accepted, hpending, List.count_cons] at hi ⊢
    omega
  | remove hid =>
    have := (List.perm_cons_erase hid).count_eq i
    simp [served, removed, accepted, List.count_cons] at hi this ⊢
    omega
  | drain =>
    simp [served, removed, accepted] at hi ⊢
    omega
  | refuse | release | idle => simpa [served, removed, accepted] using hi

lemma order_act (h : Books capacity log q) (hd : Does q a e q') (hn : (accepted (log ++ [e])).Nodup) :
    served (log ++ [e]) ++ q'.pending = (accepted (log ++ [e])).filter (· ∉ removed (log ++ [e])) := by
  rw [served_concat, removed_concat, accepted_concat] at *
  have horder := h.order (List.Nodup.of_append_left hn)
  cases hd with
  | @accept id =>
    have hnew : id ∉ removed log := by
      intro hid
      have hmem := h.conserved.mem_iff.mp (List.mem_append_right _ hid)
      exact List.disjoint_of_nodup_append hn hmem (List.mem_singleton_self id)
    have hlast : [id].filter (· ∉ removed log) = [id] := by simpa using hnew
    change served log ++ [] ++ (q.pending ++ [id]) = (accepted log ++ [id]).filter (· ∉ removed log ++ [])
    rw [List.append_nil, List.append_nil, List.filter_append, ← horder, hlast, List.append_assoc]
  | @remove id hid =>
    have hnodup : (served log ++ q.pending).Nodup :=
      (h.conserved.nodup_iff.mpr (List.Nodup.of_append_left hn)).of_append_left
    have hserved : (served log).filter (· ≠ id) = served log := by
      refine List.filter_eq_self.mpr fun i hi => decide_eq_true ?_
      rintro rfl
      exact List.disjoint_of_nodup_append hnodup hi hid
    have hpending : q.pending.erase id = q.pending.filter (· ≠ id) := by
      rw [hnodup.of_append_right.erase_eq_filter]
      exact List.filter_congr fun i _ => by simp [bne, beq_eq_decide]
    have hsplit : (accepted log).filter (· ∉ removed log ++ [id]) =
        ((accepted log).filter (· ∉ removed log)).filter (· ≠ id) := by
      rw [List.filter_filter]
      exact List.filter_congr fun i _ => by simp [and_comm]
    change served log ++ [] ++ q.pending.erase id = (accepted log ++ []).filter (· ∉ removed log ++ [id])
    rw [List.append_nil, List.append_nil, hsplit, ← horder, List.filter_append, hserved, hpending]
  | pop hpending =>
    rw [hpending] at horder
    simpa [served, removed, accepted] using horder
  | drain | refuse | release | idle => simpa [served, removed, accepted] using horder

lemma queued_act (h : Books capacity log q) (hd : Does q a e q') : q'.stats.queued = q'.pending.length := by
  have hqueued := h.queued
  cases hd with
  | accept => simp
  | pop hpending =>
    rw [hpending, List.length_cons] at hqueued
    exact Nat.sub_eq_of_eq_add hqueued
  | remove | drain => rfl
  | refuse | release | idle => exact hqueued

lemma active_act (h : Books capacity log q) (hd : Does q a e q') :
    q'.stats.active + (log ++ [e]).count .released = pops (log ++ [e]) := by
  have hactive := h.active
  rw [pops_concat, List.count_append]
  cases hd with
  | pop =>
    simp [pops, claim] at hactive ⊢
    omega
  | release hslot =>
    simp [pops, hslot] at hactive ⊢
    omega
  | accept | refuse | remove | drain | idle => simpa [pops] using hactive

end Books

lemma Does.peak {q q' : Queue} {a : Act} {e : Event} (h : Does q a e q') (hpeak : q.stats.active ≤ q.stats.peakActive) :
    q'.stats.peakActive = max q'.stats.active q.stats.peakActive := by
  cases h with
  | pop => exact Nat.max_comm _ _
  | release hslot => exact (Nat.max_eq_right (by dsimp only; omega)).symm
  | accept | refuse | remove | drain | idle => exact (Nat.max_eq_right hpeak).symm

lemma Books.act {capacity : Option Nat} {log : List Event} {q q' : Queue} {a : Act} {e : Event}
    (h : Books capacity log q) (hd : Does q a e q') : Books capacity (log ++ [e]) q' where
  capacity_eq := by
    have := h.capacity_eq
    cases hd <;> exact this
  room := h.room_act hd
  conserved := h.conserved_act hd
  order := h.order_act hd
  queued := h.queued_act hd
  active := h.active_act hd
  peak := by
    rw [hd.peak h.peak]
    exact Nat.le_max_left _ _

section Runs

variable (capacity : Option Nat) (acts : List Act)

theorem run_books : Books capacity (run capacity acts).1 (run capacity acts).2 := by
  induction acts using List.reverseRecOn with
  | nil => exact ⟨rfl, fun n _ => Nat.zero_le n, .nil, fun _ => rfl, rfl, rfl, le_rfl⟩
  | append_singleton acts a ih =>
    rw [run_concat]
    exact ih.act (act_does _ a)

lemma accepted_sublist : (accepted (run capacity acts).1).Sublist (acts.filterMap Act.pushed?) := by
  induction acts using List.reverseRecOn with
  | nil => exact List.Sublist.refl _
  | append_singleton acts a ih =>
    rw [run_concat, accepted_concat, List.filterMap_append]
    refine ih.append ?_
    have hdoes := act_does (run capacity acts).2 a
    generalize (run capacity acts).2.act a = outcome at hdoes
    obtain ⟨e, q'⟩ := outcome
    cases hdoes with
    | accept => exact List.Sublist.refl _
    | _ => exact List.nil_sublist _

def levels : Set Nat :=
  { n | ∃ before, before <+: acts ∧ (run capacity before).2.stats.active = n }

lemma levels_concat (a : Act) : levels capacity (acts ++ [a]) =
    insert (run capacity (acts ++ [a])).2.stats.active (levels capacity acts) := by
  ext n
  constructor
  · rintro ⟨before, hbefore, rfl⟩
    rcases List.prefix_concat_iff.mp hbefore with rfl | hbefore
    · exact .inl rfl
    · exact .inr ⟨before, hbefore, rfl⟩
  · rintro (rfl | ⟨before, hbefore, rfl⟩)
    · exact ⟨_, List.prefix_rfl, rfl⟩
    · exact ⟨before, hbefore.trans (List.prefix_append _ _), rfl⟩

theorem run_peak : IsGreatest (levels capacity acts) (run capacity acts).2.stats.peakActive := by
  induction acts using List.reverseRecOn with
  | nil =>
    refine ⟨⟨[], List.prefix_rfl, rfl⟩, ?_⟩
    rintro n ⟨before, hbefore, rfl⟩
    rw [List.prefix_nil.mp hbefore]
    rfl
  | append_singleton acts a ih =>
    have hpeak := (act_does (run capacity acts).2 a).peak (run_books capacity acts).peak
    have hlast : (run capacity (acts ++ [a])).2 = ((run capacity acts).2.act a).2 := by rw [run_concat]
    rw [levels_concat, hlast, hpeak]
    exact ih.insert _

end Runs

/-- Whatever is done to a queue, for sessions that are put in once each: those that come out at the front come in the
order in which they were put in, and those that wait come next; each session that was accepted waits or was given out,
once. A push is refused exactly if the queue is at its capacity, and changes nothing then. The counters are the sessions
that wait, the slots taken and not handed back, and the most of them so far, and none is ever taken below zero. -/
theorem sessions_leave_once_in_order (capacity : Option Nat) (acts : List Act)
    (hpushes : (acts.filterMap Act.pushed?).Nodup) :
    let log := (run capacity acts).1
    let q := (run capacity acts).2
    served log ++ q.pending = (accepted log).filter (· ∉ removed log) ∧
      (served log ++ q.pending ++ removed log).Perm (accepted log) ∧ (accepted log).Nodup ∧
      (∀ id, if capacity = some q.pending.length then q.act (.push id) = (.refused id, q)
        else (q.act (.push id)).1 = .accepted id ∧ (q.act (.push id)).2.pending = q.pending ++ [id]) ∧
      q.stats.queued = q.pending.length ∧
      q.stats.active + log.count .released = pops log ∧
      IsGreatest (levels capacity acts) q.stats.peakActive ∧
      ∀ id q', q.pop? = some (id, q') → q'.stats.queued + 1 = q.stats.queued := by
  intro log q
  have hbooks : Books capacity log q := run_books capacity acts
  have haccepted : (accepted log).Nodup := hpushes.sublist (accepted_sublist capacity acts)
  refine ⟨hbooks.order haccepted, hbooks.conserved, haccepted, fun id => ?_, hbooks.queued, hbooks.active,
    run_peak capacity acts, fun id q' hpop => ?_⟩
  · rw [act_push]
    by_cases hfull : capacity = some q.pending.length
    · rw [if_pos hfull, if_pos (hbooks.isFull_iff.mpr hfull)]
    · rw [if_neg hfull, if_neg (mt hbooks.isFull_iff.mp hfull)]
      exact ⟨rfl, rfl⟩
  · obtain ⟨pending, hpending, rfl⟩ := pop?_eq_some.mp hpop
    have hqueued := hbooks.queued
    rw [hpending, List.length_cons] at hqueued
    rw [claim, hqueued, Nat.add_sub_cancel]

def bustle : List Act :=
  [.push 1, .push 2, .push 3, .pop, .remove 2, .push 4, .pop, .release, .release, .release, .push 5, .drain]

theorem sessions_leave_once_in_order_bustle :
    let log := (run (some 2) bustle).1
    (bustle.filterMap Act.pushed?).Nodup ∧ accepted log = [1, 2, 4, 5] ∧ served log = [1, 4, 5] ∧ removed log = [2] ∧
      served log ++ (run (some 2) bustle).2.pending = (accepted log).filter (· ∉ removed log) ∧
      (run (some 2) bustle).2.stats.active + log.count .released = pops log ∧
      IsGreatest (levels (some 2) bustle) 2 := by
  intro log
  have hpushes : (bustle.filterMap Act.pushed?).Nodup := by decide
  obtain ⟨horder, -, -, -, -, hactive, hpeak, -⟩ := sessions_leave_once_in_order (some 2) bustle hpushes
  exact ⟨hpushes, by decide, by decide, by decide, horder, hactive, hpeak⟩

end ScriptHost.Queue
