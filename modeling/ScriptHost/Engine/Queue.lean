/-!
The queue of sessions that wait, first come, first served, and the counters of the slots. Taking a
session from the front also takes a slot, which is handed back later.
-/

namespace ScriptHost

structure Stats where
  queued : Nat := 0
  active : Nat := 0
  peakActive : Nat := 0
  compilations : Nat := 0
  executions : Nat := 0
  completed : Nat := 0
deriving DecidableEq, Repr

structure Queue where
  capacity : Option Nat
  pending : List Nat := []
  stats : Stats := {}
deriving DecidableEq, Repr

namespace Queue

def isFull (q : Queue) : Bool :=
  q.capacity.any (· ≤ q.pending.length)

def push? (q : Queue) (id : Nat) : Option Queue :=
  if q.isFull then none
  else
    let pending := q.pending ++ [id]
    some { q with pending, stats := { q.stats with queued := pending.length } }

theorem push?_eq_some {q q' : Queue} {id : Nat} :
    q.push? id = some q' ↔ q.isFull = false ∧
      q' = { q with
        pending := q.pending ++ [id]
        stats := { q.stats with queued := q.pending.length + 1 } } := by
  cases h : q.isFull <;> simp [push?, h, eq_comm]

theorem count_push? {q q' : Queue} {id : Nat} (i : Nat) (h : q.push? id = some q') :
    q'.pending.count i = q.pending.count i + [id].count i := by
  rw [(push?_eq_some.mp h).2, List.count_append]

def claim (s : Stats) : Stats :=
  { s with
    queued := s.queued - 1
    active := s.active + 1
    peakActive := max s.peakActive (s.active + 1) }

def pop? (q : Queue) : Option (Nat × Queue) :=
  match q.pending with
  | [] => none
  | id :: pending => some (id, { q with pending, stats := claim q.stats })

theorem pop?_eq_some {q q' : Queue} {id : Nat} :
    q.pop? = some (id, q') ↔
      ∃ pending, q.pending = id :: pending ∧ q' = { q with pending, stats := claim q.stats } := by
  rw [pop?]
  split
  · next h => simp [h]
  · next other pending h => simp [h, eq_comm, and_assoc]

theorem pop?_eq_none {q : Queue} : q.pop? = none ↔ q.pending = [] := by
  rw [pop?]
  split <;> simp_all

theorem count_pop? {q q' : Queue} {id : Nat} (i : Nat) (h : q.pop? = some (id, q')) :
    q'.pending.count i + [id].count i = q.pending.count i := by
  obtain ⟨pending, hq, rfl⟩ := pop?_eq_some.mp h
  rw [hq, List.count_cons, List.count_cons, List.count_nil, Nat.zero_add]

def remove? (q : Queue) (id : Nat) : Option Queue :=
  if id ∈ q.pending then
    let pending := q.pending.erase id
    some { q with pending, stats := { q.stats with queued := pending.length } }
  else none

theorem remove?_eq_some {q q' : Queue} {id : Nat} :
    q.remove? id = some q' ↔ id ∈ q.pending ∧
      q' = { q with
        pending := q.pending.erase id
        stats := { q.stats with queued := (q.pending.erase id).length } } := by
  by_cases h : id ∈ q.pending <;> simp [remove?, h, eq_comm]

theorem count_remove? {q q' : Queue} {id : Nat} (i : Nat) (h : q.remove? id = some q') :
    q'.pending.count i + [id].count i = q.pending.count i := by
  obtain ⟨hmem, hq⟩ := remove?_eq_some.mp h
  have hpending : q'.pending = q.pending.erase id := by rw [hq]
  rw [hpending, (List.perm_cons_erase hmem).count_eq, List.count_cons, List.count_cons, List.count_nil]
  omega

def drain (q : Queue) : List Nat × Queue :=
  (q.pending, { q with pending := [], stats := { q.stats with queued := 0 } })

def release (q : Queue) : Queue :=
  { q with stats := { q.stats with active := q.stats.active - 1 } }

def recordCompilation (q : Queue) : Queue :=
  { q with stats := { q.stats with compilations := q.stats.compilations + 1 } }

def recordExecution (q : Queue) : Queue :=
  { q with stats := { q.stats with executions := q.stats.executions + 1 } }

def recordCompletion (q : Queue) : Queue :=
  { q with stats := { q.stats with completed := q.stats.completed + 1 } }

section Pending

variable (q : Queue)

@[simp]
theorem pending_release : q.release.pending = q.pending := rfl

@[simp]
theorem pending_recordCompilation : q.recordCompilation.pending = q.pending := rfl

@[simp]
theorem pending_recordExecution : q.recordExecution.pending = q.pending := rfl

@[simp]
theorem pending_recordCompletion : q.recordCompletion.pending = q.pending := rfl

end Pending

end Queue

end ScriptHost
