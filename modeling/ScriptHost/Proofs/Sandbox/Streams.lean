import Mathlib.Data.List.DropRight
import ScriptHost.Proofs.Sandbox.Lines

/-!
Streams in use. Any number of handles can stand for one stream, and what is done through one of them is seen through
all. A stream holds what was written since it was last emptied, whoever wrote it, and its books come to that.
-/

namespace ScriptHost

namespace Capture

inductive Use where
  | write (s : String)
  | snapshot
  | take
deriving DecidableEq, Repr

def Use.text? : Use → Option String
  | write s => some s
  | snapshot | take => none

def use (c : Capture) : Use → Option Captured × Capture
  | .write s => (none, c.write s)
  | .snapshot => (some c.kept, c)
  | .take => (some c.take.1, c.take.2)

def after (c : Capture) (uses : List Use) : Capture :=
  uses.foldl (fun c u => (c.use u).2) c

def unread (uses : List Use) : List String :=
  (uses.rtakeWhile (· ≠ .take)).filterMap Use.text?

section Histories

variable (c : Capture) (limit : Nat) (uses : List Use)

lemma after_concat (u : Use) : c.after (uses ++ [u]) = ((c.after uses).use u).2 :=
  List.foldl_concat _ _ _ _

lemma unread_concat {u : Use} (hu : u ≠ .take) : unread (uses ++ [u]) = unread uses ++ u.text?.toList := by
  rw [unread, List.rtakeWhile_concat_pos _ uses u (by simpa using hu), List.filterMap_append, unread]
  cases u <;> rfl

lemma unread_taken : unread (uses ++ [.take]) = [] := by
  rw [unread, List.rtakeWhile_concat_neg _ uses _ (by decide)]
  rfl

lemma after_eq_writeAll : (⟨limit, {}⟩ : Capture).after uses = (⟨limit, {}⟩ : Capture).writeAll (unread uses) := by
  induction uses using List.reverseRecOn with
  | nil => rfl
  | append_singleton uses u ih =>
    rw [after_concat, ih]
    cases u with
    | write s =>
      rw [unread_concat uses (u := .write s) nofun, writeAll_append]
      rfl
    | snapshot =>
      rw [unread_concat uses (u := .snapshot) nofun, writeAll_append]
      rfl
    | take =>
      rw [unread_taken, use, take, limit_writeAll]
      rfl

end Histories

section Bounds

variable {c : Capture}

lemma size_write_le (s : String) (h : c.kept.text.utf8ByteSize ≤ c.limit) :
    (c.write s).kept.text.utf8ByteSize ≤ c.limit := by
  rw [write]
  by_cases hs : s.utf8ByteSize ≤ c.room
  · rw [room] at hs
    rw [if_pos (by exact hs), String.utf8ByteSize_append]
    omega
  · have hfit := Text.utf8ByteSize_fit_le_room c.room s
    rw [if_neg hs, String.utf8ByteSize_append]
    rw [room] at hfit ⊢
    omega

lemma size_writeAll_le (texts : List String) (h : c.kept.text.utf8ByteSize ≤ c.limit) :
    (c.writeAll texts).kept.text.utf8ByteSize ≤ c.limit := by
  induction texts generalizing c with
  | nil => exact h
  | cons s texts ih =>
    have hs := c.limit_write s
    exact hs ▸ ih (hs.symm ▸ size_write_le s h)

/-- What does not fit leaves no more room than part of a character needs. -/
def Crowded (c : Capture) : Prop :=
  0 < c.kept.dropped → c.limit < c.kept.text.utf8ByteSize + 4

lemma Crowded.write (h : c.Crowded) (s : String) : (c.write s).Crowded := by
  intro hdropped
  rw [limit_write]
  rw [Capture.write] at hdropped ⊢
  by_cases hs : s.utf8ByteSize ≤ c.room
  · rw [if_pos hs] at hdropped ⊢
    have := h hdropped
    rw [String.utf8ByteSize_append]
    omega
  · have hfit := Text.lt_utf8ByteSize_fit (Nat.not_le.mp hs)
    rw [if_neg hs, String.utf8ByteSize_append]
    rw [room] at hfit ⊢
    omega

lemma Crowded.writeAll (h : c.Crowded) (texts : List String) : (c.writeAll texts).Crowded := by
  induction texts generalizing c with
  | nil => exact h
  | cons s texts ih => exact ih (h.write s)

end Bounds

end Capture

structure Streams where
  captures : List Capture
  handles : List Nat
deriving DecidableEq, Repr

namespace Streams

def ofLimits (limits : List Nat) : Streams where
  captures := limits.map (⟨·, {}⟩)
  handles := List.range limits.length

def clone? (s : Streams) (h : Nat) : Option Streams :=
  (s.handles[h]?).map fun i => { s with handles := s.handles ++ [i] }

def use? (s : Streams) (h : Nat) (u : Capture.Use) : Option (Option Captured × Streams) := do
  let i ← s.handles[h]?
  let c ← s.captures[i]?
  return ((c.use u).1, { s with captures := s.captures.set i (c.use u).2 })

lemma use?_eq_some {s s' : Streams} {h : Nat} {u : Capture.Use} {answer : Option Captured} :
    s.use? h u = some (answer, s') ↔ ∃ i c, s.handles[h]? = some i ∧ s.captures[i]? = some c ∧
      answer = (c.use u).1 ∧ s' = { s with captures := s.captures.set i (c.use u).2 } := by
  simp only [use?, Option.bind_eq_bind, Option.bind_eq_some_iff, Option.pure_def, Option.some.injEq,
    Prod.mk.injEq]
  constructor
  · rintro ⟨i, hi, c, hc, rfl, rfl⟩
    exact ⟨i, c, hi, hc, rfl, rfl⟩
  · rintro ⟨i, c, hi, hc, rfl, rfl⟩
    exact ⟨i, hi, c, hc, rfl, rfl⟩

/-- What can be done to streams through handles on them, with the uses of each stream in order. -/
inductive Run (limits : List Nat) : List (Nat × Capture.Use) → Streams → Prop
  | start : Run limits [] (ofLimits limits)
  | clone {log : List (Nat × Capture.Use)} {s s' : Streams} {h : Nat} :
      Run limits log s → s.clone? h = some s' → Run limits log s'
  | use {log : List (Nat × Capture.Use)} {s s' : Streams} {h i : Nat} {u : Capture.Use} {answer : Option Captured} :
      Run limits log s → s.handles[h]? = some i → s.use? h u = some (answer, s') → Run limits (log ++ [(i, u)]) s'

def usesOf (i : Nat) (log : List (Nat × Capture.Use)) : List Capture.Use :=
  (log.filter (·.1 = i)).map (·.2)

lemma usesOf_concat (i j : Nat) (u : Capture.Use) (log : List (Nat × Capture.Use)) :
    usesOf i (log ++ [(j, u)]) = usesOf i log ++ if j = i then [u] else [] := by
  by_cases hj : j = i <;> simp [usesOf, hj]

section Runs

variable {limits : List Nat} {log : List (Nat × Capture.Use)} {s : Streams} {i limit : Nat}

theorem Run.capture (h : Run limits log s) (hi : limits[i]? = some limit) :
    s.captures[i]? = some ((⟨limit, {}⟩ : Capture).after (usesOf i log)) := by
  induction h with
  | start => simp [ofLimits, hi, usesOf, Capture.after]
  | clone _ hclone ih =>
    obtain ⟨j, -, rfl⟩ := Option.map_eq_some_iff.mp hclone
    exact ih
  | @use log s s' h j u answer _ hj huse ih =>
    obtain ⟨k, c, hk, hc, -, rfl⟩ := use?_eq_some.mp huse
    obtain rfl : j = k := Option.some.inj (hj.symm.trans hk)
    rw [usesOf_concat, List.getElem?_set]
    by_cases hji : j = i
    · subst hji
      obtain rfl : _ = c := Option.some.inj (ih.symm.trans hc)
      have hlt := (List.getElem?_eq_some_iff.mp hc).1
      rw [if_pos rfl, if_pos hlt, if_pos rfl, Capture.after_concat]
    · rw [if_neg hji, if_neg hji, List.append_nil, ih]

/-- Whatever was done to some streams through handles and clones of them: a stream keeps no more than its limit, its
bytes and those it counts as lost are the ones written since it was last emptied, and it gives up no more room than part
of a character needs. A look through any of its handles gives what it holds and changes nothing; emptying it gives the
same, and leaves it as it was in the beginning. -/
theorem streams_keep_their_books (h : Run limits log s) (hi : limits[i]? = some limit) :
    ∃ c, s.captures[i]? = some c ∧
      c.limit = limit ∧ c.kept.text.utf8ByteSize ≤ limit ∧
      c.kept.text.utf8ByteSize + c.kept.dropped =
        ((Capture.unread (usesOf i log)).map String.utf8ByteSize).sum ∧
      (0 < c.kept.dropped → limit - 3 ≤ c.kept.text.utf8ByteSize) ∧
      ∀ k, s.handles[k]? = some i →
        s.use? k .snapshot = some (some c.kept, s) ∧
        s.use? k .take = some (some c.kept, { s with captures := s.captures.set i ⟨limit, {}⟩ }) := by
  have hc := h.capture hi
  rw [Capture.after_eq_writeAll] at hc
  refine ⟨_, hc, Capture.limit_writeAll _ _, Capture.size_writeAll_le _ (Nat.zero_le limit), ?_, ?_, ?_⟩
  · exact (Capture.total_writeAll ⟨limit, {}⟩ _).trans (Nat.zero_add _)
  · intro hdropped
    have hempty : (⟨limit, {}⟩ : Capture).Crowded := fun h => absurd h (Nat.lt_irrefl 0)
    have hcrowded := hempty.writeAll _ hdropped
    rw [Capture.limit_writeAll] at hcrowded
    dsimp only at hcrowded
    omega
  · intro k hk
    refine ⟨use?_eq_some.mpr ⟨i, _, hk, hc, rfl, ?_⟩, use?_eq_some.mpr ⟨i, _, hk, hc, rfl, ?_⟩⟩
    · obtain ⟨hlt, hget⟩ := List.getElem?_eq_some_iff.mp hc
      rw [Capture.use, ← hget, List.set_getElem_self]
    · rw [Capture.use, Capture.take, Capture.limit_writeAll]

end Runs

theorem streams_keep_their_books_cloned : ∃ log s c, Run [4] log s ∧ s.captures[0]? = some c ∧
    c.kept = ⟨"abé", 1⟩ ∧
    c.kept.text.utf8ByteSize + c.kept.dropped =
      ((Capture.unread (usesOf 0 log)).map String.utf8ByteSize).sum ∧
    4 - 3 ≤ c.kept.text.utf8ByteSize ∧
    s.use? 1 .take = some (some ⟨"abé", 1⟩, { s with captures := s.captures.set 0 ⟨4, {}⟩ }) := by
  have hcloned : Run [4] [] ⟨[⟨4, {}⟩], [0, 0]⟩ := Run.start.clone (h := 0) rfl
  have hemptied := (hcloned.use (h := 0) (u := .write "xyz") rfl rfl).use (h := 1) (u := .take) rfl rfl
  have hfilled := (hemptied.use (h := 0) (u := .write "ab") rfl rfl).use (h := 1) (u := .write "é!") rfl rfl
  obtain ⟨c, hc, -, -, hbooks, hroom, hhandles⟩ := streams_keep_their_books hfilled (i := 0) rfl
  have hkept : c.kept = ⟨"abé", 1⟩ := by
    cases hc
    decide +kernel
  have htake := (hhandles 1 rfl).2
  rw [hkept] at hroom htake
  exact ⟨_, _, c, hfilled, hc, hkept, hbooks, hkept ▸ hroom Nat.one_pos, htake⟩

end Streams

end ScriptHost
