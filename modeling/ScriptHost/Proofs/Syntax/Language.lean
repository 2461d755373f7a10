import ScriptHost.Proofs.Syntax.Derivable
import ScriptHost.Proofs.Syntax.Readable
import ScriptHost.Proofs.Syntax.Unambiguous

/-!
The units that are read without a finding are those that the grammar derives.
-/

namespace ScriptHost.Grammar

def Endless (ts : List Token) : Prop :=
  ∀ t ∈ ts, t.kind ≠ .eof

section Endless

variable {t : Token} {ts us : List Token}

@[simp]
lemma endless_nil : Endless [] := by
  simp [Endless]

@[simp]
lemma endless_cons : Endless (t :: ts) ↔ t.kind ≠ .eof ∧ Endless ts :=
  List.forall_mem_cons

@[simp]
lemma endless_append : Endless (ts ++ us) ↔ Endless ts ∧ Endless us :=
  List.forall_mem_append

end Endless

@[simp]
lemma Phrase.endless {n : Piece} (d : Phrase n) : Endless d.tokens := by
  induction d <;> simp [*]

@[simp]
lemma Clause.endless {n : Form} (d : Clause n) : Endless d.tokens := by
  induction d <;> simp [*]

@[simp]
lemma Parameters.endless (ps : Parameters) : Endless ps.tokens := by
  rcases ps with q | ⟨first, more, q⟩
  · simp [tokens]
  · induction more <;> simp_all [tokens]

lemma Function.endless (f : Function) : Endless f.tokens := by
  simp

lemma endless_unit (u : List Function) : Endless (u.flatMap Function.tokens) := by
  intro t ht
  obtain ⟨f, -, ht⟩ := List.mem_flatMap.mp ht
  exact f.endless t ht

/-! A unit goes up to the first end of the file. -/

lemma takeWhile_endless {ts r : List Token} (h : Endless ts) (hr : Ahead (· == .eof) r) :
    (ts ++ r).takeWhile (·.kind != .eof) = ts := by
  have hnone : r.takeWhile (·.kind != .eof) = [] := by
    cases r with
    | nil => rfl
    | cons t r =>
      have ht : t.kind = .eof := eq_of_beq (ahead_cons.mp hr)
      simp [ht]
  rw [List.takeWhile_append_of_pos (by simpa [Endless] using h), hnone, List.append_nil]

lemma takeWhile_ended (ts : List Token) {t : Token} (ht : t.kind = .eof) :
    (ts ++ [t]).takeWhile (·.kind != .eof) = ts.takeWhile (·.kind != .eof) := by
  induction ts with
  | nil => simp [ht]
  | cons u ts ih => rw [List.cons_append, List.takeWhile_cons, List.takeWhile_cons, ih]

lemma ahead_dropWhile (ts : List Token) : Ahead (· == .eof) (ts.dropWhile (·.kind != .eof)) := by
  induction ts with
  | nil => exact ahead_nil
  | cons t ts ih =>
    rw [List.dropWhile_cons]
    split
    · exact ih
    · next ht => exact ahead_cons.mpr (by simpa using ht)

theorem ofTokens_iff (ts : List Token) (fs : List FunctionDecl) :
    Parsed.ofTokens ts = ⟨fs, []⟩ ↔
      ∃ u : List Function, u.flatMap Function.tokens = ts.takeWhile (·.kind != .eof) ∧ u.map Function.value = fs ∧
        ∀ f ∈ u, f.openings ≤ nestingLimit := by
  constructor
  · intro h
    obtain ⟨u, r, rfl, hr, rfl, hroom⟩ := ofTokensOnto_derives h
    exact ⟨u, (takeWhile_endless (endless_unit u) hr).symm, rfl, hroom⟩
  · rintro ⟨u, hu, rfl, hroom⟩
    rw [← List.takeWhile_append_dropWhile (p := (·.kind != .eof)) (l := ts), ← hu]
    exact ofTokensOnto_eq u hroom [] (ahead_dropWhile ts)

/-- Off tokens that end a file, functions are read without a finding just when the tokens before the first end of
the file are those of a derivation within the nesting limit, and then they are its functions, places included. No
tokens have two derivations. -/
theorem accepts_exactly_grammar (ts : List Token) (p : Position) (fs : List FunctionDecl) :
    (Parsed.ofTokens (ts ++ [⟨.eof, p⟩]) = ⟨fs, []⟩ ↔
      ∃ u : List Function, u.flatMap Function.tokens = ts.takeWhile (·.kind != .eof) ∧ u.map Function.value = fs ∧
        ∀ f ∈ u, f.openings ≤ nestingLimit) ∧
    ∀ u v : List Function, u.flatMap Function.tokens = v.flatMap Function.tokens → u = v := by
  rw [ofTokens_iff, takeWhile_ended ts rfl]
  exact ⟨Iff.rfl, unit_unique⟩

end ScriptHost.Grammar
