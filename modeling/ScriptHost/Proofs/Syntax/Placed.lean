import Mathlib.Data.List.Nodup
import ScriptHost.Proofs.Syntax.Legible
import ScriptHost.Proofs.Syntax.Spelling

/-!
The tokens of a text and their places. A text that can be read gives the tokens that it spells, no two of them at one
place.
-/

namespace ScriptHost

namespace Lexeme

lemma splitOnto_eq (found : List Lexeme) (cs : List Char) : splitOnto found cs = found.reverse ++ split cs := by
  have hmore (found more : List Lexeme) : splitOnto (found ++ more) cs = more.reverse ++ splitOnto found cs := by
    fun_induction splitOnto found cs with
    | case1 found => rw [splitOnto, List.reverse_append]
    | case2 found c cs ih =>
      rw [splitOnto]
      exact ih
  exact hmore [] found

lemma split_nil : split [] = [] := by
  rw [split, splitOnto]
  rfl

lemma split_cons (c : Char) (cs : List Char) :
    split (c :: cs) = ⟨(measure c cs).1, c :: cs.take (measure c cs).2⟩ :: split (cs.drop (measure c cs).2) := by
  rw [split, splitOnto, splitOnto_eq]
  rfl

lemma closeLength?_le {n m : Nat} {cs : List Char} (h : closeLength? n cs = some m) : m ≤ n + cs.length := by
  fun_induction closeLength? n cs with
  | case1 n cs =>
    cases h
    simp
  | case2 n c cs _ ih =>
    have := ih h
    rw [List.length_cons]
    omega
  | case3 n => cases h

lemma quotedLength_le (n : Nat) (cs : List Char) : (quotedLength n cs).1 ≤ n + cs.length := by
  fun_induction quotedLength n cs with
  | case1 n => simp
  | case2 n cs => simp
  | case3 n cs => simp
  | case4 n c cs ih =>
    simp only [List.length_cons]
    omega
  | case5 n c cs _ _ _ ih =>
    rw [List.length_cons]
    omega

lemma runLength_le (p : Char → Bool) (cs : List Char) : runLength p cs ≤ cs.length :=
  (List.takeWhile_sublist p).length_le

lemma measure_le (c : Char) (cs : List Char) (hclean : IsClean ⟨(measure c cs).1, c :: cs.take (measure c cs).2⟩) :
    (measure c cs).2 ≤ cs.length := by
  have hm := measured c cs
  generalize (measure c cs).1 = k at hm hclean
  generalize (measure c cs).2 = n at hm hclean ⊢
  cases hm with
  | blank | line | number | word => exact runLength_le _ cs
  | block _ hhead hn =>
    have := closeLength?_le hn
    cases cs with
    | nil => cases hhead
    | cons d cs =>
      rw [List.length_cons]
      rw [List.tail_cons] at this
      omega
  | openBlock => exact Nat.le_refl _
  | quoted _ hn =>
    have := quotedLength_le 0 cs
    rw [hn] at this
    omega
  | openQuoted => exact absurd hclean (List.cons_ne_nil _ _)
  | pair _ hs =>
    cases cs with
    | nil => cases hs
    | cons d cs => simp
  | single | stray => exact Nat.zero_le _

theorem spells_iff {cs : List Char} {ks : List TokenKind} :
    Spells cs ks ↔ (∀ x ∈ split cs, IsClean x) ∧ (split cs).flatMap kinds = ks := by
  constructor
  · intro h
    induction h with
    | nil =>
      rw [split_nil]
      exact ⟨fun x hx => (List.not_mem_nil hx).elim, rfl⟩
    | @cons c w next ks k hm hclean _ ih =>
      have hsplit : split (c :: (w ++ next)) = ⟨k, c :: w⟩ :: split next := by
        rw [split_cons, hm]
        dsimp only
        rw [List.take_left, List.drop_left]
      rw [hsplit, List.forall_mem_cons, List.flatMap_cons, ih.2]
      exact ⟨⟨hclean, ih.1⟩, rfl⟩
  · rintro ⟨hclean, rfl⟩
    -- On the length, since a lexeme may end anywhere in the rest.
    induction hn : cs.length using Nat.strongRecOn generalizing cs with
    | ind n ih =>
      cases cs with
      | nil =>
        rw [split_nil]
        exact .nil
      | cons c cs =>
        rw [split_cons, List.forall_mem_cons] at hclean
        have hle := measure_le c cs hclean.1
        have hshorter : (cs.drop (measure c cs).2).length < n := by
          rw [← hn, List.length_drop, List.length_cons]
          omega
        have hrest := ih _ hshorter hclean.2 rfl
        have hm : measure c (cs.take (measure c cs).2 ++ cs.drop (measure c cs).2) =
            ((measure c cs).1, (cs.take (measure c cs).2).length) := by
          rw [List.take_append_drop, List.length_take, Nat.min_eq_left hle]
        have hspells := Spells.cons (measure c cs).1 hm hclean.1 hrest
        rw [List.take_append_drop] at hspells
        rw [split_cons]
        exact hspells

end Lexeme

/-! Places. -/

namespace Position

def Before (p q : Position) : Prop :=
  p.line < q.line ∨ p.line = q.line ∧ p.column < q.column

lemma Before.trans {p q r : Position} (h : p.Before q) (h' : q.Before r) : p.Before r := by
  unfold Before at *
  omega

lemma Before.ne {p q : Position} (h : p.Before q) : p ≠ q := by
  rintro rfl
  unfold Before at h
  omega

lemma before_next (p : Position) (c : Char) : p.Before (p.next c) := by
  rw [next]
  split
  · exact .inl (Nat.lt_succ_self _)
  · exact .inr ⟨rfl, Nat.lt_succ_self _⟩

lemma before_after (p : Position) {cs : List Char} (h : cs ≠ []) : p.Before (p.after cs) := by
  induction cs generalizing p with
  | nil => cases h rfl
  | cons c cs ih =>
    cases cs with
    | nil => exact p.before_next c
    | cons d cs => exact (p.before_next c).trans (ih (p.next c) (List.cons_ne_nil _ _))

end Position

namespace Scan

def placed (p : Position) : List Lexeme → List Token
  | [] => []
  | x :: xs => x.kinds.map (⟨·, p⟩) ++ placed (p.after x.text) xs

lemma placed_kinds (p : Position) (xs : List Lexeme) : (placed p xs).map (·.kind) = xs.flatMap Lexeme.kinds := by
  induction xs generalizing p with
  | nil => rfl
  | cons x xs ih => simp [placed, ih, Function.comp_def]

lemma placed_from {p : Position} {xs : List Lexeme} (hx : ∀ x ∈ xs, x.text ≠ []) :
    ∀ t ∈ placed p xs, p = t.place ∨ p.Before t.place := by
  induction xs generalizing p with
  | nil => exact fun t ht => (List.not_mem_nil ht).elim
  | cons x xs ih =>
    obtain ⟨hx, hxs⟩ := List.forall_mem_cons.mp hx
    intro t ht
    rw [placed, List.mem_append, List.mem_map] at ht
    rcases ht with ⟨k, -, rfl⟩ | ht
    · exact .inl rfl
    · rcases ih hxs t ht with heq | hbefore
      · exact .inr (heq ▸ p.before_after hx)
      · exact .inr ((p.before_after hx).trans hbefore)

lemma placed_nodup {p : Position} {xs : List Lexeme} (hx : ∀ x ∈ xs, x.text ≠ []) :
    ((placed p xs).map (·.place)).Nodup := by
  induction xs generalizing p with
  | nil => exact List.nodup_nil
  | cons x xs ih =>
    obtain ⟨hx, hxs⟩ := List.forall_mem_cons.mp hx
    have hafter : ∀ t ∈ placed (p.after x.text) xs, p.Before t.place := by
      intro t ht
      rcases placed_from hxs t ht with heq | hbefore
      · exact heq ▸ p.before_after hx
      · exact (p.before_after hx).trans hbefore
    rw [placed, Lexeme.kinds]
    cases (x.read .start).1 with
    | none => exact ih hxs
    | some k =>
      refine List.nodup_cons.mpr ⟨fun hp => ?_, ih hxs⟩
      obtain ⟨t, ht, heq⟩ := List.mem_map.mp hp
      exact (hafter t ht).ne heq.symm

lemma foldl_findings (xs : List Lexeme) (s : Progress) :
    (xs.foldl Progress.add s).findings = [] ↔ (∀ x ∈ xs, x.IsClean) ∧ s.findings = [] := by
  induction xs generalizing s with
  | nil => simp
  | cons x xs ih =>
    have hadd : (s.add x).findings = (x.read s.place).2 ++ s.findings := rfl
    have hclean : (x.read s.place).2 = [] ↔ x.IsClean := by
      rw [Lexeme.IsClean, ← List.map_eq_nil_iff, (x.read_place s.place .start).2, List.map_eq_nil_iff]
    rw [List.foldl_cons, ih, hadd, List.append_eq_nil_iff, hclean, List.forall_mem_cons]
    tauto

lemma foldl_tokens (xs : List Lexeme) (s : Progress) :
    (xs.foldl Progress.add s).tokens = (placed s.place xs).reverse ++ s.tokens := by
  induction xs generalizing s with
  | nil => rfl
  | cons x xs ih =>
    have htokens : (s.add x).tokens = (x.kinds.map (⟨·, s.place⟩)).reverse ++ s.tokens := by
      rw [Lexeme.kinds, ← (x.read_place s.place .start).1]
      change (x.read s.place).1.elim s.tokens _ = _
      cases (x.read s.place).1 <;> rfl
    have hplace : (s.add x).place = s.place.after x.text := rfl
    rw [List.foldl_cons, ih, htokens, hplace, placed, List.reverse_append, List.append_assoc]

theorem ofText_spells {s : String} {ks : List TokenKind} (h : Lexeme.Spells s.toList ks) :
    (ofText s).findings = [] ∧ ∃ ts p, (ofText s).tokens = ts ++ [⟨.eof, p⟩] ∧ ts.map (·.kind) = ks ∧
      (ts.map (·.place)).Nodup := by
  obtain ⟨hclean, hkinds⟩ := Lexeme.spells_iff.mp h
  refine ⟨?_, placed .start (Lexeme.split s.toList),
    ((Lexeme.split s.toList).foldl Progress.add ⟨[], [], .start⟩).place, ?_, ?_, ?_⟩
  · rw [ofText, ofLexemes, Progress.finish, List.reverse_eq_nil_iff, foldl_findings]
    exact ⟨hclean, rfl⟩
  · rw [ofText, ofLexemes, Progress.finish, foldl_tokens, List.append_nil, List.reverse_cons, List.reverse_reverse]
  · rw [placed_kinds, hkinds]
  · exact placed_nodup (Lexeme.split_ne_nil _)

lemma spells_of_clean {s : String} (h : (ofText s).findings = []) : ∃ ks, Lexeme.Spells s.toList ks := by
  rw [ofText, ofLexemes, Progress.finish, List.reverse_eq_nil_iff, foldl_findings] at h
  exact ⟨_, Lexeme.spells_iff.mpr ⟨h.1, rfl⟩⟩

end Scan

end ScriptHost
