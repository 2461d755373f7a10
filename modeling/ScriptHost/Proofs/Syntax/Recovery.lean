import Mathlib.Data.List.SplitBy
import ScriptHost.Proofs.Syntax.Mirrored

/-!
Recovery from findings. The outermost loop comes to an end, and what it finds in one segment of the tokens, from one
`fn` up to the next, does not depend on the other segments.
-/

namespace ScriptHost.Descent

open ScriptHost.Parser (current)

def Turn.done (ts : List Token) (f : FunctionDecl) (rest : List Token) : Turn :=
  ⟨⟨ts, 0⟩, .ok f, ⟨rest, 0⟩⟩

def Turn.broken (ts : List Token) (f : Finding) (rest : List Token) : Turn :=
  ⟨⟨ts, 0⟩, .error (.finding f), ⟨rest, 0⟩⟩

def Runs (ts : List Token) (xs : List Turn) : Prop :=
  Ends (fun n => turns n ⟨ts, 0⟩) xs

section Turns

variable {ts rest : List Token}

lemma Ends.unique {β : Type} {out : Nat → Option β} {a b : β} (ha : Ends out a) (hb : Ends out b) : a = b := by
  obtain ⟨n, hboth⟩ := ha.both hb
  obtain ⟨ha, hb⟩ := hboth n (Nat.le_refl n)
  exact Option.some.inj (ha.symm.trans hb)

lemma item_function (n : Nat) (p : Position) (ts : List Token) :
    item n ⟨⟨.word .function, p⟩ :: ts, 0⟩ = function n ⟨⟨.word .function, p⟩ :: ts, 0⟩ := by
  have hhead : decide ((current (⟨.word .function, p⟩ :: ts)).kind = .word .function) = true := decide_eq_true rfl
  rw [item, check_bind, hhead, if_pos rfl]

lemma item_other (n : Nat) (h : (current ts).kind ≠ .word .function) :
    item n ⟨ts, 0⟩ = some (.error (.finding (Parser.unexpected "'fn'" ts)), ⟨ts, 0⟩) := by
  rw [item, check_bind, decide_eq_false h, if_neg Bool.false_ne_true]
  rfl

/-! The outermost loop. -/

lemma runs_eof (h : (current ts).kind = .eof) : Runs ts [] :=
  Ends.later (ends_of_eq fun n => by rw [turns, if_pos h]; rfl)

lemma runs_ok {f : FunctionDecl} {xs : List Turn} (hts : (current ts).kind ≠ .eof)
    (h : Ends (fun n => item n ⟨ts, 0⟩) (.ok f, ⟨rest, 0⟩)) (hxs : Runs rest xs) : Runs ts (.done ts f rest :: xs) := by
  apply Ends.later
  obtain ⟨n₀, hboth⟩ := h.both hxs
  refine ⟨n₀, fun n hn => ?_⟩
  obtain ⟨hitem, hturns⟩ := hboth n hn
  simp [turns, hts, hitem, hturns, Turn.done]

lemma runs_finding {f : Finding} {stop : Cursor} {xs : List Turn} (hts : (current ts).kind ≠ .eof)
    (h : Ends (fun n => item n ⟨ts, 0⟩) (.error (.finding f), stop)) (hxs : Runs (Parsed.nextItem stop.rest) xs) :
    Runs ts (.broken ts f (Parsed.nextItem stop.rest) :: xs) := by
  apply Ends.later
  obtain ⟨n₀, hboth⟩ := h.both hxs
  refine ⟨n₀, fun n hn => ?_⟩
  obtain ⟨hitem, hturns⟩ := hboth n hn
  simp [turns, hts, hitem, hturns, Turn.broken]

lemma Spent.nextItem (h : Spent ts rest) : Parsed.nextItem ts = Parsed.nextItem rest := by
  obtain ⟨used, rfl, hused⟩ := h
  exact List.dropWhile_append_of_pos fun t ht => by rw [hused t ht]; rfl

lemma spent_nextItem (ts : List Token) : Spent ts (Parsed.nextItem ts) := by
  refine ⟨ts.takeWhile (!Parsed.startsItem ·), List.takeWhile_append_dropWhile.symm, fun t ht => ?_⟩
  simpa using List.all_eq_true.mp List.all_takeWhile t ht

/-- A turn begins outside all openings, closes none that is not open, and takes no `fn` but at the start of an item. -/
structure Turn.Sound (x : Turn) : Prop where
  depth_eq : x.start.depth = 0
  balanced : x.outcome ≠ .error .underflow
  spent : ∃ used, x.start.rest = used ++ x.stop.rest ∧ ∀ t ∈ used.tail, t.kind ≠ .word .function

/-- Each turn begins where the one before it ended, and the last ends where the file does. -/
def Linked (c : Cursor) : List Turn → Prop
  | [] => (current c.rest).kind = .eof
  | x :: xs => x.start = c ∧ Linked x.stop xs

lemma Spent.length_le (h : Spent ts rest) : rest.length ≤ ts.length := by
  obtain ⟨used, rfl, -⟩ := h
  simp

lemma Turn.sound_of_spent {t : Token} {outcome : Except Halt FunctionDecl} (hbalanced : outcome ≠ .error .underflow)
    (h : Spent ts rest) : Turn.Sound ⟨⟨t :: ts, 0⟩, outcome, ⟨rest, 0⟩⟩ := by
  obtain ⟨used, rfl, hused⟩ := h
  refine ⟨rfl, hbalanced, t :: used, rfl, fun u hu hfn => ?_⟩
  have hu' := hused u hu
  simp [Parsed.startsItem, hfn] at hu'

lemma ofTokensOnto_error {functions : List FunctionDecl} {findings : List Finding} {t : Token} {f : Finding}
    (ht : t.kind = .word .function) (h : Parser.function (t :: ts) = .error f) :
    Parsed.ofTokensOnto functions findings (t :: ts) =
      Parsed.ofTokensOnto functions (f :: findings) (Parsed.nextItem ts) := by
  rw [Parsed.ofTokensOnto, if_neg (by simp [ht]), if_pos ht, h]

lemma ofTokensOnto_other {functions : List FunctionDecl} {findings : List Finding} {t : Token} (heof : t.kind ≠ .eof)
    (hfn : t.kind ≠ .word .function) : Parsed.ofTokensOnto functions findings (t :: ts) =
      Parsed.ofTokensOnto functions (Parser.unexpected "'fn'" (t :: ts) :: findings) (Parsed.nextItem ts) := by
  rw [Parsed.ofTokensOnto, if_neg heof, if_neg hfn]

lemma runs_function {p : Position} {f : FunctionDecl}
    (h : Grammar.Takes (Parser.function (⟨.word .function, p⟩ :: ts)) f rest) :
    Spent ts rest ∧ ∀ xs, Runs rest xs →
      Runs (⟨.word .function, p⟩ :: ts) (.done (⟨.word .function, p⟩ :: ts) f rest :: xs) := by
  obtain ⟨hlt, hread⟩ := h
  have hfollows := function_follows p ts
  rw [hread] at hfollows
  simp only [← item_function] at hfollows
  obtain ⟨hrun, hspent⟩ := hfollows
  exact ⟨hspent, fun xs hxs => runs_ok (by simp [current]) hrun hxs⟩

lemma runs_error {p : Position} {f : Finding} (h : Parser.function (⟨.word .function, p⟩ :: ts) = .error f)
    {xs : List Turn} (hxs : Runs (Parsed.nextItem ts) xs) : Runs (⟨.word .function, p⟩ :: ts)
      (.broken (⟨.word .function, p⟩ :: ts) f (Parsed.nextItem ts) :: xs) := by
  have hfollows := function_follows p ts
  rw [h] at hfollows
  simp only [← item_function] at hfollows
  obtain ⟨rest, d, hrun, hspent, -⟩ := hfollows
  rw [hspent.nextItem] at hxs ⊢
  exact runs_finding (by simp [current]) hrun hxs

lemma runs_other {t : Token} (heof : t.kind ≠ .eof) (hfn : t.kind ≠ .word .function) {xs : List Turn}
    (hxs : Runs (Parsed.nextItem ts) xs) : Runs (t :: ts)
      (.broken (t :: ts) (Parser.unexpected "'fn'" (t :: ts)) (Parsed.nextItem ts) :: xs) := by
  have hnext : Parsed.nextItem (t :: ts) = Parsed.nextItem ts :=
    ((Spent.refl ts).cons (startsItem_eq_false hfn heof)).nextItem
  have hts : (current (t :: ts)).kind ≠ .eof := heof
  have hother : (current (t :: ts)).kind ≠ .word .function := hfn
  rw [← hnext] at hxs ⊢
  exact runs_finding hts (ends_of_eq fun n => item_other n hother) hxs

lemma turn_mirrors (t : Token) (ts : List Token) (ht : t.kind ≠ .eof) : ∃ x : Turn, ∃ rest : List Token,
    x.start = ⟨t :: ts, 0⟩ ∧ x.stop = ⟨rest, 0⟩ ∧ rest.length ≤ ts.length ∧ x.Sound ∧
      (∀ xs, Runs rest xs → Runs (t :: ts) (x :: xs)) ∧
      ∀ functions findings, Parsed.ofTokensOnto functions findings (t :: ts) =
        Parsed.ofTokensOnto (x.function?.toList ++ functions) (x.finding?.toList ++ findings) rest := by
  have hbroken := spent_nextItem ts
  by_cases hfn : t.kind = .word .function
  · obtain ⟨kind, p⟩ := t
    obtain rfl : kind = .word .function := hfn
    cases hread : Parser.function (⟨.word .function, p⟩ :: ts) with
    | ok r =>
      obtain ⟨hspent, hruns⟩ := runs_function ⟨r.shorter, hread⟩
      refine ⟨.done _ r.value r.rest, r.rest, rfl, rfl, hspent.length_le, ?_, hruns, fun functions findings => ?_⟩
      · exact Turn.sound_of_spent (by simp) hspent
      · exact Grammar.ofTokensOnto_function rfl ⟨r.shorter, hread⟩
    | error f =>
      refine ⟨.broken _ f _, Parsed.nextItem ts, rfl, rfl, hbroken.length_le, ?_, fun xs hxs => runs_error hread hxs,
        fun functions findings => ?_⟩
      · exact Turn.sound_of_spent (by simp) hbroken
      · exact ofTokensOnto_error rfl hread
  · refine ⟨.broken _ _ _, Parsed.nextItem ts, rfl, rfl, hbroken.length_le, ?_, fun xs hxs => runs_other ht hfn hxs,
      fun functions findings => ?_⟩
    · exact Turn.sound_of_spent (by simp) hbroken
    · exact ofTokensOnto_other ht hfn

lemma runs_mirror (ts : List Token) : ∃ xs, Runs ts xs ∧ Linked ⟨ts, 0⟩ xs ∧ (∀ x ∈ xs, x.Sound) ∧
    ∀ functions findings, Parsed.ofTokensOnto functions findings ts =
      ⟨functions.reverse ++ xs.filterMap Turn.function?, findings.reverse ++ xs.filterMap Turn.finding?⟩ := by
  rcases ts with - | ⟨t, ts⟩
  · exact ⟨[], runs_eof rfl, rfl, by simp, fun _ _ => by simp [Parsed.ofTokensOnto]⟩
  by_cases ht : t.kind = .eof
  · exact ⟨[], runs_eof ht, ht, by simp, fun _ _ => by simp [Parsed.ofTokensOnto, ht]⟩
  obtain ⟨x, rest, hstart, hstop, hlt, hsound, hruns, hread⟩ := turn_mirrors t ts ht
  obtain ⟨xs, hxs, hlinked, hsounds, hreads⟩ := runs_mirror rest
  refine ⟨x :: xs, hruns xs hxs, ⟨hstart, hstop ▸ hlinked⟩, List.forall_mem_cons.mpr ⟨hsound, hsounds⟩,
    fun functions findings => ?_⟩
  rw [hread, hreads]
  cases hf : x.function? <;> cases hg : x.finding? <;> simp [hf, hg]
  termination_by ts.length

end Turns

/-! Segments. -/

/-- The tokens before the end of the file, cut before each `fn`. -/
def segments (ts : List Token) : List (List Token) :=
  (ts.takeWhile (·.kind != .eof)).splitBy fun _ t => t.kind != .word .function

/-- What a segment holds if the file ends behind it. -/
def alone (p : Position) (s : List Token) : Parsed :=
  Parsed.ofTokens (s ++ [⟨.eof, p⟩])

def IsSegment (s : List Token) : Prop :=
  ∃ t us, s = t :: us ∧ t.kind ≠ .eof ∧ ∀ u ∈ us, Parsed.startsItem u = false

/-- What the turns that begin in a segment come to. -/
structure Reads (s : List Token) (xs : List Turn) : Prop where
  within : ∀ x ∈ xs, ∃ us, us ≠ [] ∧ us <:+ s ∧ us <+: x.start.rest
  functions_eq : ∀ p, xs.filterMap Turn.function? = (alone p s).functions
  length_findings : ∀ p, (xs.filterMap Turn.finding?).length = (alone p s).findings.length
  findings_le : (xs.filterMap Turn.finding?).length ≤ 1

section Segments

variable {t : Token} {ts us : List Token}

lemma nextItem_eq_self (h : Parsed.startsItem (current ts) = true) : Parsed.nextItem ts = ts := by
  cases ts with
  | nil => rfl
  | cons t ts => exact List.dropWhile_cons_of_neg (by rw [show Parsed.startsItem t = true from h]; decide)

lemma startsItem_of_nextItem (h : Parsed.nextItem (t :: ts) = t :: ts) : Parsed.startsItem t = true := by
  have hhead := List.head?_dropWhile_not (!Parsed.startsItem ·) (t :: ts)
  rw [show (t :: ts).dropWhile (!Parsed.startsItem ·) = t :: ts from h] at hhead
  simpa using hhead

lemma nextItem_append {more : List Token} (hus : ∀ u ∈ us, Parsed.startsItem u = false)
    (hmore : Parsed.nextItem more = more) : Parsed.nextItem (us ++ more) = more := by
  have hspent : Spent (us ++ more) more := ⟨us, rfl, hus⟩
  rw [hspent.nextItem, hmore]

lemma prefix_of_spent {more rest used : List Token} (hmore : Parsed.nextItem more = more)
    (hused : ∀ u ∈ used, Parsed.startsItem u = false) (h : us ++ more = used ++ rest) :
    ∃ left, us = used ++ left ∧ rest = left ++ more := by
  obtain ⟨beyond, rfl, hrest⟩ | ⟨left, rfl, hrest⟩ := List.append_eq_append_iff.mp h
  · cases beyond with
    | nil => exact ⟨[], by simp, by simpa using hrest.symm⟩
    | cons t beyond =>
      subst hrest
      have hstarts := startsItem_of_nextItem hmore
      rw [hused t (by simp)] at hstarts
      cases hstarts
  · exact ⟨left, rfl, hrest⟩

lemma function_segment (p : Position) (us : List Token) :
    (∃ f left, (∃ used, us = used ++ left) ∧
      ∀ more, Grammar.Takes (Parser.function (⟨.word .function, p⟩ :: (us ++ more))) f (left ++ more)) ∨
    ∀ more, Parsed.nextItem more = more →
      ∃ finding, Parser.function (⟨.word .function, p⟩ :: (us ++ more)) = .error finding := by
  -- a function is read only if one is derived, and what is derived holds no second `fn`, so it lies in the segment
  by_cases h : ∃ (f : Grammar.Function) (left : List Token), f.openings ≤ nestingLimit ∧
      ⟨.word .function, p⟩ :: us = f.tokens ++ left
  · obtain ⟨f, left, hroom, heq⟩ := h
    refine .inl ⟨f.value, left, ⟨f.tokens.tail, (List.cons.inj heq).2⟩, fun more => ?_⟩
    rw [← List.cons_append, heq, List.append_assoc]
    exact f.takes hroom
  · refine .inr fun more hmore => ?_
    have hfollows := function_follows p (us ++ more)
    cases hread : Parser.function (⟨.word .function, p⟩ :: (us ++ more)) with
    | error finding => exact ⟨finding, rfl⟩
    | ok r =>
      rw [hread] at hfollows
      obtain ⟨-, used, hspent, hused⟩ := hfollows
      obtain ⟨left, hus, hrest⟩ := prefix_of_spent hmore hused hspent
      obtain ⟨-, htokens, f, rfl, -, hroom⟩ := Grammar.function_derives _ r hread
      refine absurd ⟨f, left, hroom, ?_⟩ h
      rw [hrest, ← List.append_assoc, ← List.cons_append] at htokens
      exact List.append_cancel_right htokens

lemma kinds_ne {u : Token} (h : Parsed.startsItem u = false) : u.kind ≠ .eof ∧ u.kind ≠ .word .function := by
  constructor <;> intro hu <;> simp [Parsed.startsItem, hu] at h

lemma runs_segment {s : List Token} (hs : IsSegment s) : ∃ (f : Option FunctionDecl) (flawed : Bool),
    ∀ more, Parsed.nextItem more = more → ∃ xs : List Turn, (∀ ys, Runs more ys → Runs (s ++ more) (xs ++ ys)) ∧
      (∀ x ∈ xs, ∃ us, us ≠ [] ∧ us <:+ s ∧ us <+: x.start.rest) ∧
      xs.filterMap Turn.function? = f.toList ∧ (xs.filterMap Turn.finding?).length = flawed.toNat := by
  obtain ⟨⟨kind, p⟩, us, rfl, heof, hus⟩ := hs
  by_cases hfn : kind = .word .function
  · subst hfn
    obtain ⟨f, left, ⟨used, rfl⟩, htakes⟩ | hbroken := function_segment p us
    · -- what is left of the segment behind a function is no item, and one finding takes all of it
      cases left with
      | nil =>
        refine ⟨some f, false, fun more hmore => ?_⟩
        refine ⟨[.done _ f more], (runs_function (htakes more)).2, List.forall_mem_singleton.mpr ?_, rfl, rfl⟩
        exact ⟨_, List.cons_ne_nil _ _, List.suffix_rfl, List.prefix_append _ more⟩
      | cons u left =>
        obtain ⟨hu, hleft⟩ := List.forall_mem_cons.mp (List.forall_mem_append.mp hus).2
        obtain ⟨hueof, hufn⟩ := kinds_ne hu
        refine ⟨some f, true, fun more hmore => ?_⟩
        have hnext := nextItem_append hleft hmore
        refine ⟨[.done _ f _, .broken (u :: left ++ more) _ _], fun ys hys => (runs_function (htakes more)).2 _
          (runs_other hueof hufn (hnext.symm ▸ hys)), List.forall_mem_cons.mpr ⟨?_, List.forall_mem_singleton.mpr ?_⟩,
          rfl, rfl⟩
        · exact ⟨_, List.cons_ne_nil _ _, List.suffix_rfl, List.prefix_append _ more⟩
        · exact ⟨u :: left, List.cons_ne_nil _ _, List.suffix_append (_ :: used) _, List.prefix_append _ more⟩
    · refine ⟨none, true, fun more hmore => ?_⟩
      obtain ⟨finding, hread⟩ := hbroken more hmore
      have hnext := nextItem_append hus hmore
      refine ⟨[.broken _ finding _], fun ys hys => runs_error hread (hnext.symm ▸ hys),
        List.forall_mem_singleton.mpr ?_, rfl, rfl⟩
      exact ⟨_, List.cons_ne_nil _ _, List.suffix_rfl, List.prefix_append _ more⟩
  · refine ⟨none, true, fun more hmore => ?_⟩
    have hnext := nextItem_append hus hmore
    refine ⟨[.broken _ _ _], fun ys hys => runs_other heof hfn (hnext.symm ▸ hys),
      List.forall_mem_singleton.mpr ?_, rfl, rfl⟩
    exact ⟨_, List.cons_ne_nil _ _, List.suffix_rfl, List.prefix_append _ more⟩

lemma reads_segment {s : List Token} (hs : IsSegment s) {more : List Token} (hmore : Parsed.nextItem more = more) :
    ∃ xs, Reads s xs ∧ ∀ ys, Runs more ys → Runs (s ++ more) (xs ++ ys) := by
  obtain ⟨f, flawed, h⟩ := runs_segment hs
  obtain ⟨xs, hruns, hwithin, hfunctions, hfindings⟩ := h more hmore
  have halone (p : Position) : (alone p s).functions = f.toList ∧ (alone p s).findings.length = flawed.toNat := by
    obtain ⟨ys, hys, -, hfunctions, hfindings⟩ := h [⟨.eof, p⟩] rfl
    obtain ⟨zs, hzs, -, -, hreads⟩ := runs_mirror (s ++ [⟨.eof, p⟩])
    obtain rfl : ys = zs := (List.append_nil ys).symm.trans ((hys [] (runs_eof rfl)).unique hzs)
    rw [alone, Parsed.ofTokens, hreads]
    exact ⟨hfunctions, hfindings⟩
  refine ⟨xs, ⟨hwithin, fun p => ?_, fun p => ?_, ?_⟩, hruns⟩
  · rw [hfunctions, (halone p).1]
  · rw [hfindings, (halone p).2]
  · rw [hfindings]
    exact Bool.toNat_le flawed

lemma reads_segments {tail : List Token} (htail : (current tail).kind = .eof) (ss : List (List Token))
    (hs : ∀ s ∈ ss, IsSegment s) (hnext : ∀ s ∈ ss.tail, (current s).kind = .word .function) :
    ∃ parts, List.Forall₂ Reads ss parts ∧ Runs (ss.flatten ++ tail) parts.flatten := by
  induction ss with
  | nil => exact ⟨[], .nil, runs_eof htail⟩
  | cons s ss ih =>
    obtain ⟨hs, hss⟩ := List.forall_mem_cons.mp hs
    -- behind a segment the next one begins, or the file ends
    have hmore : Parsed.nextItem (ss.flatten ++ tail) = ss.flatten ++ tail := by
      apply nextItem_eq_self
      cases ss with
      | nil => simp [Parsed.startsItem, htail]
      | cons s' ss =>
        obtain ⟨t, us, rfl, -⟩ := hss s' List.mem_cons_self
        have ht : t.kind = .word .function := hnext (t :: us) List.mem_cons_self
        simp [current, Parsed.startsItem, ht]
    obtain ⟨part, hpart, hruns⟩ := reads_segment hs hmore
    obtain ⟨parts, hparts, hrest⟩ := ih hss fun s' h => hnext s' (List.mem_of_mem_tail h)
    refine ⟨part :: parts, .cons hpart hparts, ?_⟩
    rw [List.flatten_cons, List.append_assoc]
    exact hruns _ hrest

lemma forall_mem_of_isChain {α : Type} {q : α → Prop} {a : α} {as : List α} (h : (a :: as).IsChain fun _ b => q b) :
    ∀ b ∈ as, q b := by
  induction as generalizing a with
  | nil => simp
  | cons b as ih =>
    obtain ⟨hb, h⟩ := List.isChain_cons_cons.mp h
    exact List.forall_mem_cons.mpr ⟨hb, ih h⟩

lemma isSegment_of_mem {s : List Token} (hs : s ∈ segments ts) : IsSegment s := by
  have hended : ∀ t ∈ s, t.kind ≠ .eof := by
    intro t ht
    have hmem : t ∈ (segments ts).flatten := List.mem_flatten.mpr ⟨s, hs, ht⟩
    rw [segments, List.flatten_splitBy] at hmem
    simpa using List.all_eq_true.mp List.all_takeWhile t hmem
  rw [segments] at hs
  obtain ⟨t, us, rfl⟩ := List.exists_cons_of_ne_nil (List.ne_nil_of_mem_splitBy hs)
  obtain ⟨ht, hus⟩ := List.forall_mem_cons.mp hended
  have hchain := List.isChain_of_mem_splitBy hs
  have hcut := forall_mem_of_isChain (q := fun u : Token => (u.kind != .word .function) = true) hchain
  exact ⟨t, us, rfl, ht, fun u hu => startsItem_eq_false (bne_iff_ne.mp (hcut u hu)) (hus u hu)⟩

lemma function_of_mem_tail {s : List Token} (hs : s ∈ (segments ts).tail) : (current s).kind = .word .function := by
  have hcuts := List.isChain_getLast_head_splitBy (fun _ t => t.kind != .word .function)
    (ts.takeWhile (·.kind != .eof))
  change (segments ts).IsChain _ at hcuts
  cases hsegments : segments ts with
  | nil =>
    rw [hsegments] at hs
    cases hs
  | cons s₀ ss =>
    rw [hsegments] at hs hcuts
    have hheads : (s₀ :: ss).IsChain fun _ s => (current s).kind = .word .function := by
      refine hcuts.imp fun _ s h => ?_
      obtain ⟨-, hs, hkind⟩ := h
      obtain ⟨t, us, rfl⟩ := List.exists_cons_of_ne_nil hs
      simpa [current] using hkind
    exact forall_mem_of_isChain hheads s hs

lemma current_dropWhile (ts : List Token) : (current (ts.dropWhile (·.kind != .eof))).kind = .eof := by
  cases hrest : ts.dropWhile (·.kind != .eof) with
  | nil => rfl
  | cons t rest =>
    have hahead := Grammar.ahead_dropWhile ts
    rw [hrest] at hahead
    exact eq_of_beq (Grammar.ahead_cons.mp hahead)

/-- Reading tokens comes to an end, in turns that follow on one another. A turn begins outside all openings, closes
none that is not open, and takes no `fn` but at the start of an item. In each segment the turns find the functions that
it holds alone, and report at most one finding. -/
theorem recovery_is_local (ts : List Token) : ∃ parts : List (List Turn),
    Ends (fun n => turns n ⟨ts, 0⟩) parts.flatten ∧
      Linked ⟨ts, 0⟩ parts.flatten ∧ (∀ x ∈ parts.flatten, x.Sound) ∧
      Parsed.ofTokens ts = ⟨parts.flatten.filterMap Turn.function?, parts.flatten.filterMap Turn.finding?⟩ ∧
      List.Forall₂ Reads (segments ts) parts := by
  obtain ⟨parts, hparts, hruns⟩ := reads_segments (current_dropWhile ts) (segments ts) (fun _ => isSegment_of_mem)
    fun _ => function_of_mem_tail
  rw [segments, List.flatten_splitBy, List.takeWhile_append_dropWhile] at hruns
  obtain ⟨xs, hxs, hlinked, hsound, hreads⟩ := runs_mirror ts
  obtain rfl : parts.flatten = xs := hruns.unique hxs
  exact ⟨parts, hruns, hlinked, hsound, hreads [] [], hparts⟩

end Segments

end ScriptHost.Descent
