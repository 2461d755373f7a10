import ScriptHost.Proofs.Syntax.Descent
import ScriptHost.Proofs.Syntax.Language

/-!
Reading with a cursor comes to the same as reading off a list of tokens, once there is time enough, and each opening
left is one that was made. What is taken on the way are tokens at which no item starts.
-/

namespace ScriptHost.Descent

open ScriptHost.Parser (current)

def Ends {β : Type} (out : Nat → Option β) (b : β) : Prop :=
  ∃ n, ∀ m, n ≤ m → out m = some b

/-- `rest` is what is left after some tokens at which no item starts. -/
def Spent (ts rest : List Token) : Prop :=
  ∃ used, ts = used ++ rest ∧ ∀ t ∈ used, Parsed.startsItem t = false

abbrev Timed (α : Type) := Nat → Option (Except Halt α × Cursor)

/-- What a run comes to with `d` openings around it. Where it fails, the counter is no lower than before. -/
def Follows {ts₀ : List Token} {α : Type} (d : Nat) (ts : List Token) :
    Except Finding (Read ts₀ α) → Timed α → Prop
  | .ok r, out => Ends out (.ok r.value, ⟨r.rest, d⟩) ∧ Spent ts r.rest
  | .error f, out => ∃ rest d', Ends out (.error (.finding f), ⟨rest, d'⟩) ∧ Spent ts rest ∧ d ≤ d'

def Mirrors {α : Type} (d : Nat) (m : Nat → Run α) (p : Parser α) : Prop :=
  ∀ ts, Follows d ts (p ts) fun n => m n ⟨ts, d⟩

section Follows

variable {α β : Type} {d : Nat} {ts ts₀ ts₁ rest : List Token}

lemma ends_of_eq {out : Nat → Option β} {b : β} (h : ∀ n, out n = some b) : Ends out b :=
  ⟨0, fun n _ => h n⟩

lemma Ends.both {γ : Type} {out : Nat → Option β} {out' : Nat → Option γ} {b : β} {c : γ} (h : Ends out b)
    (h' : Ends out' c) : ∃ n, ∀ m, n ≤ m → out m = some b ∧ out' m = some c := by
  obtain ⟨n₁, h₁⟩ := h
  obtain ⟨n₂, h₂⟩ := h'
  exact ⟨max n₁ n₂, fun m hm => ⟨h₁ m (Nat.le_trans (Nat.le_max_left n₁ n₂) hm),
    h₂ m (Nat.le_trans (Nat.le_max_right n₁ n₂) hm)⟩⟩

lemma Ends.later {out : Nat → Option β} {b : β} (h : Ends (fun n => out (n + 1)) b) : Ends out b := by
  obtain ⟨n, hn⟩ := h
  refine ⟨n + 1, fun m hm => ?_⟩
  obtain ⟨m, rfl⟩ := Nat.exists_eq_succ_of_ne_zero (Nat.ne_zero_of_lt hm)
  exact hn m (Nat.le_of_succ_le_succ hm)

lemma startsItem_eq_false {t : Token} (hf : t.kind ≠ .word .function) (he : t.kind ≠ .eof) :
    Parsed.startsItem t = false := by
  simp [Parsed.startsItem, hf, he]

lemma Spent.refl (ts : List Token) : Spent ts ts :=
  ⟨[], rfl, by simp⟩

lemma Spent.cons {t : Token} (ht : Parsed.startsItem t = false) (h : Spent ts rest) : Spent (t :: ts) rest := by
  obtain ⟨used, rfl, hused⟩ := h
  exact ⟨t :: used, rfl, List.forall_mem_cons.mpr ⟨ht, hused⟩⟩

lemma Spent.trans {rest' : List Token} (h : Spent ts rest) (h' : Spent rest rest') : Spent ts rest' := by
  obtain ⟨used, rfl, hused⟩ := h
  obtain ⟨used', rfl, hused'⟩ := h'
  exact ⟨used ++ used', (List.append_assoc _ _ _).symm, List.forall_mem_append.mpr ⟨hused, hused'⟩⟩

lemma follows_ok {a : α} {out : Timed α} {hlt : rest.length < ts₀.length}
    (h : ∀ n, out n = some (.ok a, ⟨rest, d⟩)) (hs : Spent ts rest) : Follows d ts (.ok ⟨a, rest, hlt⟩) out :=
  ⟨ends_of_eq h, hs⟩

lemma follows_pure (a : α) (h : ts.length < ts₀.length) :
    Follows d ts (.ok ⟨a, ts, h⟩) fun _ => (pure a : Run α) ⟨ts, d⟩ :=
  follows_ok (fun _ => rfl) (.refl ts)

lemma follows_error {f : Finding} {out : Timed α} {d' : Nat}
    (h : ∀ n, out n = some (.error (.finding f), ⟨ts, d'⟩)) (hd : d ≤ d') :
    Follows d ts (.error f : Except Finding (Read ts₀ α)) out :=
  ⟨ts, d', ends_of_eq h, .refl ts, hd⟩

lemma follows_throw (f : Finding) :
    Follows d ts (.error f : Except Finding (Read ts₀ α)) fun _ => (throw (.finding f) : Run α) ⟨ts, d⟩ :=
  follows_error (fun _ => rfl) (Nat.le_refl d)

lemma bind_of_ok {m : Run α} {c c' : Cursor} {a : α} (h : m c = some (.ok a, c')) (k : α → Run β) :
    (m >>= k) c = k a c' := by
  change (m c >>= fun _ => _) = _
  rw [h]
  rfl

lemma bind_of_error {m : Run α} {c c' : Cursor} {e : Halt} (h : m c = some (.error e, c')) (k : α → Run β) :
    (m >>= k) c = some (.error e, c') := by
  change (m c >>= fun _ => _) = _
  rw [h]
  rfl

lemma Ends.bind_ok {m : Nat → Run α} {c c' : Cursor} {a : α} (h : Ends (fun n => m n c) (.ok a, c'))
    {k : Nat → α → Run β} {b : Except Halt β × Cursor} (hk : Ends (fun n => k n a c') b) :
    Ends (fun n => (m n >>= k n) c) b := by
  obtain ⟨n₀, hboth⟩ := h.both hk
  refine ⟨n₀, fun n hn => ?_⟩
  obtain ⟨hm, hk⟩ := hboth n hn
  exact (bind_of_ok hm (k n)).trans hk

lemma Ends.bind_error {m : Nat → Run α} {c c' : Cursor} {e : Halt} (h : Ends (fun n => m n c) (.error e, c'))
    (k : Nat → α → Run β) : Ends (fun n => (m n >>= k n) c) (.error e, c') := by
  obtain ⟨n₀, hm⟩ := h
  exact ⟨n₀, fun n hn => bind_of_error (hm n hn) (k n)⟩

lemma Follows.behind {r : Except Finding (Read ts₀ β)} {m : Nat → Run α} {c c' : Cursor} {a : α} {k : Nat → α → Run β}
    (hm : Ends (fun n => m n c) (.ok a, c')) (h : Follows d ts r fun n => k n a c') :
    Follows d ts r fun n => (m n >>= k n) c := by
  cases r with
  | ok x => exact ⟨hm.bind_ok h.1, h.2⟩
  | error f =>
    obtain ⟨rest, d', hout, hspent, hle⟩ := h
    exact ⟨rest, d', hm.bind_ok hout, hspent, hle⟩

lemma Follows.later {r : Except Finding (Read ts₀ α)} {out : Timed α}
    (h : Follows d ts r fun n => out (n + 1)) : Follows d ts r out := by
  cases r with
  | ok x => exact ⟨h.1.later, h.2⟩
  | error f =>
    obtain ⟨rest, d', hout, hspent, hle⟩ := h
    exact ⟨rest, d', hout.later, hspent, hle⟩

lemma Follows.after {r : Except Finding (Read ts₀ α)} {out : Timed α}
    (h : Follows d rest r out) (hs : Spent ts rest) : Follows d ts r out := by
  cases r with
  | ok x => exact ⟨h.1, hs.trans h.2⟩
  | error f =>
    obtain ⟨rest', d', hout, hspent, hle⟩ := h
    exact ⟨rest', d', hout, hs.trans hspent, hle⟩

lemma Follows.cons {r : Except Finding (Read ts₀ α)} {out : Timed α} {t : Token}
    (ht : Parsed.startsItem t = false) (h : Follows d ts r out) : Follows d (t :: ts) r out :=
  h.after ((Spent.refl ts).cons ht)

lemma Follows.bind_le {d₁ : Nat} {c : Cursor} {r : Except Finding (Read ts₁ α)} {m : Nat → Run α}
    {k : Read ts₁ α → Except Finding (Read ts₀ β)} {k' : Nat → α → Run β} (h : Follows d₁ ts r fun n => m n c)
    (hd : d ≤ d₁) (hk : ∀ x : Read ts₁ α, Follows d x.rest (k x) fun n => k' n x.value ⟨x.rest, d₁⟩) :
    Follows d ts (r >>= k) fun n => (m n >>= k' n) c := by
  cases r with
  | ok x => exact (Follows.behind h.1 (hk x)).after h.2
  | error f =>
    obtain ⟨rest, d', hout, hspent, hle⟩ := h
    exact ⟨rest, d', hout.bind_error k', hspent, Nat.le_trans hd hle⟩

lemma Follows.bind {c : Cursor} {r : Except Finding (Read ts₁ α)} {m : Nat → Run α}
    {k : Read ts₁ α → Except Finding (Read ts₀ β)} {k' : Nat → α → Run β} (h : Follows d ts r fun n => m n c)
    (hk : ∀ x : Read ts₁ α, Follows d x.rest (k x) fun n => k' n x.value ⟨x.rest, d⟩) :
    Follows d ts (r >>= k) fun n => (m n >>= k' n) c :=
  h.bind_le (Nat.le_refl d) hk

lemma Follows.lift {r : Except Finding (Read ts₁ α)} {out : Timed α}
    {hlt : ∀ x : Read ts₁ α, x.rest.length < ts₀.length} (h : Follows d ts r out) :
    Follows d ts (r >>= fun x => pure (⟨x.value, x.rest, hlt x⟩ : Read ts₀ α)) out := by
  cases r <;> exact h

/-! Single tokens. -/

lemma peek_bind (k : Token → Run α) : (peek >>= k) ⟨ts, d⟩ = k (current ts) ⟨ts, d⟩ :=
  rfl

lemma advance_bind {t : Token} (ht : t.kind ≠ .eof) (k : Unit → Run α) :
    (advance >>= k) ⟨t :: ts, d⟩ = k () ⟨ts, d⟩ := by
  apply bind_of_ok
  change some (Except.ok (), if t.kind = .eof then _ else _) = _
  rw [if_neg ht]
  rfl

lemma check_bind (kind : TokenKind) (k : Bool → Run α) :
    (check kind >>= k) ⟨ts, d⟩ = k (decide ((current ts).kind = kind)) ⟨ts, d⟩ :=
  rfl

lemma eat_cons {kind : TokenKind} (hk : kind ≠ .eof) (p : Position) (k : Bool → Run α) :
    (eat kind >>= k) ⟨⟨kind, p⟩ :: ts, d⟩ = k true ⟨ts, d⟩ := by
  have hhead : decide ((current (⟨kind, p⟩ :: ts)).kind = kind) = true := decide_eq_true rfl
  rw [eat, bind_assoc, check_bind, hhead, if_pos rfl, bind_assoc, advance_bind hk]
  rfl

lemma eat_sign (s : Sign) (p : Position) (k : Bool → Run α) :
    (eat (.sign s) >>= k) ⟨⟨.sign s, p⟩ :: ts, d⟩ = k true ⟨ts, d⟩ :=
  eat_cons (by simp) p k

lemma eat_other {kind : TokenKind} (h : (current ts).kind ≠ kind) (k : Bool → Run α) :
    (eat kind >>= k) ⟨ts, d⟩ = k false ⟨ts, d⟩ := by
  rw [eat, bind_assoc, check_bind, decide_eq_false h, if_neg Bool.false_ne_true]
  rfl

lemma kind_ne_of_eat? {kind : TokenKind} (h : Parser.eat? kind ts = none) (hk : kind ≠ .eof) :
    (current ts).kind ≠ kind := by
  cases ts with
  | nil => exact hk.symm
  | cons t ts =>
    intro ht
    obtain ⟨kind, p⟩ := t
    obtain rfl : kind = _ := ht
    rw [Grammar.eat?_cons] at h
    cases h

lemma cons_of_current {kind : TokenKind} (h : (current ts).kind = kind) (hk : kind ≠ .eof) :
    ∃ p rest, ts = ⟨kind, p⟩ :: rest := by
  cases ts with
  | nil => exact absurd h.symm hk
  | cons t ts => exact ⟨t.place, ts, by rw [← h]; rfl⟩

lemma ahead_of_current {kind : TokenKind} (h : (current ts).kind ≠ kind) : Grammar.Ahead (· != kind) ts := by
  cases ts with
  | nil => exact Grammar.ahead_nil
  | cons t ts => exact Grammar.ahead_cons.mpr (bne_iff_ne.mpr h)

lemma expect_cons {kind : TokenKind} (hk : kind ≠ .eof) (p : Position) :
    expect kind ⟨⟨kind, p⟩ :: ts, d⟩ = some (.ok p, ⟨ts, d⟩) := by
  have hhead : (current (⟨kind, p⟩ :: ts)).kind = kind := rfl
  rw [expect, peek_bind, if_pos hhead, advance_bind hk]
  rfl

lemma expect_follows {kind : TokenKind} (hk : kind ≠ .eof) (hf : kind ≠ .word .function) (d : Nat) (ts : List Token) :
    Follows d ts (Parser.expect kind ts) fun _ => expect kind ⟨ts, d⟩ := by
  rw [Parser.expect]
  split
  · next r hr =>
    obtain ⟨p, rest, h⟩ := r
    obtain rfl := Grammar.eat?_some hr
    exact follows_ok (fun _ => expect_cons hk p) ((Spent.refl rest).cons (startsItem_eq_false hf hk))
  · next hr =>
    have hne := kind_ne_of_eat? hr hk
    simp only [expect, peek_bind, if_neg hne]
    exact follows_throw _

lemma sign_follows (s : Sign) (d : Nat) (ts : List Token) :
    Follows d ts (Parser.sign s ts) fun _ => expect (.sign s) ⟨ts, d⟩ :=
  expect_follows (by simp) (by simp) d ts

lemma eat_follows {d₁ : Nat} {kind : TokenKind} (hk : kind ≠ .eof) (hf : kind ≠ .word .function)
    {k : Position → (rest : List Token) → rest.length < ts.length → Except Finding (Read ts₀ α)}
    {k₀ : Except Finding (Read ts₀ α)} {k' : Nat → Bool → Run α}
    (hsome : ∀ q rest hlt, ts = ⟨kind, q⟩ :: rest → Follows d rest (k q rest hlt) fun n => k' n true ⟨rest, d₁⟩)
    (hnone : Follows d ts k₀ fun n => k' n false ⟨ts, d₁⟩) :
    Follows d ts (match Parser.eat? kind ts with | some ⟨q, rest, h⟩ => k q rest h | none => k₀)
      fun n => (eat kind >>= k' n) ⟨ts, d₁⟩ := by
  split
  · next q rest hlt hr =>
    obtain rfl := Grammar.eat?_some hr
    simp only [eat_cons hk]
    exact (hsome q rest hlt rfl).cons (startsItem_eq_false hf hk)
  · next hr =>
    simp only [eat_other (kind_ne_of_eat? hr hk)]
    exact hnone

lemma word_follows (k : Keyword) (hk : k ≠ .function) (d : Nat) (ts : List Token) :
    Follows d ts (Parser.word k ts) fun _ => expect (.word k) ⟨ts, d⟩ :=
  expect_follows (by simp) (fun h => hk (TokenKind.word.inj h)) d ts

lemma identifier_follows (d : Nat) (ts : List Token) :
    Follows d ts (Parser.identifier ts) fun _ => identifier ⟨ts, d⟩ := by
  rcases ts with - | ⟨⟨kind, p⟩, ts⟩
  · exact follows_throw _
  cases kind with
  | name n => exact follows_ok (fun _ => rfl) ((Spent.refl ts).cons rfl)
  | _ => exact follows_throw _

/-! Openings. -/

lemma enter_deep (h : d = nestingLimit) (k : Unit → Run α) : (enter >>= k) ⟨ts, d⟩ =
    some (.error (.finding ⟨(current ts).place, .nestingTooDeep⟩), ⟨ts, d + 1⟩) := by
  apply bind_of_error
  subst h
  rfl

lemma enter_bind (h : d < nestingLimit) (k : Unit → Run α) : (enter >>= k) ⟨ts, d⟩ = k () ⟨ts, d + 1⟩ := by
  apply bind_of_ok
  change (if nestingLimit < d + 1 then _ else _ : Run Unit) _ = _
  rw [if_neg (Nat.not_lt.mpr h)]
  rfl

lemma opened_deep (m : Nat → Run α) (h : d = nestingLimit) :
    Mirrors d (fun n => opened (m n)) Parser.tooDeep := by
  intro ts
  simp only [opened, enter_deep h]
  exact follows_error (fun _ => rfl) (Nat.le_succ d)

lemma opened_mirrors {m : Nat → Run α} {p : Parser α} (h : d < nestingLimit) (hm : Mirrors (d + 1) m p) :
    Mirrors d (fun n => opened (m n)) p := by
  intro ts
  simp only [opened, enter_bind h]
  rw [← bind_pure (p ts)]
  exact (hm ts).bind_le (Nat.le_succ d) fun x => follows_ok (fun _ => rfl) (.refl x.rest)

end Follows

/-! Expressions. -/

section Expressions

variable {d : Nat} {whole : Parser Expr}

lemma argumentsFrom_follows (hw : Mirrors d expression whole) (close : Sign) (ts₀ : List Token) (found : List Expr)
    (ts : List Token) (hs : ts.length ≤ ts₀.length) :
    Follows d ts (Parser.itemsFrom whole close ts₀ found ts hs) fun n => argumentsFrom n close found ⟨ts, d⟩ := by
  apply Follows.later
  rw [Parser.itemsFrom]
  simp only [argumentsFrom]
  refine (hw ts).bind fun x => eat_follows (by simp) (by simp) (fun q rest hlt hx => ?_) ?_
  · exact argumentsFrom_follows hw close ts₀ (x.value :: found) rest _
  · exact (sign_follows close d x.rest).bind fun y => follows_pure _ _
  termination_by ts.length
  decreasing_by exact Nat.lt_trans hlt x.shorter

lemma arguments_mirrors (hw : Mirrors d expression whole) (close : Sign) :
    Mirrors d (fun n => arguments n close) (Parser.items whole close) := by
  intro ts
  apply Follows.later
  rw [Parser.items]
  simp only [arguments]
  refine eat_follows (by simp) (by simp) (fun q rest hlt hx => ?_) ?_
  · exact follows_pure _ _
  · exact argumentsFrom_follows hw close ts [] ts _

lemma primary_mirrors (hw : Mirrors d expression whole) : Mirrors d primary (Parser.primary whole) := by
  intro ts
  apply Follows.later
  simp only [primary, peek_bind]
  rcases ts with - | ⟨⟨kind, p⟩, ts⟩
  · exact follows_throw _
  cases kind with
  | int v => exact follows_ok (fun _ => rfl) ((Spent.refl ts).cons rfl)
  | str s => exact follows_ok (fun _ => rfl) ((Spent.refl ts).cons rfl)
  | word k =>
    cases k with
    | trueWord | falseWord | nilWord => exact follows_ok (fun _ => rfl) ((Spent.refl ts).cons rfl)
    | _ => exact follows_throw _
  | name name =>
    refine Follows.cons rfl ?_
    change Follows d ts _ fun n => (eat (.sign .parenOpen) >>= fun b =>
      if b = true then arguments n .parenClose >>= fun args => pure (Expr.call p name args)
      else pure (Expr.var p name)) ⟨ts, d⟩
    by_cases hcall : (current ts).kind = .sign .parenOpen
    · obtain ⟨q, ts, rfl⟩ := cons_of_current hcall (by simp)
      simp only [eat_sign]
      exact Follows.cons rfl ((arguments_mirrors hw .parenClose ts).bind fun x => follows_pure _ _)
    · obtain ⟨h, hread⟩ := Grammar.primary_var whole name p (ahead_of_current hcall)
      simp only [eat_other hcall]
      rw [hread]
      exact follows_pure _ _
  | sign s =>
    cases s with
    | parenOpen =>
      refine Follows.cons rfl ?_
      exact (hw ts).bind fun x => (sign_follows .parenClose d x.rest).bind fun y => follows_pure _ _
    | bracketOpen =>
      refine Follows.cons rfl ?_
      exact (arguments_mirrors hw .bracketClose ts).bind fun x => follows_pure _ _
    | _ => exact follows_throw _
  | eof => exact follows_throw _

lemma indexed_follows (hw : Mirrors d expression whole) (ts₀ : List Token) (target : Expr) (ts : List Token)
    (hs : ts.length < ts₀.length) :
    Follows d ts (Parser.indexes whole ts₀ target ts hs) fun n => indexed n target ⟨ts, d⟩ := by
  apply Follows.later
  rw [Parser.indexes]
  simp only [indexed, peek_bind]
  refine eat_follows (by simp) (by simp) (fun q rest hlt hx => ?_) ?_
  · have hplace : (current ts).place = q := by rw [hx]; rfl
    simp only [hplace]
    refine (hw rest).bind fun x => (sign_follows .bracketClose d x.rest).bind fun y => ?_
    exact indexed_follows hw ts₀ _ y.rest _
  · exact follows_pure _ _
  termination_by ts.length
  decreasing_by exact Nat.lt_trans y.shorter (Nat.lt_trans x.shorter hlt)

lemma binaryFrom_follows {level : Parser.Level} {tighter : List Parser.Level}
    (hl : level :: tighter <:+ Parser.Level.all) {operand : Parser Expr}
    (ho : Mirrors d (fun n => binary n tighter) operand) (ts₀ : List Token) (lhs : Expr) (ts : List Token)
    (hs : ts.length < ts₀.length) :
    Follows d ts (Parser.chain level operand ts₀ lhs ts hs) fun n => binaryFrom n level tighter lhs ⟨ts, d⟩ := by
  apply Follows.later
  rw [Parser.chain]
  simp only [binaryFrom, peek_bind]
  split
  · next join rest hlt hr =>
    obtain ⟨t, hts, ht⟩ := Parser.take?_some hr
    obtain rfl : ts = t :: rest := hts
    obtain ⟨o, -, hkind, -⟩ := Grammar.operator_of_level hl ht
    have hsign : t.kind ≠ .eof := by simp [hkind]
    have hitem : Parsed.startsItem t = false := startsItem_eq_false (by simp [hkind]) hsign
    have hhead : level (current (t :: rest)) = some join := ht
    simp only [hhead, advance_bind hsign]
    refine Follows.cons hitem ((ho rest).bind fun x => ?_)
    obtain ⟨rhs, rest', hlt'⟩ := x
    exact binaryFrom_follows hl ho ts₀ _ rest' _
  · next hr =>
    have hhead : level (current ts) = none := by
      cases ts with
      | nil => exact Grammar.level_ends hl rfl
      | cons t ts =>
        change level t = none
        simpa [Parser.take?] using hr
    simp only [hhead]
    exact follows_pure _ _
  termination_by ts.length

lemma binary_mirrors {operand : Parser Expr} (ho : Mirrors d unary operand) (levels : List Parser.Level)
    (hl : levels <:+ Parser.Level.all) : Mirrors d (fun n => binary n levels) (Parser.climb operand levels) := by
  induction levels with
  | nil =>
    intro ts
    apply Follows.later
    simp only [binary]
    exact ho ts
  | cons level tighter ih =>
    have htighter := ih ((List.suffix_cons level tighter).trans hl)
    intro ts
    apply Follows.later
    rw [Parser.climb]
    simp only [binary]
    exact (htighter ts).bind fun x => binaryFrom_follows hl htighter ts x.value x.rest x.shorter

lemma unary_mirrors {inner : Parser Expr} (hw : Mirrors d expression whole)
    (hi : Mirrors d (fun n => opened (unary n)) inner) : Mirrors d unary (Parser.operandWith inner whole) := by
  have hindexed (ts : List Token) : Follows d ts
      (Parser.primary whole ts >>= fun x => Parser.indexes whole ts x.value x.rest x.shorter)
      fun n => (primary n >>= indexed n) ⟨ts, d⟩ :=
    (primary_mirrors hw ts).bind fun x => indexed_follows hw ts x.value x.rest x.shorter
  intro ts
  apply Follows.later
  simp only [unary, peek_bind]
  rcases ts with - | ⟨⟨kind, p⟩, ts⟩
  · exact hindexed _
  cases kind with
  | sign s =>
    cases s with
    | minus | bang => exact Follows.cons rfl ((hi ts).bind fun x => follows_pure _ _)
    | _ => exact hindexed _
  | _ => exact hindexed _

lemma closed_follows {ts ts₀ : List Token} {r : Except Finding (Read ts₀ Expr)} {m : Nat → Run Expr}
    (h : Follows (d + 1) ts r fun n => m n ⟨ts, d + 1⟩) :
    Follows d ts r fun n => m n ⟨ts, d + 1⟩ >>= fun x => leave x.2 >>= fun y => pure (y.1.bind fun _ => x.1, y.2) := by
  cases r with
  | ok x =>
    obtain ⟨⟨n₀, hn₀⟩, hspent⟩ := h
    refine ⟨⟨n₀, fun n hn => ?_⟩, hspent⟩
    have hrun : m n ⟨ts, d + 1⟩ = some (.ok x.value, ⟨x.rest, d + 1⟩) := hn₀ n hn
    simp only [hrun]
    rfl
  | error f =>
    obtain ⟨rest, d', ⟨n₀, hn₀⟩, hspent, hle⟩ := h
    obtain ⟨below, rfl⟩ := Nat.exists_eq_add_of_lt hle
    refine ⟨rest, d + below, ⟨n₀, fun n hn => ?_⟩, hspent, Nat.le_add_right d below⟩
    have hrun : m n ⟨ts, d + 1⟩ = some (.error (.finding f), ⟨rest, d + below + 1⟩) := hn₀ n hn
    simp only [hrun]
    rfl

lemma expression_mirrors (room : Nat) : ∀ d, d + room = nestingLimit →
    Mirrors d expression (Parser.expression room) ∧ Mirrors d unary (Parser.operand room) := by
  induction room with
  | zero =>
    intro d hd
    replace hd : d = nestingLimit := hd
    have hexpression : Mirrors d expression Parser.tooDeep := by
      intro ts
      apply Follows.later
      simp only [expression, enter_deep hd]
      exact follows_error (fun _ => rfl) (Nat.le_succ d)
    exact ⟨hexpression, unary_mirrors hexpression (opened_deep unary hd)⟩
  | succ room ih =>
    intro d hd
    obtain ⟨-, hunary⟩ := ih (d + 1) (by omega)
    have hlt : d < nestingLimit := by omega
    have hexpression : Mirrors d expression (Parser.expression (room + 1)) := by
      intro ts
      apply Follows.later
      simp only [expression, enter_bind hlt]
      exact closed_follows (binary_mirrors hunary Parser.Level.all List.suffix_rfl ts)
    exact ⟨hexpression, unary_mirrors hexpression (opened_mirrors hlt hunary)⟩

end Expressions

/-! Statements. -/

section Statements

variable {d : Nat} {ts ts₀ : List Token} {expr : Parser Expr} {inner : Parser (List Stmt)} {one link : Parser Stmt}

lemma value_bind {α : Type} {k : Read ts₀ Expr → Except Finding (Read ts α)} {k' : Nat → Expr → Run α}
    (hw : Mirrors d expression expr)
    (hk : ∀ x : Read ts₀ Expr, Follows d x.rest (k x) fun n => k' n x.value ⟨x.rest, d⟩) :
    Follows d ts₀ (Parser.value expr ts₀ >>= k)
      fun n => (expression n >>= fun e => expect (.sign .semicolon) >>= fun _ => k' n e) ⟨ts₀, d⟩ := by
  rw [Parser.value, bind_assoc]
  refine (hw ts₀).bind fun x => ?_
  rw [bind_assoc]
  exact (sign_follows .semicolon d x.rest).bind fun y => hk ⟨x.value, y.rest, _⟩

lemma simple_follows (hw : Mirrors d expression expr) (ts : List Token) :
    Follows d ts (Parser.simple expr ts) fun n => simple n (current ts).place ⟨ts, d⟩ := by
  rw [Parser.simple]
  simp only [simple]
  refine (hw ts).bind fun x => eat_follows (by simp) (by simp) (fun q rest hlt hx => ?_) ?_
  · simp only [if_pos]
    cases Target.ofExpr? x.value with
    | none => exact follows_throw _
    | some target => exact value_bind hw fun y => follows_pure _ _
  · exact (sign_follows .semicolon d x.rest).bind fun y => follows_pure _ _

lemma statementWith_give (p : Position) (h : (current ts).kind ≠ .sign .semicolon) :
    Parser.statementWith expr inner link (⟨.word .returnWord, p⟩ :: ts) =
      Parser.value expr ts >>= fun x => pure ⟨.give p (some x.value), x.rest, Nat.lt_succ_of_lt x.shorter⟩ := by
  rcases ts with - | ⟨⟨kind, q⟩, ts⟩
  · rfl
  cases kind with
  | sign s =>
    cases s with
    | semicolon => exact absurd rfl h
    | _ => rfl
  | _ => rfl

lemma give_follows (hw : Mirrors d expression expr) (p : Position) (ts : List Token) :
    Follows d (⟨.word .returnWord, p⟩ :: ts) (Parser.statementWith expr inner link (⟨.word .returnWord, p⟩ :: ts))
      fun n => give n p ⟨⟨.word .returnWord, p⟩ :: ts, d⟩ := by
  have heof : (Token.mk (.word .returnWord) p).kind ≠ .eof := by simp
  refine Follows.cons rfl ?_
  simp only [give, advance_bind heof, check_bind]
  by_cases hsemi : (current ts).kind = .sign .semicolon
  · obtain ⟨q, rest, rfl⟩ := cons_of_current hsemi (by simp)
    exact follows_ok (fun _ => rfl) ((Spent.refl rest).cons rfl)
  · rw [statementWith_give p hsemi]
    simp only [decide_eq_false hsemi]
    exact value_bind hw fun x => follows_pure _ _

lemma statement_mirrors (hw : Mirrors d expression expr) (hb : Mirrors d block inner)
    (hc : Mirrors d conditional link) : Mirrors d statement (Parser.statementWith expr inner link) := by
  intro ts
  apply Follows.later
  simp only [statement, peek_bind]
  rcases ts with - | ⟨⟨kind, p⟩, ts⟩
  · exact simple_follows hw []
  cases kind with
  | word k =>
    cases k with
    | declare =>
      refine Follows.cons rfl ((identifier_follows d ts).bind fun x => ?_)
      refine (sign_follows .assign d x.rest).bind fun y => ?_
      exact value_bind hw fun x => follows_pure _ _
    | ifWord => exact hc _
    | whileWord =>
      refine Follows.cons rfl ((hw ts).bind fun x => ?_)
      exact (hb x.rest).bind fun y => follows_pure _ _
    | forWord =>
      refine Follows.cons rfl ((identifier_follows d ts).bind fun x => ?_)
      refine (word_follows .inWord (by simp) d x.rest).bind fun y => ?_
      refine (hw y.rest).bind fun x => ?_
      refine (sign_follows .dotDot d x.rest).bind fun y => ?_
      refine (hw y.rest).bind fun x => ?_
      exact (hb x.rest).bind fun y => follows_pure _ _
    | returnWord => exact give_follows hw p ts
    | breakWord | continueWord =>
      exact Follows.cons rfl ((sign_follows .semicolon d ts).bind fun x => follows_pure _ _)
    | _ => exact simple_follows hw _
  | sign s =>
    cases s with
    | braceOpen => exact (hb _).bind fun x => follows_pure _ _
    | _ => exact simple_follows hw _
  | _ => exact simple_follows hw _

-- the brace that ends the statements ends their block
lemma statements_follow (hs : Mirrors (d + 1) statement one) (ts₀ : List Token) (found : List Stmt)
    (ts : List Token) (hlt : ts.length ≤ ts₀.length) :
    Follows d ts (Parser.statementsFrom one ts₀ found ts hlt) fun n => statements n found ⟨ts, d + 1⟩ := by
  apply Follows.later
  rw [Parser.statementsFrom]
  simp only [statements]
  refine eat_follows (by simp) (by simp) (fun q rest hlt' hx => ?_) ?_
  · exact follows_ok (fun _ => rfl) (.refl rest)
  · simp only [if_neg Bool.false_ne_true, check_bind]
    by_cases heof : (current ts).kind = .eof
    · rw [if_pos heof]
      simp only [decide_eq_true heof]
      exact follows_error (fun _ => rfl) (Nat.le_succ d)
    · rw [if_neg heof]
      simp only [decide_eq_false heof]
      refine (hs ts).bind_le (Nat.le_succ d) fun x => ?_
      exact statements_follow hs ts₀ (x.value :: found) x.rest _
  termination_by ts.length
  decreasing_by exact x.shorter

lemma block_mirrors (hd : d < nestingLimit) (hs : Mirrors (d + 1) statement one) :
    Mirrors d block (Parser.blockWith one) := by
  intro ts
  apply Follows.later
  rw [Parser.blockWith]
  simp only [block]
  refine (sign_follows .braceOpen d ts).bind fun x => ?_
  simp only [enter_bind hd]
  exact (statements_follow hs x.rest [] x.rest _).lift

lemma block_deep (hd : d = nestingLimit) : Mirrors d block Parser.closedBlock := by
  intro ts
  apply Follows.later
  rw [Parser.closedBlock]
  simp only [block]
  refine (sign_follows .braceOpen d ts).bind fun x => ?_
  simp only [enter_deep hd]
  exact follows_error (fun _ => rfl) (Nat.le_succ d)

lemma conditional_mirrors (hw : Mirrors d expression expr) (hb : Mirrors d block inner)
    (hl : Mirrors d (fun n => opened (conditional n)) link) :
    Mirrors d conditional (Parser.conditionalWith expr inner link) := by
  intro ts
  apply Follows.later
  rw [Parser.conditionalWith]
  simp only [conditional]
  refine (word_follows .ifWord (by simp) d ts).bind fun x => ?_
  refine (hw x.rest).bind fun cond => ?_
  refine (hb cond.rest).bind fun body => eat_follows (by simp) (by simp) (fun q rest hlt hx => ?_) ?_
  · simp only [if_pos, check_bind]
    by_cases hif : (current rest).kind = .word .ifWord
    · have hstarts : Parser.startsWith (.word .ifWord) rest = true := decide_eq_true hif
      rw [if_pos hstarts]
      simp only [decide_eq_true hif]
      exact (hl rest).bind fun x => follows_pure _ _
    · have hstarts : Parser.startsWith (.word .ifWord) rest = false := decide_eq_false hif
      rw [hstarts, if_neg Bool.false_ne_true]
      simp only [decide_eq_false hif]
      exact (hb rest).bind fun x => follows_pure _ _
  · exact follows_pure _ _

lemma nested_mirrors (room : Nat) : ∀ d, d + room = nestingLimit →
    Mirrors d block (Parser.nested room).1 ∧ Mirrors d conditional (Parser.nested room).2 := by
  induction room with
  | zero =>
    intro d hd
    have hblock := block_deep hd
    exact ⟨hblock, conditional_mirrors (expression_mirrors 0 d hd).1 hblock (opened_deep conditional hd)⟩
  | succ room ih =>
    intro d hd
    have hlt : d < nestingLimit := by omega
    have hd' : d + 1 + room = nestingLimit := by omega
    obtain ⟨hinner, hlink⟩ := ih (d + 1) hd'
    have hblock := block_mirrors hlt (statement_mirrors (expression_mirrors room (d + 1) hd').1 hinner hlink)
    exact ⟨hblock, conditional_mirrors (expression_mirrors (room + 1) d hd).1 hblock (opened_mirrors hlt hlink)⟩

end Statements

/-! Functions. -/

section Functions

lemma paramsFrom_follows (d : Nat) (ts₀ : List Token) (found : List (String × Position)) (ts : List Token)
    (hs : ts.length ≤ ts₀.length) :
    Follows d ts (Parser.paramsFrom ts₀ found ts hs) fun n => paramsFrom n found ⟨ts, d⟩ := by
  apply Follows.later
  rw [Parser.paramsFrom]
  simp only [paramsFrom]
  refine (identifier_follows d ts).bind fun x => eat_follows (by simp) (by simp) (fun q rest hlt hx => ?_) ?_
  · exact paramsFrom_follows d ts₀ (x.value :: found) rest _
  · exact (sign_follows .parenClose d x.rest).bind fun y => follows_pure _ _
  termination_by ts.length
  decreasing_by exact Nat.lt_trans hlt x.shorter

lemma params_mirrors (d : Nat) : Mirrors d params Parser.params := by
  intro ts
  rw [Parser.params]
  simp only [params]
  refine eat_follows (by simp) (by simp) (fun q rest hlt hx => ?_) ?_
  · exact follows_pure _ _
  · exact paramsFrom_follows d ts [] ts _

lemma function_follows (p : Position) (ts : List Token) :
    Follows 0 ts (Parser.function (⟨.word .function, p⟩ :: ts))
      fun n => function n ⟨⟨.word .function, p⟩ :: ts, 0⟩ := by
  have hfirst : Follows 0 ts (Parser.word .function (⟨.word .function, p⟩ :: ts))
      fun _ => expect (.word .function) ⟨⟨.word .function, p⟩ :: ts, 0⟩ :=
    follows_ok (fun _ => expect_cons (by simp) p) (.refl ts)
  rw [Parser.function]
  simp only [function]
  refine hfirst.bind fun x => ?_
  refine (identifier_follows 0 x.rest).bind fun y => ?_
  refine (sign_follows .parenOpen 0 y.rest).bind fun x => ?_
  refine (params_mirrors 0 x.rest).bind fun y => ?_
  exact ((nested_mirrors nestingLimit 0 (Nat.zero_add _)).1 y.rest).bind fun x => follows_pure _ _

end Functions

end ScriptHost.Descent
