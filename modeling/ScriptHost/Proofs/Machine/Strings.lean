import ScriptHost.Proofs.Machine.Memory

/-!
Strings that are built from values. A text is shown in what the ceiling leaves and charged afterwards; in the states
of a run this comes to the same as showing all of it first, and no text that was cut gets out.
-/

namespace ScriptHost.Machine

/-- What comes of a text of so many bytes: what `enough` says, given what is allocated with it, unless the ceiling is
in the way. Without one, a text only has to be as small as a text can be at all. -/
def State.withinCeiling {α : Type} (h : Host) (t : State) (bytes : Nat) (enough : Nat → EStateM.Result Fault State α) :
    EStateM.Result Fault State α :=
  match h.memoryCeiling with
  | some c => if t.allocated + bytes ≤ c then enough (t.allocated + bytes) else outOfMemory h c t
  | none => if bytes < wordLimit then enough (charged t.allocated bytes) else outOfMemory h chargeLimit t

section Within

variable {α : Type} {h : Host} {t : State} {bytes c : Nat} (enough : Nat → EStateM.Result Fault State α)

lemma withinCeiling_fits (hc : h.memoryCeiling = some c) (hb : t.allocated + bytes ≤ c) :
    t.withinCeiling h bytes enough = enough (t.allocated + bytes) := by
  rw [State.withinCeiling, hc]
  exact if_pos hb

lemma withinCeiling_full (hc : h.memoryCeiling = some c) (hb : c < t.allocated + bytes) :
    t.withinCeiling h bytes enough = outOfMemory h c t := by
  rw [State.withinCeiling, hc]
  exact if_neg (Nat.not_le_of_lt hb)

end Within

def belowCeiling (ceiling : Option Nat) : Pairing where
  functions := Eq
  values _ := True
  memory _ n := ∀ c ∈ ceiling, n ≤ c
  faults _ _ := True
  cut _ := True

lemma belowCeiling_joins (h : Host) : (belowCeiling h.memoryCeiling).Joins h h where
  keeps := {
    nil := trivial
    bool := fun _ => trivial
    int := fun _ => trivial
    array := fun _ => trivial
    string := fun _ _ => trivial
    items := fun _ _ _ _ => trivial
    charge := fun _ hb => hb
    alloc := fun _ _ hb => hb
    push := fun _ _ _ hb => hb
    store := fun _ _ hn _ => hn
    shorten := fun _ hn => hn }
  raised := rfl
  limits := .inl ⟨rfl, rfl⟩
  faults _ _ _ _ _ := trivial
  functions {id id'} hid := by
    obtain rfl : id = id' := hid
    cases h.program.functions[id]? with
    | none => exact .none
    | some g => exact .some (Function.Alike.refl (fun _ => rfl) _ g)

lemma reached_below {h : Host} {id : Nat} {args : List Value} {limit : Nat} {s : State} {ds : List Datum}
    (hs : Reached h id args limit s ds) : ∀ c ∈ h.memoryCeiling, s.allocated ≤ c := by
  have hstart : (belowCeiling h.memoryCeiling).coupling.states (.start limit) (.start limit) :=
    ⟨.mk .nil, fun c _ => Nat.zero_le c⟩
  exact ((belowCeiling_joins h).reached rfl hstart hs).1.2

section Display

variable {h : Host} {t : State} {values : Array Datum}

lemma display_ok {text : String} {u : State} (hd : display h values t = .ok text u) :
    text = wholeText t.heap "" values ∧ text.utf8ByteSize ≤ room h t ∧ u.allocated = t.allocated := by
  have hadded := render_added t.heap (fun n => h.raised (t.clock + n)) "" (room h t) values
  rcases hr : render t.heap (fun n => h.raised (t.clock + n)) "" (room h t) values with ⟨r, _ | _ | _⟩
  · rw [hr] at hadded
    rw [display_eq h values t hr] at hd
    cases hd
    exact ⟨hadded.1, hadded.1 ▸ hadded.2, rfl⟩
  · rw [display_eq h values t hr] at hd
    cases hd
  · rw [display_eq h values t hr] at hd
    cases hd

lemma display_whole (hsig : ∀ n, h.raised (t.clock + n) = false) (values : Array Datum) :
    ∃ n, display h values t =
      if (wholeText t.heap "" values).utf8ByteSize ≤ room h t then
        .ok (wholeText t.heap "" values) { t with clock := t.clock + n }
      else outOfMemory h (h.memoryCeiling.getD chargeLimit) { t with clock := t.clock + n } := by
  have hadded := render_added t.heap (fun n => h.raised (t.clock + n)) "" (room h t) values
  rcases hr : render t.heap (fun n => h.raised (t.clock + n)) "" (room h t) values with ⟨r, _ | _ | _⟩
  · rw [hr] at hadded
    obtain ⟨htext, hfits⟩ := hadded
    refine ⟨r.visits, ?_⟩
    rw [if_pos hfits, display_eq h values t hr, ← htext]
    rfl
  · rw [hr] at hadded
    refine ⟨r.visits, ?_⟩
    rw [if_neg (Nat.not_le_of_lt hadded.2), display_eq h values t hr]
    rfl
  · rw [hr] at hadded
    obtain ⟨n, hn⟩ := hadded
    rw [hsig n] at hn
    cases hn

section Whole

variable (hword : ∀ c ∈ h.memoryCeiling, c < wordLimit) (hbelow : ∀ c ∈ h.memoryCeiling, t.allocated ≤ c)

include hbelow

lemma charged_room {bytes : Nat} (hb : bytes ≤ room h t) : ∀ c ∈ h.memoryCeiling, charged t.allocated bytes ≤ c := by
  intro c hc
  have := hbelow c hc
  rw [room, Option.mem_def.mp hc, Option.elim_some] at hb
  rw [charged]
  omega

include hword

lemma within_room {α : Type} (bytes : Nat) (enough : Nat → EStateM.Result Fault State α) :
    t.withinCeiling h bytes enough =
      if bytes ≤ room h t then enough (charged t.allocated bytes)
      else outOfMemory h (h.memoryCeiling.getD chargeLimit) t := by
  rw [room]
  cases hc : h.memoryCeiling with
  | none =>
    rw [State.withinCeiling, hc]
    exact if_congr (by rw [Option.elim_none, chargeLimit, wordLimit]; omega) rfl rfl
  | some c =>
    have hle := hbelow c hc
    have hlt := hword c hc
    by_cases hb : bytes ≤ c - t.allocated
    · have hcharged : charged t.allocated bytes = t.allocated + bytes := by
        rw [charged, chargeLimit]
        omega
      rw [withinCeiling_fits enough hc (Nat.add_le_of_le_sub' hle hb), hcharged]
      exact (if_pos hb).symm
    · rw [withinCeiling_full enough hc (by omega)]
      exact (if_neg hb).symm

variable (hsig : ∀ n, h.raised (t.clock + n) = false)

include hsig

lemma display_within {α : Type} (values : Array Datum) {k : String → Run α}
    (enough : State → Nat → EStateM.Result Fault State α)
    (hk : ∀ n, (wholeText t.heap "" values).utf8ByteSize ≤ room h t →
      k (wholeText t.heap "" values) { t with clock := t.clock + n } =
        enough { t with clock := t.clock + n } (charged t.allocated (wholeText t.heap "" values).utf8ByteSize)) :
    ∃ n, (display h values >>= k) t = State.withinCeiling h { t with clock := t.clock + n }
      (wholeText t.heap "" values).utf8ByteSize (enough { t with clock := t.clock + n }) := by
  obtain ⟨n, hn⟩ := display_whole hsig values
  refine ⟨n, ?_⟩
  rw [within_room (t := { t with clock := t.clock + n }) hword hbelow]
  split at hn
  · next hb =>
    rw [bind_of_ok hn, hk n hb]
    exact (if_pos hb).symm
  · next hb =>
    rw [bind_of_error hn]
    exact (if_neg hb).symm

end Whole

end Display

section Outcomes

variable (h : Host) (t : State) (values : Array Datum)

/-- Work that gives the whole text of some values and charges all of it. -/
def Builds (op : Run Datum) : Prop :=
  let text := wholeText t.heap "" values
  ∃ n, let u := { t with clock := t.clock + n }
    op t = u.withinCeiling h text.utf8ByteSize fun allocated => .ok (.str text) { u with allocated := allocated }

/-- Work that ends in a fault whose message is the whole text of some values; nothing is charged for a message. -/
def Reports (kind : FaultKind) (op : Run Datum) : Prop :=
  let text := wholeText t.heap "" values
  ∃ n, let u := { t with clock := t.clock + n }
    op t = u.withinCeiling h text.utf8ByteSize fun _ => .error ⟨kind, text, trace h.program u.frames⟩ u

variable {h t} (hword : ∀ c ∈ h.memoryCeiling, c < wordLimit) (hbelow : ∀ c ∈ h.memoryCeiling, t.allocated ≤ c)
  (hsig : ∀ n, h.raised (t.clock + n) = false)

include hword hbelow hsig

lemma newString_builds : Builds h t values (display h values >>= newString h) := by
  refine display_within hword hbelow hsig values
    (fun u allocated => .ok (Datum.str (wholeText t.heap "" values)) { u with allocated := allocated }) fun n hb => ?_
  exact bind_of_ok (charge_ok (s := { t with clock := t.clock + n }) (charged_room hbelow hb)) _

lemma fail_reports (kind : FaultKind) : Reports h t values kind (display h values >>= fail h kind) :=
  display_within hword hbelow hsig values
    (fun u _ => .error ⟨kind, wholeText t.heap "" values, trace h.program u.frames⟩ u) fun _ _ => rfl

end Outcomes

/-- Strings are built whole. Whatever a run has allocated by then, a display that succeeds is all there is to show and
leaves room for the charge. While no signal is up, concatenation and `str` give the whole text and charge its bytes
where these fit below the ceiling, `throw` and `assert` end with it as their message, and past the ceiling each of
them fails for want of memory. -/
theorem strings_are_whole {h : Host} (hword : ∀ c ∈ h.memoryCeiling, c < wordLimit) {id : Nat} {args : List Value}
    {limit : Nat} {s : State} {ds : List Datum} (hs : Reached h id args limit s ds) {t : State}
    (ht : t.allocated = s.allocated) :
    (∀ values text u, display h values t = .ok text u →
      text = wholeText t.heap "" values ∧ ∃ v, charge h text.utf8ByteSize u = .ok () v) ∧
    ((∀ n, h.raised (t.clock + n) = false) →
      (∀ lhs rhs, (∃ x, lhs = .str x) ∨ (∃ x, rhs = .str x) → Builds h t #[lhs, rhs] (binary h .add lhs rhs)) ∧
      (∀ d, Builds h t #[d] (builtin h .str [d])) ∧
      (∀ d, Reports h t #[d] .exception (builtin h .throw [d])) ∧
      ∀ d, Reports h t #[d] .assertionError (builtin h .assert [.bool false, d])) := by
  have hbelow : ∀ c ∈ h.memoryCeiling, t.allocated ≤ c := ht ▸ reached_below hs
  refine ⟨fun values text u hd => ?_, fun hsig => ⟨fun lhs rhs hstr => ?_, fun d => ?_, fun d => ?_, fun d => ?_⟩⟩
  · obtain ⟨htext, hroom, hu⟩ := display_ok hd
    exact ⟨htext, _, charge_ok (hu ▸ charged_room hbelow hroom)⟩
  · have hadd : binary h .add lhs rhs = display h #[lhs, rhs] >>= newString h := by
      rcases hstr with ⟨x, rfl⟩ | ⟨x, rfl⟩
      · cases rhs <;> rfl
      · cases lhs <;> rfl
    exact hadd ▸ newString_builds _ hword hbelow hsig
  · exact newString_builds _ hword hbelow hsig
  · exact fail_reports _ hword hbelow hsig _
  · exact fail_reports _ hword hbelow hsig _

-- The ceiling of five bytes has room for `ab12`, but not for `abcdef`.
theorem strings_are_whole_nesting :
    let h : Host := ⟨nesting, 8, some 5, fun _ => false⟩
    ∃ s, Reached h 0 [] 64 s [] ∧
      (∃ u, binary h .add (.str "ab") (.int 12) s = .ok (.str "ab12") u ∧ u.allocated = 4) ∧
      ∃ f u, builtin h .throw [.str "abcdef"] s = .error f u ∧ f.kind = .outOfMemory := by
  intro h
  have hword : ∀ c ∈ h.memoryCeiling, c < wordLimit := by
    rintro _ ⟨⟩
    decide
  obtain ⟨s, hcall, hs⟩ : ∃ s, call h 0 [] (.start 64) = .ok () s ∧ s.allocated = 0 := ⟨_, rfl, rfl⟩
  obtain ⟨-, hwhole⟩ := strings_are_whole hword (.called hcall) (t := s) rfl
  obtain ⟨hadd, -, hthrow, -⟩ := hwhole fun _ => rfl
  refine ⟨s, .called hcall, ?_, ?_⟩
  · obtain ⟨n, hn⟩ := hadd (.str "ab") (.int 12) (.inl ⟨_, rfl⟩)
    have htext : wholeText s.heap "" #[.str "ab", .int 12] = "ab12" := rfl
    have hfits : s.allocated + ("ab12" : String).utf8ByteSize ≤ 5 := by
      rw [hs]
      decide
    rw [htext] at hn
    exact ⟨_, hn.trans (withinCeiling_fits _ rfl hfits), by rw [hs]; rfl⟩
  · obtain ⟨n, hn⟩ := hthrow (.str "abcdef")
    have htext : wholeText s.heap "" #[.str "abcdef"] = "abcdef" := rfl
    have hfull : 5 < s.allocated + ("abcdef" : String).utf8ByteSize := by
      rw [hs]
      decide
    rw [htext] at hn
    exact ⟨_, _, hn.trans (withinCeiling_full _ rfl hfull), rfl⟩

end ScriptHost.Machine
