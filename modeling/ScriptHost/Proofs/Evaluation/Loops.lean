import ScriptHost.Proofs.Evaluation.Statements

/-!
The code of a loop goes round as often as the loop does.
-/

namespace ScriptHost.Evaluation

open Machine

namespace Site

variable {σ : Site} {exit round : Nat} {inLoop : Bool} {names names' : List String}

section Rounds

variable {inv : Array Datum → Prop} {check mid fin again past : Nat} {cond : Variables → Eval Datum}
  {body : Variables → Eval (Flow × Variables)} {after : Variables → Eval Variables}

lemma rounds_follow (hsize : ∀ locals, inv locals → locals.size = σ.size)
    (hshown : ∀ locals, shown locals names' = shown locals names)
    (hlater : ∀ locals locals', inv locals → Later names' locals names' locals' → inv locals')
    (hcond : ∀ (locals : Array Datum) (w : World) (least : Nat) (k : Datum → Eval Datum), inv locals →
      least ≤ σ.rounds → (∀ d w, σ.From least mid locals [d] w (k d w)) →
      σ.From least check locals [] w ((cond (shown locals names) >>= k) w))
    (hi : σ.function.code[mid]? = some (.jumpIfFalse past))
    (hbody : σ.Encloses past again true names' (mid + 1) fin body)
    (hafter : ∀ (pc : Nat) (locals : Array Datum) (w : World) (least : Nat)
      (k : Variables → Eval Datum), pc = fin ∨ pc = again → inv locals → least ≤ σ.rounds →
      (∀ locals w, inv locals → σ.From least check locals [] w (k (shown locals names) w)) →
      σ.From least pc locals [] w ((after (shown locals names) >>= k) w))
    {locals : Array Datum} (hinv : inv locals) (w : World) {least : Nat} (hle : least ≤ σ.rounds)
    {k : Flow × Variables → Eval Datum}
    (hnext : ∀ flow pc ops locals w, σ.Lands exit round past inLoop flow pc ops → inv locals →
      σ.From least pc locals ops w (k (flow, shown locals names) w)) :
    σ.From least check locals [] w
      ((repeated (turn cond body after) σ.rounds (shown locals names) >>= k) w) := by
  -- `inv` holds whenever the test is reached, and each round uses up one of those that are left.
  refine @From.repeated σ.host σ.depth (fun locals => ⟨σ.id, check, locals, []⟩ :: σ.rest)
    (fun locals => shown locals names) inv (turn cond body after) k least σ.rounds ?_ σ.rounds locals hinv w
    least hle (Nat.le_refl _) (Nat.le_refl _)
  intro locals w less k' hinv hless hbound hnone hsome
  simp only [turn, bind_assoc]
  apply hcond locals w (less + 1) _ hinv hbound
  intro d w
  apply From.truth σ.quiet σ.found hi (exec_jumpIfFalse _ _ _ _ _ _ past d)
  intro b
  have hless' : less ≤ σ.rounds := Nat.le_of_succ_le hbound
  cases b with
  | false =>
    simp only [Bool.false_eq_true, if_false, pure_bind, hsome]
    exact (hnext .next past [] locals w .next hinv).mono hless
  | true =>
    simp only [if_true, bind_assoc]
    rw [← hshown]
    apply hbody locals w less _ (hsize locals hinv) hless'
    intro flow pc ops locals' w hlands hl
    have hinv' := hlater locals locals' hinv hl
    rw [hshown]
    cases hlands with
    | next =>
      simp only [bind_assoc, pure_bind]
      exact hafter fin locals' w less _ (.inl rfl) hinv' hless' hnone
    | leave =>
      simp only [pure_bind, hsome]
      exact (hnext .next past [] locals' w .next hinv').mono hless
    | again =>
      simp only [bind_assoc, pure_bind]
      exact hafter again locals' w less _ (.inr rfl) hinv' hless' hnone
    | give d pc hret =>
      simp only [pure_bind, hsome]
      exact (hnext (.give d) pc [d] locals' w (.give d pc hret) hinv').mono hless

end Rounds

lemma Computes.loop {start mid fin : Nat} {cond : Variables → Eval Datum}
    {body : Variables → Eval (Flow × Variables)} (hcond : σ.Computes names start mid cond)
    (hi : σ.function.code[mid]? = some (.jumpIfFalse (fin + 1)))
    (hbody : σ.Encloses (fin + 1) start true names (mid + 1) fin body)
    (hback : σ.function.code[fin]? = some (.jump start)) :
    σ.Encloses exit round inLoop names start (fin + 1) fun vars =>
      repeated (turn cond body pure) σ.rounds vars := by
  intro locals w least k hsize hle hnext
  -- What a block keeps is kept from round to round.
  refine rounds_follow (fun locals' (hl : Later names locals names locals') => hl.size.trans hsize)
    (fun _ => rfl) (fun _ _ hl hl' => hl.trans hl')
    (fun locals' w least k hl hle hk => hcond locals' [] w least k (hl.size.trans hsize) hle hk) hi hbody ?_
    Later.refl w hle fun flow pc ops locals' w hlands hl => hnext flow pc ops locals' w hlands hl
  intro pc locals' w less k hpc hl hless hk
  rw [pure_bind]
  rcases hpc with rfl | rfl
  · exact (From.resume σ.quiet σ.found hback (exec_jump _ _ _ _ _ _ start) (hk locals' w hl)).weaken
  · exact hk locals' w hl

/-! Counting loops. -/

section Count

variable {s : Slots} {name : String} {limit : Datum} {locals₀ locals : Array Datum}

/-- What is so whenever a counting loop checks its counter: the limit is still in the slot after it. -/
structure Counting (σ : Site) (s : Slots) (name : String) (limit : Datum) (locals₀ locals : Array Datum) :
    Prop where
  size : locals.size = σ.size
  hidden : hidden locals ("" :: name :: s.names) = limit :: hidden locals₀ s.names

lemma Counting.limit_eq (h : Counting σ s name limit locals₀ locals) (hslot : s.next + 1 < σ.size) :
    locals[s.next + 1]? = some limit := by
  have hhead := (List.cons.inj ((hidden_hide locals (name :: s.names)).symm.trans h.hidden)).1
  have hlt : s.next + 1 < locals.size := h.size.symm ▸ hslot
  rw [List.length_cons, ← s.next_eq, Array.getElem?_eq_getElem hlt, Option.getD_some] at hhead
  rw [Array.getElem?_eq_getElem hlt, hhead]

lemma Counting.later (h : Counting σ s name limit locals₀ locals) (hsize : locals₀.size = σ.size)
    (hn : name ≠ "") : Later s.names locals₀ (name :: s.names) locals := by
  have htail := (List.cons.inj ((hidden_hide locals (name :: s.names)).symm.trans h.hidden)).2
  rw [hidden_cons _ _ hn] at htail
  exact ⟨h.size.trans hsize.symm, htail, [name], by simpa using hn, rfl⟩

lemma find?_counter (s : Slots) (name : String) : (s.declare name).find? name = some s.next := by
  rw [Slots.find?_declare, if_pos rfl]

lemma Counting.store (h : Counting σ s name limit locals₀ locals) (hn : name ≠ "") (d : Datum) :
    Counting σ s name limit locals₀ (locals.setIfInBounds s.next d) := by
  have hfind : ((s.declare name).declare "").find? name = some s.next := by
    rw [Slots.find?_declare, if_neg (Ne.symm hn), find?_counter]
  exact ⟨Array.size_setIfInBounds.trans h.size, (hidden_assign locals d hn hfind).trans h.hidden⟩

lemma counting_start (hn : name ≠ "") (hslot : s.next + 1 < σ.size) (hsize : locals.size = σ.size)
    (first limit : Datum) :
    Counting σ s name limit locals
        ((locals.setIfInBounds s.next first).setIfInBounds (s.next + 1) limit) ∧
      shown ((locals.setIfInBounds s.next first).setIfInBounds (s.next + 1) limit) (name :: s.names) =
        (name, first) :: shown locals s.names := by
  rw [← hsize] at hslot
  rw [s.next_eq] at hslot ⊢
  have hlt : (name :: s.names).length < (locals.setIfInBounds s.names.length first).size := by
    rw [Array.size_setIfInBounds]
    exact hslot
  refine ⟨⟨?_, ?_⟩, ?_⟩
  · rw [Array.size_setIfInBounds, Array.size_setIfInBounds, hsize]
  · have hhide := hidden_store_hide limit hlt
    rw [hidden_declare first hn] at hhide
    exact hhide
  · have hshown : shown ((locals.setIfInBounds s.names.length first).setIfInBounds (s.names.length + 1) limit)
        (name :: s.names) = shown (locals.setIfInBounds s.names.length first) (name :: s.names) :=
      shown_store_high limit (Nat.le_refl _)
    rw [hshown, shown_declare first hn (Nat.lt_of_succ_lt hslot)]

variable {start again : Nat} {w : World} {least : Nat}

lemma Counting.check (h : Counting σ s name limit locals₀ locals) (hn : name ≠ "")
    (hslot : s.next + 1 < σ.size) (hload : σ.function.code[start]? = some (.load s.next))
    (hlimit : σ.function.code[start + 1]? = some (.load (s.next + 1)))
    (hlt : σ.function.code[start + 2]? = some (.binary .lt)) {k : Datum → Eval Datum}
    (hle : least ≤ σ.rounds) (hnext : ∀ d w, σ.From least (start + 3) locals [d] w (k d w)) :
    σ.From least start locals [] w (((do
      let i ← read (shown locals (name :: s.names)) name
      act fun h => Machine.binary h .lt i limit) >>= k) w) := by
  simp only [bind_assoc]
  refine computes_var hn (find?_counter s name) (Nat.lt_of_succ_lt hslot) hload locals [] w least _ h.size hle
    fun i w => ?_
  refine (From.resume σ.quiet σ.found hlimit (exec_load _ _ _ _ _ _ (h.limit_eq hslot)) ?_).weaken
  exact (From.pushing σ.quiet σ.found hlt (binary_agree .lt i limit) (exec_binary _ _ _ _ _ _ .lt i limit)
    hnext).weaken

lemma Counting.advance (h : Counting σ s name limit locals₀ locals) (hn : name ≠ "")
    (hslot : s.next + 1 < σ.size) (hload : σ.function.code[again]? = some (.load s.next))
    (hone : σ.function.code[again + 1]? = some (.int 1))
    (hadd : σ.function.code[again + 2]? = some (.binary .add))
    (hstore : σ.function.code[again + 3]? = some (.store s.next))
    (hjump : σ.function.code[again + 4]? = some (.jump start)) {k : Variables → Eval Datum}
    (hle : least ≤ σ.rounds)
    (hnext : ∀ locals w, Counting σ s name limit locals₀ locals →
      σ.From least start locals [] w (k (shown locals (name :: s.names)) w)) :
    σ.From least again locals [] w (((do
      let i ← read (shown locals (name :: s.names)) name
      let i ← act fun h => Machine.binary h .add i (.int 1)
      return assign name i (shown locals (name :: s.names))) >>= k) w) := by
  have hlt : s.next < σ.size := Nat.lt_of_succ_lt hslot
  have hlt' : s.next < locals.size := h.size.symm ▸ hlt
  have hvar := computes_var hn (find?_counter s name) hlt hload
  have hsum := hvar.binary (computes_const hone fun _ _ => exec_int _ _ _ _ _ _ 1) hadd
  have hfrom := hsum locals [] w least (fun i => k (assign name i (shown locals (name :: s.names)))) h.size hle
  simp only [bind_assoc, pure_bind] at hfrom ⊢
  apply hfrom
  intro i w
  have hassign := shown_assign i hn (find?_counter s name) hlt'
  rw [show (s.declare name).names = name :: s.names from rfl] at hassign
  rw [← hassign]
  refine (From.resume σ.quiet σ.found hstore (exec_store _ _ _ _ _ _ i hlt') ?_).weaken
  exact (From.resume σ.quiet σ.found hjump (exec_jump _ _ _ _ _ _ start)
    (hnext _ w (h.store hn i))).weaken

lemma Computes.count {start mid mid' fin : Nat} {first bound : Variables → Eval Datum}
    {body : Variables → Eval (Flow × Variables)} (hn : name ≠ "") (hslot : s.next + 1 < σ.size)
    (hfirst : σ.Computes s.names start mid first) (hi : σ.function.code[mid]? = some (.store s.next))
    (hbound : σ.Computes (name :: s.names) (mid + 1) mid' bound)
    (hi' : σ.function.code[mid']? = some (.store (s.next + 1)))
    (hload : σ.function.code[mid' + 1]? = some (.load s.next))
    (hlimit : σ.function.code[mid' + 2]? = some (.load (s.next + 1)))
    (hlt : σ.function.code[mid' + 3]? = some (.binary .lt))
    (htest : σ.function.code[mid' + 4]? = some (.jumpIfFalse (fin + 5)))
    (hbody : σ.Encloses (fin + 5) fin true ("" :: name :: s.names) (mid' + 5) fin body)
    (hload' : σ.function.code[fin]? = some (.load s.next))
    (hone : σ.function.code[fin + 1]? = some (.int 1))
    (hadd : σ.function.code[fin + 2]? = some (.binary .add))
    (hstore : σ.function.code[fin + 3]? = some (.store s.next))
    (hjump : σ.function.code[fin + 4]? = some (.jump (mid' + 1))) :
    σ.Encloses exit round inLoop s.names start (fin + 5) fun vars => (do
      let first ← first vars
      let bound ← bound ((name, first) :: vars)
      restored vars <$> repeated (turn
        (fun vars => do
          let i ← read vars name
          act fun h => Machine.binary h .lt i bound)
        body
        (fun vars => do
          let i ← read vars name
          let i ← act fun h => Machine.binary h .add i (.int 1)
          return Evaluation.assign name i vars)) σ.rounds ((name, first) :: vars)) := by
  intro locals w least k hsize hle hnext
  simp only [map_eq_pure_bind, bind_assoc, pure_bind]
  have hcounter : s.next < locals.size := hsize.symm ▸ Nat.lt_of_succ_lt hslot
  apply hfirst locals [] w least _ hsize hle
  intro d w
  refine (From.resume σ.quiet σ.found hi (exec_store _ _ _ _ _ _ d hcounter) ?_).weaken
  have hfirst : shown (locals.setIfInBounds s.next d) (name :: s.names) = (name, d) :: shown locals s.names := by
    rw [s.next_eq] at hcounter ⊢
    exact shown_declare d hn hcounter
  rw [← hfirst]
  apply hbound _ [] w least _ (Array.size_setIfInBounds.trans hsize) hle
  intro limit w
  have hroom : s.next + 1 < (locals.setIfInBounds s.next d).size := by
    rw [Array.size_setIfInBounds, hsize]
    exact hslot
  refine (From.resume σ.quiet σ.found hi' (exec_store _ _ _ _ _ _ limit hroom) ?_).weaken
  obtain ⟨hcounting, hshown⟩ := counting_start hn hslot hsize d limit
  rw [hfirst, ← hshown]
  refine rounds_follow (fun locals' (h : Counting σ s name limit locals locals') => h.size)
    (fun locals' => shown_hide locals' (name :: s.names))
    (fun _ _ h hl => ⟨hl.size.trans h.size, hl.hidden.trans h.hidden⟩)
    (fun _ w least k h hle hk => h.check hn hslot hload hlimit hlt hle hk) htest hbody ?_ hcounting w hle
    fun flow pc ops locals' w (hlands : σ.Lands exit round (fin + 5) inLoop flow pc ops) h => ?_
  · rintro pc locals' w less k (rfl | rfl) h hless hk
    · exact h.advance hn hslot hload' hone hadd hstore hjump hless hk
    · exact h.advance hn hslot hload' hone hadd hstore hjump hless hk
  · have hl := h.later hsize hn
    rw [hl.restored]
    exact hnext flow pc ops locals' w hlands hl.back

end Count

end Site

end ScriptHost.Evaluation
