import ScriptHost.Proofs.Evaluation.Expressions

/-!
The code of a statement does to the slots what the statement does to its variables, and leaves by the same way.
-/

namespace ScriptHost.Evaluation

open Machine

namespace Site

inductive Lands (σ : Site) (exit round fin : Nat) (inLoop : Bool) : Flow → Nat → List Datum → Prop
  | next : Lands σ exit round fin inLoop .next fin []
  | leave : inLoop = true → Lands σ exit round fin inLoop .leave exit []
  | again : inLoop = true → Lands σ exit round fin inLoop .again round []
  | give (d : Datum) (pc : Nat) : σ.function.code[pc]? = some .ret →
      Lands σ exit round fin inLoop (.give d) pc [d]

/-- Code from `start` to `fin` does what `x` does. The slots of `names` are there before it, those of `names'` at
its end. -/
def Follows (σ : Site) (exit round : Nat) (inLoop : Bool) (names names' : List String) (start fin : Nat)
    (x : Variables → Eval (Flow × Variables)) : Prop :=
  ∀ (locals : Array Datum) (w : World) (least : Nat) (k : Flow × Variables → Eval Datum),
    locals.size = σ.size → least ≤ σ.rounds →
    (∀ flow pc ops names'' locals' w, σ.Lands exit round fin inLoop flow pc ops →
      Later names locals names'' locals' → (flow = .next → names'' = names') →
      σ.From least pc locals' ops w (k (flow, shown locals' names'') w)) →
    σ.From least start locals [] w ((x (shown locals names) >>= k) w)

def Encloses (σ : Site) (exit round : Nat) (inLoop : Bool) (names : List String) (start fin : Nat)
    (x : Variables → Eval (Flow × Variables)) : Prop :=
  ∀ (locals : Array Datum) (w : World) (least : Nat) (k : Flow × Variables → Eval Datum),
    locals.size = σ.size → least ≤ σ.rounds →
    (∀ flow pc ops locals' w, σ.Lands exit round fin inLoop flow pc ops → Later names locals names locals' →
      σ.From least pc locals' ops w (k (flow, shown locals' names) w)) →
    σ.From least start locals [] w ((x (shown locals names) >>= k) w)

section Follows

variable {σ : Site} {exit round : Nat} {inLoop : Bool} {names names' names'' : List String}
  {start mid fin : Nat} {x y : Variables → Eval (Flow × Variables)} {e : Variables → Eval Datum}

/-! Simple statements. -/

lemma Computes.declare {name : String} (hn : name ≠ "") (hslot : names.length < σ.size)
    (he : σ.Computes names start mid e) (hi : σ.function.code[mid]? = some (.store names.length)) :
    σ.Follows exit round inLoop names (name :: names) start (mid + 1) fun vars => (do
      let d ← e vars
      return (.next, (name, d) :: vars)) := by
  intro locals w least k hsize hle hnext
  simp only [bind_assoc, pure_bind]
  apply he locals [] w least _ hsize hle
  intro d w
  have hslot : names.length < locals.size := hsize ▸ hslot
  rw [← shown_declare d hn hslot]
  exact (From.resume σ.quiet σ.found hi (exec_store _ _ _ _ _ _ d hslot)
    (hnext .next _ _ _ _ w .next (Later.declare d hn) fun _ => rfl)).weaken

lemma Computes.assign {s : Slots} {name : String} {slot : Nat} (hn : name ≠ "")
    (hf : s.find? name = some slot) (hslot : slot < σ.size) (he : σ.Computes s.names start mid e)
    (hi : σ.function.code[mid]? = some (.store slot)) :
    σ.Follows exit round inLoop s.names s.names start (mid + 1) fun vars => (do
      let d ← e vars
      return (.next, Evaluation.assign name d vars)) := by
  intro locals w least k hsize hle hnext
  simp only [bind_assoc, pure_bind]
  apply he locals [] w least _ hsize hle
  intro d w
  have hslot : slot < locals.size := hsize ▸ hslot
  rw [← shown_assign d hn hf hslot]
  exact (From.resume σ.quiet σ.found hi (exec_store _ _ _ _ _ _ d hslot)
    (hnext .next _ _ _ _ w .next (Later.assign d hn hf) fun _ => rfl)).weaken

lemma Computes.storeIndex {mid' : Nat} {e' e'' : Variables → Eval Datum}
    (he : σ.Computes names start mid e) (he' : σ.Computes names mid mid' e')
    (he'' : σ.Computes names mid' fin e'') (hi : σ.function.code[fin]? = some .storeIndex) :
    σ.Follows exit round inLoop names names start (fin + 1) fun vars => (do
      let target ← e vars
      let i ← e' vars
      let value ← e'' vars
      act fun h => Machine.storeIndex h target i value
      return (.next, vars)) := by
  intro locals w least k hsize hle hnext
  simp only [bind_assoc, pure_bind]
  apply he locals [] w least _ hsize hle
  intro target w
  apply he' locals _ w least _ hsize hle
  intro i w
  apply he'' locals _ w least _ hsize hle
  intro value w
  exact (From.storing σ.quiet σ.found hi (storeIndex_agree target i value)
    (exec_storeIndex _ _ _ _ _ _ target i value)
    fun w => hnext .next _ _ _ _ w .next Later.refl fun _ => rfl).weaken

lemma Computes.eval (he : σ.Computes names start mid e) (hi : σ.function.code[mid]? = some .pop) :
    σ.Follows exit round inLoop names names start (mid + 1) fun vars => (do
      let _ ← e vars
      return (.next, vars)) := by
  intro locals w least k hsize hle hnext
  simp only [bind_assoc, pure_bind]
  apply he locals [] w least _ hsize hle
  intro d w
  exact (From.resume σ.quiet σ.found hi (exec_pop _ _ _ _ _ _ d)
    (hnext .next _ _ _ _ w .next Later.refl fun _ => rfl)).weaken

lemma Computes.give (he : σ.Computes names start mid e) (hi : σ.function.code[mid]? = some .ret) :
    σ.Follows exit round inLoop names names' start fin fun vars => (do
      let d ← e vars
      return (.give d, vars)) := by
  intro locals w least k hsize hle hnext
  simp only [bind_assoc, pure_bind]
  apply he locals [] w least _ hsize hle
  intro d w
  apply hnext (.give d) mid [d] names locals w (.give d mid hi) Later.refl
  intro hflow
  cases hflow

lemma follows_leave (hin : inLoop = true) (hi : σ.function.code[start]? = some (.jump exit)) :
    σ.Follows exit round inLoop names names' start fin fun vars => return (.leave, vars) := by
  intro locals w least k hsize hle hnext
  rw [pure_bind]
  refine (From.resume σ.quiet σ.found hi (exec_jump _ _ _ _ _ _ exit) ?_).weaken
  apply hnext .leave exit [] names locals w (.leave hin) Later.refl
  intro hflow
  cases hflow

lemma follows_again (hin : inLoop = true) (hi : σ.function.code[start]? = some (.jump round)) :
    σ.Follows exit round inLoop names names' start fin fun vars => return (.again, vars) := by
  intro locals w least k hsize hle hnext
  rw [pure_bind]
  refine (From.resume σ.quiet σ.found hi (exec_jump _ _ _ _ _ _ round) ?_).weaken
  apply hnext .again round [] names locals w (.again hin) Later.refl
  intro hflow
  cases hflow

/-! Statements one after another. -/

lemma follows_nil : σ.Follows exit round inLoop names names start start fun vars => return (.next, vars) := by
  intro locals w least k _ _ hnext
  rw [pure_bind]
  exact hnext .next start [] names locals w .next Later.refl fun _ => rfl

lemma Follows.cons (hx : σ.Follows exit round inLoop names names' start mid x)
    (hy : σ.Follows exit round inLoop names' names'' mid fin y) :
    σ.Follows exit round inLoop names names'' start fin fun vars => (do
      match ← x vars with
      | (.next, vars) => y vars
      | r => return r) := by
  intro locals w least k hsize hle hnext
  simp only [bind_assoc]
  apply hx locals w least _ hsize hle
  intro flow pc ops names₁ locals₁ w hlands hlater hnames
  cases hlands with
  | next =>
    obtain rfl := hnames rfl
    apply hy locals₁ w least _ (hlater.size.trans hsize) hle
    intro flow pc ops names₂ locals₂ w hlands hlater' hnames
    exact hnext flow pc ops names₂ locals₂ w hlands (hlater.trans hlater') hnames
  | leave hin =>
    rw [pure_bind]
    exact hnext .leave _ _ names₁ locals₁ w (.leave hin) hlater fun hflow => by cases hflow
  | again hin =>
    rw [pure_bind]
    exact hnext .again _ _ names₁ locals₁ w (.again hin) hlater fun hflow => by cases hflow
  | give d pc hi =>
    rw [pure_bind]
    exact hnext (.give d) _ _ names₁ locals₁ w (.give d pc hi) hlater fun hflow => by cases hflow

lemma Follows.block (hx : σ.Follows exit round inLoop names names' start fin x) :
    σ.Encloses exit round inLoop names start fin fun vars => restored vars <$> x vars := by
  intro locals w least k hsize hle hnext
  simp only [map_eq_pure_bind, bind_assoc, pure_bind]
  apply hx locals w least _ hsize hle
  intro flow pc ops names₁ locals₁ w hlands hlater _
  rw [hlater.restored]
  exact hnext flow pc ops locals₁ w hlands hlater.back

lemma Encloses.follows (hx : σ.Encloses exit round inLoop names start fin x) :
    σ.Follows exit round inLoop names names start fin x := by
  intro locals w least k hsize hle hnext
  apply hx locals w least k hsize hle
  intro flow pc ops locals' w hlands hlater
  exact hnext flow pc ops names locals' w hlands hlater fun _ => rfl

/-! Branches. -/

lemma Computes.branch (he : σ.Computes names start mid e)
    (hi : σ.function.code[mid]? = some (.jumpIfFalse fin))
    (hx : σ.Follows exit round inLoop names names (mid + 1) fin x) :
    σ.Follows exit round inLoop names names start fin fun vars => (do
      if ← truth (← e vars) then x vars else return (.next, vars)) := by
  intro locals w least k hsize hle hnext
  simp only [bind_assoc]
  apply he locals [] w least _ hsize hle
  intro d w
  refine (From.truth σ.quiet σ.found hi (exec_jumpIfFalse _ _ _ _ _ _ fin d) fun b => ?_).weaken
  cases b with
  | true => exact hx locals w least k hsize hle hnext
  | false => exact hnext .next fin [] names locals w .next Later.refl fun _ => rfl

lemma Computes.branchElse {mid' : Nat} (he : σ.Computes names start mid e)
    (hi : σ.function.code[mid]? = some (.jumpIfFalse (mid' + 1)))
    (hx : σ.Follows exit round inLoop names names (mid + 1) mid' x)
    (hi' : σ.function.code[mid']? = some (.jump fin))
    (hy : σ.Follows exit round inLoop names names (mid' + 1) fin y) :
    σ.Follows exit round inLoop names names start fin fun vars => (do
      if ← truth (← e vars) then x vars else y vars) := by
  intro locals w least k hsize hle hnext
  simp only [bind_assoc]
  apply he locals [] w least _ hsize hle
  intro d w
  refine (From.truth σ.quiet σ.found hi (exec_jumpIfFalse _ _ _ _ _ _ (mid' + 1) d) fun b => ?_).weaken
  cases b with
  | true =>
    apply hx locals w least k hsize hle
    intro flow pc ops names₁ locals₁ w hlands hlater hnames
    cases hlands with
    | next =>
      exact (From.resume σ.quiet σ.found hi' (exec_jump _ _ _ _ _ _ fin)
        (hnext .next fin [] names₁ locals₁ w .next hlater hnames)).weaken
    | leave hin => exact hnext .leave _ _ names₁ locals₁ w (.leave hin) hlater hnames
    | again hin => exact hnext .again _ _ names₁ locals₁ w (.again hin) hlater hnames
    | give d pc hi => exact hnext (.give d) _ _ names₁ locals₁ w (.give d pc hi) hlater hnames
  | false => exact hy locals w least k hsize hle hnext

end Follows

end Site

end ScriptHost.Evaluation
