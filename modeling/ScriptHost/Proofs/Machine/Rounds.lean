import ScriptHost.Machine.Arithmetic
import ScriptHost.Proofs.Machine.Trails

/-!
The rounds of a counting loop. Its variable and its end bound have slots that only its own instructions store to, so
the variable counts up as long as rounds end where the next one begins.
-/

namespace ScriptHost

def counted (x y : Int64) : List Int64 :=
  (List.range (y.toInt - x.toInt).toNat).map fun i : Nat => .ofInt (x.toInt + i)

lemma toInt_succ {x y : Int64} (h : x < y) : (x + 1).toInt = x.toInt + 1 := by
  have hx := x.le_toInt
  have hy := y.toInt_lt
  rw [Int64.lt_iff_toInt_lt] at h
  rw [Int64.toInt_add, show (1 : Int64).toInt = 1 from rfl, Int.bmod_eq_of_le] <;> omega

lemma counted_of_lt {x y : Int64} (h : x < y) : counted x y = x :: counted (x + 1) y := by
  have hlt := Int64.lt_iff_toInt_lt.mp h
  rw [counted, counted, toInt_succ h, show (y.toInt - x.toInt).toNat = (y.toInt - (x.toInt + 1)).toNat + 1 by omega,
    List.range_succ_eq_map, List.map_cons, List.map_map]
  congr 1
  · rw [Int.natCast_zero, Int.add_zero, Int64.ofInt_toInt]
  · refine List.map_congr_left fun i _ => ?_
    rw [Function.comp_apply, Int.natCast_succ, Int.add_assoc, Int.add_comm 1]

lemma counted_of_not_lt {x y : Int64} (h : ¬ x < y) : counted x y = [] := by
  rw [Int64.lt_iff_toInt_lt] at h
  rw [counted, show (y.toInt - x.toInt).toNat = 0 by omega]
  rfl

namespace Arithmetic

lemma add?_one {x y : Int64} (h : x < y) : add? x 1 = some (x + 1) :=
  if_pos (toInt_succ h)

end Arithmetic

structure LoopCode where
  start : Nat
  firstEnd : Nat
  boundEnd : Nat
  round : Nat
  counter : Nat
  /-- The addresses in the code of the body that go on with the next round. -/
  again : List Nat

namespace LoopCode

variable (L : LoopCode)

def check : Nat := L.boundEnd + 1
def test : Nat := L.check + 3
def body : Nat := L.check + 4
def exit : Nat := L.round + 5

/-- Where a round can end: behind the code of the body, or where that goes on with the next one. -/
def ends : List Nat := L.round :: L.again

lemma addresses : L.check = L.boundEnd + 1 ∧ L.test = L.check + 3 ∧ L.body = L.check + 4 ∧ L.exit = L.round + 5 :=
  ⟨rfl, rfl, rfl, rfl⟩

structure Of (g : Function) : Prop where
  storeFirst : g.code[L.firstEnd]? = some (.store L.counter)
  storeBound : g.code[L.boundEnd]? = some (.store (L.counter + 1))
  loadCounter : g.code[L.check]? = some (.load L.counter)
  loadBound : g.code[L.check + 1]? = some (.load (L.counter + 1))
  compare : g.code[L.check + 2]? = some (.binary .lt)
  jumpPast : g.code[L.test]? = some (.jumpIfFalse L.exit)
  loadAgain : g.code[L.round]? = some (.load L.counter)
  one : g.code[L.round + 1]? = some (.int 1)
  add : g.code[L.round + 2]? = some (.binary .add)
  storeNext : g.code[L.round + 3]? = some (.store L.counter)
  jumpBack : g.code[L.round + 4]? = some (.jump L.check)
  jumpOn : ∀ pc ∈ L.again, L.body ≤ pc ∧ pc < L.round ∧ g.code[pc]? = some (.jump L.round)
  behind : L.start ≤ L.firstEnd ∧ L.firstEnd < L.boundEnd ∧ L.body ≤ L.round
  boundStores : ∀ pc slot, L.firstEnd < pc → pc < L.boundEnd → g.code[pc]? ≠ some (.store slot)
  bodyStores : ∀ pc, L.body ≤ pc → pc < L.round →
    g.code[pc]? ≠ some (.store L.counter) ∧ g.code[pc]? ≠ some (.store (L.counter + 1))

end LoopCode

namespace Machine

/-- What a test of a loop has before it: the variable of the loop, and the operand that decides. -/
abbrev Test := Option Datum × Option Datum

def countTests (x y : Int64) : List Test :=
  (counted x y).map (fun v => (some (.int v), some (.bool true))) ++ [(some (.int (max x y)), some (.bool false))]

lemma countTests_of_lt {x y : Int64} (h : x < y) :
    countTests x y = (some (.int x), some (.bool true)) :: countTests (x + 1) y := by
  have hmax : max x y = max (x + 1) y := by
    change (if x ≤ y then y else x) = if x + 1 ≤ y then y else x + 1
    have hnext := toInt_succ h
    rw [Int64.lt_iff_toInt_lt] at h
    rw [if_pos (Int64.le_iff_toInt_le.mpr (by omega)), if_pos (Int64.le_iff_toInt_le.mpr (by omega))]
  rw [countTests, counted_of_lt h, hmax]
  rfl

lemma countTests_of_not_lt {x y : Int64} (h : ¬ x < y) :
    countTests x y = [(some (.int x), some (.bool false))] := by
  have hmax : max x y = x := by
    change (if x ≤ y then y else x) = x
    split
    · next hle =>
      rw [Int64.lt_iff_toInt_lt] at h
      rw [Int64.le_iff_toInt_le] at hle
      exact Int64.toInt_inj.mp (by omega)
    · rfl
  rw [countTests, counted_of_not_lt h, hmax]
  rfl

namespace Activation

variable (a : Activation) (h : Host) (L : LoopCode)

/-- Control goes from one state to another by way of addresses from `lo` on and before `hi`. -/
def Passes (lo hi : Nat) (s t : State) : Prop :=
  ∃ trail, Trail h s trail t ∧ ∀ u ∈ trail, a.Within lo hi u

def Gives (lo hi : Nat) (s : State) (v : Int64) (t : State) : Prop :=
  a.Passes h lo hi s t ∧ ∃ f, a.Has f [] t ∧ f.pc = hi ∧ f.operands.head? = some (.int v)

/-- The code of the bounds leaves `x` and `y` behind, the one after the other, and is run once for that. -/
def Bounded (s : State) (x y : Int64) (t : State) : Prop :=
  ∃ t₁ u, a.Gives h L.start L.firstEnd s x t₁ ∧ step h t₁ = .ok none u ∧
    a.Gives h (L.firstEnd + 1) L.boundEnd u y t

/-- Each round of the loop that control comes to from `s` comes to one of its ends. -/
def EndsRounds (s : State) : Prop :=
  ∀ b, a.Passes h L.boundEnd L.exit s b → a.At L.body b →
    ∃ pc ∈ L.ends, ∃ r, a.Passes h L.body L.round b r ∧ a.At pc r

def tests (trail : List State) : List Test :=
  trail.filterMap fun s => match s.frames with
    | f :: rest =>
      if rest.length = a.rest.length ∧ f.pc = L.test then some (f.locals[L.counter]?, f.operands.head?) else none
    | [] => none

/-- Control comes to the end of a loop by way of the tests, or the signal stops it before. -/
def Counts (tests : List Test) (s : State) : Prop :=
  ∃ trail t, Trail h s trail t ∧ (∀ u ∈ trail, a.Within L.boundEnd L.exit u) ∧
    (a.At L.exit t ∧ a.tests L trail = tests ∨ Interrupted h t ∧ a.tests L trail <+: tests)

variable {a h L} {s t u : State} {lo hi : Nat}

lemma Passes.refl (s : State) : a.Passes h lo hi s s :=
  ⟨[], .refl s, fun _ hu => (List.not_mem_nil hu).elim⟩

lemma Passes.trans (hs : a.Passes h lo hi s t) (ht : a.Passes h lo hi t u) : a.Passes h lo hi s u := by
  obtain ⟨trail, hs, hw⟩ := hs
  obtain ⟨trail', ht, hw'⟩ := ht
  exact ⟨trail ++ trail', hs.trans ht, fun v hv => (List.mem_append.mp hv).elim (hw v) (hw' v)⟩

lemma Passes.step (hs : step h s = .ok none t) (hw : a.Within lo hi s) : a.Passes h lo hi s t :=
  ⟨[s], .step hs (.refl t), by simpa using hw⟩

lemma Passes.mono {lo' hi' : Nat} (hs : a.Passes h lo hi s t) (hlo : lo' ≤ lo) (hhi : hi ≤ hi') :
    a.Passes h lo' hi' s t := by
  obtain ⟨trail, hs, hw⟩ := hs
  exact ⟨trail, hs, fun v hv => (hw v hv).mono hlo hhi⟩

lemma tests_append (trail trail' : List State) :
    a.tests L (trail ++ trail') = a.tests L trail ++ a.tests L trail' :=
  List.filterMap_append

lemma tests_here {f : Frame} (hf : a.Has f [] s) :
    a.tests L [s] = if f.pc = L.test then [(f.locals[L.counter]?, f.operands.head?)] else [] := by
  rw [tests, List.filterMap_cons, hf.frames]
  simp only [List.nil_append, true_and, List.filterMap_nil]
  by_cases hpc : f.pc = L.test
  · rw [if_pos hpc, if_pos hpc]
  · rw [if_neg hpc, if_neg hpc]

lemma tests_elsewhere {trail : List State} (hw : ∀ u ∈ trail, a.Within lo hi u)
    (hout : L.test < lo ∨ hi ≤ L.test) : a.tests L trail = [] := by
  rw [tests, List.filterMap_eq_nil_iff]
  intro u hu
  obtain ⟨f, above, hf, hpc⟩ := hw u hu
  rw [hf.frames]
  cases above with
  | nil =>
    obtain ⟨hlo, hhi⟩ := hpc rfl
    exact if_neg fun htest => by omega
  | cons g above =>
    rw [List.cons_append]
    refine if_neg fun htest => ?_
    rw [List.length_append, List.length_cons] at htest
    omega

lemma Counts.pass {D : List Test} (hs : a.Passes h lo hi s t) (hlo : L.boundEnd ≤ lo) (hhi : hi ≤ L.exit)
    (hout : L.test < lo ∨ hi ≤ L.test) (ht : a.Counts h L D t) : a.Counts h L D s := by
  obtain ⟨trail, hs, hw⟩ := hs
  obtain ⟨trail', u, ht, hw', hends⟩ := ht
  have htests : a.tests L (trail ++ trail') = a.tests L trail' := by
    rw [tests_append, tests_elsewhere hw hout, List.nil_append]
  refine ⟨trail ++ trail', u, hs.trans ht, fun v hv => ?_, htests.symm ▸ hends⟩
  exact (List.mem_append.mp hv).elim (fun hv => (hw v hv).mono hlo hhi) (hw' v)

section Rounds

/-- Wherever control comes in the loop to a frame, it goes on by way of the tests. -/
def CountsFrom (a : Activation) (h : Host) (L : LoopCode) (s₀ : State) (tests : List Test) (f : Frame) : Prop :=
  ∀ s, a.Passes h L.boundEnd L.exit s₀ s → a.Has f [] s → a.Counts h L tests s

variable {s₀ : State} {g : Function} {D : List Test} (hg : h.program.functions[a.function]? = some g)

include hg

variable {pc pc' : Nat} {locals locals' : Array Datum} {ops ops' : List Datum} {i : Instr}

lemma CountsFrom.step (hi : g.code[pc]? = some i) (hlo : L.boundEnd ≤ pc) (hhi : pc < L.exit)
    (hexec : exec h ⟨a.function, pc + 1, locals, ops⟩ a.rest i = resume ⟨a.function, pc', locals', ops'⟩ a.rest)
    (hnext : a.CountsFrom h L s₀ D ⟨a.function, pc', locals', ops'⟩) :
    a.CountsFrom h L s₀ ((if pc = L.test then [(locals[L.counter]?, ops.head?)] else []) ++ D)
      ⟨a.function, pc, locals, ops⟩ := by
  intro s hs hf
  have hw : a.Within L.boundEnd L.exit s := ⟨_, [], hf, fun _ => ⟨hlo, hhi⟩⟩
  rcases step_or_interrupted hf.frames hg hi hexec with ⟨t, hstep, hframes⟩ | hstop
  · obtain ⟨trail, u, ht, hw', hends⟩ := hnext t (hs.trans (.step hstep hw)) ⟨rfl, hframes⟩
    refine ⟨s :: trail, u, .step hstep ht, List.forall_mem_cons.mpr ⟨hw, hw'⟩, ?_⟩
    rw [← List.singleton_append, tests_append, tests_here hf]
    exact hends.imp (fun hends => ⟨hends.1, congrArg _ hends.2⟩)
      fun hends => ⟨hends.1, (List.prefix_append_right_inj _).mpr hends.2⟩
  · exact ⟨[], s, .refl s, fun _ hu => (List.not_mem_nil hu).elim, .inr ⟨hstop, List.nil_prefix⟩⟩

lemma CountsFrom.quiet (hi : g.code[pc]? = some i) (hlo : L.boundEnd ≤ pc) (hhi : pc < L.exit) (hne : pc ≠ L.test)
    (hexec : exec h ⟨a.function, pc + 1, locals, ops⟩ a.rest i = resume ⟨a.function, pc', locals', ops'⟩ a.rest)
    (hnext : a.CountsFrom h L s₀ D ⟨a.function, pc', locals', ops'⟩) :
    a.CountsFrom h L s₀ D ⟨a.function, pc, locals, ops⟩ := by
  have hstep := CountsFrom.step hg hi hlo hhi hexec hnext
  rwa [if_neg hne, List.nil_append] at hstep

variable (hL : L.Of g)

include hL

lemma CountsFrom.check {x y : Int64} (hx : locals[L.counter]? = some (.int x))
    (hy : locals[L.counter + 1]? = some (.int y))
    (hpast : ¬ x < y → a.CountsFrom h L s₀ [] ⟨a.function, L.exit, locals, ops⟩)
    (hround : x < y → a.CountsFrom h L s₀ (countTests (x + 1) y) ⟨a.function, L.body, locals, ops⟩) :
    a.CountsFrom h L s₀ (countTests x y) ⟨a.function, L.check, locals, ops⟩ := by
  obtain ⟨hcheck, htest, hbody, hexit⟩ := L.addresses
  have hbehind := hL.behind.2.2
  have hlt : exec h ⟨a.function, L.check + 3, locals, .int y :: .int x :: ops⟩ a.rest (.binary .lt) =
      resume ⟨a.function, L.check + 3, locals, .bool (x < y) :: ops⟩ a.rest := rfl
  refine .quiet hg hL.loadCounter (by omega) (by omega) (by omega) (exec_load _ _ _ _ _ _ hx) ?_
  refine .quiet hg hL.loadBound (by omega) (by omega) (by omega) (exec_load _ _ _ _ _ _ hy) ?_
  refine .quiet hg hL.compare (by omega) (by omega) (by omega) hlt ?_
  have hjump := exec_jumpIfFalse h a.rest a.function (L.check + 4) locals ops L.exit (.bool (x < y))
  by_cases hxy : x < y
  · rw [decide_eq_true hxy] at hjump ⊢
    have hstep := CountsFrom.step hg hL.jumpPast (by omega) (by omega) hjump (hround hxy)
    rwa [if_pos rfl, hx, List.head?_cons, List.singleton_append, ← countTests_of_lt hxy] at hstep
  · rw [decide_eq_false hxy] at hjump ⊢
    have hstep := CountsFrom.step hg hL.jumpPast (by omega) (by omega) hjump (hpast hxy)
    rwa [if_pos rfl, hx, List.head?_cons, List.append_nil, ← countTests_of_not_lt hxy] at hstep

/-- From the end of a round on. The variable is less than the end bound there, so one more is no overflow. -/
lemma CountsFrom.round {x y : Int64} (hxy : x < y) (hx : locals[L.counter]? = some (.int x))
    (hcheck : a.CountsFrom h L s₀ D ⟨a.function, L.check, locals.setIfInBounds L.counter (.int (x + 1)), ops⟩) :
    a.CountsFrom h L s₀ D ⟨a.function, L.round, locals, ops⟩ := by
  obtain ⟨hfirst, htest, hbody, hexit⟩ := L.addresses
  have hbehind := hL.behind.2.2
  have hadd : exec h ⟨a.function, L.round + 3, locals, .int 1 :: .int x :: ops⟩ a.rest (.binary .add) =
      resume ⟨a.function, L.round + 3, locals, .int (x + 1) :: ops⟩ a.rest := by
    rw [exec_binary, binary, add, Arithmetic.add?_one hxy, exactly, pushing_pure]
  have hslot : L.counter < locals.size := (Array.getElem?_eq_some_iff.mp hx).1
  refine .quiet hg hL.loadAgain (by omega) (by omega) (by omega) (exec_load _ _ _ _ _ _ hx) ?_
  refine .quiet hg hL.one (by omega) (by omega) (by omega) (exec_int _ _ _ _ _ _ 1) ?_
  refine .quiet hg hL.add (by omega) (by omega) (by omega) hadd ?_
  refine .quiet hg hL.storeNext (by omega) (by omega) (by omega) (exec_store _ _ _ _ _ _ _ hslot) ?_
  exact .quiet hg hL.jumpBack (by omega) (by omega) (by omega) (exec_jump _ _ _ _ _ _ L.check) hcheck

lemma CountsFrom.rounds (hrounds : a.EndsRounds h L s₀) {x y : Int64} (hx : locals[L.counter]? = some (.int x))
    (hy : locals[L.counter + 1]? = some (.int y)) :
    a.CountsFrom h L s₀ (countTests x y) ⟨a.function, L.check, locals, ops⟩ := by
  obtain ⟨hfirst, htest, hbody, hexit⟩ := L.addresses
  induction hleft : (y.toInt - x.toInt).toNat generalizing x locals ops with
  | zero =>
    refine .check hg hL hx hy (fun _ s _ hf => ?_) fun hxy => ?_
    · exact ⟨[], s, .refl s, fun _ hu => (List.not_mem_nil hu).elim, .inl ⟨⟨_, hf, rfl⟩, rfl⟩⟩
    · rw [Int64.lt_iff_toInt_lt] at hxy
      omega
  | succ left ih =>
    have hxy : x < y := Int64.lt_iff_toInt_lt.mpr (by omega)
    refine .check hg hL hx hy (fun hge => (hge hxy).elim) fun _ b hb hf => ?_
    obtain ⟨pc, hend, r, hpass, ⟨id, pc', locals', ops'⟩, hfr, hpc⟩ := hrounds b hb ⟨_, hf, rfl⟩
    obtain ⟨rfl, rfl⟩ : pc' = pc ∧ id = a.function := ⟨hpc, hfr.function⟩
    obtain ⟨trail, ht, hw⟩ := hpass
    obtain ⟨hsize, hslots⟩ := hf.trail ht hw hfr hg
    have hx' := (hslots L.counter fun pc hlo hhi => (hL.bodyStores pc hlo hhi).1).trans hx
    have hy' := (hslots (L.counter + 1) fun pc hlo hhi => (hL.bodyStores pc hlo hhi).2).trans hy
    have hslot : L.counter < locals'.size := (Array.getElem?_eq_some_iff.mp hx').1
    have hnext : a.CountsFrom h L s₀ (countTests (x + 1) y) ⟨a.function, L.round, locals', ops'⟩ := by
      refine .round hg hL hxy hx' (ih ?_ ?_ ?_)
      · rw [Array.getElem?_setIfInBounds, if_pos rfl, if_pos hslot]
      · rw [Array.getElem?_setIfInBounds, if_neg (by omega), hy']
      · rw [toInt_succ hxy]
        omega
    have hends : a.CountsFrom h L s₀ (countTests (x + 1) y) ⟨a.function, pc', locals', ops'⟩ := by
      rcases List.mem_cons.mp hend with rfl | hagain
      · exact hnext
      · obtain ⟨hlo, hhi, hjump⟩ := hL.jumpOn pc' hagain
        exact .quiet hg hjump (by omega) (by omega) (by omega) (exec_jump _ _ _ _ _ _ L.round) hnext
    have hpass : a.Passes h L.body L.round b r := ⟨trail, ht, hw⟩
    have hreach := hb.trans (hpass.mono (by omega) (by omega))
    exact .pass hpass (by omega) (by omega) (.inl (by omega)) (hends r hreach hfr)

lemma Bounded.counts {f : Frame} {x y : Int64} (hf : a.Has f [] s) (hsize : L.counter + 1 < f.locals.size)
    (hbounds : a.Bounded h L s x y t) (hrounds : a.EndsRounds h L t) : a.Counts h L (countTests x y) t := by
  obtain ⟨t₁, u, ⟨⟨trail₁, ht₁, hw₁⟩, ⟨id, pc, locals, _ | ⟨d, ops⟩⟩, hf₁, hpc, htop⟩, hstep,
    ⟨trail₂, ht₂, hw₂⟩, ⟨id', pc', locals', _ | ⟨d', ops'⟩⟩, hf₂, hpc', htop'⟩ := hbounds
  · cases htop
  · cases htop
  · cases htop'
  obtain ⟨rfl, rfl⟩ : pc = L.firstEnd ∧ id = a.function := ⟨hpc, hf₁.function⟩
  obtain ⟨rfl, rfl⟩ : pc' = L.boundEnd ∧ id' = a.function := ⟨hpc', hf₂.function⟩
  obtain rfl : d = .int x := Option.some.inj htop
  obtain rfl : d' = .int y := Option.some.inj htop'
  rw [← (hf.trail ht₁ hw₁ hf₁ hg).1] at hsize
  dsimp only at hsize
  have hcounter : L.counter < locals.size := Nat.lt_of_succ_lt hsize
  -- Between the bounds the variable gets its first value.
  have hu : a.Has ⟨a.function, L.firstEnd + 1, locals.setIfInBounds L.counter (.int x), ops⟩ [] u := by
    have hstore := exec_store h a.rest a.function (L.firstEnd + 1) locals ops (.int x) hcounter
    rcases step_or_interrupted hf₁.frames hg hL.storeFirst hstore with ⟨v, hv, hframes⟩ | ⟨e, v, hv, -⟩
    · rw [hstep] at hv
      cases hv
      exact ⟨rfl, hframes⟩
    · rw [hstep] at hv
      cases hv
  obtain ⟨hsize', hslots⟩ := hu.trail ht₂ hw₂ hf₂ hg
  have hx := hslots L.counter fun pc hlo hhi => hL.boundStores pc L.counter hlo hhi
  rw [Array.size_setIfInBounds] at hsize'
  rw [Array.getElem?_setIfInBounds, if_pos rfl, if_pos hcounter] at hx
  rw [← hsize'] at hsize
  obtain ⟨hcheck, htest, hbody, hexit⟩ := L.addresses
  have hbehind := hL.behind.2.2
  refine CountsFrom.quiet hg hL.storeBound (Nat.le_refl _) (by omega) (by omega)
    (exec_store _ _ _ _ _ _ _ hsize) ?_ t (.refl t) hf₂
  refine .rounds hg hL hrounds ?_ ?_
  · rw [Array.getElem?_setIfInBounds, if_neg (by omega), hx]
  · rw [Array.getElem?_setIfInBounds, if_pos rfl, if_pos hsize]

end Rounds

end Activation

end Machine

end ScriptHost
