import ScriptHost.Proofs.Compile.Flows

/-!
Blocks in the code of a function. A block stands somewhere in the code, and control never comes to the code behind a
statement of it that control never falls out of.
-/

namespace ScriptHost

mutual

def Stmt.diverges : Stmt → Bool
  | .branch _ _ body (some otherwise) => Stmt.anyDiverges body && Stmt.anyDiverges otherwise
  | .give _ _ => true
  | .leave _ => true
  | .again _ => true
  | .block _ body => Stmt.anyDiverges body
  | _ => false

def Stmt.anyDiverges : List Stmt → Bool
  | [] => false
  | x :: xs => x.diverges || Stmt.anyDiverges xs

end

namespace Emit

/-- Where code for statements is laid out: whether a loop is around it, the slots and the address that it starts with,
and where that loop is left and goes round again. -/
structure Station where
  inLoop : Bool
  slots : Slots
  start : Nat
  exit : Nat
  round : Nat

namespace Station

variable (c : Context) (w : Station)

def code (xs : List Stmt) : Code :=
  stmts c w.slots w.start #[] xs

def single (x : Stmt) : Code :=
  (stmt c w.slots w.start x).1

def stop (xs : List Stmt) : Nat :=
  w.start + (w.code c xs).size

def after (x : Stmt) : Station :=
  { w with slots := x.slots w.slots, start := w.start + (w.single c x).size }

def blocks : Stmt → List (Station × List Stmt)
  | .branch _ cond body otherwise =>
    let first := { w with start := w.start + (expr c w.slots w.start cond).size + 1 }
    match otherwise with
    | none => [(first, body)]
    | some otherwise => [(first, body), ({ first with start := first.stop c body + 1 }, otherwise)]
  | .loop _ cond body =>
    let inner := { w with inLoop := true, start := w.start + (expr c w.slots w.start cond).size + 1, round := w.start }
    [({ inner with exit := inner.stop c body + 1 }, body)]
  | .count _ name first bound body =>
    let firstEnd := w.start + (expr c w.slots w.start first).size + 1
    let check := firstEnd + (expr c (w.slots.declare name) firstEnd bound).size + 1
    let inner := { w with inLoop := true, slots := (w.slots.declare name).declare "", start := check + 4 }
    [({ inner with exit := inner.stop c body + 5, round := inner.stop c body }, body)]
  | .block _ body => [(w, body)]
  | _ => []

end Station

/-- `Stands c w xs v ys`: if the code of `xs` is laid out at `w`, then `ys` are the statements of some block in it from
one of them on, or none of them, and their code is laid out at `v`. -/
inductive Stands (c : Context) : Station → List Stmt → Station → List Stmt → Prop
  | here {w : Station} {xs : List Stmt} : Stands c w xs w xs
  | later {w v : Station} {x : Stmt} {xs ys : List Stmt} :
      Stands c (w.after c x) xs v ys → Stands c w (x :: xs) v ys
  | inside {w w' v : Station} {x : Stmt} {xs body ys : List Stmt} :
      (w', body) ∈ w.blocks c x → Stands c w' body v ys → Stands c w (x :: xs) v ys

section Stands

variable {c : Context} {w v : Station} {x : Stmt} {xs ys : List Stmt}

lemma Station.code_cons (x : Stmt) (xs : List Stmt) :
    w.code c (x :: xs) = w.single c x ++ (w.after c x).code c xs := by
  rw [Station.code, stmts_cons, stmt_slots]
  rfl

lemma Station.stop_cons (x : Stmt) (xs : List Stmt) : w.stop c (x :: xs) = (w.after c x).stop c xs := by
  rw [Station.stop, Station.code_cons, Array.size_append, ← Nat.add_assoc]
  rfl

lemma Station.blocks_within {w' : Station} {body : List Stmt} (hb : (w', body) ∈ w.blocks c x) :
    w.start ≤ w'.start ∧ w'.stop c body ≤ (w.after c x).start ∧ (w'.exit = w.exit ∨ w'.stop c body < w'.exit) := by
  cases x with
  | branch q cond body otherwise =>
    cases otherwise with
    | none =>
      obtain ⟨rfl, rfl⟩ := Prod.mk.inj (List.mem_singleton.mp hb)
      simp only [Station.stop, Station.code, Station.after, Station.single, stmt, Array.size_append, size_one]
      exact ⟨by omega, by omega, .inl trivial⟩
    | some otherwise =>
      simp only [Station.after, Station.single, stmt, Array.size_append, size_one]
      rcases List.mem_cons.mp hb with hb | hb
      · obtain ⟨rfl, rfl⟩ := Prod.mk.inj hb
        simp only [Station.stop, Station.code]
        exact ⟨by omega, by omega, .inl trivial⟩
      · obtain ⟨rfl, rfl⟩ := Prod.mk.inj (List.mem_singleton.mp hb)
        simp only [Station.stop, Station.code]
        exact ⟨by omega, by omega, .inl trivial⟩
  | loop q cond body =>
    obtain ⟨rfl, rfl⟩ := Prod.mk.inj (List.mem_singleton.mp hb)
    simp only [Station.stop, Station.code, Station.after, Station.single, stmt, Array.size_append, size_one,
      Array.size_map]
    omega
  | count q name first bound body =>
    obtain ⟨rfl, rfl⟩ := Prod.mk.inj (List.mem_singleton.mp hb)
    simp only [Station.stop, Station.code, Station.after, Station.single, stmt, Array.size_append, size_one,
      Array.size_map, ← Nat.add_assoc]
    omega
  | block q body =>
    obtain ⟨rfl, rfl⟩ := Prod.mk.inj (List.mem_singleton.mp hb)
    exact ⟨Nat.le_refl _, Nat.le_refl _, .inl rfl⟩
  | declare | assign | give | leave | again | eval => exact (List.not_mem_nil hb).elim

lemma Station.after_le (x : Stmt) (xs : List Stmt) : (w.after c x).start ≤ w.stop c (x :: xs) := by
  rw [Station.stop_cons]
  exact Nat.le_add_right _ _

lemma Stands.within (h : Stands c w xs v ys) :
    w.start ≤ v.start ∧ v.stop c ys ≤ w.stop c xs ∧ (w.stop c xs < w.exit → v.stop c ys < v.exit) := by
  induction h with
  | here => exact ⟨Nat.le_refl _, Nat.le_refl _, id⟩
  | @later w v x xs ys _ ih =>
    obtain ⟨hstart, hstop, hexit⟩ := ih
    rw [Station.stop_cons]
    exact ⟨Nat.le_trans (Nat.le_add_right _ _) hstart, hstop, hexit⟩
  | @inside w w' v x xs body ys hb _ ih =>
    obtain ⟨hstart, hstop, hexit⟩ := ih
    obtain ⟨hlo, hhi, hout⟩ := Station.blocks_within hb
    have hle := w.after_le (c := c) x xs
    exact ⟨by omega, by omega, fun hlt => hexit (by omega)⟩

lemma Stands.laid {g : Function} (h : Stands c w xs v ys) (hl : Laid g w.exit w.round w.start (w.code c xs)) :
    Laid g v.exit v.round v.start (v.code c ys) := by
  induction h with
  | here => exact hl
  | later _ ih =>
    rw [Station.code_cons, laid_append] at hl
    exact ih hl.2
  | @inside w w' v x xs body ys hb _ ih =>
    rw [Station.code_cons, laid_append, Station.single] at hl
    obtain ⟨hl, -⟩ := hl
    refine ih ?_
    cases x with
    | branch q cond body otherwise =>
      cases otherwise with
      | none =>
        obtain ⟨rfl, rfl⟩ := Prod.mk.inj (List.mem_singleton.mp hb)
        simp only [stmt, laid_append, Array.size_append, size_one, ← Nat.add_assoc] at hl
        exact hl.2
      | some otherwise =>
        simp only [stmt, laid_append, Array.size_append, size_one, ← Nat.add_assoc] at hl
        rcases List.mem_cons.mp hb with hb | hb
        · obtain ⟨rfl, rfl⟩ := Prod.mk.inj hb
          exact hl.1.1.2
        · obtain ⟨rfl, rfl⟩ := Prod.mk.inj (List.mem_singleton.mp hb)
          exact hl.2
    | loop q cond body =>
      obtain ⟨rfl, rfl⟩ := Prod.mk.inj (List.mem_singleton.mp hb)
      simp only [stmt, laid_append, Array.size_append, size_one, ← Nat.add_assoc] at hl
      exact laid_settle hl.1.2
    | count q name first bound body =>
      obtain ⟨rfl, rfl⟩ := Prod.mk.inj (List.mem_singleton.mp hb)
      simp only [stmt, laid_append, Array.size_append, size_one, ← Nat.add_assoc] at hl
      exact laid_settle hl.1.2
    | block q body =>
      obtain ⟨rfl, rfl⟩ := Prod.mk.inj (List.mem_singleton.mp hb)
      exact hl
    | declare | assign | give | leave | again | eval => exact (List.not_mem_nil hb).elim

lemma Stands.ready (h : Stands c w xs v ys) {names : List String} (hs : w.slots.Shows names)
    (hr : Stmt.AllReady c w.inLoop names xs) :
    ∃ names', v.slots.Shows names' ∧ Stmt.AllReady c v.inLoop names' ys := by
  induction h generalizing names with
  | here => exact ⟨names, hs, hr⟩
  | @later w v x xs ys _ ih => exact ih (x.shows hs hr.1) hr.2
  | @inside w w' v x xs body ys hb _ ih =>
    obtain ⟨hr, -⟩ := hr
    cases x with
    | branch q cond body otherwise =>
      cases otherwise with
      | none =>
        obtain ⟨rfl, rfl⟩ := Prod.mk.inj (List.mem_singleton.mp hb)
        exact ih hs hr.2
      | some otherwise =>
        rcases List.mem_cons.mp hb with hb | hb
        · obtain ⟨rfl, rfl⟩ := Prod.mk.inj hb
          exact ih hs hr.2.1
        · obtain ⟨rfl, rfl⟩ := Prod.mk.inj (List.mem_singleton.mp hb)
          exact ih hs hr.2.2
    | loop q cond body =>
      obtain ⟨rfl, rfl⟩ := Prod.mk.inj (List.mem_singleton.mp hb)
      exact ih hs hr.2
    | count q name first bound body =>
      obtain ⟨rfl, rfl⟩ := Prod.mk.inj (List.mem_singleton.mp hb)
      exact ih (hs.declare hr.1).hide hr.2.2.2
    | block q body =>
      obtain ⟨rfl, rfl⟩ := Prod.mk.inj (List.mem_singleton.mp hb)
      exact ih hs hr
    | declare | assign | give | leave | again | eval => exact (List.not_mem_nil hb).elim

end Stands

/-- What control keeps to at an address, as for the statements `ys` whose code is laid out at `v`. It is not behind a
first statement that it never falls out of, and does not go on to the end if it never falls out of them. -/
structure Keeps (c : Context) (v : Station) (ys : List Stmt) (pc : Nat) : Prop where
  behind : ∀ x zs, ys = x :: zs → x.diverges = true → (v.after c x).start ≤ pc → v.stop c ys ≤ pc
  ends : Stmt.anyDiverges ys = true → ∀ k l, pc = v.start + k → (v.code c ys)[k]? = some l →
    .at (v.stop c ys) ∉ l.op.targets pc

def KeepsAll (c : Context) (w : Station) (xs : List Stmt) (pc : Nat) : Prop :=
  ∀ v ys, Stands c w xs v ys → Keeps c v ys pc

section Keeps

variable {c : Context} {w v : Station} {xs ys : List Stmt} {pc : Nat}

lemma keeps_outside (h : pc < v.start ∨ v.stop c ys ≤ pc) : Keeps c v ys pc where
  behind x zs _ _ hle := by
    have hstart : v.start ≤ (v.after c x).start := Nat.le_add_right _ _
    omega
  ends _ k l hk hl := by
    have hlt := (Array.getElem?_eq_some_iff.mp hl).1
    rw [Station.stop] at h
    omega

lemma keepsAll_outside (h : pc < w.start ∨ w.stop c xs ≤ pc) : KeepsAll c w xs pc := by
  intro v ys hv
  obtain ⟨hlo, hhi, -⟩ := hv.within
  exact keeps_outside (by omega)

end Keeps

def outward (inLoop : Bool) (t : Spot) : Prop :=
  inLoop = true ∧ (t = .exit ∨ t = .round)

section Parts

variable {inLoop : Bool} {start : Nat} {code body otherwise : Code} {falls falls' : Prop} {S : Nat → Prop}

lemma Flow.looped {out : Spot → Prop} (exit round : Nat) (h : Flow (outward true) start body falls S)
    (he : out (.at exit)) (hr : out (.at round)) :
    Flow out start (body.map (Line.settle exit round)) True S := by
  refine Flow.weaken (h.settle ?_) fun _ => trivial
  rintro t ⟨-, rfl | rfl⟩
  · exact he
  · exact hr

lemma branch_flow (q : Position) (hcond : ∀ out, Flow out start code True S)
    (hbody : Flow (outward inLoop) (start + code.size + 1) body falls S)
    (hS : ∀ pc, pc < start + code.size + 1 ∨ start + code.size + 1 + body.size ≤ pc → S pc) :
    Flow (outward inLoop) start (code ++ one (.jumpIfFalse (start + code.size + 1 + body.size)) q ++ body) True S := by
  generalize hlast : start + code.size + 1 + body.size = last at hS ⊢
  have hjump : Flow (OrTo (outward inLoop) last True) (start + code.size) (one (.jumpIfFalse last) q) True S :=
    .jump q (hS _ (by omega)) (by simp [Instr.targets, Instr.next, OrTo])
  have hall := ((hcond _).andThen hjump rfl).andThen (hbody.widen fun _ => .inl) (by simp; omega)
  exact (hall.closeLast last (by simp; omega)).weaken fun _ => trivial

lemma branchElse_flow (q : Position) (hcond : ∀ out, Flow out start code True S)
    (hbody : Flow (outward inLoop) (start + code.size + 1) body falls S)
    (hother : Flow (outward inLoop) (start + code.size + 1 + body.size + 1) otherwise falls' S)
    (hS : ∀ pc, pc < start + code.size + 1 ∨ pc = start + code.size + 1 + body.size → S pc) :
    Flow (outward inLoop) start
      (code ++ one (.jumpIfFalse (start + code.size + 1 + body.size + 1)) q ++ body
        ++ one (.jump (start + code.size + 1 + body.size + 1 + otherwise.size)) q ++ otherwise) (falls ∨ falls') S := by
  generalize hmid : start + code.size + 1 + body.size + 1 = middle at hother ⊢
  generalize hlast : middle + otherwise.size = last
  let out := OrTo (OrTo (outward inLoop) last falls) middle True
  have hjif : Flow out (start + code.size) (one (.jumpIfFalse middle) q) True S :=
    .jump q (hS _ (by omega)) (by simp [Instr.targets, Instr.next, OrTo, out])
  have hthen := ((hcond out).andThen hjif rfl).andThen (hbody.widen fun _ h => .inl (.inl h)) (by simp; omega)
  -- The jump past the other part is only there for a first part that control falls out of.
  have hjump : falls → Flow out (start + code.size + 1 + body.size) (one (.jump last) q) False S := fun hf =>
    .jump q (hS _ (by omega)) (by simp [Instr.targets, Instr.next, OrTo, out, hf])
  have hfirst := (hthen.append hjump (by simp; omega)).closeLast middle (by simp; omega)
  have hall := (hfirst.append (fun _ => hother.widen fun _ => .inl) (by simp; omega)).closeLast last (by simp; omega)
  exact hall.weaken fun h => h.elim (fun h => .inr h.2) .inl

lemma loop_flow (q : Position) (hcond : ∀ out, Flow out start code True S)
    (hbody : Flow (outward true) (start + code.size + 1) body falls S)
    (hS : ∀ pc, pc < start + code.size + 1 ∨ start + code.size + 1 + body.size ≤ pc → S pc) :
    Flow (outward inLoop) start
      (code ++ one (.jumpIfFalse (start + code.size + 1 + body.size + 1)) q
        ++ body.map (Line.settle (start + code.size + 1 + body.size + 1) start) ++ one (.jump start) q) True S := by
  generalize hexit : start + code.size + 1 + body.size + 1 = exit
  let out := OrTo (OrTo (outward inLoop) exit True) start True
  have hjif : Flow out (start + code.size) (one (.jumpIfFalse exit) q) True S :=
    .jump q (hS _ (by omega)) (by simp [Instr.targets, Instr.next, OrTo, out])
  have hround : Flow out (start + code.size + 1) (body.map (Line.settle exit start)) True S :=
    hbody.looped exit start (.inl (.inr ⟨rfl, trivial⟩)) (.inr ⟨rfl, trivial⟩)
  have hjump : Flow out (start + code.size + 1 + body.size) (one (.jump start) q) False S :=
    .jump q (hS _ (by omega)) (by simp [Instr.targets, Instr.next, OrTo, out])
  have hall := (((hcond out).andThen hjif rfl).andThen hround (by simp; omega)).andThen hjump (by simp; omega)
  exact (hall.closeFirst.closeLast exit (by simp; omega)).weaken fun _ => trivial

lemma round_flow (q : Position) (check counter : Nat)
    (hbody : Flow (outward true) (check + 4) body falls S)
    (hS : ∀ pc, pc < check + 4 ∨ check + 4 + body.size ≤ pc → S pc) :
    Flow (outward inLoop) check
      (one (.load counter) q ++ one (.load (counter + 1)) q ++ one (.binary .lt) q
        ++ one (.jumpIfFalse (check + 4 + body.size + 5)) q
        ++ body.map (Line.settle (check + 4 + body.size + 5) (check + 4 + body.size))
        ++ (one (.load counter) q ++ one (.int 1) q ++ one (.binary .add) q ++ one (.store counter) q
          ++ one (.jump check) q)) True S := by
  generalize hround : check + 4 + body.size = round at hS ⊢
  let out := OrTo (OrTo (outward inLoop) (round + 5) True) check True
  have hline : ∀ {out : Spot → Prop} {pc : Nat} (i : Instr), pc < check + 4 ∨ round ≤ pc → i.targets pc = [pc + 1] →
      Flow out pc (one i q) True S := fun i hpc hi => .plain q (hS _ hpc) hi
  have htest : Flow (OrTo out round True) check (one (.load counter) q ++ one (.load (counter + 1)) q
      ++ one (.binary .lt) q ++ one (.jumpIfFalse (round + 5)) q) True S := by
    refine (((hline _ (by omega) rfl).andThen (hline _ ?_ rfl) rfl).andThen (hline _ ?_ rfl) rfl).andThen
      (.jump q (hS _ ?_) (by simp [Instr.targets, Instr.next, OrTo, out])) rfl
    all_goals simp
  have hrounds : Flow (OrTo out round True) (check + 4) (body.map (Line.settle (round + 5) round)) True S :=
    hbody.looped (round + 5) round (.inl (.inl (.inr ⟨rfl, trivial⟩))) (.inr ⟨rfl, trivial⟩)
  have hfirst := (htest.andThen hrounds rfl).closeLast round (by simp; omega)
  have hstep : Flow out round (one (.load counter) q ++ one (.int 1) q ++ one (.binary .add) q
      ++ one (.store counter) q ++ one (.jump check) q) False S := by
    refine ((((hline _ (by omega) rfl).andThen (hline _ ?_ rfl) rfl).andThen (hline _ ?_ rfl) rfl).andThen
      (hline _ ?_ rfl) rfl).andThen (.jump q (hS _ ?_) (by simp [Instr.targets, Instr.next, OrTo, out])) rfl
    all_goals simp
  have hall := hfirst.append (fun _ => hstep) (by simp; omega)
  exact (hall.closeFirst.closeLast (round + 5) (by simp; omega)).weaken fun _ => trivial

end Parts

section Compiled

variable {known : Catalog} {p : Program} {c : Context}

lemma expr_flow (hc : Compiler.Compiled known p) (hcontext : c = Compiler.context known) {s : Slots}
    {names : List String} (hs : s.Shows names) (out : Spot → Prop) (start : Nat) (e : Expr) (he : e.Ready c names)
    {S : Nat → Prop} (hS : ∀ pc, start ≤ pc → pc < start + (expr c s start e).size → S pc) :
    Flow out start (expr c s start e) True S := by
  subst hcontext
  exact (expr_level hc hs (Nat.le_refl _) _ start 0 e he).flow hS

lemma assign_flow (hc : Compiler.Compiled known p) (hcontext : c = Compiler.context known) {s : Slots}
    {names : List String} (hs : s.Shows names) (out : Spot → Prop) (start : Nat) (q : Position) (t : Target)
    (value : Expr) (ht : t.Ready c names) (hv : value.Ready c names) {S : Nat → Prop} (hS : ∀ pc, S pc) :
    Flow out start (stmt c s start (.assign q t value)).1 True S := by
  subst hcontext
  exact (target_level hc hs (Nat.le_refl _) start q t value ht hv).flow fun pc _ _ => hS pc

def KeepsWithin (c : Context) (w : Station) (x : Stmt) (pc : Nat) : Prop :=
  ∀ w' body, (w', body) ∈ w.blocks c x → KeepsAll c w' body pc

lemma keepsWithin_flat {w : Station} {x : Stmt} (h : w.blocks c x = []) (pc : Nat) : KeepsWithin c w x pc := by
  intro w' body hb
  rw [h] at hb
  exact (List.not_mem_nil hb).elim

lemma keepsWithin_block {w w' : Station} {x : Stmt} {body : List Stmt} {pc : Nat} (h : w.blocks c x = [(w', body)])
    (hbody : KeepsAll c w' body pc) : KeepsWithin c w x pc := by
  intro v b hb
  rw [h] at hb
  obtain ⟨rfl, rfl⟩ := Prod.mk.inj (List.mem_singleton.mp hb)
  exact hbody

lemma otherwise_flow (hc : Compiler.Compiled known p) (hcontext : c = Compiler.context known) (w : Station)
    {names : List String} (hs : w.slots.Shows names) (q : Position) {cond : Expr} (hcond : cond.Ready c names)
    {body otherwise : List Stmt} {first second : Station}
    (hfirst : first = { w with start := w.start + (expr c w.slots w.start cond).size + 1 })
    (hsecond : second = { first with start := first.stop c body + 1 })
    (hbody : Flow (outward w.inLoop) first.start (first.code c body) (¬ Stmt.anyDiverges body = true)
      (KeepsAll c first body))
    (hother : Flow (outward w.inLoop) second.start (second.code c otherwise) (¬ Stmt.anyDiverges otherwise = true)
      (KeepsAll c second otherwise)) :
    Flow (outward w.inLoop) w.start (w.single c (.branch q cond body (some otherwise)))
      (¬ (Stmt.branch q cond body (some otherwise)).diverges = true)
      (KeepsWithin c w (.branch q cond body (some otherwise))) := by
  let S : Nat → Prop := fun pc => KeepsAll c first body pc ∧ KeepsAll c second otherwise pc
  have hstart : second.start = first.stop c body + 1 := by rw [hsecond]
  have hstop : first.start ≤ first.stop c body := Nat.le_add_right _ _
  have hS : ∀ pc, pc < first.start ∨ pc = first.stop c body → S pc := fun pc hpc =>
    ⟨keepsAll_outside (by omega), keepsAll_outside (by omega)⟩
  have hbody : Flow (outward w.inLoop) first.start (first.code c body) (¬ Stmt.anyDiverges body = true) S :=
    hbody.imp fun pc _ hhi h => ⟨h, keepsAll_outside (.inl (hstart ▸ Nat.lt_succ_of_lt hhi))⟩
  have hother : Flow (outward w.inLoop) second.start (second.code c otherwise)
      (¬ Stmt.anyDiverges otherwise = true) S :=
    hother.imp fun pc hlo _ h => ⟨keepsAll_outside (by omega), h⟩
  subst hsecond hfirst
  have hcond := fun out => expr_flow hc hcontext hs out w.start cond hcond fun pc _ hhi =>
    hS pc (.inl (Nat.lt_succ_of_lt hhi))
  refine (branchElse_flow q hcond hbody hother hS).mono (fun _ => id) ?_ fun _ _ _ h w' b hb => ?_
  · rw [Stmt.diverges, Bool.and_eq_true, not_and_or]
    exact id
  · rcases List.mem_cons.mp hb with hb | hb
    · obtain ⟨rfl, rfl⟩ := Prod.mk.inj hb
      exact h.1
    · obtain ⟨rfl, rfl⟩ := Prod.mk.inj (List.mem_singleton.mp hb)
      exact h.2

lemma count_flow (hc : Compiler.Compiled known p) (hcontext : c = Compiler.context known) (w : Station)
    {names : List String} (hs : w.slots.Shows names) (q : Position) {name : String} (hn : name ≠ "")
    {first bound : Expr} (hfirst : first.Ready c names) (hbound : bound.Ready c (name :: names)) {body : List Stmt}
    {inside : Station} (hblocks : w.blocks c (.count q name first bound body) = [(inside, body)])
    (hbody : Flow (outward inside.inLoop) inside.start (inside.code c body) (¬ Stmt.anyDiverges body = true)
      (KeepsAll c inside body)) :
    Flow (outward w.inLoop) w.start (w.single c (.count q name first bound body)) True
      (KeepsWithin c w (.count q name first bound body)) := by
  obtain ⟨rfl, -⟩ := Prod.mk.inj (List.singleton_inj.mp hblocks)
  have hs' := hs.declare hn
  let firstEnd := w.start + (expr c w.slots w.start first).size + 1
  let check := firstEnd + (expr c (w.slots.declare name) firstEnd bound).size + 1
  let inner : Station := { w with inLoop := true, slots := (w.slots.declare name).declare "", start := check + 4 }
  let inside : Station := { inner with exit := inner.stop c body + 5, round := inner.stop c body }
  have hS : ∀ pc, pc < inside.start ∨ inside.stop c body ≤ pc → KeepsAll c inside body pc :=
    fun pc => keepsAll_outside
  have hbefore : ∀ pc, pc < check → KeepsAll c inside body pc := fun pc hpc => hS pc (.inl (by
    change pc < check + 4
    omega))
  have hround : Flow (outward w.inLoop) check _ True (KeepsAll c inside body) :=
    round_flow q check w.slots.next hbody hS
  have hfirst : Flow (outward w.inLoop) w.start (expr c w.slots w.start first ++ one (.store w.slots.next) q) True
      (KeepsAll c inside body) :=
    (expr_flow hc hcontext hs _ _ first hfirst fun pc _ hhi => hbefore pc (by omega)).andThen
      (.plain q (hbefore _ (by omega)) rfl) rfl
  have hbound : Flow (outward w.inLoop) firstEnd (expr c (w.slots.declare name) firstEnd bound
      ++ one (.store (w.slots.next + 1)) q) True (KeepsAll c inside body) :=
    (expr_flow hc hcontext hs' _ _ bound hbound fun pc _ hhi => hbefore pc (by omega)).andThen
      (.plain q (hbefore _ (by omega)) rfl) rfl
  have hall := (hfirst.andThen hbound (by simp [firstEnd]; omega)).andThen hround (by simp [firstEnd, check]; omega)
  have hcode : Flow (outward w.inLoop) w.start (w.single c (.count q name first bound body)) True
      (KeepsAll c inside body) := by
    rw [Station.single, stmt]
    simp only [Array.size_append, size_one, ← Nat.add_assoc]
    simp only [Array.append_assoc] at hall ⊢
    exact hall
  exact hcode.imp fun _ _ _ => keepsWithin_block rfl

mutual

lemma stmt_flow (hc : Compiler.Compiled known p) (hcontext : c = Compiler.context known) (w : Station)
    {names : List String} (hs : w.slots.Shows names) (x : Stmt) (hx : x.Ready c w.inLoop names) :
    Flow (outward w.inLoop) w.start (w.single c x) (¬ x.diverges = true) (KeepsWithin c w x) := by
  cases x with
  | declare q name init =>
    have hflat : ∀ pc, KeepsWithin c w (.declare q name init) pc := keepsWithin_flat rfl
    exact ((expr_flow hc hcontext hs _ _ init hx.2 fun pc _ _ => hflat pc).andThen (.plain q (hflat _) rfl) rfl).weaken
      (by simp [Stmt.diverges])
  | assign q t value =>
    have hflat : ∀ pc, KeepsWithin c w (.assign q t value) pc := keepsWithin_flat rfl
    exact (assign_flow hc hcontext hs _ w.start q t value hx.1 hx.2 hflat).weaken (by simp [Stmt.diverges])
  | branch q cond body otherwise =>
    let first : Station := { w with start := w.start + (expr c w.slots w.start cond).size + 1 }
    have hfirst : ∀ pc, pc < first.start ∨ first.stop c body ≤ pc → KeepsAll c first body pc :=
      fun pc => keepsAll_outside
    cases otherwise with
    | none =>
      have hbody := stmts_flow hc hcontext first hs body hx.2
      have hcond := fun out => expr_flow hc hcontext hs out w.start cond hx.1 fun pc _ hhi =>
        hfirst pc (.inl (Nat.lt_succ_of_lt hhi))
      exact (branch_flow q hcond hbody hfirst).mono (fun _ => id) (by simp [Stmt.diverges]) fun _ _ _ =>
        keepsWithin_block rfl
    | some otherwise =>
      exact otherwise_flow hc hcontext w hs q hx.1 rfl rfl (stmts_flow hc hcontext first hs body hx.2.1)
        (stmts_flow hc hcontext { first with start := first.stop c body + 1 } hs otherwise hx.2.2)
  | loop q cond body =>
    let inner : Station :=
      { w with inLoop := true, start := w.start + (expr c w.slots w.start cond).size + 1, round := w.start }
    let inside : Station := { inner with exit := inner.stop c body + 1 }
    have hS : ∀ pc, pc < inside.start ∨ inside.stop c body ≤ pc → KeepsAll c inside body pc :=
      fun pc => keepsAll_outside
    have hbody := stmts_flow hc hcontext inside hs body hx.2
    have hcond := fun out => expr_flow hc hcontext hs out w.start cond hx.1 fun pc _ hhi =>
      hS pc (.inl (Nat.lt_succ_of_lt hhi))
    exact (loop_flow q hcond hbody hS).mono (fun _ => id) (by simp [Stmt.diverges]) fun _ _ _ => keepsWithin_block rfl
  | count q name first bound body =>
    obtain ⟨hn, hfirst, hbound, hbody⟩ := hx
    refine (count_flow hc hcontext w hs q hn hfirst hbound rfl ?_).weaken (by simp [Stmt.diverges])
    exact stmts_flow hc hcontext _ (hs.declare hn).hide body hbody
  | give q value =>
    have hflat : ∀ pc, KeepsWithin c w (.give q value) pc := keepsWithin_flat rfl
    cases value with
    | none =>
      exact (Flow.plain q (hflat _) rfl).andThen (.jump q (hflat _) (by simp [Instr.targets, Instr.next])) rfl
    | some value =>
      exact (expr_flow hc hcontext hs _ _ value hx fun pc _ _ => hflat pc).andThen
        (.jump q (hflat _) (by simp [Instr.targets, Instr.next])) rfl
  | leave q =>
    have hflat : ∀ pc, KeepsWithin c w (.leave q) pc := keepsWithin_flat rfl
    exact .single (hflat _) fun t ht => .inr ⟨hx, .inl (List.mem_singleton.mp ht)⟩
  | again q =>
    have hflat : ∀ pc, KeepsWithin c w (.again q) pc := keepsWithin_flat rfl
    exact .single (hflat _) fun t ht => .inr ⟨hx, .inr (List.mem_singleton.mp ht)⟩
  | block q body => exact (stmts_flow hc hcontext w hs body hx).imp fun _ _ _ => keepsWithin_block rfl
  | eval q value =>
    have hflat : ∀ pc, KeepsWithin c w (.eval q value) pc := keepsWithin_flat rfl
    exact ((expr_flow hc hcontext hs _ _ value hx fun pc _ _ => hflat pc).andThen (.plain q (hflat _) rfl) rfl).weaken
      (by simp [Stmt.diverges])

lemma stmts_flow (hc : Compiler.Compiled known p) (hcontext : c = Compiler.context known) (w : Station)
    {names : List String} (hs : w.slots.Shows names) (xs : List Stmt) (hx : Stmt.AllReady c w.inLoop names xs) :
    Flow (outward w.inLoop) w.start (w.code c xs) (¬ Stmt.anyDiverges xs = true) (KeepsAll c w xs) := by
  cases xs with
  | nil => exact Flow.nil (by simp [Stmt.anyDiverges])
  | cons x xs =>
    have hfirst := stmt_flow hc hcontext w hs x hx.1
    have hrest := stmts_flow hc hcontext (w.after c x) (x.shows hs hx.1) xs hx.2
    let S : Nat → Prop := fun pc => KeepsWithin c w x pc ∧ KeepsAll c (w.after c x) xs pc ∧
      (x.diverges = true → pc < (w.after c x).start)
    have hfirst : Flow (outward w.inLoop) w.start (w.single c x) (¬ x.diverges = true) S :=
      hfirst.imp fun pc _ hhi h => ⟨h, keepsAll_outside (.inl hhi), fun _ => hhi⟩
    have hrest : ¬ x.diverges = true → Flow (outward w.inLoop) (w.after c x).start ((w.after c x).code c xs)
        (¬ Stmt.anyDiverges xs = true) S := fun hx =>
      hrest.imp fun pc hlo _ h =>
        ⟨fun w' body hb => keepsAll_outside (.inr (Nat.le_trans (Station.blocks_within hb).2.1 hlo)), h,
          fun hd => absurd hd hx⟩
    have hall := hfirst.append hrest rfl
    rw [← Station.code_cons, ← not_or, ← Bool.or_eq_true] at hall
    refine (hall.ends ?_).imp fun pc _ _ ⟨⟨hwithin, hafter, hbehind⟩, hends⟩ v ys hv => ?_
    · rintro pc ⟨-, hat | hat⟩ <;> cases hat
    cases hv with
    | here =>
      refine ⟨?_, fun hd => hends (not_not_intro hd)⟩
      rintro y zs heq hd hle
      obtain ⟨rfl, rfl⟩ := List.cons_eq_cons.mp heq
      exact absurd hle (Nat.not_le.mpr (hbehind hd))
    | later hv => exact hafter v ys hv
    | inside hb hv => exact hwithin _ _ hb v ys hv

end

/-- Where the body of a function is laid out. Behind it the function returns. -/
def Station.outset (c : Context) (f : FunctionDecl) : Station :=
  ⟨false, .ofParams f.paramNames, 0, (body c f).size, 0⟩

lemma Station.outset_stop (c : Context) (f : FunctionDecl) :
    (Station.outset c f).stop c f.body < (Station.outset c f).exit := by
  simp [Station.stop, Station.code, Station.outset, body, FunctionDecl.paramNames]

lemma body_flow (hc : Compiler.Compiled known p) (hcontext : c = Compiler.context known) {f : FunctionDecl}
    (hf : f.Ready c) : Flow (fun _ => False) 0 (body c f) False (KeepsAll c (.outset c f) f.body) := by
  have hstmts := stmts_flow hc hcontext (.outset c f) (Slots.ofParams_shows hf.params hf.named) f.body hf.body
  let code := (Station.outset c f).code c f.body
  have hbehind : ∀ pc, code.size ≤ pc → KeepsAll c (.outset c f) f.body pc := fun pc hpc =>
    keepsAll_outside (.inr (Nat.le_trans (Nat.le_of_eq (Nat.zero_add _)) hpc))
  have hnil : Flow (fun _ => False) code.size (one .nil f.place) True (KeepsAll c (.outset c f) f.body) :=
    .plain f.place (hbehind _ (Nat.le_refl _)) rfl
  have hret : Flow (fun _ => False) (code.size + 1) (one .ret f.place) False (KeepsAll c (.outset c f) f.body) :=
    .jump f.place (hbehind _ (Nat.le_succ _)) (by simp [Instr.targets, Instr.next])
  have hfirst := (hstmts.widen fun t ht => nomatch ht.1).append (fun _ => hnil) (Nat.zero_add _).symm
  exact (hfirst.append (fun _ => hret) (by simp [Station.outset, code])).weaken And.right

end Compiled

lemma Flow.reaches {g : Function} {code : Code} {falls : Prop} {S : Nat → Prop}
    (h : Flow (fun _ => False) 0 code falls S) (hcode : ∀ pc : Nat, g.code[pc]? = (code[pc]?).bind Line.instr?)
    {pc k : Nat} (hr : g.Reaches pc k) (hpc : pc < code.size) : S pc := by
  obtain ⟨live, h, hlive⟩ := h
  refine hlive pc (Nat.zero_le _) (by rwa [Nat.zero_add]) ?_
  clear hpc
  induction hr with
  | start => exact h.first
  | @step pc k pc' k' i _ hi hnext ih =>
    rw [hcode] at hi
    obtain ⟨⟨op, line⟩, hl, hop⟩ := Option.bind_eq_some_iff.mp hi
    cases op with
    | plain j =>
      obtain rfl : j = i := Option.some.inj hop
      have hat : .at pc' ∈ (Op.plain j).targets (0 + pc) := by
        rw [Nat.zero_add, ← Op.map_next _ pc k]
        exact List.mem_map.mpr ⟨_, List.mem_map.mpr ⟨_, hnext, rfl⟩, rfl⟩
      obtain ⟨q, hq, -, -, hlive⟩ := (h.next pc _ hl ((Nat.zero_add pc).symm ▸ ih) _ hat).resolve_right id
      cases hq
      exact hlive
    | leave | again => cases hop

end Emit

end ScriptHost
