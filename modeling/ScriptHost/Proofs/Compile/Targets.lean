import ScriptHost.Proofs.Compile.Built
import ScriptHost.Proofs.Compile.Unreachable

/-!
Where jumps go. Each jump that is written before it is known where it goes gets its target once, and none is left over
at the end. A jump out of a round goes past the innermost loop around it, or to the place where its next round begins.
-/

namespace ScriptHost

def Stmt.isLoop : Stmt → Bool
  | .loop .. => true
  | .count .. => true
  | _ => false

namespace Emit

/-- `InRound c w xs v ys`: as `Stands c w xs v ys`, with no loop of `xs` around `ys`. -/
inductive InRound (c : Context) : Station → List Stmt → Station → List Stmt → Prop
  | here {w : Station} {xs : List Stmt} : InRound c w xs w xs
  | later {w v : Station} {x : Stmt} {xs ys : List Stmt} :
      InRound c (w.after c x) xs v ys → InRound c w (x :: xs) v ys
  | inside {w w' v : Station} {x : Stmt} {xs body ys : List Stmt} :
      x.isLoop = false → (w', body) ∈ w.blocks c x → InRound c w' body v ys → InRound c w (x :: xs) v ys

/-- Of the loops in `xs`, laid out at `w`, the innermost one around the statements `ys` at `v` is `x`, laid out at
`u`. -/
structure Encloses (c : Context) (w : Station) (xs : List Stmt) (u : Station) (x : Stmt) (v : Station)
    (ys : List Stmt) : Prop where
  isLoop : x.isLoop = true
  stands : ∃ rest, Stands c w xs u (x :: rest)
  within : ∃ w' body, (w', body) ∈ u.blocks c x ∧ InRound c w' body v ys

/-- Where a counting loop that is laid out at `u` tests whether there is a next round: behind its two bounds. -/
def Station.check (c : Context) (u : Station) (name : String) (first bound : Expr) : Nat :=
  let firstEnd := u.start + (expr c u.slots u.start first).size + 1
  firstEnd + (expr c (u.slots.declare name) firstEnd bound).size + 1

/-- The next round of a loop that is laid out at `u` begins at the address `turn`. That is where its condition is, or
the last five instructions of its own code, which count on and go back to its test. -/
def Turns (c : Context) (f : Function) (u : Station) (turn : Nat) : Stmt → Prop
  | .loop _ cond _ => turn = u.start ∧ Laid f u.exit u.round turn (expr c u.slots turn cond)
  | .count q name first bound body =>
    let check := u.check c name first bound
    turn + 5 = u.start + (u.single c (.count q name first bound body)).size ∧
      Laid f u.exit u.round check (one (.load u.slots.next) q ++ one (.load (u.slots.next + 1)) q
        ++ one (.binary .lt) q ++ one (.jumpIfFalse (turn + 5)) q) ∧
      Laid f u.exit u.round turn (one (.load u.slots.next) q ++ one (.int 1) q
        ++ one (.binary .add) q ++ one (.store u.slots.next) q ++ one (.jump check) q)
  | _ => False

section Rounds

variable {c : Context} {w v : Station} {x : Stmt} {xs ys : List Stmt}

lemma Encloses.later {u : Station} {y : Stmt} (h : Encloses c (w.after c y) xs u x v ys) :
    Encloses c w (y :: xs) u x v ys :=
  ⟨h.isLoop, h.stands.imp fun _ => .later, h.within⟩

lemma Encloses.inside {u w' : Station} {y : Stmt} {body : List Stmt} (hb : (w', body) ∈ w.blocks c y)
    (h : Encloses c w' body u x v ys) : Encloses c w (y :: xs) u x v ys :=
  ⟨h.isLoop, h.stands.imp fun _ => .inside hb, h.within⟩

lemma Stands.innermost (h : Stands c w xs v ys) : InRound c w xs v ys ∨ ∃ u x, Encloses c w xs u x v ys := by
  induction h with
  | here => exact .inl .here
  | later _ ih => exact ih.imp .later fun ⟨u, x, h⟩ => ⟨u, x, h.later⟩
  | @inside w w' v x xs body ys hb _ ih =>
    rcases ih with h | ⟨u, y, h⟩
    · cases hx : x.isLoop with
      | false => exact .inl (.inside hx hb h)
      | true => exact .inr ⟨w, x, hx, ⟨xs, .here⟩, w', body, hb, h⟩
    · exact .inr ⟨u, y, h.inside hb⟩

lemma Station.blocks_same {w' : Station} {body : List Stmt} (hx : x.isLoop = false) (hb : (w', body) ∈ w.blocks c x) :
    w'.inLoop = w.inLoop ∧ w'.exit = w.exit ∧ w'.round = w.round := by
  cases x with
  | branch q cond body otherwise =>
    cases otherwise with
    | none =>
      obtain ⟨rfl, rfl⟩ := Prod.mk.inj (List.mem_singleton.mp hb)
      exact ⟨rfl, rfl, rfl⟩
    | some otherwise =>
      rcases List.mem_cons.mp hb with hb | hb
      · obtain ⟨rfl, rfl⟩ := Prod.mk.inj hb
        exact ⟨rfl, rfl, rfl⟩
      · obtain ⟨rfl, rfl⟩ := Prod.mk.inj (List.mem_singleton.mp hb)
        exact ⟨rfl, rfl, rfl⟩
  | block q body =>
    obtain ⟨rfl, rfl⟩ := Prod.mk.inj (List.mem_singleton.mp hb)
    exact ⟨rfl, rfl, rfl⟩
  | loop | count => cases hx
  | declare | assign | give | leave | again | eval => exact (List.not_mem_nil hb).elim

lemma InRound.same (h : InRound c w xs v ys) : v.inLoop = w.inLoop ∧ v.exit = w.exit ∧ v.round = w.round := by
  induction h with
  | here => exact ⟨rfl, rfl, rfl⟩
  | later _ ih => exact ih
  | inside hx hb _ ih =>
    obtain ⟨hin, hexit, hround⟩ := Station.blocks_same hx hb
    exact ⟨ih.1.trans hin, ih.2.1.trans hexit, ih.2.2.trans hround⟩

lemma Laid.of_eq {f : Function} {exit round start start' : Nat} {code : Code} (h : Laid f exit round start code)
    (hstart : start = start') : Laid f exit round start' code :=
  hstart ▸ h

lemma Station.blocks_loop {f : Function} {w' : Station} {body : List Stmt} (hx : x.isLoop = true)
    (hb : (w', body) ∈ w.blocks c x) (hl : Laid f w.exit w.round w.start (w.single c x)) :
    w'.exit = (w.after c x).start ∧ Turns c f w w'.round x := by
  cases x with
  | loop q cond body =>
    obtain ⟨rfl, rfl⟩ := Prod.mk.inj (List.mem_singleton.mp hb)
    rw [Station.single, stmt] at hl
    simp only [laid_append] at hl
    refine ⟨?_, rfl, hl.1.1.1⟩
    simp only [Station.stop, Station.code, Station.after, Station.single, stmt, Array.size_append, size_one,
      Array.size_map]
    omega
  | count q name first bound body =>
    obtain ⟨rfl, rfl⟩ := Prod.mk.inj (List.mem_singleton.mp hb)
    rw [Station.single, stmt] at hl
    simp only [Array.size_append, size_one, ← Nat.add_assoc] at hl
    obtain ⟨hround, hstep⟩ := laid_append.mp hl
    obtain ⟨hhead, -⟩ := laid_append.mp hround
    obtain ⟨-, htest⟩ := laid_append.mp hhead
    have hafter : (w.after c (.count q name first bound body)).start = w.check c name first bound + 4
        + (stmts c ((w.slots.declare name).declare "") (w.check c name first bound + 4) #[] body).size + 5 := by
      simp only [Station.check, Station.after, Station.single, stmt, Array.size_append, size_one, Array.size_map,
        ← Nat.add_assoc]
    refine ⟨hafter.symm, hafter.symm, htest.of_eq ?_, hstep.of_eq ?_⟩
    · simp only [Station.check, Array.size_append, size_one, ← Nat.add_assoc]
    · simp only [Station.stop, Station.code, Array.size_append, size_one, Array.size_map, ← Nat.add_assoc]
  | declare | assign | branch | give | leave | again | block | eval => cases hx

lemma laid_jump {f : Function} {ys : List Stmt} (hl : Laid f v.exit v.round v.start (v.code c (x :: ys))) :
    (∀ q, x = .leave q → f.code[v.start]? = some (.jump v.exit)) ∧
      ∀ q, x = .again q → f.code[v.start]? = some (.jump v.round) := by
  rw [Station.code_cons, laid_append] at hl
  refine ⟨?_, ?_⟩
  all_goals
    rintro q rfl
    exact laid_single.mp hl.1

end Rounds

end Emit

namespace Instr

lemma exists_next {i : Instr} {target : Nat} (pc k : Nat) (h : i.destination? = some target) :
    ∃ s ∈ i.next pc k, s.1 = target := by
  cases i with
  | jump | jumpIfFalse | jumpKeep =>
    cases h
    simp [next]
  | _ => cases h

end Instr

namespace OnePass

open Emit (Context Encloses InRound Laid Stands Station Turns)

/-- What is so of the jumps of a function that is built in one pass, when it is done. -/
structure Draft.Aimed (c : Context) (d : Definition) (f : Function) (w : Draft) : Prop where
  loops : w.loops = []
  lines : f.lines.size = f.code.size
  once : w.awaited.Nodup ∧ (w.given.map Prod.fst).Perm w.awaited
  final : ∀ e ∈ w.given, ∃ i, f.code[e.1]? = some i ∧ i.destination? = some e.2
  inside : ∀ (pc : Nat) (i : Instr) (target : Nat), f.code[pc]? = some i → i.destination? = some target →
    target < f.code.size
  leaves : ∀ v q ys, d.decl.Lays c v (.leave q :: ys) → ∃ u x, Encloses c (.outset c d.decl) d.decl.body u x v
    (.leave q :: ys) ∧ Laid f u.exit u.round u.start (u.single c x) ∧
    f.code[v.start]? = some (.jump (u.start + (u.single c x).size))
  agains : ∀ v q ys, d.decl.Lays c v (.again q :: ys) → ∃ u x turn, Encloses c (.outset c d.decl) d.decl.body u x v
    (.again q :: ys) ∧ Laid f u.exit u.round u.start (u.single c x) ∧ Turns c f u turn x ∧
    f.code[v.start]? = some (.jump turn)

variable {c : Context} {d : Definition} {f : Function} {w : Draft}

lemma Draft.Grows.once {code : Emit.Code} {ns : Array Emit.Note} {V : List Emit.Variable} {loops : List Exits}
    (h : Draft.Grows {} w code ns [] V loops) (hw : w.Sound 0) :
    w.awaited.Nodup ∧ (w.given.map Prod.fst).Perm w.awaited := by
  refine ⟨hw.awaited.imp Nat.ne_of_gt, List.perm_iff_count.mpr fun pc => ?_⟩
  have hpc := h.balance pc
  simp only [List.map_nil, List.count_nil] at hpc
  omega

lemma Draft.Grows.given_final {code : Emit.Code} {ns : Array Emit.Note} {V : List Emit.Variable} {loops : List Exits}
    (h : Draft.Grows {} w code ns [] V loops) :
    ∀ e ∈ w.given, ∃ i, w.code[e.1]? = some i ∧ i.destination? = some e.2 := by
  intro e he
  obtain ⟨k, n, i, hk, hi, ht⟩ := (h.final e he).resolve_left List.not_mem_nil
  exact ⟨i, hk ▸ getElem?_grown h hi, ht⟩

end OnePass

namespace Compiler

open Emit (Encloses Laid Stands Station Turns)

variable {known : Catalog} {p : Program} {id : Nat} {d : Definition} {v : Station} {x : Stmt} {ys : List Stmt}

lemma Compiled.innermost (hc : Compiled known p) (hd : known.definitions[id]? = some d)
    (hv : d.decl.Lays (context known) v (x :: ys))
    (hx : ∀ inLoop names, x.Ready (context known) inLoop names → inLoop = true) :
    ∃ u y, Encloses (context known) (.outset (context known) d.decl) d.decl.body u y v (x :: ys) ∧
      Laid (Emit.function (context known) d) u.exit u.round u.start (u.single (context known) y) ∧
      v.exit = u.start + (u.single (context known) y).size ∧
      Turns (context known) (Emit.function (context known) d) u v.round y := by
  have hready := hc.ready d (List.mem_of_getElem? hd)
  obtain ⟨names, -, hreadyx, -⟩ := hv.ready (Slots.ofParams_shows hready.params hready.named) hready.body
  rcases hv.innermost with hround | ⟨u, y, henclosed⟩
  · have houtside : v.inLoop = false := hround.same.1
    have hinside := hx _ _ hreadyx
    rw [houtside] at hinside
    exact absurd hinside Bool.false_ne_true
  · obtain ⟨rest, hu⟩ := henclosed.stands
    obtain ⟨w, body, hb, hround⟩ := henclosed.within
    have hl := hc.lays_laid hd hu
    rw [Station.code_cons, Emit.laid_append] at hl
    obtain ⟨hexit, hturn⟩ := Station.blocks_loop henclosed.isLoop hb hl.1
    obtain ⟨-, hv, hv'⟩ := hround.same
    exact ⟨u, y, henclosed, hl.1, hv.trans hexit, hv' ▸ hturn⟩

variable {limits : CompilerLimits} {session : Nat} {units : List SourceUnit}

/-- Every jump is given its target once. The functions of a submission that compiles are built without asking for a jump
where there is none, and in the end no loop is open, the jumps that were written without a target have been given one
each and have it still, each target is an address of the code, and each instruction has a line. A `break` goes to the
address behind the innermost loop around it, a `continue` to the condition of that loop or to where it counts on. -/
theorem every_jump_is_aimed_once (hp : compile limits session units = .ok p) {f : Function}
    (hf : p.functions[id]? = some f) :
    ∃ d w, (source units).definitions[id]? = some d ∧
      OnePass.build limits.functionInstructions (context (source units)) d = .ok f w ∧
      w.draft.Aimed (context (source units)) d f := by
  have hc := (compile_ok hp).1
  obtain ⟨H, hH⟩ := Emit.function_heights hc hf
  rw [hc.getElem?] at hf
  obtain ⟨d, hd, rfl⟩ := Option.map_eq_some_iff.mp hf
  have hmem := List.mem_of_getElem? hd
  obtain ⟨w, hbuild, hcode, hlines, hw⟩ := built_in_one_pass hp hmem
  have hlast : w.draft ∈ OnePass.drafts limits.functionInstructions (context (source units)) d := by
    rw [OnePass.drafts_ok hbuild]
    exact List.mem_cons_self
  have hsound := (OnePass.drafts_keep (hc.ready d hmem) w.draft hlast).1
  refine ⟨d, w, hd, hbuild, hw.loops, ?_, hw.once hsound, hcode ▸ hw.given_final, fun pc i target hi ht => ?_,
    fun v q ys hv => ?_, fun v q ys hv => ?_⟩
  · rw [hlines, hcode, hsound.lines]
  · obtain ⟨s, hs, rfl⟩ := i.exists_next pc (H pc) ht
    exact (hH.next pc i hi s hs).1
  · obtain ⟨u, x, henclosed, hl, hexit, -⟩ := hc.innermost hd hv fun inLoop names hx => hx
    exact ⟨u, x, henclosed, hl, hexit ▸ (Emit.laid_jump (hc.lays_laid hd hv)).1 q rfl⟩
  · obtain ⟨u, x, henclosed, hl, -, hturn⟩ := hc.innermost hd hv fun inLoop names hx => hx
    exact ⟨u, x, v.round, henclosed, hl, hturn, (Emit.laid_jump (hc.lays_laid hd hv)).2 q rfl⟩

lemma jumping_leaves (c : Emit.Context) : jumpingMain.Lays c { jumpingRound with start := 12 } [.leave ⟨1, 42⟩] := by
  have hround : (jumpingRound, [jumpingChoice, .give ⟨1, 70⟩ (some (.var ⟨1, 77⟩ "i"))]) ∈
      (Station.outset c jumpingMain).blocks c jumpingLoop := by
    simp [jumpingLoop, jumpingChoice, jumpingRound, jumpingMain, Station.outset, FunctionDecl.paramNames,
      Station.blocks, Station.stop, Station.code, Emit.stmts, Emit.stmt, Emit.expr]
  have hchoice : ({ jumpingRound with start := 12 }, [.leave ⟨1, 42⟩]) ∈ jumpingRound.blocks c jumpingChoice := by
    simp [jumpingChoice, jumpingRound, Station.blocks, Emit.expr]
  exact .inside hround (.inside hchoice .here)

theorem every_jump_is_aimed_once_jumping : ∃ p f w, compile {} 0 [jumping] = .ok p ∧ p.functions[0]? = some f ∧
    OnePass.build 1048576 (context (source [jumping])) ⟨"m", jumpingMain⟩ = .ok f w ∧
    w.draft.Aimed (context (source [jumping])) ⟨"m", jumpingMain⟩ f ∧
    ∃ (u : Station) (x : Stmt), u.start + (u.single (context (source [jumping])) x).size < f.code.size ∧
      f.code[12]? = some (.jump (u.start + (u.single (context (source [jumping])) x).size)) := by
  have hok : (compile {} 0 [jumping]).isOk = true := by decide +kernel
  obtain ⟨p, hp⟩ := exists_ok hok
  have hd : (source [jumping]).definitions[0]? = some ⟨"m", jumpingMain⟩ := by rw [jumping_definitions]; rfl
  have hf := (compile_ok hp).1.getElem? 0
  rw [hd, Option.map_some] at hf
  obtain ⟨d, w, hd', hbuild, haimed⟩ := every_jump_is_aimed_once hp hf
  obtain rfl : d = ⟨"m", jumpingMain⟩ := Option.some.inj (hd'.symm.trans hd)
  obtain ⟨u, x, -, -, hcode⟩ := haimed.leaves _ _ _ (jumping_leaves _)
  exact ⟨p, _, w, hp, hf, hbuild, haimed, u, x, haimed.inside 12 _ _ hcode rfl, hcode⟩

end Compiler

end ScriptHost
