import Mathlib.Data.List.Permutation
import ScriptHost.Proofs.Compile.Safety
import ScriptHost.Proofs.Compile.Stores
import ScriptHost.Proofs.Evaluation.Alike
import ScriptHost.Proofs.Machine.Rounds

/-!
Counting loops of compiled programs. The code of a loop has the slots of its variable and of its end bound to itself,
unless the body assigns the variable.
-/

namespace ScriptHost

namespace Emit

variable {c : Context}

def agains (start : Nat) (code : Code) : List Nat :=
  ((List.range code.size).filter fun i => code[i]?.map Line.op = some .again).map (start + ·)

lemma Laid.agains {g : Function} {exit round start pc : Nat} {code : Code} (hl : Laid g exit round start code)
    (hpc : pc ∈ agains start code) : start ≤ pc ∧ pc < start + code.size ∧ g.code[pc]? = some (.jump round) := by
  obtain ⟨i, hi, rfl⟩ := List.mem_map.mp hpc
  obtain ⟨hi, hagain⟩ := List.mem_filter.mp hi
  obtain ⟨⟨op, line⟩, hline, rfl⟩ := Option.map_eq_some_iff.mp (of_decide_eq_true hagain)
  exact ⟨Nat.le_add_right _ _, Nat.add_lt_add_left (List.mem_range.mp hi) _, hl i _ hline⟩

def loopCode (c : Context) (s : Slots) (start : Nat) (name : String) (first bound : Expr) (body : List Stmt) :
    LoopCode :=
  let firstEnd := start + (expr c s start first).size
  let boundEnd := firstEnd + 1 + (expr c (s.declare name) (firstEnd + 1) bound).size
  let code := stmts c ((s.declare name).declare "") (boundEnd + 1 + 4) #[] body
  { start, firstEnd, boundEnd
    round := boundEnd + 1 + 4 + code.size
    counter := s.next
    again := agains (boundEnd + 1 + 4) code }

lemma not_open_counter {s : Slots} {name : String} {names : List String} (hname : name ∉ names) (hn : "" ∉ names) :
    ¬ Open ((s.declare name).declare "") names s.next ∧ ¬ Open ((s.declare name).declare "") names (s.next + 1) := by
  have hfind : ∀ slot, Open ((s.declare name).declare "") names slot → slot = s.next ∨ slot = s.next + 1 → False := by
    rintro slot (hle | ⟨other, hother, hf⟩) hslot
    · change s.next + 1 + 1 ≤ slot at hle
      omega
    · have hempty : "" ≠ other := fun heq => hn (heq ▸ hother)
      have hne : name ≠ other := fun heq => hname (heq ▸ hother)
      rw [Slots.find?_declare, Slots.find?_declare, if_neg hempty, if_neg hne] at hf
      have hlt := Slots.find?_lt hf
      omega
  exact ⟨fun ho => hfind _ ho (.inl rfl), fun ho => hfind _ ho (.inr rfl)⟩

lemma Laid.loopCode {g : Function} {exit round start : Nat} {s : Slots} {q : Position} {name : String}
    {first bound : Expr} {body : List Stmt} (hname : name ∉ Stmt.allAssigned body) (hn : "" ∉ Stmt.allAssigned body)
    (hl : Laid g exit round start (stmt c s start (.count q name first bound body)).1) :
    (loopCode c s start name first bound body).Of g := by
  simp only [stmt, laid_append, laid_one, Array.size_append, size_one, Array.size_map, ← Nat.add_assoc] at hl
  obtain ⟨⟨⟨⟨⟨-, hfirst⟩, hbound, hstore⟩, ⟨⟨hcounter, hlimit⟩, hlt⟩, hjump⟩, hbody⟩,
    ⟨⟨⟨hagain, hone⟩, hadd⟩, hnext⟩, hback⟩ := hl
  have hbody := laid_settle hbody
  have hstores := stmts_stores (c := c) ((s.declare name).declare "")
    (start + (expr c s start first).size + 1 +
      (expr c (s.declare name) (start + (expr c s start first).size + 1) bound).size + 1 + 4) body
  obtain ⟨hvar, hhidden⟩ := not_open_counter (s := s) hname hn
  refine ⟨hfirst, hstore, hcounter, hlimit, hlt, hjump, hagain, hone, hadd, hnext, hback,
    fun _ => hbody.agains, ⟨?_, ?_, ?_⟩, ?_, ?_⟩
  · exact Nat.le_add_right _ _
  · exact Nat.lt_of_lt_of_le (Nat.lt_succ_self _) (Nat.le_add_right _ _)
  · exact Nat.le_add_right _ _
  · intro pc slot hlo hhi hi
    exact (expr_stores (fun _ => False) _ _ bound).laid hbound hlo hhi hi
  · intro pc hlo hhi
    exact ⟨fun hi => hvar (hstores.laid hbody hlo hhi hi), fun hi => hhidden (hstores.laid hbody hlo hhi hi)⟩

end Emit

namespace Compiler

open Machine

variable {limits : CompilerLimits} {session : Nat} {units : List SourceUnit} {p : Program}

/-- A run of one of the functions that can be called from outside comes to the state. -/
def Comes (h : Host) (s : State) : Prop :=
  ∃ (name : String) (args : List Value) (entry limit steps : Nat) (z : State),
    h.program.entryPoint? name args.length = some entry ∧ call h entry args (.start limit) = .ok () z ∧
      advance h steps z = .ok none s

lemma Comes.locals {h : Host} {s : State} (hs : Comes h s) (hc : compile limits session units = .ok h.program)
    {f : Frame} {rest : List Frame} (hframes : s.frames = f :: rest) {g : Function}
    (hg : h.program.functions[f.function]? = some g) : g.locals ≤ f.locals.size := by
  obtain ⟨name, args, entry, limit, steps, z, hentry, hcall, hrun⟩ := hs
  have hall := fun (id : Nat) (g : Function) (hg : h.program.functions[id]? = some g) =>
    Emit.function_heights (compile_ok hc).1 hg
  obtain ⟨g', hg', -⟩ := entryPoint?_some hentry
  have hz : Safe h.program z := (call_yields rfl hall hg' args limit).ok hcall
  have hs : Safe h.program s := (advance_yields rfl hall steps hz).ok hrun
  obtain ⟨f', rest', hframes', ⟨g', H, hof, -⟩, -⟩ := hs.calls
  obtain ⟨rfl, rfl⟩ := List.cons_eq_cons.mp (hframes.symm.trans hframes')
  obtain rfl : g' = g := Option.some.inj (hof.function.symm.trans hg)
  exact hof.slots

/-- Each counting loop of a compiled submission has its code in the code of its function. Wherever that is, a run that
comes to the loop, whatever the limits, goes like this if the body does not assign the variable: when the bounds come
to `x` and `y`, and each round that begins falls through or comes to a `continue` of the loop, then the loop makes the
tests that let in `x`, `x + 1` and so on up to `y - 1` and end with the first integer from `x` on that is not less than
`y`, never goes back to the code of the bounds, and comes to its end. Nothing but the signal can stop it on the way. -/
theorem counting_loops_count (hc : compile limits session units = .ok p) {id : Nat} {d : Definition}
    (hd : (source units).definitions[id]? = some d) {w : Site} {q : Position} {v : String} {first bound : Expr}
    {body : List Stmt} (hloop : d.decl.Has w (.count q v first bound body)) (hbody : v ∉ Stmt.allAssigned body) :
    ∃ g, p.functions[id]? = some g ∧
      (∃ s start exit round, Emit.Laid g exit round start
        (Emit.stmt (context (source units)) s start (.count q v first bound body)).1) ∧
      ∀ (s : Slots) (start exit round : Nat), Emit.Laid g exit round start
          (Emit.stmt (context (source units)) s start (.count q v first bound body)).1 →
        ∀ (h : Host) (t : State), h.program = p → Comes h t → ∀ (rest : List Frame) (x y : Int64) (u : State),
          let L := Emit.loopCode (context (source units)) s start v first bound body
          let a : Activation := ⟨id, rest⟩
          a.At L.start t → a.Bounded h L t x y u → a.EndsRounds h L u → a.Counts h L (countTests x y) u := by
  obtain ⟨hcompiled, -⟩ := compile_ok hc
  have hg := hcompiled.getElem? id
  rw [hd, Option.map_some] at hg
  obtain ⟨s, names, inLoop, exit, round, start, hs, hready, hlaid⟩ := hcompiled.laid (List.mem_of_getElem? hd) hloop
  have hempty : "" ∉ Stmt.allAssigned body := fun hn =>
    (hs.declare hready.1).named (Stmt.allAssigned_subset body hready.2.2.2 hn) rfl
  refine ⟨_, hg, ⟨s, start, exit, round, hlaid⟩, ?_⟩
  intro s start exit round hlaid h t hh ht rest x y u L a hat hbounds hrounds
  obtain ⟨f, hf, -⟩ := hat
  have hL : L.Of (Emit.function (context (source units)) d) := hlaid.loopCode hbody hempty
  subst hh
  have hid : f.function = id := hf.function
  obtain ⟨H, hH⟩ := Emit.function_heights hcompiled hg
  have hslot : L.counter + 1 < (Emit.function (context (source units)) d).locals := hH.range _ _ hL.storeBound
  exact hbounds.counts hg hL hf (Nat.lt_of_lt_of_le hslot (ht.locals hc hf.frames (hid ▸ hg))) hrounds

lemma exists_step {h : Host} (hq : h.Quiet) {a : Activation} {g : Function}
    (hg : h.program.functions[a.function]? = some g) {s : State} {pc pc' : Nat} {locals locals' : Array Datum}
    {ops ops' : List Datum} {i : Instr} (hs : a.Has ⟨a.function, pc, locals, ops⟩ [] s) (hi : g.code[pc]? = some i)
    (hexec : exec h ⟨a.function, pc + 1, locals, ops⟩ a.rest i = resume ⟨a.function, pc', locals', ops'⟩ a.rest) :
    ∃ t, step h s = .ok none t ∧ a.Has ⟨a.function, pc', locals', ops'⟩ [] t := by
  have hstep := step_of_tick (Evaluation.tick_quiet hq s) hs.frames hg hi
  rw [hexec] at hstep
  exact ⟨_, hstep, rfl, rfl⟩

def lastRounds : SourceUnit :=
  ⟨"m", "fn main() { for i in 9223372036854775805..9223372036854775807 { continue; } }", true⟩

def lastLoop : Stmt :=
  .count ⟨1, 13⟩ "i" (.int ⟨1, 22⟩ 9223372036854775805) (.int ⟨1, 43⟩ 9223372036854775807) [.again ⟨1, 65⟩]

def lastRoundsMain : FunctionDecl where
  name := "main"
  params := []
  body := [lastLoop]
  place := ⟨1, 1⟩

set_option maxRecDepth 100000 in
lemma lastRounds_definitions : (source [lastRounds]).definitions[0]? = some ⟨"m", lastRoundsMain⟩ := by
  cbv

lemma lastLoop_code (c : Emit.Context) :
    Emit.loopCode c (.ofParams []) 0 "i" (.int ⟨1, 22⟩ 9223372036854775805) (.int ⟨1, 43⟩ 9223372036854775807)
      [.again ⟨1, 65⟩] = ⟨0, 1, 3, 9, 0, [8]⟩ := by
  simp only [Emit.loopCode, Emit.expr, Emit.stmts, Emit.stmt]
  rfl

lemma lastLoop_laid (hc : compile limits session [lastRounds] = .ok p) {g : Function}
    (hg : p.functions[0]? = some g) :
    Emit.Laid g 0 0 0 (Emit.stmt (context (source [lastRounds])) (.ofParams []) 0 lastLoop).1 := by
  have hcompiled := (compile_ok hc).1
  have hfunction := hcompiled.getElem? 0
  rw [lastRounds_definitions, hg] at hfunction
  have hlaid := hcompiled.body_laid (List.mem_of_getElem? lastRounds_definitions) 0 0
  rw [show lastRoundsMain.body = [lastLoop] from rfl, Emit.stmts_cons, Emit.laid_append] at hlaid
  rw [Option.some.inj hfunction]
  exact hlaid.1

theorem counting_loops_count_last_rounds : ∃ p g z t, compile {} 0 [lastRounds] = .ok p ∧ p.functions[0]? = some g ∧
    call ⟨p, 8, none, fun _ => false⟩ 0 [] (.start 64) = .ok () z ∧
    (⟨0, []⟩ : Activation).Bounded ⟨p, 8, none, fun _ => false⟩ ⟨0, 1, 3, 9, 0, [8]⟩ z 9223372036854775805
      9223372036854775807 t ∧
    (⟨0, []⟩ : Activation).Counts ⟨p, 8, none, fun _ => false⟩ ⟨0, 1, 3, 9, 0, [8]⟩
      [(some (.int 9223372036854775805), some (.bool true)), (some (.int 9223372036854775806), some (.bool true)),
        (some (.int 9223372036854775807), some (.bool false))] t := by
  have henters : enters "main" 0 0 (compile {} 0 [lastRounds]) = true := by decide +kernel
  obtain ⟨p, hp, hid⟩ := exists_entry henters
  obtain ⟨g, hg, -, hcounts⟩ := counting_loops_count hp lastRounds_definitions .here (by decide)
  have hlaid := lastLoop_laid hp hg
  have hL := hlaid.loopCode (by decide) (by decide)
  have hcounts := hcounts _ 0 0 0 hlaid ⟨p, 8, none, fun _ => false⟩
  rw [lastLoop_code] at hL hcounts
  simp only [lastLoop, Emit.stmt, Emit.stmts, Emit.expr, Emit.laid_append, Emit.laid_one, Array.size_append,
    Emit.size_one] at hlaid
  obtain ⟨⟨⟨⟨⟨hx, -⟩, hy, -⟩, -⟩, -⟩, -⟩ := hlaid
  have hq : Host.Quiet ⟨p, 8, none, fun _ => false⟩ := ⟨rfl, rfl⟩
  have hroom : ¬ (8 : Nat) ≤ (State.start 64).depth := by decide
  obtain ⟨z, hz, hframe⟩ : ∃ z, call ⟨p, 8, none, fun _ => false⟩ 0 [] (.start 64) = .ok () z ∧
      Activation.Has ⟨0, []⟩ (frameOf g 0 []) [] z :=
    ⟨_, (bind_of_ok rfl _).trans (bind_of_ok (enter_ok hroom hg) _), rfl, rfl⟩
  have hcomes : Comes ⟨p, 8, none, fun _ => false⟩ z := ⟨"main", [], 0, 64, 0, z, hid, hz, rfl⟩
  have hslots : 1 < (frameOf g 0 []).locals.size := by
    obtain ⟨H, hH⟩ := Emit.function_heights (compile_ok hp).1 hg
    exact Nat.lt_of_lt_of_le (hH.range _ _ hL.storeBound) (hcomes.locals hp hframe.frames hg)
  -- The bounds and the store between them.
  obtain ⟨t₁, hz₁, ht₁⟩ := exists_step hq hg hframe hx (exec_int _ _ _ _ _ _ _)
  obtain ⟨u, htu, hu⟩ := exists_step hq hg ht₁ hL.storeFirst (exec_store _ _ _ _ _ _ _ (Nat.lt_of_succ_lt hslots))
  obtain ⟨t, hut, ht⟩ := exists_step hq hg hu hy (exec_int _ _ _ _ _ _ _)
  have hbounds : Activation.Bounded ⟨0, []⟩ ⟨p, 8, none, fun _ => false⟩ ⟨0, 1, 3, 9, 0, [8]⟩ z 9223372036854775805
      9223372036854775807 t := by
    refine ⟨t₁, u, ⟨.step hz₁ ⟨_, [], hframe, fun _ => ?_⟩, _, ht₁, rfl, rfl⟩, htu,
      .step hut ⟨_, [], hu, fun _ => ?_⟩, _, ht, rfl, rfl⟩
    · exact ⟨Nat.le_refl 0, Nat.zero_lt_one⟩
    · exact ⟨Nat.le_refl 2, Nat.lt_succ_self 2⟩
  have hrounds : Activation.EndsRounds ⟨0, []⟩ ⟨p, 8, none, fun _ => false⟩ ⟨0, 1, 3, 9, 0, [8]⟩ t := by
    -- The body is a `continue`, so the first instruction of a round is where it ends.
    exact fun b _ hb => ⟨8, by decide, b, .refl b, hb⟩
  have htests : countTests 9223372036854775805 9223372036854775807 =
      [(some (.int 9223372036854775805), some (.bool true)), (some (.int 9223372036854775806), some (.bool true)),
        (some (.int 9223372036854775807), some (.bool false))] := by decide
  rw [← htests]
  exact ⟨p, g, z, t, hp, hg, hz, hbounds, hcounts z rfl hcomes [] _ _ t ⟨_, hframe, rfl⟩ hbounds hrounds⟩

end Compiler

end ScriptHost
