import Mathlib.Data.List.Permutation
import ScriptHost.Proofs.Compile.Safety
import ScriptHost.Proofs.Compile.Stores
import ScriptHost.Proofs.Evaluation.From
import ScriptHost.Proofs.Machine.Exchange

/-!
Calls of a function that gives back its argument. They show what becomes of a value on its way into a run and out
of it again.
-/

namespace ScriptHost

/-- `fn f(x) { return x; }`, by any names. -/
def FunctionDecl.GivesBack (f : FunctionDecl) : Prop :=
  ∃ x p q, f.paramNames = [x] ∧ f.body = [.give p (some (.var q x))]

namespace Compiler

open Emit Machine

variable {limits : CompilerLimits} {session : Nat} {units : List SourceUnit} {p : Program}

lemma givesBack_code (hc : compile limits session units = .ok p) {id : Nat} {d : Definition}
    (hd : (source units).definitions[id]? = some d) (hback : d.decl.GivesBack) :
    ∃ g, p.functions[id]? = some g ∧ g.code[0]? = some (.load 0) ∧ g.code[1]? = some .ret := by
  obtain ⟨x, q, q', hparams, hbody⟩ := hback
  have hcompiled := (compile_ok hc).1
  have hlaid := hcompiled.body_laid (List.mem_of_getElem? hd) 0 0
  have hslot : (Slots.ofParams [x]).find? x = some 0 := by
    simp [Slots.ofParams, Slots.find?, Slots.declare, Slots.empty]
  rw [hparams, hbody, stmts_cons, laid_append, stmt, laid_append, expr, hslot] at hlaid
  obtain ⟨⟨hload, hret⟩, -⟩ := hlaid
  refine ⟨_, ?_, laid_one.mp hload, laid_one.mp hret⟩
  rw [hcompiled.getElem?, hd, Option.map_some]

lemma advance_givesBack {h : Host} (hq : h.Quiet) {id : Nat} {g : Function} (hg : h.program.functions[id]? = some g)
    (hload : g.code[0]? = some (.load 0)) (hret : g.code[1]? = some .ret) {s : State} {x : Datum}
    (hframes : s.frames = [frameOf g id [x]]) (steps : Nat) :
    ∃ t, advance h (steps + 2) s = .ok (some x) t ∧ t.heap = s.heap := by
  have hlocal : (frameOf g id [x]).locals[0]? = some x := by simp [frameOf]
  have hstep := Evaluation.step_quiet hq hframes hg hload
  rw [exec_load h [] _ _ _ _ hlocal] at hstep
  obtain ⟨t, ht, hframes, hheap⟩ : ∃ t, step h s = .ok none t ∧
      t.frames = [⟨id, 1, (frameOf g id [x]).locals, [x]⟩] ∧ t.heap = s.heap := ⟨_, hstep, rfl, rfl⟩
  have hstep := Evaluation.step_quiet hq hframes hg hret
  rw [exec_ret_last] at hstep
  exact ⟨_, (Evaluation.advance_none ht _).trans (Evaluation.advance_some hstep steps), hheap⟩

lemma invoke_givesBack {h : Host} (hq : h.Quiet) (hc : compile limits session units = .ok h.program) {id : Nat}
    {d : Definition} (hd : (source units).definitions[id]? = some d) (hback : d.decl.GivesBack)
    (hdepth : 0 < h.callDepth) {s : State} (hframes : s.frames = []) (hs : s.depth = 0) (v : Value) (steps : Nat) :
    ∃ t, invoke h id [v] (steps + 2) s = .ok (v.cut renderDepth) t := by
  obtain ⟨g, hg, hload, hret⟩ := givesBack_code hc hd hback
  obtain ⟨items, t, hitems, -, hstand⟩ := takeInAll_quiet hq [v] #[] [] s .nil
  obtain ⟨x, rest, hx, hrest, hlist⟩ := List.forall₂_cons_right_iff.mp hstand
  cases hrest
  have hsteady := ((takeInAll_tame h s #[] [v]).ok hitems).1
  have hroom : ¬ h.callDepth ≤ t.depth := by
    rw [hsteady.depth, hs]
    exact Nat.not_le_of_lt hdepth
  have hcall : call h id [v] s =
      .ok () { t with frames := frameOf g id items.toList :: t.frames, depth := t.depth + 1 } :=
    (bind_of_ok hitems _).trans (bind_of_ok (enter_ok hroom hg) _)
  rw [hlist, hsteady.frames, hframes] at hcall
  obtain ⟨u, hu, hheap⟩ := advance_givesBack hq hg hload hret
    (s := { t with frames := [frameOf g id [x]], depth := t.depth + 1 }) rfl steps
  obtain ⟨w, hw⟩ := giveOut_quiet hq renderDepth x u
  have hcopy : copy u.heap renderDepth x = v.cut renderDepth := hx u.heap (hheap ▸ .refl _) renderDepth
  rw [hcopy] at hw
  refine ⟨w, ?_⟩
  rw [invoke, bind_of_ok hcall, proceed, bind_assoc, bind_of_ok hu]
  dsimp only
  rw [bind_assoc, bind_of_ok hw]
  rfl

/-- Values cross the border unchanged. A value that is taken in and given out again comes back with a text in place of
each array that has thirty-two others around it, so a function that gives back its argument gives the same value
exactly when that value nests no deeper. Whatever the host and however the arrays of a heap refer to each other,
giving out ends after a bounded number of visits. -/
theorem values_cross_unchanged {h : Host} (hq : h.Quiet) (s : State) :
    (∀ v, ∃ t, (takeIn h v >>= giveOut h renderDepth) s = .ok (v.cut renderDepth) t) ∧
    (∀ (limits : CompilerLimits) (session : Nat) (units : List SourceUnit) (id : Nat) (d : Definition),
      compile limits session units = .ok h.program → (source units).definitions[id]? = some d → d.decl.GivesBack →
      0 < h.callDepth → s.frames = [] → s.depth = 0 → ∀ v steps,
        ∃ w t, invoke h id [v] (steps + 2) s = .ok w t ∧ (w = v ↔ v.nesting ≤ renderDepth)) ∧
    (∀ d, ∃ t, giveOut h renderDepth d s = .ok (copy s.heap renderDepth d) t) ∧
    ∀ (h' : Host) (s' : State) (levels width : Nat) (d : Datum), (∀ items ∈ s'.heap, items.size ≤ width) →
      Yields (giveOut h' levels d) s' (fun _ t => t.steps ≤ s'.steps + (width + 1) ^ (levels + 1))
        fun _ t => t.steps ≤ s'.steps + (width + 1) ^ (levels + 1) := by
  refine ⟨fun v => ?_, ?_, fun d => giveOut_quiet hq renderDepth d s, ?_⟩
  · obtain ⟨d, t, htaken, -, hstand⟩ := takeIn_quiet hq v s
    obtain ⟨u, hu⟩ := giveOut_quiet hq renderDepth d t
    rw [hstand t.heap (.refl _)] at hu
    exact ⟨u, (bind_of_ok htaken _).trans hu⟩
  · intro limits session units id d hc hd hback hdepth hframes hs v steps
    obtain ⟨t, ht⟩ := invoke_givesBack hq hc hd hback hdepth hframes hs v steps
    exact ⟨_, t, ht, v.cut_eq_self_iff renderDepth⟩
  · intro h' s' levels width d hw
    exact (giveOut_counts levels d s' hw).mono (fun _ _ ht => ht.2.2) fun _ _ ht => ht.2

def echo : SourceUnit :=
  ⟨"m", "fn main(x) { return x; }", true⟩

def echoMain : FunctionDecl where
  name := "main"
  params := [("x", ⟨1, 9⟩)]
  body := [.give ⟨1, 14⟩ (some (.var ⟨1, 21⟩ "x"))]
  place := ⟨1, 1⟩

set_option maxRecDepth 100000 in
lemma echo_definitions : (source [echo]).definitions[0]? = some ⟨"m", echoMain⟩ := by
  cbv

def knot : Heap :=
  #[#[.array 0]]

theorem values_cross_unchanged_echo : ∃ p, compile {} 0 [echo] = .ok p ∧
    (∃ t, invoke ⟨p, 1, none, fun _ => false⟩ 0 [.array [.int 1, .array []]] 2 { State.start 64 with heap := knot } =
      .ok (.array [.int 1, .array []]) t) ∧
    Yields (giveOut ⟨p, 1, none, fun _ => false⟩ 2 (.array 0)) { State.start 64 with heap := knot }
      (fun _ t => t.steps ≤ 8) fun _ t => t.steps ≤ 8 := by
  have henters : enters "main" 1 0 (compile {} 0 [echo]) = true := by decide +kernel
  obtain ⟨p, hp, -⟩ := exists_entry henters
  have hq : Host.Quiet ⟨p, 1, none, fun _ => false⟩ := ⟨rfl, rfl⟩
  obtain ⟨-, hback, -, hends⟩ := values_cross_unchanged hq { State.start 64 with heap := knot }
  refine ⟨p, hp, ?_, ?_⟩
  · obtain ⟨w, t, ht, hsame⟩ := hback {} 0 [echo] 0 _ hp echo_definitions ⟨"x", _, _, rfl, rfl⟩ Nat.one_pos rfl rfl
      (.array [.int 1, .array []]) 0
    have hshallow : Value.nesting (.array [.int 1, .array []]) ≤ renderDepth := by
      simp [Value.nesting, Value.nestings, renderDepth]
    exact ⟨t, hsame.mpr hshallow ▸ ht⟩
  · have hwidth : ∀ items ∈ knot, items.size ≤ 1 := by simp [knot]
    exact (hends _ _ 2 1 (.array 0) hwidth).mono (fun _ _ ht => ht) fun _ _ ht => ht

end Compiler

end ScriptHost
