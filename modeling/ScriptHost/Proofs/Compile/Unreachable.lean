import ScriptHost.Proofs.Compile.Rounds
import ScriptHost.Proofs.Compile.Stations
import ScriptHost.Proofs.Compile.Usage
import ScriptHost.Proofs.Machine.Reach

/-!
Unreachable statements. The check says of a statement that control never falls out of it only if this is so, and
warns of the statement behind it, which no run comes to.
-/

namespace ScriptHost

open Emit

/-- The statements `xs` of a block of a function, from one of them on, have their code at `v`. -/
abbrev FunctionDecl.Lays (c : Context) (f : FunctionDecl) (v : Station) (xs : List Stmt) : Prop :=
  Stands c (.outset c f) f.body v xs

namespace Check

mutual

lemma stmt_diverges (known : Catalog) (inLoop : Bool) (s : State) (x : Stmt)
    (h : (stmt known inLoop s x).2 = true) : x.diverges = true := by
  cases x with
  | branch q cond body otherwise =>
    cases otherwise with
    | none => cases h
    | some otherwise =>
      obtain ⟨hbody, hother⟩ := Bool.and_eq_true_iff.mp h
      rw [Stmt.diverges, Bool.and_eq_true]
      exact ⟨(stmts_diverges known _ _ _ _ body hbody).resolve_left Bool.false_ne_true,
        (stmts_diverges known _ _ _ _ otherwise hother).resolve_left Bool.false_ne_true⟩
  | block q body => exact (stmts_diverges known _ _ _ _ body h).resolve_left Bool.false_ne_true
  | give | leave | again => rfl
  | declare | assign | loop | count | eval => cases h

lemma stmts_diverges (known : Catalog) (inLoop ended warned : Bool) (s : State) (xs : List Stmt)
    (h : (stmts known inLoop ended warned s xs).2 = true) : ended = true ∨ Stmt.anyDiverges xs = true := by
  cases xs with
  | nil => exact .inl h
  | cons x xs =>
    rw [Stmt.anyDiverges, Bool.or_eq_true]
    rcases stmts_diverges known inLoop _ _ _ xs h with hended | hrest
    · rw [Bool.or_eq_true] at hended
      exact hended.imp_right fun hx => .inl (stmt_diverges known inLoop _ x hx)
    · exact .inr (.inr hrest)

end

def isUnreachable (x : Finding) : Bool :=
  match x.problem with
  | .unreachable => true
  | _ => false

lemma isUnreachable_iff (x : Finding) : isUnreachable x = true ↔ x.problem = .unreachable := by
  rw [isUnreachable]
  split <;> simp_all

def State.unreachable (s : State) : List Finding :=
  s.findings.filter isUnreachable

section Unreachable

variable (s : State)

lemma unreachable_report (p : Position) {problem : Problem} (h : problem ≠ .unreachable) :
    (s.report p problem).unreachable = s.unreachable :=
  List.filter_cons_of_neg fun hx => h ((isUnreachable_iff _).mp hx)

lemma unreachable_declare (name : String) (p : Position) (used : Bool) :
    (s.declare name p used).unreachable = s.unreachable :=
  congrArg (·.filter isUnreachable) (s.declare_findings name p used)

lemma unreachable_closeScope : s.closeScope.unreachable = s.unreachable := by
  rw [State.closeScope]
  split
  · rfl
  · next scope scopes _ =>
    have hnone : (State.neglected scope).filter isUnreachable = [] := by
      rw [List.filter_eq_nil_iff]
      intro x hx
      obtain ⟨v, -, rfl⟩ := List.mem_map.mp hx
      exact Bool.false_ne_true
    change (State.neglected scope ++ s.findings).filter isUnreachable = s.unreachable
    rw [List.filter_append, hnone]
    rfl

lemma unreachable_readVariable (p : Position) (name : String) :
    (s.readVariable p name).unreachable = s.unreachable := by
  rw [State.readVariable]
  split
  · rfl
  · exact unreachable_report s p (by simp)

variable (known : Catalog)

mutual

lemma unreachable_expr (s : State) (e : Expr) : (expr known s e).unreachable = s.unreachable := by
  cases e with
  | var p name => exact unreachable_readVariable s p name
  | array _ items => exact unreachable_exprs s items
  | index _ target i => exact (unreachable_expr _ i).trans (unreachable_expr s target)
  | call p name args =>
    rw [expr]
    split
    · next problem hp =>
      refine (unreachable_report _ p ?_).trans (unreachable_exprs s args)
      rintro rfl
      rw [callProblem?] at hp
      repeat' split at hp
      all_goals cases hp
    · exact unreachable_exprs s args
  | unary _ _ operand => exact unreachable_expr s operand
  | binary _ _ lhs rhs => exact (unreachable_expr _ rhs).trans (unreachable_expr s lhs)
  | logic _ _ lhs rhs => exact (unreachable_expr _ rhs).trans (unreachable_expr s lhs)
  | _ => rfl

lemma unreachable_exprs (s : State) (es : List Expr) : (exprs known s es).unreachable = s.unreachable := by
  cases es with
  | nil => rfl
  | cons e es => exact (unreachable_exprs _ es).trans (unreachable_expr s e)

end

lemma unreachable_assign (t : Target) (value : Expr) :
    (written (expr known (target known s t) value) t).unreachable = s.unreachable := by
  cases t with
  | var p name =>
    rw [written, target]
    split
    · exact unreachable_expr known s value
    · exact (unreachable_report _ p (by simp)).trans (unreachable_expr known s value)
  | index _ target i =>
    exact (unreachable_expr known _ value).trans ((unreachable_expr known _ i).trans (unreachable_expr known s target))

lemma unreachable_jump (inLoop : Bool) (p : Position) (keyword : String) :
    (jump inLoop s p keyword).1.unreachable = s.unreachable := by
  cases inLoop with
  | true => rfl
  | false => exact unreachable_report s p (by simp)

lemma unreachable_params (ps : List (String × Position)) : (ps.foldl param s).unreachable = s.unreachable := by
  induction ps generalizing s with
  | nil => rfl
  | cons q ps ih =>
    rw [List.foldl_cons, ih, param]
    split
    · exact unreachable_report s _ (by simp)
    · exact unreachable_declare s _ _ _

end Unreachable

/-- In code laid out at `w`, the position is that of a statement behind one that the check says never ends. -/
def CutOff (known : Catalog) (c : Context) (w : Station) (xs : List Stmt) (q : Position) : Prop :=
  ∃ v x y ys s, Stands c w xs v (x :: y :: ys) ∧ (stmt known v.inLoop s x).2 = true ∧ y.place = q

section CutOff

variable {known : Catalog} {c : Context}

lemma CutOff.of_block {w w' : Station} {x : Stmt} {body : List Stmt} (hb : (w', body) ∈ w.blocks c x) {s : State}
    {f : Finding} {P : Prop}
    (h : f ∈ s.unreachable ∨ (false = true ∧ P) ∨ CutOff known c w' body f.place) :
    f ∈ s.unreachable ∨ ∃ w' body, (w', body) ∈ w.blocks c x ∧ CutOff known c w' body f.place := by
  rcases h with hs | ⟨hended, -⟩ | hin
  · exact .inl hs
  · cases hended
  · exact .inr ⟨w', body, hb, hin⟩

mutual

lemma stmt_cutOff (w : Station) (s : State) (x : Stmt) {f : Finding}
    (h : f ∈ (stmt known w.inLoop s x).1.unreachable) :
    f ∈ s.unreachable ∨ ∃ w' body, (w', body) ∈ w.blocks c x ∧ CutOff known c w' body f.place := by
  cases x with
  | declare p name init =>
    rw [stmt, unreachable_declare, unreachable_expr] at h
    refine .inl ?_
    split at h
    · rwa [unreachable_report s p (by simp)] at h
    · exact h
  | assign p t value => exact .inl (unreachable_assign s known t value ▸ h)
  | branch p cond body otherwise =>
    let first : Station := { w with start := w.start + (Emit.expr c w.slots w.start cond).size + 1 }
    cases otherwise with
    | none =>
      rw [stmt, unreachable_closeScope] at h
      have hbody := CutOff.of_block (w := w) (x := .branch p cond body none) (.head _) (stmts_cutOff first _ _ _ body h)
      exact hbody.imp_left fun hs => unreachable_expr known s cond ▸ hs
    | some otherwise =>
      let second : Station := { first with start := first.stop c body + 1 }
      have hfirst : (first, body) ∈ w.blocks c (.branch p cond body (some otherwise)) := .head _
      have hsecond : (second, otherwise) ∈ w.blocks c (.branch p cond body (some otherwise)) := .tail _ (.head _)
      rw [stmt, unreachable_closeScope] at h
      rcases CutOff.of_block hsecond (stmts_cutOff second _ _ _ otherwise h) with hs | hin
      · change f ∈ (State.closeScope _).unreachable at hs
        rw [unreachable_closeScope] at hs
        have hbody := CutOff.of_block hfirst (stmts_cutOff first _ _ _ body hs)
        exact hbody.imp_left fun hs => unreachable_expr known s cond ▸ hs
      · exact .inr hin
  | loop p cond body =>
    rw [stmt, unreachable_closeScope] at h
    have hbody := CutOff.of_block (w := w) (x := .loop p cond body) (.head _) (stmts_cutOff _ _ _ _ body h)
    exact hbody.imp_left fun hs => unreachable_expr known s cond ▸ hs
  | count p name first bound body =>
    rw [stmt, unreachable_closeScope, unreachable_closeScope] at h
    have hbody := CutOff.of_block (w := w) (x := .count p name first bound body) (.head _) (stmts_cutOff _ _ _ _ body h)
    refine hbody.imp_left fun hs => ?_
    change f ∈ (Check.expr known _ bound).unreachable at hs
    rw [unreachable_expr, unreachable_declare, unreachable_expr] at hs
    exact hs
  | give p value =>
    cases value with
    | none => exact .inl h
    | some e => exact .inl (unreachable_expr known s e ▸ h)
  | leave p => exact .inl (unreachable_jump s _ _ _ ▸ h)
  | again p => exact .inl (unreachable_jump s _ _ _ ▸ h)
  | block p body =>
    rw [stmt, unreachable_closeScope] at h
    exact CutOff.of_block (w := w) (x := .block p body) (.head _) (stmts_cutOff w false false s.openScope body h)
  | eval p e => exact .inl (unreachable_expr known s e ▸ h)

lemma stmts_cutOff (w : Station) (ended warned : Bool) (s : State) (xs : List Stmt) {f : Finding}
    (h : f ∈ (stmts known w.inLoop ended warned s xs).1.unreachable) :
    f ∈ s.unreachable ∨ (ended = true ∧ warned = false ∧ ∃ y ys, xs = y :: ys ∧ y.place = f.place) ∨
      CutOff known c w xs f.place := by
  cases xs with
  | nil => exact .inl h
  | cons x xs =>
    rw [stmts] at h
    generalize hu : (if ended && !warned then s.report x.place .unreachable else s) = u at h
    rcases stmts_cutOff (w.after c x) _ _ _ xs h with hx | ⟨hended, hwarned, y, ys, rfl, hplace⟩ | hrest
    · rcases stmt_cutOff w u x hx with hstart | ⟨w', body, hb, v, x', y, ys, t, hv, ht, hq⟩
      · subst hu
        split at hstart
        · next hfresh =>
          rw [Bool.and_eq_true, Bool.not_eq_true'] at hfresh
          rcases List.mem_cons.mp (show f ∈ ⟨x.place, .unreachable⟩ :: s.unreachable from hstart) with rfl | hs
          · exact .inr (.inl ⟨hfresh.1, hfresh.2, x, xs, rfl, rfl⟩)
          · exact .inl hs
        · exact .inl hstart
      · exact .inr (.inr ⟨v, x', y, ys, t, .inside hb hv, ht, hq⟩)
    · -- It is `x` that control does not fall out of.
      rw [Bool.or_eq_false_iff] at hwarned
      rw [hwarned.1, Bool.false_or] at hended
      exact .inr (.inr ⟨w, x, y, ys, u, .here, hended, hplace⟩)
    · obtain ⟨v, x', y, ys, t, hv, ht, hq⟩ := hrest
      exact .inr (.inr ⟨v, x', y, ys, t, .later hv, ht, hq⟩)

end

lemma function_cutOff (f : FunctionDecl) {x : Finding} (hx : x ∈ function known f) (hp : x.problem = .unreachable) :
    CutOff known c (.outset c f) f.body x.place := by
  rw [function] at hx
  have hfound := List.mem_filter.mpr ⟨List.mem_reverse.mp hx, (isUnreachable_iff x).mpr hp⟩
  change x ∈ (State.closeScope _).unreachable at hfound
  rw [unreachable_closeScope] at hfound
  rcases stmts_cutOff (.outset c f) false false _ f.body hfound with hs | ⟨hended, -⟩ | hin
  · rw [unreachable_params] at hs
    exact (List.not_mem_nil hs).elim
  · cases hended
  · exact hin

end CutOff

end Check

namespace Compiler

open Machine

/-- In no run does a call of a function go on from code that is laid out at `w` to the address behind it. Only a
`continue` can, if the next round of the loop around the code begins there. -/
def NeverEnds (h : Host) (id : Nat) (w : Station) (code : Code) : Prop :=
  ∀ (rest above above' : List Frame) (s t : State) (f f' : Frame) (k : Nat) (l : Emit.Line), Comes h s →
    step h s = .ok none t → (⟨id, rest⟩ : Activation).Has f above s → (⟨id, rest⟩ : Activation).Has f' above' t →
    f.pc = w.start + k → code[k]? = some l → f'.pc = w.start + code.size → l.op = .again ∧ w.round = f'.pc

/-- In no run is a call of a function at an address from `lo` on and before `hi`. -/
def NeverRuns (h : Host) (id lo hi : Nat) : Prop :=
  ∀ s, Comes h s → ∀ f ∈ s.frames, f.function = id → ¬ (lo ≤ f.pc ∧ f.pc < hi)

lemma Comes.inReach {h : Host} {s : State} (hs : Comes h s) : InReach h s.frames := by
  obtain ⟨name, args, entry, limit, steps, z, -, hcall, hrun⟩ := hs
  exact (InReach.call hcall).advance hrun

section Compiled

variable {known : Catalog} {id : Nat} {d : Definition} {v : Station} {xs : List Stmt}

lemma Compiled.lays_laid {p : Program} (hc : Compiled known p) (hd : known.definitions[id]? = some d)
    (hv : d.decl.Lays (context known) v xs) :
    Laid (Emit.function (context known) d) v.exit v.round v.start (v.code (context known) xs) :=
  hv.laid (hc.body_laid (List.mem_of_getElem? hd) _ _)

variable {h : Host} (hc : Compiled known h.program) (hd : known.definitions[id]? = some d)

include hc hd

lemma Compiled.function : h.program.functions[id]? = some (Emit.function (context known) d) := by
  rw [hc.getElem?, hd, Option.map_some]

variable (hv : d.decl.Lays (context known) v xs)

include hv

lemma Compiled.keeps {frames : List Frame} (hr : InReach h frames) {f : Frame} (hf : f ∈ frames)
    (hid : f.function = id) : Keeps (context known) v xs f.pc := by
  have hg := hc.function hd
  have hready := hc.ready d (List.mem_of_getElem? hd)
  obtain ⟨k, hk⟩ := hr f hf _ (hid ▸ hg)
  obtain ⟨H, hH⟩ := function_heights hc hg
  have hsettled := body_settled hc hready
  have hpc := (hH.reaches hk).1
  rw [function_code_size hsettled] at hpc
  exact (body_flow hc rfl hready).reaches (function_code hsettled) hk hpc v xs hv

lemma Compiled.neverEnds (hdiverges : Stmt.anyDiverges xs = true) :
    NeverEnds h id v (v.code (context known) xs) := by
  intro rest above above' s t f f' k l hs hstep hf hf' hpc hl hend
  have hk := (Array.getElem?_eq_some_iff.mp hl).1
  rcases hf.step hstep hf' with ⟨-, heq, -⟩ | ⟨rfl, g, i, hg, hi, htarget, -⟩
  · omega
  have hkeeps := (hc.keeps hd hv hs.inReach (hf.frames ▸ List.mem_cons_self) hf.function).ends hdiverges k l hpc hl
  obtain rfl := Option.some.inj (hg.symm.trans (hc.function hd))
  have hcode := hc.lays_laid hd hv k l hl
  rw [← hpc, hi] at hcode
  obtain ⟨op, line⟩ := l
  cases op with
  | plain j =>
    obtain rfl : i = j := Option.some.inj hcode
    exact absurd (List.mem_map.mpr ⟨_, htarget, congrArg Spot.at hend⟩) hkeeps
  | leave =>
    -- The exit of a loop is behind all of its code.
    obtain rfl : i = .jump v.exit := Option.some.inj hcode
    have hexit : f'.pc = v.exit := List.mem_singleton.mp htarget
    have hstop := hv.within.2.2 (Station.outset_stop (context known) d.decl)
    rw [Station.stop] at hstop
    omega
  | again =>
    obtain rfl : i = .jump v.round := Option.some.inj hcode
    exact ⟨rfl, (List.mem_singleton.mp htarget).symm⟩

end Compiled

section Behind

variable {known : Catalog} {h : Host} (hc : Compiled known h.program) {id : Nat} {d : Definition}
  (hd : known.definitions[id]? = some d) {v : Station} {x : Stmt} {ys : List Stmt}
  (hv : d.decl.Lays (context known) v (x :: ys)) (hx : x.diverges = true)

include hc hd hv hx

lemma Compiled.never_behind {frames : List Frame} (hr : InReach h frames) {f : Frame} (hf : f ∈ frames)
    (hid : f.function = id) : ¬ ((v.after (context known) x).start ≤ f.pc ∧ f.pc < v.stop (context known) (x :: ys)) :=
  fun ⟨hlo, hhi⟩ => absurd ((hc.keeps hd hv hr hf hid).behind x ys rfl hx hlo) (Nat.not_le.mpr hhi)

lemma Compiled.neverEnds_single : NeverEnds h id v (v.single (context known) x) := by
  intro rest above above' s t f f' k l hs hstep hf hf' hpc hl hend
  have hmem : f' ∈ t.frames := by
    rw [hf'.frames]
    exact List.mem_append_right _ List.mem_cons_self
  have hbehind := hc.never_behind hd hv hx (hs.inReach.step hstep) hmem hf'.function
  have hlast := Station.after_le (c := context known) (w := v) x ys
  have hstop : f'.pc = v.stop (context known) (x :: ys) := by
    change f'.pc = (v.after (context known) x).start at hend
    omega
  have hl' : (v.code (context known) (x :: ys))[k]? = some l := by
    rw [Station.code_cons, Array.getElem?_append_left (Array.getElem?_eq_some_iff.mp hl).1, hl]
  have hdiverges : Stmt.anyDiverges (x :: ys) = true := by rw [Stmt.anyDiverges, hx, Bool.true_or]
  exact hc.neverEnds hd hv hdiverges rest above above' s t f f' k l hs hstep hf hf' hpc hl' hstop

end Behind

variable {limits : CompilerLimits} {session : Nat} {units : List SourceUnit} {p : Program}

/-- What the check says of unreachable code is so. Each statement of a function has its code at some station, with the
rest of its block. Where the check says that control never falls out of these statements, or of the first of them, no
run comes from their code to the end of it, and no run comes to the code behind that first statement. And each statement
that has a warning is right behind one that the check says this of. -/
theorem unreachable_warnings_are_sound (hc : compile limits session units = .ok p) :
    (∀ id d, (source units).definitions[id]? = some d → ∃ g, p.functions[id]? = some g ∧
      (∀ w x, d.decl.Has w x → ∃ v ys, d.decl.Lays (context (source units)) v (x :: ys) ∧ v.inLoop = w.inLoop) ∧
      ∀ v xs, d.decl.Lays (context (source units)) v xs →
        Laid g v.exit v.round v.start (v.code (context (source units)) xs) ∧
        ∀ h : Host, h.program = p →
          (∀ s, (Check.stmts (source units) v.inLoop false false s xs).2 = true →
            NeverEnds h id v (v.code (context (source units)) xs)) ∧
          ∀ s x ys, xs = x :: ys → (Check.stmt (source units) v.inLoop s x).2 = true →
            NeverEnds h id v (v.single (context (source units)) x) ∧
            NeverRuns h id (v.after (context (source units)) x).start (v.stop (context (source units)) xs)) ∧
    ∀ m ∈ p.warnings, m.message = Problem.unreachable.message →
      ∃ (id : Nat) (d : Definition) (v : Station) (x y : Stmt) (ys : List Stmt) (s : Check.State),
        (source units).definitions[id]? = some d ∧ d.decl.Lays (context (source units)) v (x :: y :: ys) ∧
        (Check.stmt (source units) v.inLoop s x).2 = true ∧
        m = Finding.toDiagnostic d.unit ⟨y.place, .unreachable⟩ := by
  have hcompiled := (compile_ok hc).1
  refine ⟨fun id d hd => ?_, fun m hm hmessage => ?_⟩
  · refine ⟨Emit.function (context (source units)) d, ?_, fun w x hx => hx.exists_station rfl,
      fun v xs hv => ⟨hcompiled.lays_laid hd hv, ?_⟩⟩
    · rw [hcompiled.getElem?, hd, Option.map_some]
    rintro h rfl
    refine ⟨fun s hs => ?_, ?_⟩
    · have hdiverges := (Check.stmts_diverges _ _ _ _ s xs hs).resolve_left Bool.false_ne_true
      exact hcompiled.neverEnds hd hv hdiverges
    · rintro s x ys rfl hs
      have hx := Check.stmt_diverges _ _ s x hs
      exact ⟨hcompiled.neverEnds_single hd hv hx, fun t ht f hf hid =>
        hcompiled.never_behind hd hv hx ht.inReach hf hid⟩
  · rw [compile_warnings hc, checkAll] at hm
    obtain ⟨d, hd, hm⟩ := List.mem_flatMap.mp hm
    obtain ⟨f, hf, rfl⟩ := List.mem_map.mp hm
    obtain ⟨id, hid⟩ := List.mem_iff_getElem?.mp hd
    rcases hcompiled.warns hd hf with ⟨name, hp⟩ | hp
    · rw [Finding.toDiagnostic, hp] at hmessage
      exact absurd hmessage.symm (unreachable_ne_unused name)
    · obtain ⟨v, x, y, ys, s, hv, hs, hq⟩ := Check.function_cutOff (c := context (source units)) d.decl hf hp
      exact ⟨id, d, v, x, y, ys, s, hid, hv, hs, by rw [hq, ← hp]⟩

def jumping : SourceUnit :=
  ⟨"m", "fn main(n) { for i in 0..n { if i == 2 { break; } else { continue; } return i; } return n; }", true⟩

def jumpingChoice : Stmt :=
  .branch ⟨1, 30⟩ (.binary ⟨1, 35⟩ .eq (.var ⟨1, 33⟩ "i") (.int ⟨1, 38⟩ 2)) [.leave ⟨1, 42⟩] (some [.again ⟨1, 58⟩])

def jumpingLoop : Stmt :=
  .count ⟨1, 14⟩ "i" (.int ⟨1, 23⟩ 0) (.var ⟨1, 26⟩ "n") [jumpingChoice, .give ⟨1, 70⟩ (some (.var ⟨1, 77⟩ "i"))]

def jumpingMain : FunctionDecl where
  name := "main"
  params := [("n", ⟨1, 9⟩)]
  body := [jumpingLoop, .give ⟨1, 82⟩ (some (.var ⟨1, 89⟩ "n"))]
  place := ⟨1, 1⟩

set_option maxRecDepth 100000 in
lemma jumping_definitions : (source [jumping]).definitions = [⟨"m", jumpingMain⟩] := by
  cbv

def jumpingRound : Station :=
  ⟨true, ((Slots.ofParams ["n"]).declare "i").declare "", 8, 22, 17⟩

lemma jumping_lays (c : Context) :
    jumpingMain.Lays c jumpingRound [jumpingChoice, .give ⟨1, 70⟩ (some (.var ⟨1, 77⟩ "i"))] := by
  refine .inside ?_ .here
  simp [jumpingLoop, jumpingChoice, jumpingRound, jumpingMain, Station.outset, FunctionDecl.paramNames, Station.blocks,
    Station.stop, Station.code, stmts, stmt, expr]

lemma jumping_stop (c : Context) : (jumpingRound.after c jumpingChoice).start = 15 ∧
    jumpingRound.stop c [jumpingChoice, .give ⟨1, 70⟩ (some (.var ⟨1, 77⟩ "i"))] = 17 := by
  simp [jumpingChoice, jumpingRound, Station.after, Station.single, Station.stop, Station.code, stmts, stmt, expr]

theorem unreachable_warnings_are_sound_jumping : ∃ p, compile {} 0 [jumping] = .ok p ∧
    ⟨"m", 1, 70, .warning, "unreachable statement"⟩ ∈ p.warnings ∧
    ∀ h : Host, h.program = p → NeverRuns h 0 15 17 ∧
      NeverEnds h 0 jumpingRound (jumpingRound.single (context (source [jumping])) jumpingChoice) := by
  have hok : (compile {} 0 [jumping]).isOk = true := by decide +kernel
  obtain ⟨p, hp⟩ := exists_ok hok
  refine ⟨p, hp, ?_, fun h hh => ?_⟩
  · rw [compile_warnings hp, checkAll, jumping_definitions]
    decide +kernel
  · obtain ⟨hsound, -⟩ := unreachable_warnings_are_sound hp
    obtain ⟨g, -, -, hblocks⟩ := hsound 0 ⟨"m", jumpingMain⟩ (by rw [jumping_definitions]; rfl)
    obtain ⟨-, hruns⟩ := hblocks _ _ (jumping_lays _)
    have hends : (Check.stmt (source [jumping]) true ⟨[[]], []⟩ jumpingChoice).2 = true := by
      simp [jumpingChoice, Check.stmt, Check.stmts, Check.jump]
    obtain ⟨hchoice, hbehind⟩ := (hruns h hh).2 _ _ _ rfl hends
    obtain ⟨hstart, hstop⟩ := jumping_stop (context (source [jumping]))
    rw [hstart, hstop] at hbehind
    exact ⟨hbehind, hchoice⟩

end Compiler

end ScriptHost
