import Mathlib.Data.List.Nodup
import Mathlib.Tactic.Lemma
import ScriptHost.Compile.Check

/-!
The rules on names, loops and calls, without a walk. A function keeps them exactly when the check finds
nothing but warnings.
-/

namespace ScriptHost

def CallFits (known : Catalog) (name : String) (argc : Nat) : Prop :=
  argc ≤ argumentLimit ∧
    match Builtin.ofName? name with
    | some b => b.arity.1 ≤ argc ∧ argc ≤ b.arity.2
    | none => ∃ id d, known.find? name = some (id, d) ∧ d.decl.arity = argc

mutual

def Expr.Proper (known : Catalog) (names : List String) : Expr → Prop
  | .var _ name => name ∈ names
  | .array _ items => Expr.AllProper known names items
  | .index _ target i => target.Proper known names ∧ i.Proper known names
  | .call _ name args => Expr.AllProper known names args ∧ CallFits known name args.length
  | .unary _ _ operand => operand.Proper known names
  | .binary _ _ lhs rhs => lhs.Proper known names ∧ rhs.Proper known names
  | .logic _ _ lhs rhs => lhs.Proper known names ∧ rhs.Proper known names
  | _ => True

def Expr.AllProper (known : Catalog) (names : List String) : List Expr → Prop
  | [] => True
  | e :: es => e.Proper known names ∧ Expr.AllProper known names es

end

def Target.Proper (known : Catalog) (names : List String) : Target → Prop
  | .var _ name => name ∈ names
  | .index _ target i => target.Proper known names ∧ i.Proper known names

abbrev Scopes := List (List String)

def Scopes.declare (scopes : Scopes) (name : String) : Scopes :=
  match scopes with
  | [] => []
  | scope :: scopes => (name :: scope) :: scopes

def Stmt.scopes (scopes : Scopes) : Stmt → Scopes
  | .declare _ name _ => scopes.declare name
  | _ => scopes

mutual

def Stmt.Proper (known : Catalog) (inLoop : Bool) (scopes : Scopes) : Stmt → Prop
  | .declare _ name init => name ∉ scopes.headD [] ∧ init.Proper known scopes.flatten
  | .assign _ t value => t.Proper known scopes.flatten ∧ value.Proper known scopes.flatten
  | .branch _ cond body none =>
    cond.Proper known scopes.flatten ∧ Stmt.AllProper known inLoop ([] :: scopes) body
  | .branch _ cond body (some otherwise) =>
    cond.Proper known scopes.flatten ∧ Stmt.AllProper known inLoop ([] :: scopes) body ∧
      Stmt.AllProper known inLoop ([] :: scopes) otherwise
  | .loop _ cond body =>
    cond.Proper known scopes.flatten ∧ Stmt.AllProper known true ([] :: scopes) body
  | .count _ name first bound body =>
    first.Proper known scopes.flatten ∧ bound.Proper known (name :: scopes.flatten) ∧
      Stmt.AllProper known true ([] :: [name] :: scopes) body
  | .give _ none => True
  | .give _ (some value) => value.Proper known scopes.flatten
  | .leave _ => inLoop = true
  | .again _ => inLoop = true
  | .block _ body => Stmt.AllProper known inLoop ([] :: scopes) body
  | .eval _ value => value.Proper known scopes.flatten

def Stmt.AllProper (known : Catalog) (inLoop : Bool) (scopes : Scopes) : List Stmt → Prop
  | [] => True
  | s :: body => s.Proper known inLoop scopes ∧ Stmt.AllProper known inLoop (s.scopes scopes) body

end

namespace FunctionDecl

def paramNames (f : FunctionDecl) : List String :=
  f.params.map (·.1)

structure Proper (known : Catalog) (f : FunctionDecl) : Prop where
  params : f.paramNames.Nodup
  body : Stmt.AllProper known false [f.paramNames.reverse] f.body

end FunctionDecl

namespace Check

lemma useIn_none (name : String) (vs : List Variable) :
    useIn name vs = none ↔ name ∉ vs.map (·.name) := by
  induction vs with
  | nil => simp [useIn]
  | cons v vs ih =>
    rw [useIn, List.map_cons, List.mem_cons, not_or, ← ih]
    split
    · next h => simp [(beq_iff_eq.mp h).symm]
    · next h => simp [Ne.symm (fun e => h (beq_iff_eq.mpr e))]

lemma useIn_some (name : String) (vs us : List Variable) (h : useIn name vs = some us) :
    us.map (·.name) = vs.map (·.name) := by
  induction vs generalizing us with
  | nil => cases h
  | cons v vs ih =>
    rw [useIn] at h
    split at h
    · cases h
      rfl
    · obtain ⟨ws, hws, rfl⟩ := Option.map_eq_some_iff.mp h
      simp [ih ws hws]

def names (scopes : List (List Variable)) : Scopes :=
  scopes.map fun vs => vs.map (·.name)

lemma useAmong_none (name : String) (scopes : List (List Variable)) :
    useAmong name scopes = none ↔ name ∉ (names scopes).flatten := by
  induction scopes with
  | nil => simp [useAmong, names]
  | cons vs scopes ih =>
    have hvs := useIn_none name vs
    rw [useAmong]
    split <;> simp_all [names]

lemma useAmong_some (name : String) (scopes used : List (List Variable))
    (h : useAmong name scopes = some used) : names used = names scopes := by
  induction scopes generalizing used with
  | nil => cases h
  | cons vs scopes ih =>
    rw [useAmong] at h
    split at h
    · next us hus =>
      cases h
      simp [names, useIn_some name vs us hus]
    · obtain ⟨ws, hws, rfl⟩ := Option.map_eq_some_iff.mp h
      have := ih ws hws
      simp_all [names]

lemma callProblem?_none (known : Catalog) (name : String) (argc : Nat) :
    callProblem? known name argc = none ↔ CallFits known name argc := by
  rw [callProblem?, CallFits]
  by_cases h : argc > argumentLimit
  · rw [if_pos h]
    exact iff_of_false (by simp) fun hf => absurd hf.1 (Nat.not_le_of_gt h)
  · cases hb : Builtin.ofName? name with
    | some b => simp [h, Nat.le_of_not_gt h]
    | none =>
      cases hf : known.find? name with
      | none => simp [h]
      | some d =>
        obtain ⟨id, d⟩ := d
        simp only [h, if_false, Option.some.injEq, Prod.mk.injEq, ite_eq_left_iff, reduceCtorEq, imp_false,
          Decidable.not_not, Nat.le_of_not_gt h, true_and]
        exact ⟨fun hd => ⟨id, d, ⟨rfl, rfl⟩, hd⟩, fun ⟨_, _, ⟨_, hd⟩, ha⟩ => hd ▸ ha⟩

namespace State

def names (s : State) : Scopes :=
  Check.names s.scopes

def Clean (s : State) : Prop :=
  ∀ x ∈ s.findings, x.problem.severity = .warning

lemma clean_report (s : State) (p : Position) (problem : Problem) :
    (s.report p problem).Clean ↔ s.Clean ∧ problem.severity = .warning := by
  simp [Clean, report, and_comm]

end State

/-- Going from `s` to `t` leaves the names `scopes` and adds an error unless `rule` holds. -/
structure Passes (s t : State) (scopes : Scopes) (rule : Prop) : Prop where
  names : t.names = scopes
  clean : t.Clean ↔ s.Clean ∧ rule

section Passes

variable {s t u : State} {scopes scopes' : Scopes} {rule rule' : Prop}

lemma Passes.refl (s : State) : Passes s s s.names True :=
  ⟨rfl, by simp⟩

lemma Passes.trans (h : Passes s t scopes rule) (h' : Passes t u scopes' rule') :
    Passes s u scopes' (rule ∧ rule') := by
  refine ⟨h'.names, ?_⟩
  rw [h'.clean, h.clean, and_assoc]

lemma Passes.congr (h : Passes s t scopes rule) (hs : scopes = scopes') (hr : rule ↔ rule') :
    Passes s t scopes' rule' :=
  ⟨h.names.trans hs, h.clean.trans (and_congr_right fun _ => hr)⟩

lemma passes_report (s : State) (p : Position) {problem : Problem}
    (h : problem.severity = .error) : Passes s (s.report p problem) s.names False := by
  refine ⟨rfl, ?_⟩
  rw [State.clean_report, h]
  simp

lemma passes_warn (s : State) (p : Position) {problem : Problem}
    (h : problem.severity = .warning) : Passes s (s.report p problem) s.names True := by
  refine ⟨rfl, ?_⟩
  rw [State.clean_report, h]
  simp

lemma passes_readVariable (s : State) (p : Position) (name : String) :
    Passes s (s.readVariable p name) s.names (name ∈ s.names.flatten) := by
  rw [State.readVariable]
  split
  · next used h =>
    have hmem : name ∈ s.names.flatten := Classical.byContradiction fun hn => by
      rw [(useAmong_none name s.scopes).mpr hn] at h
      cases h
    exact ⟨useAmong_some name s.scopes used h, by simp [State.Clean, hmem]⟩
  · next h =>
    have hn := (useAmong_none name s.scopes).mp h
    exact (passes_report s p rfl).congr rfl (iff_of_false not_false hn)

lemma passes_openScope (s : State) : Passes s s.openScope ([] :: s.names) True :=
  ⟨rfl, by simp [State.Clean, State.openScope]⟩

lemma passes_declare (s : State) (name : String) (p : Position) (used : Bool) :
    Passes s (s.declare name p used) (s.names.declare name) True := by
  rw [State.declare]
  split
  · next h => exact ⟨by simp [State.names, names, h, Scopes.declare], by simp⟩
  · next h => exact ⟨by simp [State.names, names, h, Scopes.declare], by simp [State.Clean]⟩

lemma passes_closeScope (s : State) : Passes s s.closeScope s.names.tail True := by
  rw [State.closeScope]
  split
  · next h => exact ⟨by simp [State.names, names, h], by simp⟩
  · next h =>
    refine ⟨by simp [State.names, names, h], ?_⟩
    simp only [State.Clean, List.mem_append, List.mem_map]
    constructor
    · exact fun hc => ⟨fun x hx => hc x (.inr hx), trivial⟩
    · rintro ⟨hc, -⟩ x (⟨v, -, rfl⟩ | hx)
      · rfl
      · exact hc x hx

lemma inScope_iff (s : State) (name : String) : s.inScope name = true ↔ name ∈ s.names.flatten := by
  simp [State.inScope, State.names, names, binds, ← List.flatMap_def]

lemma inInnermost_iff (s : State) (name : String) :
    s.inInnermost name = true ↔ name ∈ s.names.headD [] := by
  cases h : s.scopes <;> simp [State.inInnermost, State.names, names, binds, h]

end Passes

variable (known : Catalog)

mutual

lemma passes_expr (s : State) (e : Expr) :
    Passes s (expr known s e) s.names (e.Proper known s.names.flatten) := by
  cases e with
  | int => exact Passes.refl s
  | str => exact Passes.refl s
  | bool => exact Passes.refl s
  | nil => exact Passes.refl s
  | var p name => exact passes_readVariable s p name
  | array _ items => exact passes_exprs s items
  | index _ target i =>
    have h := passes_expr s target
    have h' := passes_expr (expr known s target) i
    rw [h.names] at h'
    exact h.trans h'
  | call p name args =>
    have h := passes_exprs s args
    have hc := callProblem?_none known name args.length
    rw [expr]
    split
    · next problem hp =>
      have hsev : problem.severity = .error := by
        rw [callProblem?] at hp
        repeat' split at hp
        all_goals cases hp <;> rfl
      have hfits : ¬ CallFits known name args.length := fun hf => by
        rw [hc.mpr hf] at hp
        cases hp
      have h' := passes_report (exprs known s args) p hsev
      rw [h.names] at h'
      exact (h.trans h').congr rfl (and_congr_right fun _ => iff_of_false not_false hfits)
    · next hp => exact h.congr rfl (iff_self_and.mpr fun _ => hc.mp hp)
  | unary _ _ operand => exact passes_expr s operand
  | binary _ _ lhs rhs =>
    have h := passes_expr s lhs
    have h' := passes_expr (expr known s lhs) rhs
    rw [h.names] at h'
    exact h.trans h'
  | logic _ _ lhs rhs =>
    have h := passes_expr s lhs
    have h' := passes_expr (expr known s lhs) rhs
    rw [h.names] at h'
    exact h.trans h'

lemma passes_exprs (s : State) (es : List Expr) :
    Passes s (exprs known s es) s.names (Expr.AllProper known s.names.flatten es) := by
  cases es with
  | nil => exact Passes.refl s
  | cons e es =>
    have h := passes_expr s e
    have h' := passes_exprs (expr known s e) es
    rw [h.names] at h'
    exact h.trans h'

end

lemma passes_target (s : State) (t : Target) (value : Expr) :
    Passes s (written (expr known (target known s t) value) t) s.names
      (t.Proper known s.names.flatten ∧ value.Proper known s.names.flatten) := by
  cases t with
  | var p name =>
    have h := passes_expr known s value
    change Passes s (if (expr known s value).inScope name then expr known s value
      else (expr known s value).report p (.undefinedVariable name)) _ _
    have hn := inScope_iff (expr known s value) name
    rw [h.names] at hn
    split
    · next hin => exact h.congr rfl (and_iff_right (hn.mp hin)).symm
    · next hin =>
      have h' := passes_report (expr known s value) p
        (show (Problem.undefinedVariable name).severity = .error from rfl)
      rw [h.names] at h'
      apply (h.trans h').congr rfl
      exact iff_of_false (fun hf => hf.2) fun hp => hin (hn.mpr hp.1)
  | index p target i =>
    have h := passes_expr known s target
    have h' := passes_expr known (expr known s target) i
    rw [h.names] at h'
    have h'' := passes_expr known (expr known (expr known s target) i) value
    rw [h'.names] at h''
    exact ((h.trans h').trans h'').congr rfl Iff.rfl

lemma passes_jump (inLoop : Bool) (s : State) (p : Position) (keyword : String) :
    Passes s (jump inLoop s p keyword).1 s.names (inLoop = true) := by
  cases inLoop with
  | true => exact (Passes.refl s).congr rfl (by simp)
  | false => exact (passes_report s p rfl).congr rfl (by simp)

lemma passes_fresh (s : State) (p : Position) (name : String) :
    Passes s (if s.inInnermost name then s.report p (.alreadyInScope name) else s) s.names
      (name ∉ s.names.headD []) := by
  have hn := inInnermost_iff s name
  split
  · next h =>
    exact (passes_report s p rfl).congr rfl (iff_of_false not_false fun hf => hf (hn.mp h))
  · next h =>
    exact (Passes.refl s).congr rfl (iff_of_true trivial fun hm => h (hn.mpr hm))

lemma Passes.block {s t u : State} {scopes : Scopes} {rule rule' : Prop} (h : Passes s t scopes rule)
    (hb : ∃ scope, Passes t.openScope u (scope :: scopes) rule') :
    Passes s u.closeScope scopes (rule ∧ rule') := by
  obtain ⟨scope, hb⟩ := hb
  have h' := ((h.trans (passes_openScope t)).trans hb).trans (passes_closeScope u)
  rw [hb.names] at h'
  exact h'.congr rfl (by simp)

lemma Stmt.scopes_cons (x : Stmt) (scope : List String) (scopes : Scopes) :
    ∃ scope', x.scopes (scope :: scopes) = scope' :: scopes := by
  cases x <;> exact ⟨_, rfl⟩

mutual

lemma passes_stmt (inLoop : Bool) (s : State) {scope : List String} {scopes : Scopes}
    (hs : s.names = scope :: scopes) (x : Stmt) :
    Passes s (stmt known inLoop s x).1 (x.scopes (scope :: scopes))
      (x.Proper known inLoop (scope :: scopes)) := by
  cases x with
  | declare p name init =>
    have h := passes_fresh s p name
    have h' := passes_expr known (if s.inInnermost name then s.report p (.alreadyInScope name) else s) init
    rw [h.names] at h'
    have h'' := passes_declare (expr known
      (if s.inInnermost name then s.report p (.alreadyInScope name) else s) init) name p false
    rw [h'.names] at h''
    rw [← hs]
    exact ((h.trans h').trans h'').congr rfl (by rw [and_true]; rfl)
  | assign p t value =>
    have h := passes_target known s t value
    rw [hs] at h
    exact h
  | branch p cond body otherwise =>
    have h := passes_expr known s cond
    rw [hs] at h
    have hb := passes_stmts inLoop false false (expr known s cond).openScope
      ((passes_openScope _).names.trans (congrArg _ h.names)) body
    have h' := h.block hb
    cases otherwise with
    | none =>
      rw [stmt]
      exact h'
    | some otherwise =>
      have ho := passes_stmts inLoop false false
        (stmts known inLoop false false (expr known s cond).openScope body).1.closeScope.openScope
        ((passes_openScope _).names.trans (congrArg _ h'.names)) otherwise
      rw [stmt]
      exact (h'.block ho).congr rfl and_assoc
  | loop p cond body =>
    have h := passes_expr known s cond
    rw [hs] at h
    have hb := passes_stmts true false false (expr known s cond).openScope
      ((passes_openScope _).names.trans (congrArg _ h.names)) body
    rw [stmt]
    exact h.block hb
  | count p name first bound body =>
    have h₁ := passes_openScope s
    have h₂ := passes_expr known s.openScope first
    have h₃ := passes_declare (expr known s.openScope first) name p false
    have h₄ := passes_expr known ((expr known s.openScope first).declare name p false) bound
    rw [h₁.names] at h₂
    rw [h₂.names] at h₃
    rw [h₃.names, hs] at h₄
    have hb := passes_stmts true false false
      (expr known ((expr known s.openScope first).declare name p false) bound).openScope
      ((passes_openScope _).names.trans (congrArg _ h₄.names)) body
    have hi := (((h₁.trans h₂).trans h₃).trans h₄).block hb
    have h := hi.trans (passes_closeScope _)
    rw [hi.names] at h
    rw [hs] at h
    rw [stmt]
    exact h.congr rfl (by simp [Stmt.Proper, Scopes.declare, and_assoc])
  | give p value =>
    cases value with
    | none => exact (Passes.refl s).congr hs Iff.rfl
    | some value =>
      have h := passes_expr known s value
      rw [hs] at h
      exact h
  | leave p => exact (passes_jump inLoop s p "break").congr hs Iff.rfl
  | again p => exact (passes_jump inLoop s p "continue").congr hs Iff.rfl
  | block p body =>
    have hb := passes_stmts inLoop false false s.openScope
      ((passes_openScope _).names.trans (congrArg _ hs)) body
    rw [stmt]
    exact (((Passes.refl s).congr hs Iff.rfl).block hb).congr rfl (iff_of_eq (true_and _))
  | eval p value =>
    have h := passes_expr known s value
    rw [hs] at h
    exact h

lemma passes_stmts (inLoop ended warned : Bool) (s : State) {scope : List String} {scopes : Scopes}
    (hs : s.names = scope :: scopes) (body : List Stmt) :
    ∃ scope', Passes s (stmts known inLoop ended warned s body).1 (scope' :: scopes)
      (Stmt.AllProper known inLoop (scope :: scopes) body) := by
  cases body with
  | nil => exact ⟨scope, (Passes.refl s).congr hs Iff.rfl⟩
  | cons x xs =>
    have hw : Passes s (if ended && !warned then s.report x.place .unreachable else s)
        (scope :: scopes) True := by
      split
      · exact (passes_warn s x.place rfl).congr hs Iff.rfl
      · exact (Passes.refl s).congr hs Iff.rfl
    have hx := passes_stmt inLoop _ hw.names x
    obtain ⟨scope', hscope⟩ := Stmt.scopes_cons x scope scopes
    rw [stmts]
    obtain ⟨scope'', hxs⟩ := passes_stmts inLoop
      (ended || (stmt known inLoop
        (if ended && !warned then s.report x.place .unreachable else s) x).2) (ended || warned) _
      (hx.names.trans hscope) xs
    refine ⟨scope'', ((hw.trans hx).trans hxs).congr rfl ?_⟩
    rw [Stmt.AllProper, hscope, true_and]

end

lemma passes_params (ps : List (String × Position)) (s : State) {scope : List String}
    (hs : s.names = [scope]) (hd : scope.Nodup) :
    ∃ scope', Passes s (ps.foldl param s) [scope'] ((ps.map (·.1)).reverse ++ scope).Nodup ∧
      (((ps.map (·.1)).reverse ++ scope).Nodup → scope' = (ps.map (·.1)).reverse ++ scope) := by
  induction ps generalizing s scope with
  | nil => exact ⟨scope, (Passes.refl s).congr hs (by simpa using hd), fun _ => rfl⟩
  | cons q ps ih =>
    have hn := inInnermost_iff s q.1
    rw [hs, List.headD_cons] at hn
    rw [List.map_cons, List.reverse_cons, List.append_assoc, List.singleton_append, List.foldl_cons, param]
    by_cases hq : q.1 ∈ scope
    · rw [if_pos (hn.mpr hq)]
      have hr := passes_report s q.2 (show (Problem.duplicateParameter q.1).severity = .error from rfl)
      have hrep : ¬ ((ps.map (·.1)).reverse ++ q.1 :: scope).Nodup := fun hnd =>
        (List.nodup_cons.mp (List.nodup_append.mp hnd).2.1).1 hq
      obtain ⟨scope', h, -⟩ := ih _ (hr.names.trans hs) hd
      exact ⟨scope', (hr.trans h).congr rfl (iff_of_false And.left hrep), fun hnd => absurd hnd hrep⟩
    · rw [if_neg (fun h => hq (hn.mp h))]
      have hdecl := passes_declare s q.1 q.2 true
      rw [hs] at hdecl
      obtain ⟨scope', h, heq⟩ := ih _ hdecl.names (List.nodup_cons.mpr ⟨hq, hd⟩)
      exact ⟨scope', (hdecl.trans h).congr rfl (iff_of_eq (true_and _)), heq⟩

theorem function_clean_iff (f : FunctionDecl) :
    (∀ x ∈ function known f, x.problem.severity = .warning) ↔ f.Proper known := by
  have hnames : State.names ⟨[[]], []⟩ = [[]] := rfl
  obtain ⟨scope, hp, hscope⟩ := passes_params f.params _ hnames List.nodup_nil
  obtain ⟨scope', hb⟩ := passes_stmts known false false false (f.params.foldl param ⟨[[]], []⟩)
    hp.names f.body
  have h := (hp.trans hb).trans (passes_closeScope _)
  rw [List.append_nil] at h hscope
  have hclean : (∀ x ∈ function known f, x.problem.severity = .warning) ↔ _ :=
    (forall_congr' fun x => by rw [function, List.mem_reverse]).trans h.clean
  rw [hclean]
  constructor
  · rintro ⟨-, ⟨hnd, hbody⟩, -⟩
    rw [hscope hnd] at hbody
    exact ⟨List.nodup_reverse.mp hnd, hbody⟩
  · rintro ⟨hnd, hbody⟩
    have hnd' := List.nodup_reverse.mpr hnd
    refine ⟨fun x hx => (List.not_mem_nil hx).elim, ⟨hnd', ?_⟩, trivial⟩
    rw [hscope hnd']
    exact hbody

end Check

end ScriptHost
