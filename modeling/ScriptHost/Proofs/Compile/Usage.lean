import Mathlib.Data.List.Permutation
import ScriptHost.Proofs.Compile.Order
import ScriptHost.Proofs.Compile.Stores
import ScriptHost.Proofs.Syntax.Rename

/-!
Variables that nobody reads. Which declaration a name stands for is told by the tree alone: a statement reads the
variables from outside that its expressions mention, and a declaration keeps those of its own name to itself. The
warnings are those declarations whose scope does not read them.
-/

namespace ScriptHost

/-- An element is read before it is written; a variable is only written. -/
def Target.reads : Target → List String
  | .var _ _ => []
  | .index _ target i => target.mentions ++ i.mentions

mutual

def Stmt.reads : Stmt → List String
  | .declare _ _ init => init.mentions
  | .assign _ t value => t.reads ++ value.mentions
  | .branch _ cond body none => cond.mentions ++ Stmt.allReads body
  | .branch _ cond body (some otherwise) => cond.mentions ++ Stmt.allReads body ++ Stmt.allReads otherwise
  | .loop _ cond body => cond.mentions ++ Stmt.allReads body
  | .count _ name first bound body =>
    first.mentions ++ (bound.mentions ++ Stmt.allReads body).filter (· ≠ name)
  | .give _ none => []
  | .give _ (some e) => e.mentions
  | .leave _ => []
  | .again _ => []
  | .block _ body => Stmt.allReads body
  | .eval _ e => e.mentions

def Stmt.allReads : List Stmt → List String
  | [] => []
  | x :: xs => x.reads ++ x.outside (Stmt.allReads xs)

end

/-- A declaration, and the variables from outside that its scope reads. -/
structure Local where
  place : Position
  name : String
  reads : List String

namespace Local

/-- Nobody reads it, and its name does not say that this is meant. -/
def isUnread (v : Local) : Bool :=
  v.name ∉ v.reads && v.name.toList.head? != some '_'

def finding (v : Local) : Finding :=
  ⟨v.place, .unusedVariable v.name⟩

end Local

mutual

/-- The declarations of a statement, given what the statements behind it read. -/
def Stmt.locals (behind : List String) : Stmt → List Local
  | .declare p name _ => [⟨p, name, behind⟩]
  | .branch _ _ body none => Stmt.allLocals body
  | .branch _ _ body (some otherwise) => Stmt.allLocals body ++ Stmt.allLocals otherwise
  | .loop _ _ body => Stmt.allLocals body
  | .count p name _ bound body => ⟨p, name, bound.mentions ++ Stmt.allReads body⟩ :: Stmt.allLocals body
  | .block _ body => Stmt.allLocals body
  | _ => []

def Stmt.allLocals : List Stmt → List Local
  | [] => []
  | x :: xs => x.locals (Stmt.allReads xs) ++ Stmt.allLocals xs

end

namespace Check

def use (name : String) (scopes : List (List Variable)) : List (List Variable) :=
  (useAmong name scopes).getD scopes

def useAll (names : List String) (scopes : List (List Variable)) : List (List Variable) :=
  names.foldl (fun scopes name => use name scopes) scopes

def extend (new : List Variable) : List (List Variable) → List (List Variable)
  | [] => []
  | scope :: scopes => (new ++ scope) :: scopes

lemma extend_nil (scopes : List (List Variable)) : extend [] scopes = scopes := by
  cases scopes <;> rfl

lemma extend_extend (new old : List Variable) (scopes : List (List Variable)) :
    extend new (extend old scopes) = extend (new ++ old) scopes := by
  cases scopes with
  | nil => rfl
  | cons scope scopes => rw [extend, extend, extend, List.append_assoc]

lemma useAll_append (names names' : List String) (scopes : List (List Variable)) :
    useAll (names ++ names') scopes = useAll names' (useAll names scopes) :=
  List.foldl_append

lemma use_enter (name : String) (scopes : List (List Variable)) : use name ([] :: scopes) = [] :: use name scopes := by
  rw [use, use, useAmong, useIn]
  cases useAmong name scopes <;> rfl

lemma useAll_enter (names : List String) (scopes : List (List Variable)) :
    useAll names ([] :: scopes) = [] :: useAll names scopes := by
  induction names generalizing scopes with
  | nil => rfl
  | cons name names ih => exact (congrArg (useAll names) (use_enter name scopes)).trans (ih (use name scopes))

lemma use_extend (name : String) (v : Variable) (scopes : List (List Variable)) :
    use name (extend [v] scopes) =
      if v.name = name then extend [{ v with used := true }] scopes else extend [v] (use name scopes) := by
  cases scopes with
  | nil => simp [use, extend, useAmong]
  | cons scope scopes =>
    by_cases hv : v.name = name
    · simp [use, extend, useAmong, useIn, hv]
    · rw [if_neg hv, use, use, extend, List.singleton_append, useAmong, useAmong, useIn,
        if_neg fun h => hv (beq_iff_eq.mp h)]
      cases useIn name scope with
      | some used => rfl
      | none => cases useAmong name scopes <;> rfl

lemma useAll_extend (names : List String) (v : Variable) (scopes : List (List Variable)) :
    useAll names (extend [v] scopes) =
      extend [{ v with used := v.used || decide (v.name ∈ names) }] (useAll (names.filter (· ≠ v.name)) scopes) := by
  induction names generalizing v scopes with
  | nil => simp [useAll]
  | cons name names ih =>
    have hstep : useAll (name :: names) (extend [v] scopes) = useAll names (use name (extend [v] scopes)) := rfl
    rw [hstep, use_extend]
    by_cases hv : v.name = name
    · rw [if_pos hv, ih, List.filter_cons_of_neg (by simp [hv])]
      simp [hv]
    · rw [if_neg hv, ih, List.filter_cons_of_pos (by simpa using Ne.symm hv)]
      simp [hv, useAll]

def isUnused (x : Finding) : Bool :=
  match x.problem with
  | .unusedVariable _ => true
  | _ => false

namespace State

def unused (s : State) : List Finding :=
  s.findings.filter isUnused

def neglected (scope : List Variable) : List Finding :=
  (scope.filter isNeglected).map fun v => ⟨v.place, .unusedVariable v.name⟩

lemma neglected_append (scope scope' : List Variable) :
    neglected (scope ++ scope') = neglected scope ++ neglected scope' := by
  rw [neglected, List.filter_append, List.map_append]
  rfl

lemma unused_neglected (scope : List Variable) : (neglected scope).filter isUnused = neglected scope := by
  rw [List.filter_eq_self]
  intro x hx
  obtain ⟨v, -, rfl⟩ := List.mem_map.mp hx
  rfl

lemma declare_scopes (s : State) (name : String) (p : Position) (used : Bool) :
    (s.declare name p used).scopes = extend [⟨name, p, used⟩] s.scopes := by
  rw [declare]
  cases hs : s.scopes with
  | nil => exact hs
  | cons => rfl

lemma declare_findings (s : State) (name : String) (p : Position) (used : Bool) :
    (s.declare name p used).findings = s.findings := by
  rw [declare]
  split <;> rfl

end State

/-- From one state to another some variables come into the innermost scope, some names are read, and some variables
are known to be unread: those that have left their scope, and those of the new ones that nobody has read. -/
structure Walk (s t : State) (new : List Variable) (reads : List String) (found : List Local) : Prop where
  scopes : t.scopes = extend new (useAll reads s.scopes)
  findings : (State.neglected new ++ t.unused).Perm ((found.filter Local.isUnread).map Local.finding ++ s.unused)

section Walk

variable {s t u : State} {new : List Variable} {reads reads' : List String} {found found' : List Local}

lemma Walk.refl (s : State) : Walk s s [] [] [] :=
  ⟨(extend_nil _).symm, .refl _⟩

lemma Walk.trans (h : Walk s t [] reads found) (h' : Walk t u new reads' found') :
    Walk s u new (reads ++ reads') (found ++ found') where
  scopes := by rw [h'.scopes, h.scopes, extend_nil, useAll_append]
  findings := by
    rw [List.filter_append, List.map_append]
    refine h'.findings.trans ((h.findings.append_left _).trans ?_)
    rw [← List.append_assoc]
    exact List.perm_append_comm.append_right _

lemma walk_report (s : State) (p : Position) {problem : Problem} (h : ∀ name, problem ≠ .unusedVariable name) :
    Walk s (s.report p problem) [] [] [] where
  scopes := (extend_nil _).symm
  findings := by
    have hx : isUnused ⟨p, problem⟩ = false := by
      cases problem with
      | unusedVariable name => exact absurd rfl (h name)
      | _ => rfl
    rw [State.unused, State.unused, State.report, List.filter_cons_of_neg (by simp [hx])]
    exact .refl _

lemma walk_readVariable (s : State) (p : Position) (name : String) : Walk s (s.readVariable p name) [] [name] [] := by
  rw [State.readVariable]
  cases hu : useAmong name s.scopes with
  | some scopes => exact ⟨by simp [extend_nil, useAll, use, hu], .refl _⟩
  | none =>
    have hreport : Walk s (s.report p (.undefinedVariable name)) [] [] [] := walk_report s p (by simp)
    exact ⟨hreport.scopes.trans (by simp [useAll, use, hu]), hreport.findings⟩

lemma Walk.declared {name : String} {p : Position} (h : Walk (s.declare name p false) t new reads found) :
    Walk s t (new ++ [⟨name, p, decide (name ∈ reads)⟩]) (reads.filter (· ≠ name)) (⟨p, name, reads⟩ :: found) where
  scopes := by
    rw [h.scopes, State.declare_scopes, useAll_extend, extend_extend, Bool.false_or]
  findings := by
    have hsame : (s.declare name p false).unused = s.unused := congrArg (·.filter isUnused) (s.declare_findings ..)
    have hone : State.neglected [⟨name, p, decide (name ∈ reads)⟩] =
        ([⟨p, name, reads⟩].filter Local.isUnread).map Local.finding := by
      rw [State.neglected, List.filter_singleton, List.filter_singleton]
      by_cases hv : name ∈ reads
      · simp [State.isNeglected, Local.isUnread, hv]
      · simp only [State.isNeglected, Local.isUnread, hv, decide_false, not_false_eq_true, decide_true]
        cases name.toList.head? != some '_' <;> rfl
    have hfound := h.findings
    rw [hsame] at hfound
    rw [State.neglected_append, hone, ← List.singleton_append (l := found), List.filter_append, List.map_append]
    generalize ([⟨p, name, reads⟩].filter Local.isUnread).map Local.finding = one
    rw [List.append_assoc, List.append_assoc]
    exact List.perm_append_comm_assoc .. |>.trans (hfound.append_left one)

lemma Walk.scoped (h : Walk s.openScope t new reads found) : Walk s t.closeScope [] reads found := by
  have hscopes : t.scopes = new :: useAll reads s.scopes := by
    rw [h.scopes, State.openScope, useAll_enter, extend, List.append_nil]
  rw [State.closeScope, hscopes]
  refine ⟨(extend_nil _).symm, ?_⟩
  have hunused : State.unused ⟨useAll reads s.scopes, State.neglected new ++ t.findings⟩ =
      State.neglected new ++ t.unused := by
    rw [State.unused, List.filter_append, State.unused_neglected]
    rfl
  exact hunused ▸ h.findings

end Walk

variable (known : Catalog)

mutual

lemma walk_expr (s : State) (e : Expr) : Walk s (expr known s e) [] e.mentions [] := by
  cases e with
  | var p name => exact walk_readVariable s p name
  | array _ items => exact walk_exprs s items
  | index _ target i => exact (walk_expr s target).trans (walk_expr _ i)
  | call p name args =>
    have hargs := walk_exprs s args
    rw [expr]
    split
    · next problem hp =>
      have hother : ∀ x, problem ≠ .unusedVariable x := by
        rintro x rfl
        rw [callProblem?] at hp
        repeat' split at hp
        all_goals cases hp
      have hwalk := hargs.trans (walk_report _ p hother)
      rwa [List.append_nil] at hwalk
    · exact hargs
  | unary _ _ operand => exact walk_expr s operand
  | binary _ _ lhs rhs => exact (walk_expr s lhs).trans (walk_expr _ rhs)
  | logic _ _ lhs rhs => exact (walk_expr s lhs).trans (walk_expr _ rhs)
  | _ => exact .refl s

lemma walk_exprs (s : State) (es : List Expr) : Walk s (exprs known s es) [] (Expr.allMentions es) [] := by
  cases es with
  | nil => exact .refl s
  | cons e es => exact (walk_expr s e).trans (walk_exprs _ es)

end

lemma walk_assign (s : State) (t : Target) (value : Expr) :
    Walk s (written (expr known (target known s t) value) t) [] (t.reads ++ value.mentions) [] := by
  cases t with
  | var p name =>
    have hvalue := walk_expr known s value
    rw [written, target]
    split
    · exact hvalue
    · have hreport : Walk (expr known s value) ((expr known s value).report p (.undefinedVariable name)) [] [] [] :=
        walk_report _ p (by simp)
      have hwalk := hvalue.trans hreport
      rwa [List.append_nil] at hwalk
  | index _ target i => exact ((walk_expr known s target).trans (walk_expr known _ i)).trans (walk_expr known _ value)

lemma walk_jump (inLoop : Bool) (s : State) (p : Position) (keyword : String) :
    Walk s (jump inLoop s p keyword).1 [] [] [] := by
  cases inLoop with
  | true => exact .refl s
  | false => exact walk_report s p (by simp)

mutual

lemma walk_stmt (inLoop : Bool) (s : State) (x : Stmt) {t : State} {new : List Variable} {reads : List String}
    {found : List Local} (h : Walk (stmt known inLoop s x).1 t new reads found) :
    ∃ new', Walk s t new' (x.reads ++ x.outside reads) (x.locals reads ++ found) := by
  cases x with
  | declare p name init =>
    rw [stmt] at h
    have hfresh : Walk s (if s.inInnermost name then s.report p (.alreadyInScope name) else s) [] [] [] := by
      split
      · exact walk_report s p (by simp)
      · exact .refl s
    exact ⟨_, (hfresh.trans (walk_expr known _ init)).trans h.declared⟩
  | assign p t value => exact ⟨new, (walk_assign known s t value).trans h⟩
  | branch p cond body otherwise =>
    cases otherwise with
    | none =>
      rw [stmt] at h
      obtain ⟨_, hbody⟩ := walk_stmts inLoop false false (expr known s cond).openScope body
      exact ⟨new, ((walk_expr known s cond).trans hbody.scoped).trans h⟩
    | some otherwise =>
      rw [stmt] at h
      obtain ⟨_, hbody⟩ := walk_stmts inLoop false false (expr known s cond).openScope body
      obtain ⟨_, hotherwise⟩ := walk_stmts inLoop false false
        (stmts known inLoop false false (expr known s cond).openScope body).1.closeScope.openScope otherwise
      exact ⟨new, (((walk_expr known s cond).trans hbody.scoped).trans hotherwise.scoped).trans h⟩
  | loop p cond body =>
    rw [stmt] at h
    obtain ⟨_, hbody⟩ := walk_stmts true false false (expr known s cond).openScope body
    exact ⟨new, ((walk_expr known s cond).trans hbody.scoped).trans h⟩
  | count p name first bound body =>
    rw [stmt] at h
    obtain ⟨_, hbody⟩ := walk_stmts true false false
      (expr known ((expr known s.openScope first).declare name p false) bound).openScope body
    have hloop := ((walk_expr known _ bound).trans hbody.scoped).declared
    exact ⟨new, ((walk_expr known s.openScope first).trans hloop).scoped.trans h⟩
  | give p value =>
    cases value with
    | none => exact ⟨new, h⟩
    | some e => exact ⟨new, (walk_expr known s e).trans h⟩
  | leave p => exact ⟨new, (walk_jump inLoop s p _).trans h⟩
  | again p => exact ⟨new, (walk_jump inLoop s p _).trans h⟩
  | block p body =>
    rw [stmt] at h
    obtain ⟨_, hbody⟩ := walk_stmts inLoop false false s.openScope body
    exact ⟨new, hbody.scoped.trans h⟩
  | eval p e => exact ⟨new, (walk_expr known s e).trans h⟩

lemma walk_stmts (inLoop ended warned : Bool) (s : State) (xs : List Stmt) :
    ∃ new, Walk s (stmts known inLoop ended warned s xs).1 new (Stmt.allReads xs) (Stmt.allLocals xs) := by
  cases xs with
  | nil => exact ⟨[], .refl s⟩
  | cons x xs =>
    rw [stmts]
    have hwarned : Walk s (if ended && !warned then s.report x.place .unreachable else s) [] [] [] := by
      split
      · exact walk_report s _ (by simp)
      · exact .refl s
    generalize (if ended && !warned then s.report x.place .unreachable else s) = u at hwarned ⊢
    obtain ⟨_, hxs⟩ := walk_stmts inLoop (ended || (stmt known inLoop u x).2) (ended || warned)
      (stmt known inLoop u x).1 xs
    obtain ⟨new, hall⟩ := walk_stmt inLoop u x hxs
    exact ⟨new, hwarned.trans hall⟩

end

/-! Parameters count as used. -/

lemma useIn_used {name : String} {vs us : List Variable} (hvs : ∀ v ∈ vs, v.used = true)
    (h : useIn name vs = some us) : us = vs := by
  induction vs generalizing us with
  | nil => cases h
  | cons v vs ih =>
    obtain ⟨hv, hvs⟩ := List.forall_mem_cons.mp hvs
    rw [useIn] at h
    split at h
    · cases h
      rw [← hv]
    · obtain ⟨us, hus, rfl⟩ := Option.map_eq_some_iff.mp h
      rw [ih hvs hus]

lemma use_used {scope : List Variable} (h : ∀ v ∈ scope, v.used = true) (name : String) :
    use name [scope] = [scope] := by
  rw [use, useAmong]
  cases hu : useIn name scope with
  | none => rfl
  | some us => rw [useIn_used h hu]; rfl

lemma useAll_used {scope : List Variable} (h : ∀ v ∈ scope, v.used = true) (names : List String) :
    useAll names [scope] = [scope] := by
  induction names with
  | nil => rfl
  | cons name names ih => exact (congrArg (useAll names) (use_used h name)).trans ih

lemma neglected_used {scope : List Variable} (h : ∀ v ∈ scope, v.used = true) : State.neglected scope = [] := by
  rw [State.neglected, List.map_eq_nil_iff, List.filter_eq_nil_iff]
  intro v hv
  simp [State.isNeglected, h v hv]

lemma params_used (ps : List (String × Position)) {s : State}
    (h : ∃ scope, s.scopes = [scope] ∧ ∀ v ∈ scope, v.used = true) (hs : s.unused = []) :
    (∃ scope, (ps.foldl param s).scopes = [scope] ∧ ∀ v ∈ scope, v.used = true) ∧ (ps.foldl param s).unused = [] := by
  induction ps generalizing s with
  | nil => exact ⟨h, hs⟩
  | cons q ps ih =>
    rw [List.foldl_cons, param]
    split
    · exact ih h hs
    · obtain ⟨scope, hscope, hused⟩ := h
      refine ih ⟨⟨q.1, q.2, true⟩ :: scope, ?_, List.forall_mem_cons.mpr ⟨rfl, hused⟩⟩ ?_
      · rw [State.declare_scopes, hscope]
        rfl
      · rwa [State.unused, State.declare_findings]

lemma function_unused (f : FunctionDecl) : ((function known f).filter isUnused).Perm
    (((Stmt.allLocals f.body).filter Local.isUnread).map Local.finding) := by
  obtain ⟨⟨scope, hscope, hused⟩, hnone⟩ := params_used f.params (s := ⟨[[]], []⟩) ⟨[], rfl, by simp⟩ rfl
  rw [function]
  generalize f.params.foldl param ⟨[[]], []⟩ = s at hscope hnone
  obtain ⟨new, hwalk⟩ := walk_stmts known false false false s f.body
  have hend : (stmts known false false false s f.body).1.scopes = [new ++ scope] := by
    rw [hwalk.scopes, hscope, useAll_used hused]
    rfl
  have hfound := hwalk.findings
  rw [hnone, List.append_nil] at hfound
  refine ((List.reverse_perm _).filter _).trans ?_
  rw [State.closeScope, hend]
  change ((State.neglected (new ++ scope) ++ _).filter isUnused).Perm _
  rw [List.filter_append, State.unused_neglected, State.neglected_append, neglected_used hused, List.append_nil]
  exact hfound

end Check

namespace Compiler

variable {limits : CompilerLimits} {session : Nat} {units : List SourceUnit} {p : Program}

lemma unreachable_ne_unused (name : String) : Problem.unreachable.message ≠ (Problem.unusedVariable name).message := by
  intro h
  have hletter : ("unreachable statement".toList)[2]? = ("unused variable " ++ Problem.quoted name).toList[2]? :=
    congrArg (fun s : String => s.toList[2]?) h
  rw [String.toList_append, List.getElem?_append_left (by decide)] at hletter
  exact absurd hletter (by decide)

lemma Compiled.warns {c : Catalog} (hc : Compiled c p) {d : Definition} (hd : d ∈ c.definitions) {x : Finding}
    (hx : x ∈ Check.function c d.decl) : (∃ name, x.problem = .unusedVariable name) ∨ x.problem = .unreachable := by
  have hwarning := (Check.function_clean_iff c d.decl).mpr (hc.proper d hd) x hx
  cases hp : x.problem with
  | unusedVariable name => exact .inl ⟨name, rfl⟩
  | unreachable => exact .inr rfl
  | _ =>
    rw [hp] at hwarning
    cases hwarning

/-- Warnings of unused variables are exact. In a submission that compiles there is one for each `let` and each `for`
whose scope does not read the variable it declares and whose name does not begin with an underscore, at the place of
that statement, and there are no others. -/
theorem unread_variables_are_warned_of (hc : compile limits session units = .ok p) :
    ∃ others, p.warnings.Perm (((source units).definitions.flatMap fun d =>
        ((Stmt.allLocals d.decl.body).filter Local.isUnread).map fun v => v.finding.toDiagnostic d.unit) ++ others) ∧
      ∀ m ∈ others, ∀ name, m.message ≠ (Problem.unusedVariable name).message := by
  have hcompiled := (compile_ok hc).1
  refine ⟨(source units).definitions.flatMap fun d =>
    ((Check.function (source units) d.decl).filter (!Check.isUnused ·)).map (Finding.toDiagnostic d.unit), ?_, ?_⟩
  · rw [compile_warnings hc, checkAll]
    refine List.Perm.trans (List.Perm.flatMap_left _ fun d _ => ?_) (List.flatMap_append_perm ..).symm
    have hsplit := (List.filter_append_perm Check.isUnused (Check.function (source units) d.decl)).symm
    have hunused := (Check.function_unused (source units) d.decl).map (Finding.toDiagnostic d.unit)
    rw [List.map_map] at hunused
    refine (hsplit.map (Finding.toDiagnostic d.unit)).trans ?_
    rw [List.map_append]
    exact hunused.append_right _
  · intro m hm name
    obtain ⟨d, hd, hm⟩ := List.mem_flatMap.mp hm
    obtain ⟨x, hx, rfl⟩ := List.mem_map.mp hm
    obtain ⟨hx, hother⟩ := List.mem_filter.mp hx
    rcases hcompiled.warns hd hx with ⟨other, hp⟩ | hp
    · rw [Check.isUnused, hp] at hother
      cases hother
    · rw [Finding.toDiagnostic, hp]
      exact unreachable_ne_unused name

def shadowing : SourceUnit :=
  ⟨"m", "fn main(a) { let x = 1; { let x = x; } for i in 0..3 { let _t = i; } return a; }", true⟩

def shadowingMain : FunctionDecl where
  name := "main"
  params := [("a", ⟨1, 9⟩)]
  body := [
    .declare ⟨1, 14⟩ "x" (.int ⟨1, 22⟩ 1),
    .block ⟨1, 25⟩ [.declare ⟨1, 27⟩ "x" (.var ⟨1, 35⟩ "x")],
    .count ⟨1, 40⟩ "i" (.int ⟨1, 49⟩ 0) (.int ⟨1, 52⟩ 3) [.declare ⟨1, 56⟩ "_t" (.var ⟨1, 65⟩ "i")],
    .give ⟨1, 70⟩ (some (.var ⟨1, 77⟩ "a"))]
  place := ⟨1, 1⟩

set_option maxRecDepth 100000 in
lemma shadowing_definitions : (source [shadowing]).definitions = [⟨"m", shadowingMain⟩] := by
  cbv

theorem unread_variables_are_warned_of_shadowing : ∃ p others, compile {} 0 [shadowing] = .ok p ∧
    p.warnings.Perm (⟨"m", 1, 27, .warning, "unused variable 'x'"⟩ :: others) ∧
    ∀ m ∈ others, ∀ name, m.message ≠ (Problem.unusedVariable name).message := by
  have hok : (compile {} 0 [shadowing]).isOk = true := by decide +kernel
  obtain ⟨p, hp⟩ := exists_ok hok
  obtain ⟨others, hwarnings, hothers⟩ := unread_variables_are_warned_of hp
  rw [shadowing_definitions] at hwarnings
  exact ⟨p, others, hp, hwarnings, hothers⟩

end Compiler

end ScriptHost
