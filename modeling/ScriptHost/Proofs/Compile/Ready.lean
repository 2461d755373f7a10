import ScriptHost.Proofs.Compile.Accepted

/-!
What code generation relies on. The functions of a compiled submission are ready for it: every variable
has a slot, every literal a number, every call a callee, and every jump out of a round a loop.
-/

namespace ScriptHost

namespace Slots

/-- The variables that the slots are for, newest first; a slot without a name is hidden from the source. -/
def Shows (s : Slots) (names : List String) : Prop :=
  s.names.filter (· != "") = names

lemma find?_declare (s : Slots) (name other : String) :
    (s.declare name).find? other = if name = other then some s.next else s.find? other := by
  rw [find?, declare, List.idxOf?_cons, beq_eq_decide]
  by_cases h : name = other
  · simp [h]
  · simp only [h, decide_false, Bool.false_eq_true, if_false, Option.map_map, find?]
    congr 1
    funext i
    simp only [Function.comp_apply]
    omega

lemma find?_lt {s : Slots} {name : String} {slot : Nat} (h : s.find? name = some slot) :
    slot < s.next := by
  obtain ⟨i, hi, rfl⟩ := Option.map_eq_some_iff.mp h
  have := List.isSome_idxOf?.mp (Option.isSome_of_eq_some hi)
  have := List.length_pos_of_mem this
  have := s.next_eq
  omega

lemma Shows.find? {s : Slots} {names : List String} (h : s.Shows names) {name : String}
    (hn : name ∈ names) : ∃ slot, s.find? name = some slot ∧ slot < s.next := by
  have hm : name ∈ s.names := List.mem_of_mem_filter (h ▸ hn)
  obtain ⟨i, hi⟩ := Option.isSome_iff_exists.mp (List.isSome_idxOf?.mpr hm)
  have hf : s.find? name = some (s.next - 1 - i) := by rw [Slots.find?, hi, Option.map_some]
  exact ⟨_, hf, find?_lt hf⟩

lemma Shows.named {s : Slots} {names : List String} (h : s.Shows names) {name : String}
    (hn : name ∈ names) : name ≠ "" := by
  rw [← h] at hn
  exact bne_iff_ne.mp (List.mem_filter.mp hn).2

lemma Shows.declare {s : Slots} {names : List String} (h : s.Shows names) {name : String}
    (hn : name ≠ "") : (s.declare name).Shows (name :: names) := by
  rw [Shows, Slots.declare, List.filter_cons_of_pos (by simpa using hn), h]

lemma Shows.hide {s : Slots} {names : List String} (h : s.Shows names) :
    (s.declare "").Shows names := by
  rw [Shows, Slots.declare, List.filter_cons_of_neg (by simp), h]

lemma ofParams_names (names : List String) (h : names.Nodup) : (ofParams names).names = names.reverse := by
  suffices hs : ∀ s : Slots, (names.reverse ++ s.names).Nodup →
      (names.foldl (fun s n => if n ∈ s.names then s else s.declare n) s).names
        = names.reverse ++ s.names by
    have hr : (names.reverse ++ empty.names).Nodup := by simpa [empty] using h
    exact (hs empty hr).trans (List.append_nil _)
  induction names with
  | nil => exact fun s _ => rfl
  | cons n ns ih =>
    intro s hs
    rw [List.reverse_cons, List.append_assoc, List.singleton_append] at hs
    have hn : n ∉ s.names := (List.nodup_cons.mp (List.nodup_append.mp hs).2.1).1
    rw [List.foldl_cons, if_neg hn, ih (List.nodup_cons.mp h).2 (s.declare n) hs]
    simp [declare]

lemma ofParams_shows {names : List String} (h : names.Nodup) (hn : ∀ n ∈ names, n ≠ "") :
    (ofParams names).Shows names.reverse := by
  rw [Shows, ofParams_names names h, List.filter_eq_self]
  intro n hm
  exact bne_iff_ne.mpr (hn n (List.mem_reverse.mp hm))

lemma ofParams_next {names : List String} (h : names.Nodup) : (ofParams names).next = names.length := by
  rw [(ofParams names).next_eq, ofParams_names names h, List.length_reverse]

end Slots

/-! The literals that are collected are those of the text. -/

namespace Literals

mutual

lemma expr_found (found : List String) (e : Expr) : expr found e = expr [] e ++ found := by
  cases e with
  | array _ items => exact exprs_found found items
  | index _ target i =>
    simp only [expr]
    rw [expr_found (expr found target), expr_found (expr [] target), expr_found found, List.append_assoc]
  | call _ _ args => exact exprs_found found args
  | unary _ _ operand => exact expr_found found operand
  | binary _ _ lhs rhs =>
    simp only [expr]
    rw [expr_found (expr found lhs), expr_found (expr [] lhs), expr_found found, List.append_assoc]
  | logic _ _ lhs rhs =>
    simp only [expr]
    rw [expr_found (expr found lhs), expr_found (expr [] lhs), expr_found found, List.append_assoc]
  | _ => rfl

lemma exprs_found (found : List String) (es : List Expr) : exprs found es = exprs [] es ++ found := by
  cases es with
  | nil => rfl
  | cons e es =>
    simp only [exprs]
    rw [exprs_found (expr found e), exprs_found (expr [] e), expr_found found, List.append_assoc]

end

lemma target_found (found : List String) (t : Target) : target found t = target [] t ++ found := by
  cases t with
  | var => rfl
  | index _ t i =>
    simp only [target]
    rw [expr_found (expr found t), expr_found (expr [] t), expr_found found, List.append_assoc]

mutual

lemma stmt_found (found : List String) (x : Stmt) : stmt found x = stmt [] x ++ found := by
  cases x with
  | declare _ _ init => exact expr_found found init
  | assign _ t value =>
    simp only [stmt]
    rw [expr_found (target found t), expr_found (target [] t), target_found found, List.append_assoc]
  | branch _ cond body otherwise =>
    cases otherwise with
    | none =>
      simp only [stmt]
      rw [stmts_found (expr found cond), stmts_found (expr [] cond), expr_found found, List.append_assoc]
    | some otherwise =>
      simp only [stmt]
      rw [stmts_found (stmts (expr found cond) body), stmts_found (stmts (expr [] cond) body),
        stmts_found (expr found cond), stmts_found (expr [] cond), expr_found found]
      simp only [List.append_assoc]
  | loop _ cond body =>
    simp only [stmt]
    rw [stmts_found (expr found cond), stmts_found (expr [] cond), expr_found found, List.append_assoc]
  | count _ _ first bound body =>
    simp only [stmt]
    rw [stmts_found (expr (expr found first) bound), stmts_found (expr (expr [] first) bound),
      expr_found (expr found first), expr_found (expr [] first), expr_found found]
    simp only [List.append_assoc]
  | give _ value =>
    cases value with
    | none => rfl
    | some value => exact expr_found found value
  | leave => rfl
  | again => rfl
  | block _ body => exact stmts_found found body
  | eval _ value => exact expr_found found value

lemma stmts_found (found : List String) (body : List Stmt) :
    stmts found body = stmts [] body ++ found := by
  cases body with
  | nil => rfl
  | cons x xs =>
    simp only [stmts]
    rw [stmts_found (stmt found x), stmts_found (stmt [] x), stmt_found found, List.append_assoc]

end

lemma foldl_stmts_subset (ds : List Definition) (found : List String) :
    found ⊆ ds.foldl (fun found d => stmts found d.decl.body) found ∧
      ∀ d ∈ ds, stmts [] d.decl.body ⊆ ds.foldl (fun found d => stmts found d.decl.body) found := by
  induction ds generalizing found with
  | nil => exact ⟨List.Subset.refl _, by simp⟩
  | cons d ds ih =>
    obtain ⟨hf, hds⟩ := ih (stmts found d.decl.body)
    have hsub : stmts [] d.decl.body ++ found ⊆ stmts found d.decl.body :=
      (stmts_found found d.decl.body).symm ▸ List.Subset.refl _
    have hsub' := List.append_subset.mp (List.Subset.trans hsub hf)
    exact ⟨hsub'.2, List.forall_mem_cons.mpr ⟨hsub'.1, hds⟩⟩

lemma subset_ofCatalog {c : Catalog} {d : Definition} (hd : d ∈ c.definitions) :
    stmts [] d.decl.body ⊆ ofCatalog c := by
  intro v hv
  rw [ofCatalog, List.mem_eraseDups, List.mem_reverse]
  exact (foldl_stmts_subset c.definitions []).2 d hd hv

end Literals

mutual

def Expr.Ready (c : Emit.Context) (names : List String) : Expr → Prop
  | .int _ v => 0 ≤ v
  | .str _ v => v ∈ c.strings
  | .bool _ _ => True
  | .nil _ => True
  | .var _ name => name ∈ names
  | .array _ items => Expr.AllReady c names items
  | .index _ target i => target.Ready c names ∧ i.Ready c names
  | .call _ name args => Expr.AllReady c names args ∧ CallFits c.known name args.length
  | .unary _ _ operand => operand.Ready c names
  | .binary _ _ lhs rhs => lhs.Ready c names ∧ rhs.Ready c names
  | .logic _ _ lhs rhs => lhs.Ready c names ∧ rhs.Ready c names

def Expr.AllReady (c : Emit.Context) (names : List String) : List Expr → Prop
  | [] => True
  | e :: es => e.Ready c names ∧ Expr.AllReady c names es

end

def Target.Ready (c : Emit.Context) (names : List String) : Target → Prop
  | .var _ name => name ∈ names
  | .index _ target i => target.Ready c names ∧ i.Ready c names

def Stmt.names (names : List String) : Stmt → List String
  | .declare _ name _ => name :: names
  | _ => names

mutual

def Stmt.Ready (c : Emit.Context) (inLoop : Bool) (names : List String) : Stmt → Prop
  | .declare _ name init => name ≠ "" ∧ init.Ready c names
  | .assign _ t value => t.Ready c names ∧ value.Ready c names
  | .branch _ cond body none => cond.Ready c names ∧ Stmt.AllReady c inLoop names body
  | .branch _ cond body (some otherwise) =>
    cond.Ready c names ∧ Stmt.AllReady c inLoop names body ∧ Stmt.AllReady c inLoop names otherwise
  | .loop _ cond body => cond.Ready c names ∧ Stmt.AllReady c true names body
  | .count _ name first bound body =>
    name ≠ "" ∧ first.Ready c names ∧ bound.Ready c (name :: names) ∧
      Stmt.AllReady c true (name :: names) body
  | .give _ none => True
  | .give _ (some value) => value.Ready c names
  | .leave _ => inLoop = true
  | .again _ => inLoop = true
  | .block _ body => Stmt.AllReady c inLoop names body
  | .eval _ value => value.Ready c names

def Stmt.AllReady (c : Emit.Context) (inLoop : Bool) (names : List String) : List Stmt → Prop
  | [] => True
  | x :: xs => x.Ready c inLoop names ∧ Stmt.AllReady c inLoop (x.names names) xs

end

section Ready

variable {c : Emit.Context} {names : List String}

mutual

lemma Expr.ready_of (e : Expr) (hp : e.Proper c.known names) (ht : Literals.expr [] e ⊆ c.strings)
    (hl : e.Legible) : e.Ready c names := by
  cases e with
  | int => exact hl
  | str => exact ht List.mem_cons_self
  | bool => trivial
  | nil => trivial
  | var => exact hp
  | array _ items => exact Expr.allReady_of items hp ht hl
  | index _ target i =>
    rw [Literals.expr, Literals.expr_found, List.append_subset] at ht
    exact ⟨target.ready_of hp.1 ht.2 hl.1, i.ready_of hp.2 ht.1 hl.2⟩
  | call _ name args => exact ⟨Expr.allReady_of args hp.1 ht hl, hp.2⟩
  | unary _ _ operand => exact operand.ready_of hp ht hl
  | binary _ _ lhs rhs =>
    rw [Literals.expr, Literals.expr_found, List.append_subset] at ht
    exact ⟨lhs.ready_of hp.1 ht.2 hl.1, rhs.ready_of hp.2 ht.1 hl.2⟩
  | logic _ _ lhs rhs =>
    rw [Literals.expr, Literals.expr_found, List.append_subset] at ht
    exact ⟨lhs.ready_of hp.1 ht.2 hl.1, rhs.ready_of hp.2 ht.1 hl.2⟩

lemma Expr.allReady_of (es : List Expr) (hp : Expr.AllProper c.known names es)
    (ht : Literals.exprs [] es ⊆ c.strings) (hl : Expr.AllLegible es) : Expr.AllReady c names es := by
  cases es with
  | nil => trivial
  | cons e es =>
    rw [Literals.exprs, Literals.exprs_found, List.append_subset] at ht
    exact ⟨e.ready_of hp.1 ht.2 hl.1, Expr.allReady_of es hp.2 ht.1 hl.2⟩

end

lemma Target.ready_of (t : Target) (hp : t.Proper c.known names)
    (ht : Literals.target [] t ⊆ c.strings) (hl : t.Legible) : t.Ready c names := by
  cases t with
  | var => exact hp
  | index _ target i =>
    rw [Literals.target, Literals.expr_found, List.append_subset] at ht
    exact ⟨target.ready_of hp.1 ht.2 hl.1, i.ready_of hp.2 ht.1 hl.2⟩

lemma Stmt.scopes_names (x : Stmt) (scope : List String) (scopes : Scopes) :
    ∃ scope', x.scopes (scope :: scopes) = scope' :: scopes ∧
      (scope' :: scopes).flatten = x.names (scope :: scopes).flatten := by
  cases x <;> exact ⟨_, rfl, rfl⟩

mutual

lemma Stmt.ready_of (inLoop : Bool) (scope : List String) (scopes : Scopes) (x : Stmt)
    (hp : x.Proper c.known inLoop (scope :: scopes)) (ht : Literals.stmt [] x ⊆ c.strings)
    (hl : x.Legible) : x.Ready c inLoop (scope :: scopes).flatten := by
  cases x with
  | declare _ name init => exact ⟨hl.1, init.ready_of hp.2 ht hl.2⟩
  | assign _ t value =>
    rw [Literals.stmt, Literals.expr_found, List.append_subset] at ht
    exact ⟨t.ready_of hp.1 ht.2 hl.1, value.ready_of hp.2 ht.1 hl.2⟩
  | branch _ cond body otherwise =>
    cases otherwise with
    | none =>
      rw [Literals.stmt, Literals.stmts_found, List.append_subset] at ht
      exact ⟨cond.ready_of hp.1 ht.2 hl.1, Stmt.allReady_of inLoop [] _ body hp.2 ht.1 hl.2⟩
    | some otherwise =>
      rw [Literals.stmt, Literals.stmts_found, List.append_subset,
        Literals.stmts_found (Literals.expr [] cond), List.append_subset] at ht
      obtain ⟨ho, hb, hc⟩ := ht
      exact ⟨cond.ready_of hp.1 hc hl.1, Stmt.allReady_of inLoop [] _ body hp.2.1 hb hl.2.1,
        Stmt.allReady_of inLoop [] _ otherwise hp.2.2 ho hl.2.2⟩
  | loop _ cond body =>
    rw [Literals.stmt, Literals.stmts_found, List.append_subset] at ht
    exact ⟨cond.ready_of hp.1 ht.2 hl.1, Stmt.allReady_of true [] _ body hp.2 ht.1 hl.2⟩
  | count _ name first bound body =>
    rw [Literals.stmt, Literals.stmts_found, List.append_subset,
      Literals.expr_found (Literals.expr [] first), List.append_subset] at ht
    obtain ⟨hb, hu, hf⟩ := ht
    exact ⟨hl.1, first.ready_of hp.1 hf hl.2.1, bound.ready_of hp.2.1 hu hl.2.2.1,
      Stmt.allReady_of true [] ([name] :: scope :: scopes) body hp.2.2 hb hl.2.2.2⟩
  | give _ value =>
    cases value with
    | none => trivial
    | some value => exact value.ready_of hp ht hl
  | leave => exact hp
  | again => exact hp
  | block _ body => exact Stmt.allReady_of inLoop [] _ body hp ht hl
  | eval _ value => exact value.ready_of hp ht hl

lemma Stmt.allReady_of (inLoop : Bool) (scope : List String) (scopes : Scopes) (body : List Stmt)
    (hp : Stmt.AllProper c.known inLoop (scope :: scopes) body)
    (ht : Literals.stmts [] body ⊆ c.strings) (hl : Stmt.AllLegible body) :
    Stmt.AllReady c inLoop (scope :: scopes).flatten body := by
  cases body with
  | nil => trivial
  | cons x xs =>
    rw [Literals.stmts, Literals.stmts_found, List.append_subset] at ht
    obtain ⟨hx, hxs⟩ := hp
    obtain ⟨scope', hscope, hnames⟩ := x.scopes_names scope scopes
    rw [hscope] at hxs
    have hrest := Stmt.allReady_of inLoop scope' scopes xs hxs ht.1 hl.2
    rw [hnames] at hrest
    exact ⟨x.ready_of inLoop scope scopes hx ht.2 hl.1, hrest⟩

end

end Ready

structure FunctionDecl.Ready (c : Emit.Context) (f : FunctionDecl) : Prop where
  params : f.paramNames.Nodup
  named : ∀ n ∈ f.paramNames, n ≠ ""
  body : Stmt.AllReady c false f.paramNames.reverse f.body

namespace Compiler

lemma ready_of {c : Catalog} {d : Definition} (hd : d ∈ c.definitions) (hp : d.decl.Proper c) (hl : d.decl.Legible) :
    d.decl.Ready (context c) := by
  refine ⟨hp.params, ?_, ?_⟩
  · intro n hn
    obtain ⟨q, hq, rfl⟩ := List.mem_map.mp hn
    exact hl.params q hq
  · have := Stmt.allReady_of (c := context c) false _ [] d.decl.body hp.body (Literals.subset_ofCatalog hd)
      hl.body
    simpa using this

lemma gathered_ready {units : List SourceUnit} {d : Definition} (hd : d ∈ (gathered units).definitions)
    (hclean : ∀ x ∈ Check.function (gathered units) d.decl, x.problem.severity = .warning) :
    d.decl.Ready (context (gathered units)) := by
  obtain ⟨v, hv, hf⟩ := Catalog.mem_ofUnits hd
  obtain ⟨u, -, rfl⟩ := List.mem_map.mp hv
  exact ready_of hd ((Check.function_clean_iff _ _).mp hclean) (parseUnit_legible u _ hf)

theorem Compiled.ready {c : Catalog} {p : Program} (h : Compiled c p) :
    ∀ d ∈ c.definitions, d.decl.Ready (context c) :=
  fun d hd => ready_of hd (h.proper d hd) (h.legible d hd)

end Compiler

end ScriptHost
