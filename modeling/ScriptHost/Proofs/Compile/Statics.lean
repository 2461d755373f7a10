import ScriptHost.Proofs.Compile.Accepted

/-!
When a submission compiles. The rules are stated place by place: what a declaration, a variable, a jump and
a call ask of the scopes and loops around them, and of the functions of the submission.
-/

namespace ScriptHost

/-! Places in a function. -/

namespace Expr

inductive Contains : Expr → Expr → Prop
  | self (e : Expr) : Contains e e
  | item {p : Position} {items : List Expr} {x e : Expr} :
      x ∈ items → Contains x e → Contains (.array p items) e
  | target {p : Position} {t i e : Expr} : Contains t e → Contains (.index p t i) e
  | position {p : Position} {t i e : Expr} : Contains i e → Contains (.index p t i) e
  | argument {p : Position} {name : String} {args : List Expr} {x e : Expr} :
      x ∈ args → Contains x e → Contains (.call p name args) e
  | operand {p : Position} {op : UnaryOp} {x e : Expr} : Contains x e → Contains (.unary p op x) e
  | left {p : Position} {op : BinaryOp} {l r e : Expr} : Contains l e → Contains (.binary p op l r) e
  | right {p : Position} {op : BinaryOp} {l r e : Expr} : Contains r e → Contains (.binary p op l r) e
  | first {p : Position} {op : LogicOp} {l r e : Expr} : Contains l e → Contains (.logic p op l r) e
  | second {p : Position} {op : LogicOp} {l r e : Expr} : Contains r e → Contains (.logic p op l r) e

end Expr

/-- Where a statement stands: the variables of the scopes that are open there, innermost first, and whether
a loop is around it. -/
structure Site where
  scopes : Scopes
  inLoop : Bool

namespace Site

def visible (w : Site) : List String :=
  w.scopes.flatten

def enter (w : Site) : Site :=
  ⟨[] :: w.scopes, w.inLoop⟩

def enterLoop (w : Site) : Site :=
  ⟨[] :: w.scopes, true⟩

def declare (w : Site) (name : String) : Site :=
  ⟨w.scopes.declare name, w.inLoop⟩

end Site

namespace Stmt

def after (w : Site) : Stmt → Site
  | .declare _ name _ => w.declare name
  | _ => w

/-- The blocks right inside a statement, each with the site of its first statement. The variable of a
counting loop has a scope of its own around the body. -/
def blocks (w : Site) : Stmt → List (Site × List Stmt)
  | .branch _ _ body none => [(w.enter, body)]
  | .branch _ _ body (some otherwise) => [(w.enter, body), (w.enter, otherwise)]
  | .loop _ _ body => [(w.enterLoop, body)]
  | .count _ name _ _ body => [((w.enter.declare name).enterLoop, body)]
  | .block _ body => [(w.enter, body)]
  | _ => []

/-- The expressions right inside a statement, each with the variables it may use. The variable of a counting
loop is there before its bound is evaluated. -/
def operands (w : Site) : Stmt → List (List String × Expr)
  | .declare _ _ init => [(w.visible, init)]
  | .assign _ (.var _ _) value => [(w.visible, value)]
  | .assign _ (.index _ t i) value => [(w.visible, t), (w.visible, i), (w.visible, value)]
  | .branch _ cond _ _ => [(w.visible, cond)]
  | .loop _ cond _ => [(w.visible, cond)]
  | .count _ name first bound _ => [(w.visible, first), ((w.enter.declare name).visible, bound)]
  | .give _ (some value) => [(w.visible, value)]
  | .eval _ value => [(w.visible, value)]
  | _ => []

/-- `Stands w body v s`: if `body` begins at `w`, then `s` is a statement somewhere in it, and stands at `v`. -/
inductive Stands : Site → List Stmt → Site → Stmt → Prop
  | here {w : Site} {s : Stmt} {rest : List Stmt} : Stands w (s :: rest) w s
  | later {w v : Site} {s x : Stmt} {rest : List Stmt} :
      Stands (s.after w) rest v x → Stands w (s :: rest) v x
  | inside {w w' v : Site} {s x : Stmt} {rest body : List Stmt} :
      (w', body) ∈ s.blocks w → Stands w' body v x → Stands w (s :: rest) v x

end Stmt

/-! The rules. -/

/-- A call of a builtin that takes so many arguments, or of a function of the submission that has as many
parameters. -/
def Callable (functions : List Definition) (name : String) (argc : Nat) : Prop :=
  argc ≤ argumentLimit ∧
    ((∃ b : Builtin, b.name = name ∧ b.arity.1 ≤ argc ∧ argc ≤ b.arity.2) ∨
      ∃ d ∈ functions, d.decl.name = name ∧ d.decl.arity = argc)

namespace FunctionDecl

/-- The parameters are in the scope in which the body begins. -/
def Has (f : FunctionDecl) (w : Site) (s : Stmt) : Prop :=
  Stmt.Stands ⟨[f.paramNames.reverse], false⟩ f.body w s

def Evaluates (f : FunctionDecl) (names : List String) (e : Expr) : Prop :=
  ∃ w s, f.Has w s ∧ ∃ whole, (names, whole) ∈ s.operands w ∧ whole.Contains e

structure Obeys (functions : List Definition) (f : FunctionDecl) : Prop where
  params : f.paramNames.Nodup
  fresh : ∀ w p name init, f.Has w (.declare p name init) → name ∉ w.scopes.headD []
  reads : ∀ names p name, f.Evaluates names (.var p name) → name ∈ names
  writes : ∀ w p q name value, f.Has w (.assign p (.var q name) value) → name ∈ w.visible
  leaves : ∀ w p, f.Has w (.leave p) → w.inLoop = true
  goesRound : ∀ w p, f.Has w (.again p) → w.inLoop = true
  calls : ∀ names p name args, f.Evaluates names (.call p name args) → Callable functions name args.length

end FunctionDecl

namespace Catalog

structure WellFormed (entryUnit : String) (c : Catalog) : Prop where
  names : (c.definitions.map (·.decl.name)).Nodup
  unclaimed : ∀ d ∈ c.definitions, ∀ b : Builtin, b.name ≠ d.decl.name
  main : ∃ d ∈ c.definitions, d.unit = entryUnit ∧ d.decl.name = entryName
  functions : ∀ d ∈ c.definitions, d.decl.Obeys c.definitions

end Catalog

/-! The rules place by place say the same as those along the tree. -/

section Places

variable (known : Catalog)

namespace Expr

def Keeps (names : List String) : Expr → Prop
  | .var _ name => name ∈ names
  | .call _ name args => CallFits known name args.length
  | _ => True

lemma allProper_iff {names : List String} {es : List Expr} :
    AllProper known names es ↔ ∀ e ∈ es, e.Proper known names := by
  induction es with
  | nil => simp [AllProper]
  | cons e es ih => simp [AllProper, ih]

lemma Contains.keeps {names : List String} {whole e : Expr} (h : whole.Contains e)
    (hp : whole.Proper known names) : e.Keeps known names := by
  induction h with
  | self e =>
    cases e with
    | var => exact hp
    | call => exact hp.2
    | _ => trivial
  | item hx _ ih => exact ih ((allProper_iff known).mp hp _ hx)
  | target _ ih => exact ih hp.1
  | position _ ih => exact ih hp.2
  | argument hx _ ih => exact ih ((allProper_iff known).mp hp.1 _ hx)
  | operand _ ih => exact ih hp
  | left _ ih => exact ih hp.1
  | right _ ih => exact ih hp.2
  | first _ ih => exact ih hp.1
  | second _ ih => exact ih hp.2

mutual

lemma proper_of_keeps {names : List String} (whole : Expr)
    (h : ∀ e, whole.Contains e → e.Keeps known names) : whole.Proper known names := by
  cases whole with
  | int | str | bool | nil => trivial
  | var p name => exact h _ (.self _)
  | array p items => exact allProper_of_keeps items fun x hx e he => h e (.item hx he)
  | index p t i =>
    exact ⟨proper_of_keeps t fun e he => h e (.target he), proper_of_keeps i fun e he => h e (.position he)⟩
  | call p name args =>
    exact ⟨allProper_of_keeps args fun x hx e he => h e (.argument hx he), h _ (.self _)⟩
  | unary p op x => exact proper_of_keeps x fun e he => h e (.operand he)
  | binary p op l r =>
    exact ⟨proper_of_keeps l fun e he => h e (.left he), proper_of_keeps r fun e he => h e (.right he)⟩
  | logic p op l r =>
    exact ⟨proper_of_keeps l fun e he => h e (.first he), proper_of_keeps r fun e he => h e (.second he)⟩

lemma allProper_of_keeps {names : List String} (es : List Expr)
    (h : ∀ x ∈ es, ∀ e, x.Contains e → e.Keeps known names) : AllProper known names es := by
  cases es with
  | nil => trivial
  | cons x xs =>
    obtain ⟨hx, hxs⟩ := List.forall_mem_cons.mp h
    exact ⟨proper_of_keeps x hx, allProper_of_keeps xs hxs⟩

end

lemma proper_iff {names : List String} {whole : Expr} :
    whole.Proper known names ↔ ∀ e, whole.Contains e → e.Keeps known names :=
  ⟨fun hp _ he => he.keeps known hp, proper_of_keeps known whole⟩

end Expr

namespace Stmt

/-- What a statement asks by itself, its blocks left out. -/
def Keeps (w : Site) : Stmt → Prop
  | .declare _ name init => name ∉ w.scopes.headD [] ∧ init.Proper known w.visible
  | .assign _ t value => t.Proper known w.visible ∧ value.Proper known w.visible
  | .branch _ cond _ _ => cond.Proper known w.visible
  | .loop _ cond _ => cond.Proper known w.visible
  | .count _ name first bound _ =>
    first.Proper known w.visible ∧ bound.Proper known (w.enter.declare name).visible
  | .give _ none => True
  | .give _ (some value) => value.Proper known w.visible
  | .leave _ => w.inLoop = true
  | .again _ => w.inLoop = true
  | .block _ _ => True
  | .eval _ value => value.Proper known w.visible

lemma after_eq (w : Site) (s : Stmt) : s.after w = ⟨s.scopes w.scopes, w.inLoop⟩ := by
  cases s <;> rfl

lemma proper_iff (w : Site) (s : Stmt) :
    s.Proper known w.inLoop w.scopes ↔
      s.Keeps known w ∧ ∀ b ∈ s.blocks w, AllProper known b.1.inLoop b.1.scopes b.2 := by
  cases s with
  | branch p cond body otherwise =>
    cases otherwise with
    | none => simp [Proper, Keeps, blocks, Site.enter, Site.visible]
    | some otherwise => simp [Proper, Keeps, blocks, Site.enter, Site.visible]
  | give p value => cases value <;> simp [Proper, Keeps, blocks, Site.visible]
  | count p name first bound body =>
    simp [Proper, Keeps, blocks, Site.enter, Site.enterLoop, Site.declare, Site.visible, Scopes.declare,
      and_assoc]
  | _ => simp [Proper, Keeps, blocks, Site.enter, Site.enterLoop, Site.visible]

lemma Stands.keeps {w v : Site} {body : List Stmt} {s : Stmt} (h : Stands w body v s)
    (hp : AllProper known w.inLoop w.scopes body) : s.Keeps known v := by
  induction h with
  | here => exact ((proper_iff known _ _).mp hp.1).1
  | later _ ih =>
    apply ih
    rw [after_eq]
    exact hp.2
  | inside hb _ ih => exact ih (((proper_iff known _ _).mp hp.1).2 _ hb)

mutual

lemma proper_of_keeps (w : Site) (s : Stmt) (hs : s.Keeps known w)
    (h : ∀ w' body, (w', body) ∈ s.blocks w → ∀ v x, Stands w' body v x → x.Keeps known v) :
    s.Proper known w.inLoop w.scopes := by
  cases s with
  | branch p cond body otherwise =>
    have hbody := allProper_of_keeps w.enter body
    cases otherwise with
    | none => exact ⟨hs, hbody (h _ _ List.mem_cons_self)⟩
    | some otherwise =>
      exact ⟨hs, hbody (h _ _ List.mem_cons_self),
        allProper_of_keeps w.enter otherwise (h _ _ (List.mem_cons_of_mem _ List.mem_cons_self))⟩
  | loop p cond body => exact ⟨hs, allProper_of_keeps w.enterLoop body (h _ _ List.mem_cons_self)⟩
  | count p name first bound body =>
    exact ⟨hs.1, hs.2, allProper_of_keeps (w.enter.declare name).enterLoop body (h _ _ List.mem_cons_self)⟩
  | block p body => exact allProper_of_keeps w.enter body (h _ _ List.mem_cons_self)
  | give p value => cases value <;> exact hs
  | declare | assign | leave | again | eval => exact hs

lemma allProper_of_keeps (w : Site) (body : List Stmt)
    (h : ∀ v x, Stands w body v x → x.Keeps known v) : AllProper known w.inLoop w.scopes body := by
  cases body with
  | nil => trivial
  | cons s rest =>
    refine ⟨proper_of_keeps w s (h _ _ .here) fun w' body hb v x hx => h v x (.inside hb hx), ?_⟩
    have hrest := allProper_of_keeps (s.after w) rest fun v x hx => h v x (.later hx)
    rwa [after_eq] at hrest

end

lemma keeps_of_operands (w : Site) (s : Stmt)
    (fresh : ∀ p name init, s = .declare p name init → name ∉ w.scopes.headD [])
    (writes : ∀ p q name value, s = .assign p (.var q name) value → name ∈ w.visible)
    (jumps : ∀ p, s = .leave p ∨ s = .again p → w.inLoop = true)
    (h : ∀ names whole, (names, whole) ∈ s.operands w → whole.Proper known names) : s.Keeps known w := by
  cases s with
  | declare p name init => exact ⟨fresh p name init rfl, h _ _ List.mem_cons_self⟩
  | assign p t value =>
    cases t with
    | var q name => exact ⟨writes p q name value rfl, h _ _ List.mem_cons_self⟩
    | index q t i =>
      simp only [operands, List.mem_cons, Prod.mk.injEq, List.not_mem_nil, or_false] at h
      exact ⟨⟨h _ _ (.inl ⟨rfl, rfl⟩), h _ _ (.inr (.inl ⟨rfl, rfl⟩))⟩, h _ _ (.inr (.inr ⟨rfl, rfl⟩))⟩
  | branch | loop | eval => exact h _ _ List.mem_cons_self
  | count =>
    exact ⟨h _ _ List.mem_cons_self, h _ _ (List.mem_cons_of_mem _ List.mem_cons_self)⟩
  | give p value =>
    cases value with
    | none => trivial
    | some value => exact h _ _ List.mem_cons_self
  | leave p => exact jumps p (.inl rfl)
  | again p => exact jumps p (.inr rfl)
  | block => trivial

lemma Keeps.operands {w : Site} {s : Stmt} (hs : s.Keeps known w) :
    ∀ names whole, (names, whole) ∈ s.operands w → whole.Proper known names := by
  intro names whole hm
  cases s with
  | assign p t value =>
    cases t with
    | var => simp_all [Stmt.operands, Keeps]
    | index =>
      simp only [Stmt.operands, List.mem_cons, Prod.mk.injEq, List.not_mem_nil, or_false] at hm
      obtain ⟨⟨ht, hi⟩, hv⟩ := hs
      rcases hm with ⟨rfl, rfl⟩ | ⟨rfl, rfl⟩ | ⟨rfl, rfl⟩
      · exact ht
      · exact hi
      · exact hv
  | count =>
    simp only [Stmt.operands, List.mem_cons, Prod.mk.injEq, List.not_mem_nil, or_false] at hm
    rcases hm with ⟨rfl, rfl⟩ | ⟨rfl, rfl⟩
    · exact hs.1
    · exact hs.2
  | give p value => cases value <;> simp_all [Stmt.operands, Keeps]
  | _ => simp_all [Stmt.operands, Keeps]

end Stmt

end Places

namespace Builtin

lemma ofName?_eq_some {name : String} {b : Builtin} : ofName? name = some b ↔ b.name = name := by
  constructor
  · intro h
    rw [ofName?] at h
    simpa using List.find?_some h
  · rintro rfl
    exact ofName?_name b

lemma ofName?_eq_none {name : String} : ofName? name = none ↔ ∀ b : Builtin, b.name ≠ name := by
  rw [Option.eq_none_iff_forall_ne_some]
  exact forall_congr' fun b => not_congr ofName?_eq_some

end Builtin

namespace Catalog

lemma distinct_iff {ds : List Definition} :
    Distinct ds ↔ (ds.map (·.decl.name)).Nodup ∧ ∀ d ∈ ds, ∀ b : Builtin, b.name ≠ d.decl.name := by
  constructor
  · rintro ⟨hn, hu⟩
    exact ⟨hn, fun d hd => Builtin.ofName?_eq_none.mp (hu d hd)⟩
  · rintro ⟨hn, hu⟩
    exact ⟨hn, fun d hd => Builtin.ofName?_eq_none.mpr (hu d hd)⟩

variable {c : Catalog}

lemma find?_mem {name : String} {id : Nat} {d : Definition} (h : c.find? name = some (id, d)) :
    d ∈ c.definitions ∧ d.decl.name = name := by
  obtain ⟨hd, hn⟩ := find?_some h
  exact ⟨List.mem_of_getElem? hd, hn⟩

lemma Distinct.callFits_iff (h : Distinct c.definitions) {name : String} {argc : Nat} :
    CallFits c name argc ↔ Callable c.definitions name argc := by
  rw [CallFits, Callable]
  apply and_congr_right
  intro _
  cases hb : Builtin.ofName? name with
  | some b =>
    obtain rfl := Builtin.ofName?_eq_some.mp hb
    constructor
    · exact fun hf => .inl ⟨b, rfl, hf⟩
    · rintro (⟨b', hname, hf⟩ | ⟨d, hd, hname, -⟩)
      · rw [Builtin.ofName?_eq_some.mpr hname] at hb
        cases hb
        exact hf
      · have hnone := h.unclaimed d hd
        rw [hname, hb] at hnone
        cases hnone
  | none =>
    constructor
    · rintro ⟨id, d, hf, ha⟩
      obtain ⟨hd, hn⟩ := find?_mem hf
      exact .inr ⟨d, hd, hn, ha⟩
    · rintro (⟨b, hname, -⟩ | ⟨d, hd, rfl, ha⟩)
      · exact absurd hname (Builtin.ofName?_eq_none.mp hb b)
      · obtain ⟨id, -, hf⟩ := h.find? hd
        exact ⟨id, d, hf, ha⟩

lemma Distinct.hasEntry_iff (h : Distinct c.definitions) {entryUnit : String} :
    c.hasEntry entryUnit = true ↔ ∃ d ∈ c.definitions, d.unit = entryUnit ∧ d.decl.name = entryName := by
  rw [hasEntry, Option.any_eq_true]
  constructor
  · rintro ⟨⟨id, d⟩, hf, hu⟩
    obtain ⟨hd, hn⟩ := find?_mem hf
    exact ⟨d, hd, beq_iff_eq.mp hu, hn⟩
  · rintro ⟨d, hd, hu, hn⟩
    obtain ⟨id, -, hf⟩ := h.find? hd
    rw [hn] at hf
    exact ⟨(id, d), hf, beq_iff_eq.mpr hu⟩

lemma Distinct.proper_iff (h : Distinct c.definitions) (f : FunctionDecl) :
    f.Proper c ↔ f.Obeys c.definitions := by
  constructor
  · rintro ⟨hparams, hbody⟩
    have hkeeps : ∀ w s, f.Has w s → s.Keeps c w := fun w s hs => hs.keeps c hbody
    have hevaluates : ∀ names e, f.Evaluates names e → e.Keeps c names := by
      rintro names e ⟨w, s, hs, whole, hw, he⟩
      exact he.keeps c ((hkeeps w s hs).operands c names whole hw)
    exact {
      params := hparams
      fresh := fun w p name init hs => (hkeeps w _ hs).1
      reads := fun names p name he => hevaluates names _ he
      writes := fun w p q name value hs => (hkeeps w _ hs).1
      leaves := fun w p hs => hkeeps w _ hs
      goesRound := fun w p hs => hkeeps w _ hs
      calls := fun names p name args he => h.callFits_iff.mp (hevaluates names _ he) }
  · intro ho
    refine ⟨ho.params, Stmt.allProper_of_keeps c ⟨[f.paramNames.reverse], false⟩ f.body fun w s hs => ?_⟩
    apply Stmt.keeps_of_operands
    · rintro p name init rfl
      exact ho.fresh w p name init hs
    · rintro p q name value rfl
      exact ho.writes w p q name value hs
    · rintro p (rfl | rfl)
      · exact ho.leaves w p hs
      · exact ho.goesRound w p hs
    · intro names whole hw
      apply (Expr.proper_iff c).mpr
      intro e he
      have hev : f.Evaluates names e := ⟨w, s, hs, whole, hw, he⟩
      cases e with
      | var p name => exact ho.reads names p name hev
      | call p name args => exact h.callFits_iff.mpr (ho.calls names p name args hev)
      | _ => trivial

lemma wellFormed_iff {entryUnit : String} :
    c.WellFormed entryUnit ↔
      Distinct c.definitions ∧ c.hasEntry entryUnit = true ∧ ∀ d ∈ c.definitions, d.decl.Proper c := by
  constructor
  · intro h
    have hd := distinct_iff.mpr ⟨h.names, h.unclaimed⟩
    exact ⟨hd, hd.hasEntry_iff.mpr h.main, fun d hm => (hd.proper_iff d.decl).mpr (h.functions d hm)⟩
  · rintro ⟨hd, he, hp⟩
    obtain ⟨hn, hu⟩ := distinct_iff.mp hd
    exact ⟨hn, hu, hd.hasEntry_iff.mp he, fun d hm => (hd.proper_iff d.decl).mp (hp d hm)⟩

end Catalog

namespace Compiler

variable {limits : CompilerLimits} {session : Nat} {entryUnit : String}

def complaints (entryUnit : String) (units : List ParsedUnit) : List Diagnostic :=
  (Catalog.ofUnits units).2 ++ missingEntry (Catalog.ofUnits units).1 entryUnit
    ++ checkAll (Catalog.ofUnits units).1

lemma checkAll_clean_iff {c : Catalog} :
    (∀ x ∈ checkAll c, x.isError = false) ↔ ∀ d ∈ c.definitions, d.decl.Proper c := by
  refine ⟨proper_of_checkAll, fun h x hx => ?_⟩
  obtain ⟨d, hd, hx⟩ := List.mem_flatMap.mp hx
  obtain ⟨y, hy, rfl⟩ := List.mem_map.mp hx
  rw [isError_toDiagnostic]
  exact (Check.function_clean_iff c d.decl).mpr (h d hd) y hy

lemma missingEntry_clean_iff {c : Catalog} :
    (∀ x ∈ missingEntry c entryUnit, x.isError = false) ↔ c.hasEntry entryUnit = true := by
  rw [missingEntry]
  split
  · next h => simp [h]
  · next h =>
    refine iff_of_false (fun hall => ?_) h
    have hx := hall _ (List.mem_singleton_self _)
    rw [isError_toDiagnostic] at hx
    cases hx

lemma complaints_clean_iff (entryUnit : String) (units : List ParsedUnit) :
    (∀ x ∈ complaints entryUnit units, x.isError = false) ↔
      (Catalog.ofParsed units).WellFormed entryUnit := by
  have hclean := Catalog.ofUnits_clean units
  have hnone : (∀ x ∈ (Catalog.ofUnits units).2, x.isError = false) ↔
      Catalog.Distinct (Catalog.ofParsed units).definitions := by
    rw [← hclean, List.eq_nil_iff_forall_not_mem]
    refine forall_congr' fun x => ⟨fun h hx => ?_, fun h hx => absurd hx h⟩
    rw [Catalog.ofUnits_errors units x hx] at h
    cases h hx
  rw [Catalog.wellFormed_iff, complaints, List.append_assoc, List.forall_mem_append,
    List.forall_mem_append, hnone, missingEntry_clean_iff, checkAll_clean_iff]
  apply and_congr_right
  intro hd
  rw [Catalog.ofUnits_eq units (hclean.mpr hd)]

lemma link_of_fits {units : List ParsedUnit}
    (hfits : ∀ s, link limits session entryUnit units ≠ .error (.unavailable s)) :
    (∃ p, link limits session entryUnit units = .ok p) ∧
        (∀ x ∈ complaints entryUnit units, x.isError = false) ∨
      link limits session entryUnit units = .error (.failure (complaints entryUnit units)) ∧
        ∃ x ∈ complaints entryUnit units, x.isError = true := by
  rw [link] at hfits ⊢
  split
  next c misplaced hc =>
  have hcomplaints : complaints entryUnit units = misplaced ++ missingEntry c entryUnit ++ checkAll c := by
    rw [complaints, hc]
  rw [hc] at hfits
  dsimp only at hfits ⊢
  split at hfits
  · next s _ => exact absurd rfl (hfits s)
  next hnone =>
  rw [← hcomplaints]
  cases hany : (complaints entryUnit units).any Diagnostic.isError with
  | true => exact .inr ⟨rfl, List.any_eq_true.mp hany⟩
  | false =>
    refine .inl ⟨⟨_, rfl⟩, fun x hx => ?_⟩
    exact Bool.eq_false_iff.mpr (List.any_eq_false.mp hany x hx)

lemma fits_iff (limits : CompilerLimits) (c : Catalog) :
    ((c.definitions.zip (c.definitions.map (Emit.function (context c)))).findSome? fun (d, f) => shortage? limits d f)
        = none ↔
      ∀ d ∈ c.definitions, shortage? limits d (Emit.function (context c) d) = none := by
  rw [← List.map_prod_left_eq_zip, List.findSome?_eq_none_iff, List.forall_mem_map]

lemma link_ok_iff {units : List ParsedUnit} :
    (∃ p, link limits session entryUnit units = .ok p) ↔ (Catalog.ofParsed units).WellFormed entryUnit ∧
      ∀ d ∈ (Catalog.ofParsed units).definitions,
        shortage? limits d (Emit.function (context (Catalog.ofParsed units)) d) = none := by
  have hclean := complaints_clean_iff entryUnit units
  constructor
  · rintro ⟨p, hp⟩
    have hfits : ∀ s, link limits session entryUnit units ≠ .error (.unavailable s) := by
      intro s hs
      rw [hp] at hs
      cases hs
    rcases link_of_fits hfits with ⟨-, hnone⟩ | ⟨herror, -⟩
    · have hw := hclean.mp hnone
      refine ⟨hw, (fits_iff limits _).mp ?_⟩
      rw [link, (Catalog.wellFormed_iff.mp hw).1.ofUnits] at hp
      dsimp only at hp
      split at hp
      · cases hp
      · next hroom => exact hroom
    · rw [hp] at herror
      cases herror
  · rintro ⟨hw, hroom⟩
    have hfits : ∀ s, link limits session entryUnit units ≠ .error (.unavailable s) := by
      intro s hs
      rw [link, (Catalog.wellFormed_iff.mp hw).1.ofUnits] at hs
      have hnone := (fits_iff limits _).mpr hroom
      dsimp only [context] at hs hnone
      rw [hnone] at hs
      dsimp only at hs
      split at hs <;> cases hs
    rcases link_of_fits hfits with ⟨hok, -⟩ | ⟨-, x, hx, hbad⟩
    · exact hok
    · rw [hclean.mpr hw x hx] at hbad
      cases hbad

lemma compile_ok_iff {units : List SourceUnit} :
    (∃ p, compile limits session units = .ok p) ↔ ∃ entry, SourceUnit.entryOf units = .ok entry ∧
      SourceUnit.totalSize units ≤ limits.sourceBytes ∧ (∀ u ∈ units, (parseUnit u).2 = []) ∧
      (source units).WellFormed entry.name ∧
      ∀ d ∈ (source units).definitions, shortage? limits d (Emit.function (context (source units)) d) = none := by
  rw [compile]
  cases hentry : SourceUnit.entryOf units with
  | error e => simp
  | ok entry =>
    have hread : ((units.map parseUnit).flatMap (·.2)).isEmpty = true ↔ ∀ u ∈ units, (parseUnit u).2 = [] := by
      simp
    dsimp only
    by_cases hsize : limits.sourceBytes < SourceUnit.totalSize units
    · rw [if_pos hsize]
      refine iff_of_false (not_exists.mpr fun p hp => by cases hp) ?_
      rintro ⟨e, -, hle, -⟩
      omega
    by_cases hclean : ((units.map parseUnit).flatMap (·.2)).isEmpty = true
    · rw [if_neg hsize, if_pos hclean, List.map_map]
      refine link_ok_iff.trans ⟨?_, ?_⟩
      · rintro ⟨hw, hroom⟩
        exact ⟨entry, rfl, Nat.not_lt.mp hsize, hread.mp hclean, hw, hroom⟩
      · rintro ⟨e, he, -, -, hw, hroom⟩
        cases he
        exact ⟨hw, hroom⟩
    · rw [if_neg hsize, if_neg hclean]
      refine iff_of_false (not_exists.mpr fun p hp => by cases hp) ?_
      rintro ⟨e, -, -, hall, -⟩
      exact hclean (hread.mpr hall)

lemma compile_eq_link {units : List SourceUnit} {entry : SourceUnit}
    (hshape : SourceUnit.entryOf units = .ok entry) (hread : ∀ u ∈ units, (parseUnit u).2 = [])
    (hfits : ∀ s, compile limits session units ≠ .error (.unavailable s)) :
    compile limits session units =
      link limits session entry.name (units.map fun u => (parseUnit u).1) := by
  have hnone : (units.map parseUnit).flatMap (·.2) = [] := by
    rw [List.flatMap_eq_nil_iff]
    intro r hr
    obtain ⟨u, hu, rfl⟩ := List.mem_map.mp hr
    exact hread u hu
  rw [compile, hshape] at hfits ⊢
  dsimp only at hfits ⊢
  split
  · next hsize => exact absurd (if_pos hsize) (hfits _)
  · rw [hnone, List.map_map]
    rfl

lemma compile_warnings {units : List SourceUnit} {p : Program} (h : compile limits session units = .ok p) :
    p.warnings = checkAll (source units) := by
  obtain ⟨entry, hentry, -, hread, hw, -⟩ := compile_ok_iff.mp ⟨p, h⟩
  have hlink := compile_eq_link hentry hread fun s hs => by rw [h] at hs; cases hs
  obtain ⟨hd, hmain, -⟩ := Catalog.wellFormed_iff.mp hw
  have hsource : Catalog.ofUnits (units.map fun u => (parseUnit u).1) = (source units, []) := hd.ofUnits
  rw [hlink, link, hsource] at h
  dsimp only at h
  split at h
  · cases h
  split at h
  · cases h
  cases h
  rw [missingEntry, if_pos hmain]
  rfl

/-- A submission that can be read and fits in the compiler compiles exactly if it keeps the rules, and is
rejected with an error otherwise. -/
theorem compiles_iff_wellFormed {units : List SourceUnit} {entry : SourceUnit}
    (hshape : SourceUnit.entryOf units = .ok entry) (hread : ∀ u ∈ units, (parseUnit u).2 = [])
    (hfits : ∀ s, compile limits session units ≠ .error (.unavailable s)) :
    ((∃ p, compile limits session units = .ok p) ↔ (source units).WellFormed entry.name) ∧
      (¬ (source units).WellFormed entry.name →
        ∃ ds, compile limits session units = .error (.failure ds) ∧ ∃ x ∈ ds, x.isError = true) := by
  have hlink := compile_eq_link hshape hread hfits
  rw [hlink] at hfits ⊢
  have hrules := complaints_clean_iff entry.name (units.map fun u => (parseUnit u).1)
  rcases link_of_fits hfits with ⟨hok, hclean⟩ | ⟨herror, x, hx, hbad⟩
  · have hw := hrules.mp hclean
    exact ⟨iff_of_true hok hw, fun hn => absurd hw hn⟩
  · refine ⟨iff_of_false ?_ fun hw => ?_, fun _ => ⟨_, herror, x, hx, hbad⟩⟩
    · rintro ⟨p, hp⟩
      rw [herror] at hp
      cases hp
    · rw [hrules.mpr hw x hx] at hbad
      cases hbad

def doubling : List SourceUnit :=
  [{ name := "lib", text := "fn twice(x) { return x + x; }" },
    { name := "m"
      text := "fn main() { for i in 0..9 { let x = twice(i); if x > 4 { break; } } }"
      isEntry := true }]

theorem compiles_iff_wellFormed_doubling :
    (∃ entry, SourceUnit.entryOf doubling = .ok entry ∧ entry.name = "m") ∧
      (∀ u ∈ doubling, (parseUnit u).2 = []) ∧
      (∀ s, compile {} 0 doubling ≠ .error (.unavailable s)) ∧ (source doubling).WellFormed "m" := by
  have hok : (compile {} 0 doubling).isOk = true := by decide +kernel
  have hread : ∀ u ∈ doubling, (parseUnit u).2 = [] := by decide +kernel
  obtain ⟨p, hp⟩ : ∃ p, compile {} 0 doubling = .ok p := by
    cases h : compile {} 0 doubling with
    | error e =>
      rw [h] at hok
      cases hok
    | ok p => exact ⟨p, rfl⟩
  have hfits : ∀ s, compile {} 0 doubling ≠ .error (.unavailable s) := by
    intro s hs
    rw [hp] at hs
    cases hs
  exact ⟨⟨_, rfl, rfl⟩, hread, hfits, (compiles_iff_wellFormed rfl hread hfits).1.mp ⟨p, hp⟩⟩

end Compiler

end ScriptHost
