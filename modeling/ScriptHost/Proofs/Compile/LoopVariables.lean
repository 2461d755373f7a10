import Mathlib.Data.List.Permutation
import ScriptHost.Proofs.Compile.Order
import ScriptHost.Proofs.Compile.Variables

/-!
Another name for the variable of a counting loop. The variable is there before the end bound is evaluated, so the end
bound is renamed with the body; the program is then the same as before.
-/

open Function (update)

namespace ScriptHost

/-- One loop of a body counts with the variable `w` in place of `v`. Neither its end bound nor its body has had `w`
before. -/
inductive LoopRenamed (v w : String) : List Stmt → List Stmt → Prop
  | here {p : Position} {first bound : Expr} {body rest : List Stmt} :
    w ≠ "" → w ∉ bound.mentions → w ∉ Stmt.allMentions body →
    LoopRenamed v w (.count p v first bound body :: rest)
      (.count p w first (bound.rename (update id v w)) (Stmt.renameAll (update id v w) body) :: rest)
  | later {x : Stmt} {rest rest' : List Stmt} :
    LoopRenamed v w rest rest' → LoopRenamed v w (x :: rest) (x :: rest')
  | body {p : Position} {cond : Expr} {body body' rest : List Stmt} {otherwise : Option (List Stmt)} :
    LoopRenamed v w body body' →
    LoopRenamed v w (.branch p cond body otherwise :: rest) (.branch p cond body' otherwise :: rest)
  | otherwise {p : Position} {cond : Expr} {body otherwise otherwise' rest : List Stmt} :
    LoopRenamed v w otherwise otherwise' →
    LoopRenamed v w (.branch p cond body (some otherwise) :: rest) (.branch p cond body (some otherwise') :: rest)
  | loop {p : Position} {cond : Expr} {body body' rest : List Stmt} :
    LoopRenamed v w body body' → LoopRenamed v w (.loop p cond body :: rest) (.loop p cond body' :: rest)
  | count {p : Position} {name : String} {first bound : Expr} {body body' rest : List Stmt} :
    LoopRenamed v w body body' →
    LoopRenamed v w (.count p name first bound body :: rest) (.count p name first bound body' :: rest)
  | block {p : Position} {body body' rest : List Stmt} :
    LoopRenamed v w body body' → LoopRenamed v w (.block p body :: rest) (.block p body' :: rest)

namespace LoopRenamed

variable {v w : String} {xs xs' : List Stmt}

lemma literals (h : LoopRenamed v w xs xs') (found : List String) :
    Literals.stmts found xs' = Literals.stmts found xs := by
  induction h generalizing found with
  | here =>
    rw [Literals.stmts, Literals.stmts, Literals.stmt, Literals.stmt, Literals.expr_rename, Literals.stmts_rename]
  | later _ ih => rw [Literals.stmts, Literals.stmts, ih]
  | @body _ _ _ _ _ otherwise _ ih =>
    cases otherwise <;> rw [Literals.stmts, Literals.stmts, Literals.stmt, Literals.stmt, ih]
  | otherwise _ ih => rw [Literals.stmts, Literals.stmts, Literals.stmt, Literals.stmt, ih]
  | loop _ ih => rw [Literals.stmts, Literals.stmts, Literals.stmt, Literals.stmt, ih]
  | count _ ih => rw [Literals.stmts, Literals.stmts, Literals.stmt, Literals.stmt, ih]
  | block _ ih => rw [Literals.stmts, Literals.stmts, Literals.stmt, Literals.stmt, ih]

lemma named (h : LoopRenamed v w xs xs') (hl : Stmt.AllLegible xs) : v ≠ "" := by
  induction h with
  | here => exact hl.1.1
  | later _ ih => exact ih hl.2
  | @body _ _ _ _ _ otherwise _ ih =>
    cases otherwise with
    | none => exact ih hl.1.2
    | some otherwise => exact ih hl.1.2.1
  | otherwise _ ih => exact ih hl.1.2.2
  | loop _ ih => exact ih hl.1.2
  | count _ ih => exact ih hl.1.2.2.2
  | block _ ih => exact ih hl.1

lemma proper {known : Catalog} {inLoop : Bool} {scopes : Scopes} (h : LoopRenamed v w xs xs') (hv : v ≠ "")
    (hp : Stmt.AllProper known inLoop scopes xs) : Stmt.AllProper known inLoop scopes xs' := by
  induction h generalizing inLoop scopes with
  | here hw hbound hbody =>
    have hscopes := Scopes.Renamed.single hv hw scopes
    obtain ⟨⟨hfirst, hb, hbs⟩, hrest⟩ := hp
    exact ⟨⟨hfirst, hb.rename hscopes.there hbound, Stmt.AllProper.rename hscopes.enter hbody hbs⟩, hrest⟩
  | later _ ih => exact ⟨hp.1, ih hp.2⟩
  | @body _ _ _ _ _ otherwise _ ih =>
    cases otherwise with
    | none => exact ⟨⟨hp.1.1, ih hp.1.2⟩, hp.2⟩
    | some otherwise => exact ⟨⟨hp.1.1, ih hp.1.2.1, hp.1.2.2⟩, hp.2⟩
  | otherwise _ ih => exact ⟨⟨hp.1.1, hp.1.2.1, ih hp.1.2.2⟩, hp.2⟩
  | loop _ ih => exact ⟨⟨hp.1.1, ih hp.1.2⟩, hp.2⟩
  | count _ ih => exact ⟨⟨hp.1.1, hp.1.2.1, ih hp.1.2.2⟩, hp.2⟩
  | block _ ih => exact ⟨ih hp.1, hp.2⟩

lemma code (h : LoopRenamed v w xs xs') (hv : v ≠ "") (c : Emit.Context) (s : Slots) (start : Nat) :
    Emit.stmts c s start #[] xs' = Emit.stmts c s start #[] xs := by
  -- The loop leaves the slots as they are, so what follows a statement starts with the same ones.
  have hhead {s : Slots} {start : Nat} {x x' : Stmt} (rest : List Stmt) (hslots : x'.slots s = x.slots s)
      (hx : (Emit.stmt c s start x').1 = (Emit.stmt c s start x).1) :
      Emit.stmts c s start #[] (x' :: rest) = Emit.stmts c s start #[] (x :: rest) := by
    rw [Emit.stmts_cons, Emit.stmts_cons, Emit.stmt_slots, Emit.stmt_slots, hslots, hx]
  induction h generalizing s start with
  | @here p first bound body rest hw hbound hbody =>
    have hs := Slots.Renamed.single hv hw s
    refine hhead rest rfl ?_
    rw [Emit.stmt, Emit.stmt]
    dsimp only
    rw [Emit.expr_rename hs _ bound hbound, Emit.stmts_rename hs.hide _ body hbody]
  | later _ ih => rw [Emit.stmts_cons, Emit.stmts_cons, ih]
  | @body _ _ _ _ rest otherwise _ ih =>
    cases otherwise with
    | none =>
      refine hhead rest rfl ?_
      rw [Emit.stmt, Emit.stmt]
      dsimp only
      rw [ih]
    | some otherwise =>
      refine hhead rest rfl ?_
      rw [Emit.stmt, Emit.stmt]
      dsimp only
      rw [ih]
  | @otherwise _ _ _ _ _ rest _ ih =>
    refine hhead rest rfl ?_
    rw [Emit.stmt, Emit.stmt]
    dsimp only
    rw [ih]
  | @loop _ _ _ _ rest _ ih =>
    refine hhead rest rfl ?_
    rw [Emit.stmt, Emit.stmt]
    dsimp only
    rw [ih]
  | @count _ _ _ _ _ _ rest _ ih =>
    refine hhead rest rfl ?_
    rw [Emit.stmt, Emit.stmt]
    dsimp only
    rw [ih]
  | @block _ _ _ rest _ ih =>
    refine hhead rest rfl ?_
    rw [Emit.stmt, Emit.stmt]
    exact ih s _

end LoopRenamed

structure Definition.Recast (d d' : Definition) : Prop where
  unit : d'.unit = d.unit
  decl : ∃ body f, (body = d.decl.body ∨ ∃ v w, v ≠ "" ∧ LoopRenamed v w d.decl.body body) ∧
    (∀ p : Position, (f p).line = p.line) ∧ d'.decl = ({ d.decl with body } : FunctionDecl).move f

namespace Definition.Recast

variable {d d' : Definition}

lemma name (h : d.Recast d') : d'.decl.name = d.decl.name := by
  obtain ⟨body, f, -, -, hd⟩ := h.decl
  rw [hd]
  rfl

lemma params (h : d.Recast d') : d'.decl.params.map (·.1) = d.decl.params.map (·.1) := by
  obtain ⟨body, f, -, -, hd⟩ := h.decl
  rw [hd, FunctionDecl.params_move]

lemma arity (h : d.Recast d') : d'.decl.arity = d.decl.arity := by
  obtain ⟨body, f, -, -, hd⟩ := h.decl
  rw [hd, FunctionDecl.arity_move]
  rfl

lemma literals (h : d.Recast d') (found : List String) :
    Literals.stmts found d'.decl.body = Literals.stmts found d.decl.body := by
  obtain ⟨body, f, hbody, -, hd⟩ := h.decl
  rw [hd, FunctionDecl.move, Literals.stmts_move]
  rcases hbody with rfl | ⟨v, w, -, hrenamed⟩
  · rfl
  · exact hrenamed.literals found

lemma exists_between (h : d.Recast d') : ∃ (m : Definition) (f : Position → Position),
    m.decl.params = d.decl.params ∧ (∀ c, Emit.body c m.decl = Emit.body c d.decl) ∧
    (∀ c, Emit.function c m = Emit.function c d) ∧ (∀ known, d.decl.Proper known → m.decl.Proper known) ∧
    (∀ p : Position, (f p).line = p.line) ∧ d'.decl = m.decl.move f := by
  obtain ⟨body, f, hbody, hlines, hd⟩ := h.decl
  have hcode (c : Emit.Context) : Emit.body c { d.decl with body } = Emit.body c d.decl := by
    rw [Emit.body, Emit.body]
    rcases hbody with rfl | ⟨v, w, hv, hrenamed⟩
    · rfl
    · rw [hrenamed.code hv]
  refine ⟨⟨d.unit, { d.decl with body }⟩, f, rfl, hcode, fun c => ?_, fun known hproper => ?_, hlines, hd⟩
  · simp only [Emit.function, hcode, FunctionDecl.arity]
  · rcases hbody with rfl | ⟨v, w, hv, hrenamed⟩
    · exact hproper
    · exact ⟨hproper.params, hrenamed.proper hv hproper.body⟩

end Definition.Recast

def Catalog.Recast (c c' : Catalog) : Prop :=
  List.Forall₂ Definition.Recast c.definitions c'.definitions

namespace Catalog.Recast

variable {c c' : Catalog}

lemma names (h : c.Recast c') : c'.definitions.map (·.decl.name) = c.definitions.map (·.decl.name) := by
  have hmap : List.Forall₂ Eq (c.definitions.map (·.decl.name)) (c'.definitions.map (·.decl.name)) :=
    List.rel_map (fun _ _ hd => hd.name.symm) h
  exact (List.forall₂_eq_eq_eq ▸ hmap).symm

lemma left (h : c.Recast c') {d' : Definition} (hd' : d' ∈ c'.definitions) : ∃ d ∈ c.definitions, d.Recast d' := by
  obtain ⟨i, hi⟩ := List.mem_iff_getElem?.mp hd'
  have hrel := forall₂_getElem? h i
  rw [hi] at hrel
  generalize hx : c.definitions[i]? = x at hrel
  cases hrel with
  | some hd => exact ⟨_, List.mem_of_getElem? hx, hd⟩

lemma distinct (h : c.Recast c') (hc : Distinct c.definitions) : Distinct c'.definitions := by
  refine ⟨h.names ▸ hc.names, fun d' hd' => ?_⟩
  obtain ⟨d, hd, hdd⟩ := h.left hd'
  rw [hdd.name]
  exact hc.unclaimed d hd

lemma literals (h : c.Recast c') : Literals.ofCatalog c' = Literals.ofCatalog c := by
  have hfold : Eq (c.definitions.foldl (fun found d => Literals.stmts found d.decl.body) [])
      (c'.definitions.foldl (fun found d => Literals.stmts found d.decl.body) []) := by
    refine List.rel_foldl (P := Eq) ?_ rfl h
    rintro found _ rfl d d' hd
    exact (hd.literals found).symm
  rw [Literals.ofCatalog, Literals.ofCatalog, hfold]

lemma find? (h : c.Recast c') (name : String) :
    Option.Rel (fun x x' => x.1 = x'.1 ∧ x.2.Recast x'.2) (c.find? name) (c'.find? name) := by
  have hindex (c : Catalog) : c.definitions.findIdx? (·.decl.name == name) =
      (c.definitions.map (·.decl.name)).findIdx? (· == name) := by
    rw [List.findIdx?_map]
    rfl
  rw [Catalog.find?, Catalog.find?, hindex c, hindex c', h.names]
  cases (c.definitions.map (·.decl.name)).findIdx? (· == name) with
  | none => exact .none
  | some i =>
    have hrel := forall₂_getElem? h i
    rw [Option.bind_some, Option.bind_some]
    generalize c.definitions[i]? = x at hrel ⊢
    generalize c'.definitions[i]? = x' at hrel ⊢
    cases hrel with
    | none => exact .none
    | some hd => exact .some ⟨rfl, hd⟩

lemma sameCalls (h : c.Recast c') : Check.SameCalls c c' := by
  intro name argc
  rw [Check.callProblem?, Check.callProblem?]
  have hfind := h.find? name
  generalize c.find? name = x at hfind ⊢
  generalize c'.find? name = x' at hfind ⊢
  cases hfind with
  | none => rfl
  | some hx =>
    dsimp only
    rw [hx.2.arity]

lemma context (h : c.Recast c') :
    (Compiler.context c).Twins Eq (SameLiteral c c') (Compiler.context c') where
  literals v := by
    rw [SameLiteral, Compiler.context, Compiler.context, h.literals]
  calls name := by
    have hfind := h.find? name
    change Option.Rel _ (c.find? name) (c'.find? name)
    generalize c.find? name = x at hfind ⊢
    generalize c'.find? name = x' at hfind ⊢
    cases hfind with
    | none => exact .none
    | some hx => exact .some ⟨hx.1, hx.2.arity.symm⟩

lemma wellFormed (h : c.Recast c') {entryUnit : String} (hw : c.WellFormed entryUnit) : c'.WellFormed entryUnit := by
  rw [wellFormed_iff] at hw ⊢
  obtain ⟨hdistinct, hentry, hproper⟩ := hw
  refine ⟨h.distinct hdistinct, ?_, fun d' hd' => ?_⟩
  · rw [hasEntry] at hentry ⊢
    have hfind := h.find? entryName
    generalize c.find? entryName = x at hfind hentry
    generalize c'.find? entryName = x' at hfind ⊢
    cases hfind with
    | none => exact hentry
    | some hx =>
      rw [Option.any_some] at hentry ⊢
      rw [hx.2.unit]
      exact hentry
  · obtain ⟨d, hd, hdd⟩ := h.left hd'
    obtain ⟨m, f, -, -, -, hm, -, hf⟩ := hdd.exists_between
    rw [← Check.function_clean_iff, hf, Check.function_move f h.sameCalls]
    intro x hx
    obtain ⟨y, hy, rfl⟩ := List.mem_map.mp hx
    exact (Check.function_clean_iff c m.decl).mpr (hm c (hproper d hd)) y hy

lemma function (h : c.Recast c') {d d' : Definition} (hd : d.Recast d') :
    Function.Alike Eq (SameLiteral c c') (Emit.function (Compiler.context c) d)
      (Emit.function (Compiler.context c') d') := by
  obtain ⟨m, f, -, -, hm, -, -, hf⟩ := hd.exists_between
  rw [← hm]
  exact Emit.function_alike h.context hf

lemma lines (h : c.Recast c') {d d' : Definition} (hd : d.Recast d') :
    (Emit.function (Compiler.context c) d).lines = (Emit.function (Compiler.context c') d').lines := by
  obtain ⟨m, f, -, hbody, -, -, hlines, hf⟩ := hd.exists_between
  have halike := Emit.body_alike h.context hf
  rw [hbody] at halike
  exact halike.settled.lines hlines

lemma fits (h : c.Recast c') {limits : CompilerLimits}
    (hfits : ∀ d ∈ c.definitions, Compiler.shortage? limits d (Emit.function (Compiler.context c) d) = none) :
    ∀ d' ∈ c'.definitions, Compiler.shortage? limits d' (Emit.function (Compiler.context c') d') = none := by
  intro d' hd'
  obtain ⟨d, hd, hdd⟩ := h.left hd'
  obtain ⟨m, f, hparams, -, hm, -, -, hf⟩ := hdd.exists_between
  rw [Compiler.shortage_alike limits h.context hf, Compiler.shortage?, hm, hparams]
  exact hfits d hd

end Catalog.Recast

namespace Compiler

open Catalog (SameLiteral)

variable {c c' : Catalog} {p p' : Program}

section Recast

variable (hc : Compiled c p) (hc' : Compiled c' p') (h : c.Recast c')

include hc hc' h

lemma Compiled.traceEntry_recast {f f' : Frame} (hid : f.function = f'.function) (hpc : f.pc = f'.pc) :
    Machine.traceEntry p f = Machine.traceEntry p' f' := by
  have hg := hc.getElem? f.function
  have hg' := hc'.getElem? f'.function
  have hrel := forall₂_getElem? h f.function
  rw [← hid] at hg'
  generalize c.definitions[f.function]? = d at hg hrel
  generalize c'.definitions[f.function]? = d' at hg' hrel
  cases hrel with
  | none =>
    have hget : p.functions.getD f.function default = p'.functions.getD f'.function default := by
      rw [Array.getD_eq_getD_getElem?, Array.getD_eq_getD_getElem?, ← hid, hg, hg', Option.map_none, Option.map_none]
    rw [Machine.traceEntry, Machine.traceEntry, hget, hpc]
  | some hd =>
    rw [hid] at hg'
    exact traceEntry_eq hg hg' hpc hd.name.symm hd.unit.symm (h.lines hd)

lemma Compiled.renamed_recast : p.Renamed Eq Eq p' where
  code := by
    rintro id _ rfl
    have hrel := forall₂_getElem? h id
    rw [hc.getElem?, hc'.getElem?, hc.sameString hc']
    generalize c.definitions[id]? = d at hrel ⊢
    generalize c'.definitions[id]? = d' at hrel ⊢
    cases hrel with
    | none => exact .none
    | some hd => exact .some (h.function hd)
  entries := hc.traceEntry_recast hc' h

lemma Compiled.entryPoint?_recast (hunit : p'.entryUnit = p.entryUnit) (name : String) (arity : Nat) :
    Option.Rel Eq (p.entryPoint? name arity) (p'.entryPoint? name arity) := by
  rw [hc.entryPoint?_eq, hc'.entryPoint?_eq, hunit]
  have hfind := h.find? name
  generalize c.find? name = x at hfind ⊢
  generalize c'.find? name = x' at hfind ⊢
  cases hfind with
  | none => exact .none
  | some hx =>
    obtain ⟨hid, hd⟩ := hx
    rw [Option.bind_some, Option.bind_some, hd.unit, hd.arity]
    split
    · exact .some hid
    · exact .none

lemma Compiled.run_recast (hunit : p'.entryUnit = p.entryUnit) {x : Execution} (hx : x.program = p)
    (bounds : SandboxLimits) : x.run bounds = Execution.run { x with program := p' } bounds := by
  subst hx
  have hentry := hc.entryPoint?_recast hc' h hunit x.entry x.arguments.length
  obtain ⟨houtcome, hlaunched⟩ := Execution.run_alike (hc.renamed_recast hc' h) bounds hunit hentry
  exact Prod.ext houtcome.eq hlaunched

end Recast

/-- The text `u'` has another name for the variable of one loop in the text `u`, and what stands behind it may have
moved along its line. -/
structure Renamed (v w : String) (u u' : SourceUnit) : Prop where
  name : u'.name = u.name
  isEntry : u'.isEntry = u.isEntry
  read : (parseUnit u').2 = []
  functions : ∃ before g after body f, (parseUnit u).1.functions = before ++ g :: after ∧
    LoopRenamed v w g.body body ∧ (∀ p : Position, (f p).line = p.line) ∧
    (parseUnit u').1.functions = (before ++ { g with body } :: after).map (FunctionDecl.move f)

variable {v w : String} {u u' : SourceUnit}

lemma Renamed.recast (h : Renamed v w u u') :
    List.Forall₂ Definition.Recast ((parseUnit u).1.functions.map (⟨u.name, ·⟩))
      ((parseUnit u').1.functions.map (⟨u'.name, ·⟩)) := by
  obtain ⟨before, g, after, body, f, hu, hrenamed, hlines, hu'⟩ := h.functions
  have hsame : ∀ d : FunctionDecl, Definition.Recast ⟨u.name, d⟩ ⟨u'.name, d.move f⟩ := fun d =>
    ⟨h.name, d.body, f, .inl rfl, hlines, rfl⟩
  have hg : Definition.Recast ⟨u.name, g⟩ ⟨u'.name, ({ g with body } : FunctionDecl).move f⟩ := by
    have hlegible : g.Legible := parseUnit_legible u g (by rw [hu]; simp)
    exact ⟨h.name, body, f, .inr ⟨v, w, hrenamed.named hlegible.body, hrenamed⟩, hlines, rfl⟩
  have hall (ds : List FunctionDecl) : List.Forall₂ Definition.Recast (ds.map (⟨u.name, ·⟩))
      ((ds.map (FunctionDecl.move f)).map (⟨u'.name, ·⟩)) := by
    rw [List.forall₂_map_left_iff, List.forall₂_map_right_iff, List.forall₂_map_right_iff, List.forall₂_same]
    exact fun d _ => hsame d
  rw [hu, hu', List.map_append, List.map_append, List.map_append]
  exact List.rel_append (hall before) (.cons hg (hall after))

variable {before after : List SourceUnit}

lemma Renamed.source (h : Renamed v w u u') :
    (source (before ++ u :: after)).Recast (source (before ++ u' :: after)) := by
  have hself (units : List SourceUnit) : (Compiler.source units).Recast (Compiler.source units) := by
    rw [Catalog.Recast, List.forall₂_same]
    exact fun d _ => ⟨rfl, d.decl.body, id, .inl rfl, fun _ => rfl, d.decl.move_id.symm⟩
  have hsplit (u : SourceUnit) : (Compiler.source (before ++ u :: after)).definitions =
      (Compiler.source before).definitions ++
        ((parseUnit u).1.functions.map (⟨u.name, ·⟩) ++ (Compiler.source after).definitions) := by
    simp [Compiler.source, Catalog.ofParsed, parseUnit]
  rw [Catalog.Recast, hsplit, hsplit]
  exact List.rel_append (hself before) (List.rel_append h.recast (hself after))

lemma Renamed.entryOf (h : Renamed v w u u') {entry : SourceUnit}
    (hentry : SourceUnit.entryOf (before ++ u :: after) = .ok entry) :
    ∃ entry', SourceUnit.entryOf (before ++ u' :: after) = .ok entry' ∧ entry'.name = entry.name := by
  obtain ⟨hnamed, hnodup, hone⟩ := SourceUnit.entryOf_eq_ok_iff.mp hentry
  have hnames : (before ++ u' :: after).map (·.name) = (before ++ u :: after).map (·.name) := by
    rw [List.map_append, List.map_append, List.map_cons, List.map_cons, h.name]
  have hentries : ((before ++ u' :: after).filter (·.isEntry)).map (·.name) = [entry.name] := by
    have hsame : ((before ++ u' :: after).filter (·.isEntry)).map (·.name) =
        ((before ++ u :: after).filter (·.isEntry)).map (·.name) := by
      rw [List.filter_append, List.filter_append, List.filter_cons, List.filter_cons, h.isEntry]
      split
      · rw [List.map_append, List.map_append, List.map_cons, List.map_cons, h.name]
      · rfl
    rw [hsame, hone, List.map_singleton]
  obtain ⟨entry', hone', hname⟩ := List.map_eq_singleton_iff.mp hentries
  have hnamed' : ∀ n ∈ (before ++ u :: after).map (·.name), n.toList.all Text.isBlank = false :=
    List.forall_mem_map.mpr hnamed
  rw [← hnames, List.forall_mem_map] at hnamed'
  exact ⟨entry', SourceUnit.entryOf_eq_ok_iff.mpr ⟨hnamed', hnames ▸ hnodup, hone'⟩, hname⟩

variable {limits : CompilerLimits} {session : Nat} {p : Program}

/-- In any submission that compiles, the variable of one counting loop can be renamed together with the loop's end bound
and body, as long as neither of them has the new name and the texts still fit: the submission compiles, and every run of
it ends as before. The end bound can be left as it is just where it does not mention the variable. -/
theorem loop_variable_is_renamed_with_end_bound (before after : List SourceUnit) (h : Renamed v w u u')
    (hc : compile limits session (before ++ u :: after) = .ok p)
    (hsize : SourceUnit.totalSize (before ++ u' :: after) ≤ limits.sourceBytes) (session' : Nat) :
    (∃ p', compile limits session' (before ++ u' :: after) = .ok p' ∧
      ∀ (x : Execution) (bounds : SandboxLimits), x.program = p →
        x.run bounds = Execution.run { x with program := p' } bounds) ∧
      (v ≠ w → ∀ bound : Expr, bound.rename (update id v w) = bound ↔ v ∉ bound.mentions) := by
  refine ⟨?_, fun hne bound => Expr.rename_single_eq_self hne⟩
  obtain ⟨entry, hentry, -, hread, hw, hroom⟩ := compile_ok_iff.mp ⟨p, hc⟩
  obtain ⟨hcompiled, e, he, hunit⟩ := compile_ok hc
  rw [hentry] at he
  cases he
  obtain ⟨entry', hentry', hname⟩ := h.entryOf hentry
  have hrecast : (source (before ++ u :: after)).Recast (source (before ++ u' :: after)) := h.source
  have hread' : ∀ x ∈ before ++ u' :: after, (parseUnit x).2 = [] := by
    intro x hx
    rcases List.mem_append.mp hx with hx | hx
    · exact hread x (List.mem_append_left _ hx)
    · rcases List.mem_cons.mp hx with rfl | hx
      · exact h.read
      · exact hread x (List.mem_append_right _ (List.mem_cons_of_mem _ hx))
  obtain ⟨p', hp'⟩ : ∃ p', compile limits session' (before ++ u' :: after) = .ok p' :=
    compile_ok_iff.mpr ⟨entry', hentry', hsize, hread', hname ▸ hrecast.wellFormed hw, hrecast.fits hroom⟩
  obtain ⟨hcompiled', e', he', hunit'⟩ := compile_ok hp'
  rw [hentry'] at he'
  cases he'
  have hsame : p'.entryUnit = p.entryUnit := hunit'.trans (hname.trans hunit.symm)
  exact ⟨p', hp', fun x bounds hx => hcompiled.run_recast hcompiled' hrecast hsame hx bounds⟩

def counting (name : String) : SourceUnit :=
  ⟨"m", "fn main() \x7b let i = 3; let n = 0; for " ++ name ++ " in 0.." ++ name ++ " + 2 \x7b n = n + " ++ name
    ++ "; \x7d return n; \x7d", true⟩

def countingMain (name : String) : FunctionDecl where
  name := "main"
  params := []
  body := [.declare ⟨1, 13⟩ "i" (.int ⟨1, 21⟩ 3), .declare ⟨1, 24⟩ "n" (.int ⟨1, 32⟩ 0),
    .count ⟨1, 35⟩ name (.int ⟨1, 44⟩ 0) (.binary ⟨1, 49⟩ .add (.var ⟨1, 47⟩ name) (.int ⟨1, 51⟩ 2))
      [.assign ⟨1, 55⟩ (.var ⟨1, 55⟩ "n") (.binary ⟨1, 61⟩ .add (.var ⟨1, 59⟩ "n") (.var ⟨1, 63⟩ name))],
    .give ⟨1, 68⟩ (some (.var ⟨1, 75⟩ "n"))]
  place := ⟨1, 1⟩

set_option maxRecDepth 100000 in
lemma counting_i : (parseUnit (counting "i")).1.functions = [countingMain "i"] := by
  cbv

set_option maxRecDepth 100000 in
lemma counting_k : (parseUnit (counting "k")).1.functions = [countingMain "k"] := by
  cbv

lemma counting_renamed : Renamed "i" "k" (counting "i") (counting "k") where
  name := rfl
  isEntry := rfl
  read := by decide +kernel
  functions := by
    have hloop : LoopRenamed "i" "k" (countingMain "i").body (countingMain "k").body :=
      .later (.later (.here (by decide) (by decide) (by decide)))
    refine ⟨[], countingMain "i", [], _, id, counting_i, hloop, fun _ => rfl, ?_⟩
    rw [counting_k, List.nil_append, List.map_singleton, FunctionDecl.move_id]
    rfl

theorem loop_variable_is_renamed_with_end_bound_counting :
    ∃ p p', compile {} 0 [counting "i"] = .ok p ∧ compile {} 1 [counting "k"] = .ok p' ∧
      Execution.run ⟨p, "main", [], 1000, none, false⟩ {} = Execution.run ⟨p', "main", [], 1000, none, false⟩ {} := by
  have hok : (compile {} 0 [counting "i"]).isOk = true := by decide +kernel
  have hsize : SourceUnit.totalSize [counting "k"] ≤ 1024 * 1024 := by decide +kernel
  obtain ⟨p, hp⟩ := exists_ok hok
  obtain ⟨⟨p', hp', hruns⟩, -⟩ :=
    loop_variable_is_renamed_with_end_bound [] [] counting_renamed hp hsize 1
  exact ⟨p, p', hp, hp', hruns ⟨p, "main", [], 1000, none, false⟩ {} rfl⟩

def returned (text : String) : Option Int64 :=
  (compile {} 0 [⟨"m", text, true⟩]).toOption.bind fun p =>
    match (Execution.run ⟨p, "main", [], 1000, none, false⟩ {}).1 with
    | .success (.int value) _ _ => some value
    | _ => none

/-- The end bound means the variable of the loop and not the one outside: with another name for the loop's variable in
the body alone, the number of rounds changes. -/
theorem end_bound_sees_loop_variable :
    returned "fn main() \x7b let i = 3; let n = 0; for i in 0..i \x7b n = n + i; \x7d return n; \x7d" = some 0 ∧
      returned "fn main() \x7b let i = 3; let n = 0; for k in 0..i \x7b n = n + k; \x7d return n; \x7d" =
        some 3 := by
  decide +kernel

end Compiler

end ScriptHost
