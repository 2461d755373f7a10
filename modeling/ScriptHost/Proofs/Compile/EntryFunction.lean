import ScriptHost.Proofs.Compile.Order

/-!
What is said of a missing entry function. The catalog keeps the first function of each name, whatever unit has it, and
the entry function is looked for in the catalog only.
-/

namespace ScriptHost

namespace Problem

def isClash : Problem → Bool
  | redefinesBuiltin _ | alreadyDefined _ _ _ => true
  | _ => false

def isBreach : Problem → Bool
  | duplicateParameter _ | alreadyInScope _ | undefinedVariable _ | undefinedFunction _ | functionArity _ _ _
  | builtinArity _ _ _ _ | tooManyArguments _ | outsideLoop _ | unusedVariable _ | unreachable => true
  | _ => false

lemma head_append {s : String} {c : Char} (h : s.toList.head? = some c) (t : String) :
    (s ++ t).toList.head? = some c := by
  rw [String.toList_append, List.head?_append, h, Option.some_or]

lemma head_missingMain (unit : String) : (missingMain unit).message.toList.head? = some 'e' :=
  head_append (head_append rfl _) _

lemma exists_head_of_isClash {problem : Problem} (h : problem.isClash = true) :
    ∃ c, problem.message.toList.head? = some c ∧ c ≠ 'e' := by
  cases problem with
  | redefinesBuiltin name => exact ⟨'f', head_append (head_append rfl _) _, by decide⟩
  | alreadyDefined name unit line =>
    exact ⟨'f', head_append (head_append (head_append (head_append (head_append rfl _) _) _) _) _, by decide⟩
  | _ => cases h

lemma exists_head_of_isBreach {problem : Problem} (h : problem.isBreach = true) :
    ∃ c, problem.message.toList.head? = some c ∧ c ≠ 'e' := by
  cases problem with
  | duplicateParameter name => exact ⟨'d', head_append rfl _, by decide⟩
  | alreadyInScope name => exact ⟨'v', head_append (head_append rfl _) _, by decide⟩
  | undefinedVariable name => exact ⟨'u', head_append rfl _, by decide⟩
  | undefinedFunction name => exact ⟨'u', head_append rfl _, by decide⟩
  | unusedVariable name => exact ⟨'u', head_append rfl _, by decide⟩
  | functionArity name expected found =>
    exact ⟨'f', head_append (head_append (head_append (head_append (head_append rfl _) _) _) _) _, by decide⟩
  | builtinArity name least most found =>
    exact ⟨'b', head_append (head_append (head_append (head_append (head_append rfl _) _) _) _) _, by decide⟩
  | tooManyArguments name => exact ⟨'c', head_append (head_append rfl _) _, by decide⟩
  | outsideLoop keyword => exact ⟨'\'', head_append (head_append (head_append rfl _) _) _, by decide⟩
  | unreachable => exact ⟨'u', rfl, by decide⟩
  | _ => cases h

lemma message_ne_missingMain {problem : Problem} (h : problem.isClash = true ∨ problem.isBreach = true)
    (unit : String) : problem.message ≠ (missingMain unit).message := by
  have hhead : ∃ c, problem.message.toList.head? = some c ∧ c ≠ 'e' := by
    rcases h with hclash | hbreach
    · exact exists_head_of_isClash hclash
    · exact exists_head_of_isBreach hbreach
  obtain ⟨c, hc, hne⟩ := hhead
  intro heq
  rw [heq, head_missingMain] at hc
  exact hne (Option.some.inj hc).symm

end Problem

namespace Check

def Adds (s t : State) : Prop :=
  ∀ x ∈ t.findings, x ∈ s.findings ∨ x.problem.isBreach = true

section Adds

variable {s t u : State}

lemma Adds.refl (s : State) : Adds s s :=
  fun _ hx => .inl hx

lemma Adds.trans (h : Adds s t) (h' : Adds t u) : Adds s u := by
  intro x hx
  rcases h' x hx with ht | hbreach
  · exact h x ht
  · exact .inr hbreach

lemma adds_report (s : State) (p : Position) {problem : Problem} (h : problem.isBreach = true) :
    Adds s (s.report p problem) := by
  intro x hx
  rcases List.mem_cons.mp hx with rfl | hx
  · exact .inr h
  · exact .inl hx

lemma adds_openScope (s : State) : Adds s s.openScope :=
  fun _ hx => .inl hx

lemma adds_declare (s : State) (name : String) (p : Position) (used : Bool) : Adds s (s.declare name p used) := by
  rw [State.declare]
  split
  · exact .refl s
  · exact fun _ hx => .inl hx

lemma adds_closeScope (s : State) : Adds s s.closeScope := by
  rw [State.closeScope]
  split
  · exact .refl s
  · intro x hx
    rcases List.mem_append.mp hx with hwarning | hx
    · obtain ⟨v, -, rfl⟩ := List.mem_map.mp hwarning
      exact .inr rfl
    · exact .inl hx

lemma adds_readVariable (s : State) (p : Position) (name : String) : Adds s (s.readVariable p name) := by
  rw [State.readVariable]
  split
  · exact fun _ hx => .inl hx
  · exact adds_report s p rfl

end Adds

section Functions

variable (known : Catalog)

mutual

lemma adds_expr (s : State) (e : Expr) : Adds s (expr known s e) := by
  cases e with
  | var p name => exact adds_readVariable s p name
  | array _ items => exact adds_exprs s items
  | index _ target i => exact (adds_expr s target).trans (adds_expr _ i)
  | call p name args =>
    rw [expr]
    split
    · next problem hp =>
      refine (adds_exprs s args).trans (adds_report _ p ?_)
      rw [callProblem?] at hp
      repeat' split at hp
      all_goals cases hp <;> rfl
    · exact adds_exprs s args
  | unary _ _ operand => exact adds_expr s operand
  | binary _ _ lhs rhs => exact (adds_expr s lhs).trans (adds_expr _ rhs)
  | logic _ _ lhs rhs => exact (adds_expr s lhs).trans (adds_expr _ rhs)
  | _ => exact .refl s

lemma adds_exprs (s : State) (es : List Expr) : Adds s (exprs known s es) := by
  cases es with
  | nil => exact .refl s
  | cons e es => exact (adds_expr s e).trans (adds_exprs _ es)

end

lemma adds_assign (s : State) (t : Target) (value : Expr) :
    Adds s (written (expr known (target known s t) value) t) := by
  cases t with
  | var p name =>
    rw [written, target]
    split
    · exact adds_expr known s value
    · exact (adds_expr known s value).trans (adds_report _ p rfl)
  | index _ target i =>
    exact ((adds_expr known s target).trans (adds_expr known _ i)).trans (adds_expr known _ value)

lemma adds_jump (inLoop : Bool) (s : State) (p : Position) (keyword : String) :
    Adds s (jump inLoop s p keyword).1 := by
  cases inLoop with
  | true => exact .refl s
  | false => exact adds_report s p rfl

mutual

lemma adds_stmt (inLoop : Bool) (s : State) (x : Stmt) : Adds s (stmt known inLoop s x).1 := by
  have hblock (inLoop : Bool) (s : State) (body : List Stmt)
      (h : Adds s.openScope (stmts known inLoop false false s.openScope body).1) :
      Adds s (stmts known inLoop false false s.openScope body).1.closeScope :=
    ((adds_openScope s).trans h).trans (adds_closeScope _)
  cases x with
  | declare p name init =>
    refine .trans ?_ ((adds_expr known _ init).trans (adds_declare _ name p false))
    split
    · exact adds_report s p rfl
    · exact .refl s
  | assign p t value => exact adds_assign known s t value
  | branch p cond body otherwise =>
    have hbody := (adds_expr known s cond).trans (hblock inLoop _ body (adds_stmts inLoop false false _ body))
    cases otherwise with
    | none => exact hbody
    | some otherwise => exact hbody.trans (hblock inLoop _ otherwise (adds_stmts inLoop false false _ otherwise))
  | loop p cond body =>
    exact (adds_expr known s cond).trans (hblock true _ body (adds_stmts true false false _ body))
  | count p name first bound body =>
    have hfirst := ((adds_openScope s).trans (adds_expr known _ first)).trans (adds_declare _ name p false)
    have hbody := hblock true (expr known ((expr known s.openScope first).declare name p false) bound) body
      (adds_stmts true false false _ body)
    exact ((hfirst.trans (adds_expr known _ bound)).trans hbody).trans (adds_closeScope _)
  | give p value =>
    cases value with
    | none => exact .refl s
    | some e => exact adds_expr known s e
  | leave p => exact adds_jump inLoop s p "break"
  | again p => exact adds_jump inLoop s p "continue"
  | block p body => exact hblock inLoop s body (adds_stmts inLoop false false _ body)
  | eval p e => exact adds_expr known s e

lemma adds_stmts (inLoop ended warned : Bool) (s : State) (xs : List Stmt) :
    Adds s (stmts known inLoop ended warned s xs).1 := by
  cases xs with
  | nil => exact .refl s
  | cons x xs =>
    refine .trans ?_ ((adds_stmt inLoop _ x).trans (adds_stmts inLoop _ _ _ xs))
    split
    · exact adds_report s _ rfl
    · exact .refl s

end

lemma adds_params (ps : List (String × Position)) (s : State) : Adds s (ps.foldl param s) := by
  induction ps generalizing s with
  | nil => exact .refl s
  | cons q ps ih =>
    refine .trans ?_ (ih (param s q))
    rw [param]
    split
    · exact adds_report s _ rfl
    · exact adds_declare s _ _ _

theorem function_isBreach (f : FunctionDecl) : ∀ x ∈ function known f, x.problem.isBreach = true := by
  have hbody := adds_stmts known false false false (f.params.foldl param ⟨[[]], []⟩) f.body
  have hall := ((adds_params f.params ⟨[[]], []⟩).trans hbody).trans (adds_closeScope _)
  intro x hx
  exact (hall x (List.mem_reverse.mp hx)).resolve_left List.not_mem_nil

end Functions

end Check

/-! The first function of a name. -/

namespace Catalog

namespace Draft

lemma find?_add (d : Draft) (x : Definition) {name : String} (hname : Builtin.ofName? name = none) :
    (d.add x.unit x.decl).definitions.reverse.find? (·.decl.name == name) =
      (d.definitions.reverse.find? (·.decl.name == name)).or ([x].find? (·.decl.name == name)) := by
  by_cases hx : x.decl.name = name
  · subst hx
    rw [add, if_neg (by rw [hname]; exact Bool.false_ne_true)]
    split
    · next g hg =>
      have hname := List.find?_some hg
      have hfound : (d.definitions.reverse.find? (·.decl.name == x.decl.name)).isSome = true := by
        rw [List.find?_isSome]
        exact ⟨g, List.mem_reverse.mpr (List.mem_of_find?_eq_some hg), hname⟩
      exact (Option.or_of_isSome hfound).symm
    · simp
  · have hsingle : [x].find? (·.decl.name == name) = none := by simp [hx]
    rw [hsingle, Option.or_none, add]
    split
    · rfl
    split
    · rfl
    · simp [hx]

lemma find?_foldl_add (ds : List Definition) (d : Draft) {name : String} (hname : Builtin.ofName? name = none) :
    (ds.foldl (fun d x => d.add x.unit x.decl) d).definitions.reverse.find? (·.decl.name == name) =
      (d.definitions.reverse.find? (·.decl.name == name)).or (ds.find? (·.decl.name == name)) := by
  induction ds generalizing d with
  | nil => simp
  | cons x ds ih =>
    rw [List.foldl_cons, ih, find?_add _ _ hname, Option.or_assoc, ← List.find?_append]
    rfl

lemma add_isClash (d : Draft) (unit : String) (f : FunctionDecl) :
    ∀ m ∈ (d.add unit f).diagnostics, m ∈ d.diagnostics ∨
      ∃ problem : Problem, problem.isClash = true ∧ m.message = problem.message := by
  have hreport (problem : Problem) (h : problem.isClash = true) :
      ∀ m ∈ (d.report unit f problem).diagnostics, m ∈ d.diagnostics ∨
        ∃ problem : Problem, problem.isClash = true ∧ m.message = problem.message := by
    intro m hm
    rcases List.mem_cons.mp hm with rfl | hm
    · exact .inr ⟨problem, h, rfl⟩
    · exact .inl hm
  rw [add]
  split
  · exact hreport _ rfl
  split
  · exact hreport _ rfl
  · exact fun m hm => .inl hm

lemma foldl_add_isClash (ds : List Definition) (d : Draft) :
    ∀ m ∈ (ds.foldl (fun d x => d.add x.unit x.decl) d).diagnostics, m ∈ d.diagnostics ∨
      ∃ problem : Problem, problem.isClash = true ∧ m.message = problem.message := by
  induction ds generalizing d with
  | nil => exact fun m hm => .inl hm
  | cons x ds ih =>
    intro m hm
    rcases ih _ m hm with hm | hclash
    · exact add_isClash d x.unit x.decl m hm
    · exact .inr hclash

end Draft

lemma ofUnits_isClash (units : List ParsedUnit) :
    ∀ m ∈ (ofUnits units).2, ∃ problem : Problem, problem.isClash = true ∧ m.message = problem.message := by
  intro m hm
  have hm' := List.mem_reverse.mp hm
  rw [foldl_addUnit] at hm'
  exact (Draft.foldl_add_isClash _ _ m hm').resolve_left List.not_mem_nil

lemma find?_ofUnits (units : List ParsedUnit) {name : String} (hname : Builtin.ofName? name = none) :
    (ofUnits units).1.definitions.find? (·.decl.name == name) =
      (ofParsed units).definitions.find? (·.decl.name == name) := by
  change (units.foldl Draft.addUnit ⟨[], []⟩).definitions.reverse.find? _ = _
  rw [foldl_addUnit, Draft.find?_foldl_add _ _ hname]
  simp

lemma hasEntry_eq (c : Catalog) (entryUnit : String) :
    c.hasEntry entryUnit = (c.definitions.find? (·.decl.name == entryName)).any (·.unit == entryUnit) := by
  rw [hasEntry, find?, List.find?_eq_bind_findIdx?_getElem?]
  cases c.definitions.findIdx? (·.decl.name == entryName) with
  | none => rfl
  | some i => cases h : c.definitions[i]? <;> simp [h]

end Catalog

def SourceUnit.HasMain (u : SourceUnit) : Prop :=
  ∃ f ∈ (Compiler.parseUnit u).1.functions, f.name = Catalog.entryName

instance : DecidablePred SourceUnit.HasMain :=
  fun u => inferInstanceAs (Decidable (∃ f ∈ (Compiler.parseUnit u).1.functions, f.name = Catalog.entryName))

namespace Compiler

def own (u : SourceUnit) : List Definition :=
  (parseUnit u).1.functions.map (⟨u.name, ·⟩)

lemma source_append (us vs : List SourceUnit) :
    (source (us ++ vs)).definitions = (source us).definitions ++ (source vs).definitions := by
  simp [source, Catalog.ofParsed]

lemma source_cons (u : SourceUnit) (us : List SourceUnit) :
    (source (u :: us)).definitions = own u ++ (source us).definitions :=
  rfl

lemma find?_own (u : SourceUnit) :
    (own u).find? (·.decl.name == Catalog.entryName) = none ↔ ¬ u.HasMain := by
  simp [own, SourceUnit.HasMain]

lemma find?_source (us : List SourceUnit) :
    (source us).definitions.find? (·.decl.name == Catalog.entryName) = none ↔ ∀ u ∈ us, ¬ u.HasMain := by
  induction us with
  | nil => simp [source, Catalog.ofParsed]
  | cons u us ih => rw [source_cons, List.find?_append, Option.or_eq_none_iff, find?_own, ih, List.forall_mem_cons]

lemma unit_mem_source {us : List SourceUnit} {d : Definition} (h : d ∈ (source us).definitions) :
    d.unit ∈ us.map (·.name) := by
  simp only [source, Catalog.ofParsed, List.mem_flatMap, List.mem_map] at h
  obtain ⟨-, ⟨u, hu, rfl⟩, f, -, rfl⟩ := h
  exact List.mem_map.mpr ⟨u, hu, rfl⟩

lemma hasEntry_iff_first {front back : List SourceUnit} {entry : SourceUnit}
    (hn : ((front ++ entry :: back).map (·.name)).Nodup) :
    (Catalog.ofUnits ((front ++ entry :: back).map fun u => (parseUnit u).1)).1.hasEntry entry.name = true ↔
      entry.HasMain ∧ ∀ u ∈ front, ¬ u.HasMain := by
  have helsewhere : entry.name ∉ front.map (·.name) ∧ entry.name ∉ back.map (·.name) := by
    rw [List.map_append, List.map_cons, List.nodup_middle, List.nodup_cons, List.mem_append, not_or] at hn
    exact hn.1
  rw [Catalog.hasEntry_eq, Catalog.find?_ofUnits _ (by decide)]
  change ((source (front ++ entry :: back)).definitions.find? _).any _ = true ↔ _
  rw [source_append, source_cons, List.find?_append, List.find?_append, ← find?_source front]
  cases hfront : (source front).definitions.find? (·.decl.name == Catalog.entryName) with
  | some d =>
    have hunit : d.unit ≠ entry.name := fun heq =>
      helsewhere.1 (heq ▸ unit_mem_source (List.mem_of_find?_eq_some hfront))
    simp [hunit]
  | none =>
    cases hown : (own entry).find? (·.decl.name == Catalog.entryName) with
    | some d =>
      have hmain : entry.HasMain := by
        by_contra hnot
        rw [(find?_own entry).mpr hnot] at hown
        cases hown
      obtain ⟨f, -, rfl⟩ := List.mem_map.mp (List.mem_of_find?_eq_some hown)
      simp [hmain]
    | none =>
      refine iff_of_false (fun hback => ?_) fun h => (find?_own entry).mp hown h.1
      obtain ⟨d, hd, hunit⟩ := (Option.any_eq_true _ _).mp hback
      rw [Option.none_or, Option.none_or] at hd
      exact helsewhere.2 (beq_iff_eq.mp hunit ▸ unit_mem_source (List.mem_of_find?_eq_some hd))

lemma missingMain_mem_complaints (entryUnit : String) (units : List ParsedUnit) :
    (∃ m ∈ complaints entryUnit units, m.message = (Problem.missingMain entryUnit).message) ↔
      ¬ (Catalog.ofUnits units).1.hasEntry entryUnit = true := by
  constructor
  · rintro ⟨m, hm, hmessage⟩ hentry
    rw [complaints, missingEntry, if_pos hentry, List.append_nil] at hm
    rcases List.mem_append.mp hm with hclash | hbreach
    · obtain ⟨problem, hproblem, heq⟩ := Catalog.ofUnits_isClash units m hclash
      exact Problem.message_ne_missingMain (.inl hproblem) entryUnit (heq.symm.trans hmessage)
    · obtain ⟨d, -, hd⟩ := List.mem_flatMap.mp hbreach
      obtain ⟨x, hx, rfl⟩ := List.mem_map.mp hd
      exact Problem.message_ne_missingMain (.inr (Check.function_isBreach _ d.decl x hx)) entryUnit hmessage
  · intro hentry
    refine ⟨Finding.toDiagnostic entryUnit ⟨.start, .missingMain entryUnit⟩,
      List.mem_append_left _ (List.mem_append_right _ ?_), rfl⟩
    rw [missingEntry, if_neg hentry]
    exact List.mem_singleton_self _

lemma link_complaints (limits : CompilerLimits) (session : Nat) (entryUnit : String) (units : List ParsedUnit) :
    (∃ s, link limits session entryUnit units = .error (.unavailable s)) ∨
      (∃ p, link limits session entryUnit units = .ok p ∧ p.warnings = complaints entryUnit units) ∨
      link limits session entryUnit units = .error (.failure (complaints entryUnit units)) := by
  rw [link]
  split
  next c misplaced hc =>
  have hcomplaints : complaints entryUnit units = misplaced ++ missingEntry c entryUnit ++ checkAll c := by
    rw [complaints, hc]
  rw [hcomplaints]
  dsimp only
  split
  · next s _ => exact .inl ⟨s, rfl⟩
  split
  · exact .inr (.inr rfl)
  · exact .inr (.inl ⟨_, rfl, rfl⟩)

def diagnostics : Except CompileError Program → List Diagnostic
  | .ok p => p.warnings
  | .error (.failure ds) => ds
  | .error _ => []

/-- The entry unit is said to have no entry function if it has none, and also if one of the units before it has one,
since the entry unit's own is then the second of its name. -/
theorem missing_main_is_reported_iff {limits : CompilerLimits} {session : Nat} {units : List SourceUnit}
    {entry : SourceUnit} (hshape : SourceUnit.entryOf units = .ok entry)
    (hread : ∀ u ∈ units, (parseUnit u).2 = [])
    (hfits : ∀ s, compile limits session units ≠ .error (.unavailable s)) :
    (∃ m ∈ diagnostics (compile limits session units), m.message = (Problem.missingMain entry.name).message) ↔
      ¬ entry.HasMain ∨ ∃ front back, units = front ++ entry :: back ∧ ∃ u ∈ front, u.HasMain := by
  have hlink := compile_eq_link hshape hread hfits
  have hcomplaints : diagnostics (compile limits session units) =
      complaints entry.name (units.map fun u => (parseUnit u).1) := by
    rw [hlink] at hfits ⊢
    rcases link_complaints limits session entry.name (units.map fun u => (parseUnit u).1) with
      ⟨s, hs⟩ | ⟨p, hp, hwarnings⟩ | hfailure
    · exact absurd hs (hfits s)
    · rw [hp]
      exact hwarnings
    · rw [hfailure]
      rfl
  rw [hcomplaints, missingMain_mem_complaints]
  obtain ⟨-, hnodup, hentry⟩ := SourceUnit.entryOf_eq_ok_iff.mp hshape
  have hmem : entry ∈ units.filter (·.isEntry) := hentry ▸ List.mem_singleton_self entry
  obtain ⟨front, back, hsplit⟩ := List.append_of_mem (List.mem_filter.mp hmem).1
  constructor
  · intro hnone
    rw [hsplit] at hnodup hnone
    rw [hasEntry_iff_first hnodup] at hnone
    by_cases hmain : entry.HasMain
    · right
      by_contra hfront
      exact hnone ⟨hmain, fun u hu hu' => hfront ⟨front, back, hsplit, u, hu, hu'⟩⟩
    · exact .inl hmain
  · rintro (hmain | ⟨front', back', rfl, u, hu, hu'⟩) hfound
    · rw [hsplit] at hnodup hfound
      exact hmain ((hasEntry_iff_first hnodup).mp hfound).1
    · exact ((hasEntry_iff_first hnodup).mp hfound).2 u hu hu'

def hidden : List SourceUnit :=
  [{ name := "lib", text := "fn main() { return 1; }" },
    { name := "m", text := "fn main() { return 2; }", isEntry := true }]

theorem missing_main_is_reported_hidden :
    ∃ m ∈ diagnostics (compile {} 0 hidden), m.message = (Problem.missingMain "m").message := by
  have hfits : ∀ s, compile {} 0 hidden ≠ .error (.unavailable s) := by
    intro s hs
    have hsome : (diagnostics (compile {} 0 hidden)).length = 2 := by decide +kernel
    rw [hs] at hsome
    cases hsome
  have hshape : SourceUnit.entryOf hidden = .ok ⟨"m", "fn main() { return 2; }", true⟩ := rfl
  have hread : ∀ u ∈ hidden, (parseUnit u).2 = [] := by decide +kernel
  have hmain : SourceUnit.HasMain ⟨"lib", "fn main() { return 1; }", false⟩ := by decide +kernel
  exact (missing_main_is_reported_iff hshape hread hfits).mpr
    (.inr ⟨[⟨"lib", "fn main() { return 1; }", false⟩], [], rfl, _, List.mem_singleton_self _, hmain⟩)

theorem missing_main_is_reported_of_hasMain :
    ∃ entry, SourceUnit.entryOf hidden = .ok entry ∧ entry.HasMain ∧ (∀ u ∈ hidden, (parseUnit u).2 = []) ∧
      (diagnostics (compile {} 0 hidden)).map (·.message) =
        [(Problem.alreadyDefined "main" "lib" 1).message, (Problem.missingMain "m").message] := by
  refine ⟨⟨"m", "fn main() { return 2; }", true⟩, rfl, ?_, ?_, ?_⟩
  all_goals decide +kernel

end Compiler

end ScriptHost
