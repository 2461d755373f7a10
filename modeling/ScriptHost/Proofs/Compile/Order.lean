import ScriptHost.Proofs.Compile.Renumbered
import ScriptHost.Proofs.Compile.Statics

/-!
The units of a submission in another order. They come to a program of the same functions, so every run of it ends in the
same way.
-/

namespace ScriptHost

def Definition.isClaimed (d : Definition) : Bool :=
  (Builtin.ofName? d.decl.name).isSome

def Definition.claimReport (d : Definition) : Diagnostic :=
  (Finding.mk d.decl.place (.redefinesBuiltin d.decl.name)).toDiagnostic d.unit

namespace Catalog

lemma Distinct.of_perm {ds ds' : List Definition} (h : Distinct ds) (hp : ds.Perm ds') : Distinct ds' :=
  ⟨(hp.map (·.decl.name)).nodup_iff.mp h.names, fun d hd => h.unclaimed d (hp.mem_iff.mpr hd)⟩

lemma ofParsed_perm {units units' : List ParsedUnit} (hp : units.Perm units') :
    (ofParsed units).definitions.Perm (ofParsed units').definitions :=
  hp.flatMap_right _

section Perm

variable {c c' : Catalog} (h : Distinct c.definitions) (hp : c.definitions.Perm c'.definitions)

include h hp

lemma twins_of_perm : Twins Eq c c' where
  distinct := h
  distinct' := h.of_perm hp
  there d hd := ⟨d, hp.mem_iff.mp hd, rfl⟩
  back d hd := ⟨d, hp.mem_iff.mpr hd, rfl⟩
  moved := by
    rintro d _ rfl
    exact ⟨id, d.decl.move_id.symm⟩

lemma hasEntry_perm (entryUnit : String) : c'.hasEntry entryUnit = c.hasEntry entryUnit := by
  rw [Bool.eq_iff_iff, h.hasEntry_iff, (h.of_perm hp).hasEntry_iff]
  simp only [hp.mem_iff]

end Perm

/-! Where no name is defined twice, only what has the name of a builtin is left out. -/

lemma foldl_addUnit (units : List ParsedUnit) (d : Draft) :
    units.foldl Draft.addUnit d = (ofParsed units).definitions.foldl (fun d x => d.add x.unit x.decl) d := by
  rw [ofParsed, List.foldl_flatMap]
  simp only [List.foldl_map]
  rfl

lemma foldl_add (ds : List Definition) (d : Draft) (h : (ds.map (·.decl.name)).Nodup)
    (hd : ∀ x ∈ ds, ∀ y ∈ d.definitions, y.decl.name ≠ x.decl.name) :
    ds.foldl (fun d x => d.add x.unit x.decl) d =
      ⟨(ds.filter (!Definition.isClaimed ·)).reverse ++ d.definitions,
        ((ds.filter Definition.isClaimed).map Definition.claimReport).reverse ++ d.diagnostics⟩ := by
  induction ds generalizing d with
  | nil => rfl
  | cons x ds ih =>
    obtain ⟨hx, hds⟩ := List.nodup_cons.mp h
    have hfresh : d.definitions.find? (·.decl.name == x.decl.name) = none := by
      rw [List.find?_eq_none]
      exact fun y hy hname => hd x List.mem_cons_self y hy (beq_iff_eq.mp hname)
    rw [List.foldl_cons, Draft.add]
    by_cases hclaimed : (Builtin.ofName? x.decl.name).isSome
    · have hkept : ∀ z ∈ ds, ∀ y ∈ (d.report x.unit x.decl (.redefinesBuiltin x.decl.name)).definitions,
          y.decl.name ≠ z.decl.name := fun z hz => hd z (List.mem_cons_of_mem _ hz)
      have hx' : x.isClaimed = true := hclaimed
      rw [if_pos hclaimed, ih _ hds hkept]
      simp [hx', Draft.report, Definition.claimReport]
    · have hkept : ∀ z ∈ ds, ∀ y ∈ (⟨x.unit, x.decl⟩ :: d.definitions : List Definition),
          y.decl.name ≠ z.decl.name := by
        intro z hz
        refine List.forall_mem_cons.mpr ⟨fun hname => hx ?_, hd z (List.mem_cons_of_mem _ hz)⟩
        exact List.mem_map.mpr ⟨z, hz, hname.symm⟩
      have hx' : x.isClaimed = false := Bool.eq_false_iff.mpr hclaimed
      rw [if_neg hclaimed, hfresh]
      dsimp only
      rw [ih _ hds hkept]
      simp [hx']

lemma ofUnits_of_nodup {units : List ParsedUnit} (h : ((ofParsed units).definitions.map (·.decl.name)).Nodup) :
    ofUnits units = (⟨(ofParsed units).definitions.filter (!Definition.isClaimed ·)⟩,
      ((ofParsed units).definitions.filter Definition.isClaimed).map Definition.claimReport) := by
  rw [ofUnits, foldl_addUnit, foldl_add _ _ h (by simp)]
  simp

end Catalog

namespace Compiler

lemma checkAll_perm {c c' : Catalog} (h : Catalog.Distinct c.definitions)
    (hp : c.definitions.Perm c'.definitions) : (checkAll c).Perm (checkAll c') := by
  have hcheck (d : Definition) : Check.function c' d.decl = Check.function c d.decl := by
    have hmove := Check.function_move id (Catalog.twins_of_perm h hp).sameCalls d.decl
    rw [d.decl.move_id] at hmove
    rw [hmove]
    exact List.map_id _
  rw [checkAll, checkAll]
  simp only [hcheck]
  exact hp.flatMap_right _

lemma fits_perm (limits : CompilerLimits) (c c' : Catalog) (h : Catalog.Distinct c.definitions)
    (hp : c.definitions.Perm c'.definitions) :
    (∀ d ∈ c.definitions, shortage? limits d (Emit.function (context c) d) = none) ↔
      ∀ d ∈ c'.definitions, shortage? limits d (Emit.function (context c') d) = none := by
  have hsame (d : Definition) : shortage? limits d (Emit.function (context c') d) =
      shortage? limits d (Emit.function (context c) d) :=
    shortage_alike limits (Catalog.twins_of_perm h hp).context d.decl.move_id.symm
  simp only [hsame, hp.mem_iff]

inductive Agree : Except CompileError Program → Except CompileError Program → Prop
  | ok {p p' : Program} : p.warnings.Perm p'.warnings → Agree (.ok p) (.ok p')
  | failure {ds ds' : List Diagnostic} : ds.Perm ds' → Agree (.error (.failure ds)) (.error (.failure ds'))
  | unavailable {s s' : Shortage} : Agree (.error (.unavailable s)) (.error (.unavailable s'))
  | invalid {e e' : ShapeError} : Agree (.error (.invalid e)) (.error (.invalid e'))

variable {limits : CompilerLimits} {session session' : Nat}

lemma link_agree {entryUnit : String} {units units' : List ParsedUnit} (hp : units.Perm units')
    (hn : ((Catalog.ofParsed units).definitions.map (·.decl.name)).Nodup) :
    Agree (link limits session entryUnit units) (link limits session' entryUnit units') := by
  have hperm := Catalog.ofParsed_perm hp
  have hn' := (hperm.map (·.decl.name)).nodup_iff.mp hn
  rw [link, link, Catalog.ofUnits_of_nodup hn, Catalog.ofUnits_of_nodup hn']
  have hdistinct : Catalog.Distinct
      ((Catalog.ofParsed units).definitions.filter (!Definition.isClaimed ·)) := by
    refine ⟨(List.filter_sublist.map _).nodup hn, fun d hd => ?_⟩
    have hfree := (List.mem_filter.mp hd).2
    rw [Bool.not_eq_true'] at hfree
    exact Option.not_isSome_iff_eq_none.mp (Bool.eq_false_iff.mp hfree)
  have hkept := hperm.filter (!Definition.isClaimed ·)
  have hreports := (hperm.filter Definition.isClaimed).map Definition.claimReport
  generalize (Catalog.ofParsed units).definitions.filter (!Definition.isClaimed ·) = ds at hdistinct hkept ⊢
  generalize (Catalog.ofParsed units').definitions.filter (!Definition.isClaimed ·) = ds' at hkept ⊢
  -- What is left is the same functions in another order, under names that are all different.
  have hfits := fits_perm limits ⟨ds⟩ ⟨ds'⟩ hdistinct hkept
  rw [← fits_iff, ← fits_iff] at hfits
  dsimp only [context] at hfits ⊢
  split
  · next s hs =>
    rw [hs] at hfits
    split
    · exact .unavailable
    · next hs' => cases hfits.mpr hs'
  next hs =>
  rw [hfits.mp hs]
  dsimp only
  have hmissing : missingEntry ⟨ds'⟩ entryUnit = missingEntry ⟨ds⟩ entryUnit := by
    rw [missingEntry, missingEntry, Catalog.hasEntry_perm hdistinct hkept]
  have hall : (((Catalog.ofParsed units).definitions.filter Definition.isClaimed).map Definition.claimReport
      ++ missingEntry ⟨ds⟩ entryUnit ++ checkAll ⟨ds⟩).Perm
      (((Catalog.ofParsed units').definitions.filter Definition.isClaimed).map Definition.claimReport
      ++ missingEntry ⟨ds'⟩ entryUnit ++ checkAll ⟨ds'⟩) := by
    rw [hmissing]
    exact (hreports.append_right _).append (checkAll_perm hdistinct hkept)
  rw [← hall.any_eq]
  split
  · exact .failure hall
  · exact .ok hall

lemma totalSize_perm {units units' : List SourceUnit} (hp : units.Perm units') :
    SourceUnit.totalSize units = SourceUnit.totalSize units' := by
  rw [SourceUnit.totalSize, SourceUnit.totalSize]
  exact hp.foldl_eq' (fun _ _ _ _ _ => by omega) 0

lemma entryOf_perm {units units' : List SourceUnit} (hp : units.Perm units') {entry : SourceUnit}
    (h : SourceUnit.entryOf units = .ok entry) : SourceUnit.entryOf units' = .ok entry := by
  rw [SourceUnit.entryOf_eq_ok_iff] at h ⊢
  obtain ⟨hnames, hnodup, hentry⟩ := h
  refine ⟨fun u hu => hnames u (hp.mem_iff.mpr hu), (hp.map _).nodup_iff.mp hnodup, ?_⟩
  have hentry' := hp.filter (·.isEntry)
  rw [hentry] at hentry'
  exact (List.singleton_perm.mp hentry').symm

lemma source_perm {units units' : List SourceUnit} (hp : units.Perm units') :
    (source units).definitions.Perm (source units').definitions :=
  Catalog.ofParsed_perm (hp.map _)

lemma compile_agree {units units' : List SourceUnit} (hp : units.Perm units')
    (hn : ((source units).definitions.map (·.decl.name)).Nodup) :
    Agree (compile limits session units) (compile limits session' units') := by
  rw [compile, compile]
  cases hentry : SourceUnit.entryOf units with
  | error e =>
    cases hentry' : SourceUnit.entryOf units' with
    | error e' => exact .invalid
    | ok entry =>
      rw [entryOf_perm hp.symm hentry'] at hentry
      cases hentry
  | ok entry =>
    rw [entryOf_perm hp hentry, totalSize_perm hp]
    dsimp only
    split
    · exact .unavailable
    have hparsed := hp.map parseUnit
    have hfindings := hparsed.flatMap_right (·.2)
    rw [hfindings.isEmpty_eq]
    split
    · refine link_agree (hparsed.map (·.1)) ?_
      rw [List.map_map]
      exact hn
    · exact .failure hfindings

def warnings : Except CompileError Program → List Diagnostic
  | .ok p => p.warnings
  | .error (.failure ds) => ds.filter (!·.isError)
  | .error _ => []

lemma Agree.warnings {r r' : Except CompileError Program} (h : Agree r r') : (warnings r).Perm (warnings r') := by
  cases h with
  | ok hw => exact hw
  | failure hds => exact hds.filter _
  | unavailable => exact .nil
  | invalid => exact .nil

lemma Agree.ok_iff {r r' : Except CompileError Program} (h : Agree r r') :
    (∃ p, r = .ok p) ↔ ∃ p', r' = .ok p' := by
  cases h <;> simp

lemma traceEntry_eq {p p' : Program} {f f' : Frame} {g g' : Function} (hg : p.functions[f.function]? = some g)
    (hg' : p'.functions[f'.function]? = some g') (hpc : f.pc = f'.pc) (hname : g.name = g'.name)
    (hunit : g.unit = g'.unit) (hlines : g.lines = g'.lines) :
    Machine.traceEntry p f = Machine.traceEntry p' f' := by
  have hget : p.functions.getD f.function default = g := by
    rw [Array.getD_eq_getD_getElem?, hg, Option.getD_some]
  have hget' : p'.functions.getD f'.function default = g' := by
    rw [Array.getD_eq_getD_getElem?, hg', Option.getD_some]
  rw [Machine.traceEntry, Machine.traceEntry, hget, hget', hname, hunit, Function.lineAt, Function.lineAt, hlines, hpc]

lemma Compiled.run_perm {c c' : Catalog} {p p' : Program} (hc : Compiled c p) (hc' : Compiled c' p')
    (hp : c.definitions.Perm c'.definitions) (hunit : p'.entryUnit = p.entryUnit) {x : Execution}
    (hx : x.program = p) (limits : SandboxLimits) : x.run limits = Execution.run { x with program := p' } limits := by
  subst hx
  have ht := Catalog.twins_of_perm hc.distinct hp
  have hrenamed : x.program.Renamed (Catalog.Numbered Eq c c') Eq p' := by
    refine hc.renamed hc' ht ?_
    rintro d _ f f' rfl hpc hg hg'
    refine traceEntry_eq hg hg' hpc rfl rfl ?_
    exact (Emit.body_alike ht.context d.decl.move_id.symm).settled.lines fun _ => rfl
  have hentry : Option.Rel (Catalog.Numbered Eq c c') (x.program.entryPoint? x.entry x.arguments.length)
      (p'.entryPoint? x.entry x.arguments.length) := by
    refine hc.entryPoint?_twins hc' ht ?_ x.arguments.length
    rintro d _ rfl -
    rw [hunit]
  obtain ⟨houtcome, hlaunched⟩ := Execution.run_alike hrenamed limits hunit hentry
  exact Prod.ext houtcome.eq hlaunched

/-- The order of the units does not matter. Whether a submission compiles does not depend on it, nor does what any run
of its program comes to. Nor do the warnings, unless two functions have one name: then neither compiles, and of
functions with the same name only the first one is checked. -/
theorem order_is_irrelevant {units units' : List SourceUnit} (hp : units.Perm units') (limits : CompilerLimits)
    (session session' : Nat) :
    ((∃ p, compile limits session units = .ok p) ↔ ∃ p', compile limits session' units' = .ok p') ∧
    (((source units).definitions.map (·.decl.name)).Nodup →
      (warnings (compile limits session units)).Perm (warnings (compile limits session' units'))) ∧
    (¬ ((source units).definitions.map (·.decl.name)).Nodup →
      (¬ ∃ p, compile limits session units = .ok p) ∧ ¬ ∃ p', compile limits session' units' = .ok p') ∧
    ∀ p p', compile limits session units = .ok p → compile limits session' units' = .ok p' →
      p.warnings.Perm p'.warnings ∧
      ∀ (x : Execution) (bounds : SandboxLimits), x.program = p →
        x.run bounds = Execution.run { x with program := p' } bounds := by
  have hperm := source_perm hp
  have hnames {limits : CompilerLimits} {session : Nat} {units : List SourceUnit} {p : Program}
      (h : compile limits session units = .ok p) : ((source units).definitions.map (·.decl.name)).Nodup :=
    (compile_ok h).1.distinct.names
  have hiff : (∃ p, compile limits session units = .ok p) ↔ ∃ p', compile limits session' units' = .ok p' := by
    constructor
    · rintro ⟨p, h⟩
      exact (compile_agree hp (hnames h)).ok_iff.mp ⟨p, h⟩
    · rintro ⟨p', h'⟩
      exact (compile_agree hp.symm (hnames h')).ok_iff.mp ⟨p', h'⟩
  refine ⟨hiff, fun hn => (compile_agree hp hn).warnings, fun hn => ?_, ?_⟩
  · have hfails : ¬ ∃ p, compile limits session units = .ok p := fun ⟨_, h⟩ => hn (hnames h)
    exact ⟨hfails, fun h' => hfails (hiff.mpr h')⟩
  · intro p p' h h'
    obtain ⟨hc, entry, hentry, hunit⟩ := compile_ok h
    obtain ⟨hc', entry', hentry', hunit'⟩ := compile_ok h'
    rw [entryOf_perm hp hentry] at hentry'
    cases hentry'
    refine ⟨?_, fun x bounds hx => hc.run_perm hc' hperm (hunit'.trans hunit.symm) hx bounds⟩
    have hagree : Agree (compile limits session units) (compile limits session' units') :=
      compile_agree hp (hnames h)
    rw [h, h'] at hagree
    exact hagree.warnings

def sharing : List SourceUnit :=
  [{ name := "lib", text := "fn twice(x) { let seen = x; return x + x; }" },
    { name := "m", text := "fn main() \x7b let n = 3; println(\"four\"); return twice(2); \x7d", isEntry := true }]

lemma exists_ok {r : Except CompileError Program} (h : r.isOk = true) : ∃ p, r = .ok p := by
  cases r with
  | error => cases h
  | ok p => exact ⟨p, rfl⟩

theorem order_is_irrelevant_sharing :
    ∃ p p', compile {} 0 sharing = .ok p ∧ compile {} 1 sharing.reverse = .ok p' ∧
      (warnings (compile {} 0 sharing)).Perm (warnings (compile {} 1 sharing.reverse)) ∧
      p.warnings.Perm p'.warnings ∧
      Execution.run ⟨p, "main", [], 1000, none, false⟩ {} =
        Execution.run ⟨p', "main", [], 1000, none, false⟩ {} := by
  have hok : (compile {} 0 sharing).isOk = true := by decide +kernel
  have hnames : ((source sharing).definitions.map (·.decl.name)).Nodup := by decide +kernel
  obtain ⟨hiff, hwarnings, -, hruns⟩ := order_is_irrelevant (List.reverse_perm sharing).symm {} 0 1
  obtain ⟨p, hp⟩ := exists_ok hok
  obtain ⟨p', hp'⟩ := hiff.mp ⟨p, hp⟩
  obtain ⟨hsame, hrun⟩ := hruns p p' hp hp'
  exact ⟨p, p', hp, hp', hwarnings hnames, hsame, hrun ⟨p, "main", [], 1000, none, false⟩ {} rfl⟩

def disputed : List SourceUnit :=
  [{ name := "m", text := "fn main() { return f(); } fn f() { let x = 1; return 2; }", isEntry := true },
    { name := "lib", text := "fn f() { return 2; }" }]

theorem order_decides_warnings :
    disputed.Perm disputed.reverse ∧
      ¬ (warnings (compile {} 0 disputed)).Perm (warnings (compile {} 0 disputed.reverse)) := by
  have hone : (warnings (compile {} 0 disputed)).length = 1 := by decide +kernel
  have hnone : (warnings (compile {} 0 disputed.reverse)).length = 0 := by decide +kernel
  refine ⟨(List.reverse_perm disputed).symm, fun h => ?_⟩
  have hlength := h.length_eq
  rw [hone, hnone] at hlength
  cases hlength

end Compiler

end ScriptHost
