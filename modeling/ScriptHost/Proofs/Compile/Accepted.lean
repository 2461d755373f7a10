import ScriptHost.Proofs.Compile.Rules
import ScriptHost.Proofs.Syntax.Legible

/-!
What is known of a submission that compiles: its functions are those of its units, all of them keep the
rules, and the program has the code of each.
-/

namespace ScriptHost

namespace Catalog

def ofParsed (units : List ParsedUnit) : Catalog :=
  ⟨units.flatMap fun u => u.functions.map (⟨u.name, ·⟩)⟩

structure Distinct (ds : List Definition) : Prop where
  names : (ds.map (·.decl.name)).Nodup
  unclaimed : ∀ d ∈ ds, Builtin.ofName? d.decl.name = none

lemma Distinct.of_cons {d : Definition} {ds : List Definition} (h : Distinct (d :: ds)) : Distinct ds :=
  ⟨(List.nodup_cons.mp h.names).2, fun e he => h.unclaimed e (List.mem_cons_of_mem _ he)⟩

structure Draft.Lists (d : Draft) (all : List Definition) : Prop where
  errors : ∀ x ∈ d.diagnostics, x.isError = true
  clean : d.diagnostics = [] ↔ Distinct all
  kept : d.diagnostics = [] → d.definitions = all

lemma Draft.Lists.report {d : Draft} {all : List Definition} (h : d.Lists all) (unit : String)
    (f : FunctionDecl) {problem : Problem} (hp : problem.severity = .error)
    (hd : Distinct all → ¬ Distinct (⟨unit, f⟩ :: all)) :
    (d.report unit f problem).Lists (⟨unit, f⟩ :: all) where
  errors := List.forall_mem_cons.mpr ⟨decide_eq_true hp, h.errors⟩
  clean := iff_of_false (List.cons_ne_nil _ _) fun hc => hd hc.of_cons hc
  kept hk := absurd hk (List.cons_ne_nil _ _)

lemma Draft.Lists.add {d : Draft} {all : List Definition} (h : d.Lists all) (unit : String)
    (f : FunctionDecl) : (d.add unit f).Lists (⟨unit, f⟩ :: all) := by
  rw [Draft.add]
  by_cases hb : (Builtin.ofName? f.name).isSome
  · rw [if_pos hb]
    apply h.report unit f rfl
    intro _ hc
    rw [hc.unclaimed _ List.mem_cons_self] at hb
    cases hb
  · rw [if_neg hb]
    split
    · next g hg =>
      by_cases hd : d.diagnostics = []
      · apply h.report unit f rfl
        intro _ hc
        rw [h.kept hd] at hg
        have hname := List.find?_some hg
        exact (List.nodup_cons.mp hc.names).1
          (List.mem_map.mpr ⟨g, List.mem_of_find?_eq_some hg, beq_iff_eq.mp hname⟩)
      · exact h.report unit f rfl fun ha _ => hd (h.clean.mpr ha)
    · next hg =>
      refine ⟨h.errors, ⟨fun hd => ?_, fun hc => h.clean.mpr hc.of_cons⟩, fun hd => by rw [h.kept hd]⟩
      have hall := h.clean.mp hd
      rw [h.kept hd, List.find?_eq_none] at hg
      refine ⟨List.nodup_cons.mpr ⟨fun hm => ?_, hall.names⟩, List.forall_mem_cons.mpr ⟨?_, hall.unclaimed⟩⟩
      · obtain ⟨g, hgm, hname⟩ := List.mem_map.mp hm
        exact hg g hgm (beq_iff_eq.mpr hname)
      · exact Option.not_isSome_iff_eq_none.mp hb

lemma Draft.Lists.addUnit {d : Draft} {all : List Definition} (h : d.Lists all) (u : ParsedUnit) :
    (d.addUnit u).Lists ((u.functions.map (⟨u.name, ·⟩)).reverse ++ all) := by
  rw [Draft.addUnit]
  generalize u.functions = fs
  induction fs generalizing d all with
  | nil => exact h
  | cons f fs ih => simpa using ih (h.add u.name f)

lemma ofUnits_lists (units : List ParsedUnit) :
    (units.foldl Draft.addUnit ⟨[], []⟩).Lists (ofParsed units).definitions.reverse := by
  suffices h : ∀ (d : Draft) all, d.Lists all →
      (units.foldl Draft.addUnit d).Lists ((ofParsed units).definitions.reverse ++ all) by
    have hstart : (Draft.mk [] []).Lists [] := ⟨by simp, by simp [Distinct.mk], fun _ => rfl⟩
    simpa using h _ _ hstart
  induction units with
  | nil => exact fun d all h => h
  | cons u units ih =>
    intro d all h
    have := ih _ _ (h.addUnit u)
    simpa [ofParsed] using this

lemma ofUnits_clean (units : List ParsedUnit) :
    (ofUnits units).2 = [] ↔ Distinct (ofParsed units).definitions := by
  have h := (ofUnits_lists units).clean
  rw [ofUnits, List.reverse_eq_nil_iff, h]
  constructor
  · rintro ⟨hn, hu⟩
    rw [List.map_reverse] at hn
    exact ⟨List.nodup_reverse.mp hn, fun d hd => hu d (List.mem_reverse.mpr hd)⟩
  · rintro ⟨hn, hu⟩
    refine ⟨?_, fun d hd => hu d (List.mem_reverse.mp hd)⟩
    rw [List.map_reverse]
    exact List.nodup_reverse.mpr hn

lemma ofUnits_errors (units : List ParsedUnit) : ∀ x ∈ (ofUnits units).2, x.isError = true :=
  fun x hx => (ofUnits_lists units).errors x (List.mem_reverse.mp hx)

lemma ofUnits_eq (units : List ParsedUnit) (h : (ofUnits units).2 = []) :
    (ofUnits units).1 = ofParsed units := by
  have hk := (ofUnits_lists units).kept (List.reverse_eq_nil_iff.mp h)
  rw [ofUnits]
  simp [hk]

section Members

variable {draft : Draft} {d : Definition}

lemma Draft.mem_add {unit : String} {f : FunctionDecl} (hd : d ∈ (draft.add unit f).definitions) :
    d ∈ draft.definitions ∨ d.decl = f := by
  rw [Draft.add] at hd
  split at hd
  · exact .inl hd
  · split at hd
    · exact .inl hd
    · exact (List.mem_cons.mp hd).symm.imp_right (congrArg Definition.decl)

lemma Draft.mem_addUnit {u : ParsedUnit} (hd : d ∈ (draft.addUnit u).definitions) :
    d ∈ draft.definitions ∨ d.decl ∈ u.functions := by
  rw [Draft.addUnit] at hd
  generalize u.functions = fs at hd
  induction fs generalizing draft with
  | nil => exact .inl hd
  | cons f fs ih =>
    rcases ih hd with hd | hd
    · exact (Draft.mem_add hd).imp_right fun heq => List.mem_cons.mpr (.inl heq)
    · exact .inr (List.mem_cons_of_mem f hd)

lemma mem_ofUnits {units : List ParsedUnit} (hd : d ∈ (ofUnits units).1.definitions) :
    ∃ u ∈ units, d.decl ∈ u.functions := by
  have hfold : ∀ draft : Draft, d ∈ (units.foldl Draft.addUnit draft).definitions →
      d ∈ draft.definitions ∨ ∃ u ∈ units, d.decl ∈ u.functions := by
    clear hd
    induction units with
    | nil => exact fun draft hd => .inl hd
    | cons u units ih =>
      intro draft hd
      rcases ih _ hd with hd | ⟨v, hv, hd⟩
      · exact (Draft.mem_addUnit hd).imp_right fun hd => ⟨u, List.mem_cons_self, hd⟩
      · exact .inr ⟨v, List.mem_cons_of_mem u hv, hd⟩
  exact (hfold _ (List.mem_reverse.mp hd)).resolve_left List.not_mem_nil

end Members

lemma Distinct.ofUnits {units : List ParsedUnit} (h : Distinct (ofParsed units).definitions) :
    ofUnits units = (ofParsed units, []) :=
  Prod.ext (ofUnits_eq units ((ofUnits_clean units).mpr h)) ((ofUnits_clean units).mpr h)

lemma find?_some {c : Catalog} {name : String} {id : Nat} {d : Definition}
    (h : c.find? name = some (id, d)) : c.definitions[id]? = some d ∧ d.decl.name = name := by
  obtain ⟨i, hi, hd⟩ := Option.bind_eq_some_iff.mp h
  obtain ⟨e, he, heq⟩ := Option.map_eq_some_iff.mp hd
  cases heq
  refine ⟨he, ?_⟩
  obtain ⟨hlt, hp, -⟩ := List.findIdx?_eq_some_iff_getElem.mp hi
  rw [List.getElem?_eq_getElem hlt] at he
  cases he
  exact beq_iff_eq.mp hp

lemma Distinct.find? {c : Catalog} (h : Distinct c.definitions) {d : Definition} (hd : d ∈ c.definitions) :
    ∃ id, c.definitions.findIdx? (·.decl.name == d.decl.name) = some id ∧
      c.find? d.decl.name = some (id, d) := by
  have hsome : (c.definitions.findIdx? (·.decl.name == d.decl.name)).isSome := by
    rw [List.findIdx?_isSome, List.any_eq_true]
    exact ⟨d, hd, beq_self_eq_true _⟩
  obtain ⟨id, hid⟩ := Option.isSome_iff_exists.mp hsome
  obtain ⟨hlt, hname, -⟩ := List.findIdx?_eq_some_iff_getElem.mp hid
  have heq : c.definitions[id] = d :=
    List.inj_on_of_nodup_map h.names (List.getElem_mem hlt) hd (beq_iff_eq.mp hname)
  refine ⟨id, hid, ?_⟩
  rw [Catalog.find?, hid, Option.bind_some, List.getElem?_eq_getElem hlt, heq, Option.map_some]

end Catalog

namespace SourceUnit

lemma findEntry_eq_ok_iff {names : List String} {entry : Option SourceUnit} {units : List SourceUnit}
    {e : SourceUnit} :
    findEntry names entry units = .ok e ↔
      (∀ u ∈ units, u.isNameless = false ∧ u.name ∉ names) ∧ (units.map (·.name)).Nodup ∧
        entry.toList ++ units.filter (·.isEntry) = [e] := by
  induction units generalizing names entry with
  | nil => cases entry <;> simp [findEntry]
  | cons u units ih =>
    have hfresh : (∀ v ∈ units, v.isNameless = false ∧ v.name ∉ u.name :: names) ↔
        (∀ v ∈ units, v.isNameless = false ∧ v.name ∉ names) ∧ u.name ∉ units.map (·.name) := by
      simp only [List.mem_cons, List.mem_map]
      grind
    have hrest {entry : Option SourceUnit} :
        findEntry (u.name :: names) entry units = .ok e ↔
          (∀ v ∈ units, v.isNameless = false ∧ v.name ∉ names) ∧ ((u :: units).map (·.name)).Nodup ∧
            entry.toList ++ units.filter (·.isEntry) = [e] := by
      rw [ih, hfresh, List.map_cons, List.nodup_cons]
      tauto
    unfold findEntry
    rw [List.forall_mem_cons]
    by_cases hname : u.isNameless
    · simp [hname]
    by_cases hmem : u.name ∈ names
    · simp [hname, hmem]
    by_cases hentry : u.isEntry
    · cases entry with
      | some first => simp [hname, hmem, hentry]
      | none =>
        have hsome := @hrest (some u)
        simp [hname, hmem, hentry, hsome]
    · simp [hname, hmem, hentry, hrest]

lemma entryOf_eq_ok_iff {units : List SourceUnit} {e : SourceUnit} :
    entryOf units = .ok e ↔ (∀ u ∈ units, u.isNameless = false) ∧ (units.map (·.name)).Nodup ∧
      units.filter (·.isEntry) = [e] := by
  cases units with
  | nil => simp [entryOf]
  | cons u units =>
    change findEntry [] none (u :: units) = .ok e ↔ _
    rw [findEntry_eq_ok_iff]
    simp

lemma mem_of_entryOf {units : List SourceUnit} {e : SourceUnit} (h : entryOf units = .ok e) :
    e ∈ units ∧ e.isEntry = true := by
  obtain ⟨-, -, hone⟩ := entryOf_eq_ok_iff.mp h
  exact List.mem_filter.mp (hone ▸ List.mem_singleton_self e)

lemma entryOf_single {u : SourceUnit} (hentry : u.isEntry = true) (hname : u.isNameless = false) :
    entryOf [u] = .ok u := by
  rw [entryOf_eq_ok_iff, List.filter_singleton, hentry]
  exact ⟨fun v hv => List.mem_singleton.mp hv ▸ hname, List.nodup_singleton _, rfl⟩

end SourceUnit

namespace Compiler

def source (units : List SourceUnit) : Catalog :=
  Catalog.ofParsed (units.map fun u => (parseUnit u).1)

def gathered (units : List SourceUnit) : Catalog :=
  (Catalog.ofUnits (units.map fun u => (parseUnit u).1)).1

def context (c : Catalog) : Emit.Context :=
  ⟨c, Literals.ofCatalog c⟩

structure Compiled (c : Catalog) (p : Program) : Prop where
  functions : p.functions = (c.definitions.map (Emit.function (context c))).toArray
  strings : p.strings = (Literals.ofCatalog c).toArray
  distinct : Catalog.Distinct c.definitions
  proper : ∀ d ∈ c.definitions, d.decl.Proper c
  legible : ∀ d ∈ c.definitions, d.decl.Legible

lemma isError_toDiagnostic (unit : String) (x : Finding) :
    (x.toDiagnostic unit).isError = false ↔ x.problem.severity = .warning := by
  rw [Diagnostic.isError, Finding.toDiagnostic]
  cases x.problem.severity <;> simp

lemma proper_of_checkAll {c : Catalog} (h : ∀ x ∈ checkAll c, x.isError = false) :
    ∀ d ∈ c.definitions, d.decl.Proper c := by
  intro d hd
  apply (Check.function_clean_iff c d.decl).mp
  intro x hx
  rw [← isError_toDiagnostic d.unit]
  exact h _ (List.mem_flatMap.mpr ⟨d, hd, List.mem_map.mpr ⟨x, hx, rfl⟩⟩)

lemma link_ok {limits : CompilerLimits} {session : Nat} {entryUnit : String} {units : List ParsedUnit}
    {p : Program} (h : link limits session entryUnit units = .ok p)
    (hl : ∀ d ∈ (Catalog.ofParsed units).definitions, d.decl.Legible) :
    Compiled (Catalog.ofParsed units) p ∧ p.entryUnit = entryUnit := by
  rw [link] at h
  have hclean := Catalog.ofUnits_clean units
  have herrors := Catalog.ofUnits_errors units
  have heq := Catalog.ofUnits_eq units
  split at h
  next c misplaced hc =>
  rw [hc] at hclean herrors heq
  dsimp only at h hclean herrors heq
  split at h
  · cases h
  split at h
  · cases h
  next hany =>
  cases h
  have hwarn : ∀ x ∈ misplaced ++ missingEntry c entryUnit ++ checkAll c, x.isError = false :=
    fun x hx => Bool.eq_false_iff.mpr (List.any_eq_false.mp (Bool.eq_false_iff.mpr hany) x hx)
  have hm : misplaced = [] := by
    apply List.eq_nil_iff_forall_not_mem.mpr
    intro x hx
    have := hwarn x (List.mem_append_left _ (List.mem_append_left _ hx))
    rw [herrors x hx] at this
    cases this
  obtain rfl := heq hm
  exact ⟨⟨rfl, rfl, hclean.mp hm,
    proper_of_checkAll fun x hx => hwarn x (List.mem_append_right _ hx), hl⟩, rfl⟩

lemma source_legible (units : List SourceUnit) : ∀ d ∈ (source units).definitions, d.decl.Legible := by
  intro d hd
  obtain ⟨v, hv, hd⟩ := List.mem_flatMap.mp hd
  obtain ⟨u, -, rfl⟩ := List.mem_map.mp hv
  obtain ⟨f, hf, rfl⟩ := List.mem_map.mp hd
  exact parseUnit_legible u f hf

lemma compile_eq_ok {limits : CompilerLimits} {session : Nat} {units : List SourceUnit} {p : Program}
    (h : compile limits session units = .ok p) : ∃ entry, SourceUnit.entryOf units = .ok entry ∧
      link limits session entry.name (units.map fun u => (parseUnit u).1) = .ok p := by
  rw [compile] at h
  split at h
  · cases h
  next entry hentry =>
  dsimp only at h
  split at h
  · cases h
  split at h
  case isFalse => cases h
  rw [List.map_map] at h
  exact ⟨entry, hentry, h⟩

theorem compile_ok {limits : CompilerLimits} {session : Nat} {units : List SourceUnit} {p : Program}
    (h : compile limits session units = .ok p) :
    Compiled (source units) p ∧ ∃ entry, SourceUnit.entryOf units = .ok entry ∧ p.entryUnit = entry.name := by
  obtain ⟨entry, hentry, hlink⟩ := compile_eq_ok h
  obtain ⟨hc, hu⟩ := link_ok hlink (source_legible units)
  exact ⟨hc, entry, hentry, hu⟩

end Compiler

end ScriptHost
