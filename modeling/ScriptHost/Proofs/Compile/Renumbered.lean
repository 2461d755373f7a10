import ScriptHost.Proofs.Compile.Layout
import ScriptHost.Proofs.Compile.Moved
import ScriptHost.Proofs.Compile.Twins
import ScriptHost.Proofs.Machine.Renamed

/-!
Two submissions with the same functions. Each numbers functions and strings in its own order, and calls find the same
functions and literals the same strings in both.
-/

namespace ScriptHost

namespace Literals

lemma mem_foldl_stmts {v : String} (ds : List Definition) (found : List String) :
    v ∈ ds.foldl (fun found d => stmts found d.decl.body) found ↔
      v ∈ found ∨ ∃ d ∈ ds, v ∈ stmts [] d.decl.body := by
  induction ds generalizing found with
  | nil => simp
  | cons d ds ih =>
    rw [List.foldl_cons, ih, stmts_found, List.mem_append, List.exists_mem_cons_iff]
    tauto

lemma mem_ofCatalog {v : String} {c : Catalog} :
    v ∈ ofCatalog c ↔ ∃ d ∈ c.definitions, v ∈ stmts [] d.decl.body := by
  rw [ofCatalog, List.mem_eraseDups, List.mem_reverse, mem_foldl_stmts]
  simp

end Literals

namespace Catalog

variable {same : Definition → Definition → Prop} {c c' : Catalog}

/-- Catalogs of the same functions, each in its own order and with places of its own. -/
structure Twins (same : Definition → Definition → Prop) (c c' : Catalog) : Prop where
  distinct : Distinct c.definitions
  distinct' : Distinct c'.definitions
  there : ∀ d ∈ c.definitions, ∃ d' ∈ c'.definitions, same d d'
  back : ∀ d' ∈ c'.definitions, ∃ d ∈ c.definitions, same d d'
  moved {d d' : Definition} : same d d' → ∃ f, d'.decl = d.decl.move f

def Numbered (same : Definition → Definition → Prop) (c c' : Catalog) (id id' : Nat) : Prop :=
  ∃ d d', c.definitions[id]? = some d ∧ c'.definitions[id']? = some d' ∧ same d d'

def SameLiteral (c c' : Catalog) (k k' : Nat) : Prop :=
  (Literals.ofCatalog c)[k]? = (Literals.ofCatalog c')[k']?

lemma Twins.name (ht : Twins same c c') {d d' : Definition} (hd : same d d') : d'.decl.name = d.decl.name := by
  obtain ⟨f, hf⟩ := ht.moved hd
  rw [hf]
  rfl

lemma Twins.arity (ht : Twins same c c') {d d' : Definition} (hd : same d d') : d'.decl.arity = d.decl.arity := by
  obtain ⟨f, hf⟩ := ht.moved hd
  rw [hf, FunctionDecl.arity_move]

lemma find?_eq_none {name : String} : c.find? name = none ↔ ∀ d ∈ c.definitions, d.decl.name ≠ name := by
  rw [Catalog.find?]
  cases hi : c.definitions.findIdx? (·.decl.name == name) with
  | none =>
    rw [List.findIdx?_eq_none_iff] at hi
    exact iff_of_true rfl fun d hd hname => by simpa [hname] using hi d hd
  | some i =>
    obtain ⟨hlt, hname, -⟩ := List.findIdx?_eq_some_iff_getElem.mp hi
    rw [Option.bind_some, List.getElem?_eq_getElem hlt]
    exact iff_of_false (by simp) fun h => h _ (List.getElem_mem hlt) (beq_iff_eq.mp hname)

lemma Twins.find? (ht : Twins same c c') (name : String) :
    Option.Rel (fun x x' => Numbered same c c' x.1 x'.1 ∧ same x.2 x'.2) (c.find? name) (c'.find? name) := by
  cases hx : c.find? name with
  | some x =>
    obtain ⟨hid, rfl⟩ := find?_some hx
    obtain ⟨d', hd', hsame⟩ := ht.there _ (List.mem_of_getElem? hid)
    obtain ⟨id', -, hx'⟩ := ht.distinct'.find? hd'
    rw [ht.name hsame] at hx'
    rw [hx']
    exact .some ⟨⟨x.2, d', hid, (find?_some hx').1, hsame⟩, hsame⟩
  | none =>
    have hx' : c'.find? name = none := by
      rw [find?_eq_none] at hx ⊢
      intro d' hd' hname
      obtain ⟨d, hd, hsame⟩ := ht.back d' hd'
      exact hx d hd ((ht.name hsame).symm.trans hname)
    rw [hx']
    exact .none

lemma Twins.sameCalls (ht : Twins same c c') : Check.SameCalls c c' := by
  intro name argc
  rw [Check.callProblem?, Check.callProblem?]
  have hfind := ht.find? name
  generalize c.find? name = x at hfind ⊢
  generalize c'.find? name = x' at hfind ⊢
  cases hfind with
  | none => rfl
  | some h =>
    dsimp only
    rw [ht.arity h.2]

lemma Twins.mem_literals (ht : Twins same c c') (v : String) :
    v ∈ Literals.ofCatalog c ↔ v ∈ Literals.ofCatalog c' := by
  have hliterals : ∀ d d', same d d' → Literals.stmts [] d'.decl.body = Literals.stmts [] d.decl.body := by
    intro d d' hsame
    obtain ⟨f, hf⟩ := ht.moved hsame
    rw [hf]
    exact Literals.stmts_move f [] d.decl.body
  rw [Literals.mem_ofCatalog, Literals.mem_ofCatalog]
  constructor
  · rintro ⟨d, hd, hv⟩
    obtain ⟨d', hd', hsame⟩ := ht.there d hd
    exact ⟨d', hd', (hliterals d d' hsame).symm ▸ hv⟩
  · rintro ⟨d', hd', hv⟩
    obtain ⟨d, hd, hsame⟩ := ht.back d' hd'
    exact ⟨d, hd, hliterals d d' hsame ▸ hv⟩

lemma Twins.context (ht : Twins same c c') :
    (Compiler.context c).Twins (Numbered same c c') (SameLiteral c c') (Compiler.context c') where
  literals v := by
    rw [SameLiteral]
    by_cases hv : v ∈ Literals.ofCatalog c
    · have hv' := (ht.mem_literals v).mp hv
      exact (List.getElem?_idxOf hv).trans (List.getElem?_idxOf hv').symm
    · have hv' := fun h => hv ((ht.mem_literals v).mpr h)
      have hnone {l : List String} (h : v ∉ l) : l[l.idxOf v]? = none :=
        List.getElem?_eq_none (Nat.le_of_eq (List.idxOf_eq_length h).symm)
      exact (hnone hv).trans (hnone hv').symm
  calls name := by
    have hfind := ht.find? name
    change Option.Rel _ (c.find? name) (c'.find? name)
    generalize c.find? name = x at hfind ⊢
    generalize c'.find? name = x' at hfind ⊢
    cases hfind with
    | none => exact .none
    | some h => exact .some ⟨h.1, (ht.arity h.2).symm⟩

end Catalog

namespace Compiler

open Catalog (Numbered SameLiteral)

variable {same : Definition → Definition → Prop} {c c' : Catalog} {p p' : Program}

lemma Compiled.sameString (hc : Compiled c p) (hc' : Compiled c' p') : p.SameString p' = SameLiteral c c' := by
  funext k k'
  rw [Program.SameString, hc.strings, hc'.strings, List.getElem?_toArray, List.getElem?_toArray, SameLiteral]

theorem Compiled.renamed {entries : String → String → Prop} (hc : Compiled c p) (hc' : Compiled c' p')
    (ht : c.Twins same c')
    (hentries : ∀ {d d' : Definition} {f f' : Frame}, same d d' → f.pc = f'.pc →
      p.functions[f.function]? = some (Emit.function (context c) d) →
      p'.functions[f'.function]? = some (Emit.function (context c') d') →
      entries (Machine.traceEntry p f) (Machine.traceEntry p' f')) :
    p.Renamed (Numbered same c c') entries p' where
  code := by
    rintro id id' ⟨d, d', hd, hd', hsame⟩
    obtain ⟨f, hf⟩ := ht.moved hsame
    rw [hc.getElem?, hc'.getElem?, hd, hd', hc.sameString hc']
    exact .some (Emit.function_alike ht.context hf)
  entries := by
    rintro f f' ⟨d, d', hd, hd', hsame⟩ hpc
    apply hentries hsame hpc
    · rw [hc.getElem?, hd, Option.map_some]
    · rw [hc'.getElem?, hd', Option.map_some]

lemma Compiled.entryPoint?_twins (hc : Compiled c p) (hc' : Compiled c' p') (ht : c.Twins same c') {name : String}
    (hunit : ∀ {d d' : Definition}, same d d' → d.decl.name = name →
      (d.unit = p.entryUnit ↔ d'.unit = p'.entryUnit)) (arity : Nat) :
    Option.Rel (Numbered same c c') (p.entryPoint? name arity) (p'.entryPoint? name arity) := by
  rw [hc.entryPoint?_eq, hc'.entryPoint?_eq]
  have hfind := ht.find? name
  have hname : ∀ x ∈ c.find? name, x.2.decl.name = name := fun x hx => (Catalog.find?_some hx).2
  generalize c.find? name = x at hfind hname ⊢
  generalize c'.find? name = x' at hfind ⊢
  cases hfind with
  | none => exact .none
  | @some x x' h =>
    obtain ⟨hid, hsame⟩ := h
    have hcheck : (x.2.unit == p.entryUnit && x.2.decl.arity == arity) =
        (x'.2.unit == p'.entryUnit && x'.2.decl.arity == arity) := by
      rw [ht.arity hsame, Bool.eq_iff_iff, Bool.and_eq_true_iff, Bool.and_eq_true_iff, beq_iff_eq, beq_iff_eq,
        beq_iff_eq, hunit hsame (hname x rfl)]
    rw [Option.bind_some, Option.bind_some, hcheck]
    split
    · exact .some hid
    · exact .none

end Compiler

end ScriptHost
