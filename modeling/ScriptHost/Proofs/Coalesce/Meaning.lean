import ScriptHost.Proofs.Coalesce.Folded
import ScriptHost.Proofs.Compile.Order
import ScriptHost.Proofs.Syntax.Elsewhere
import ScriptHost.Proofs.Syntax.Placed

/-!
What folding units into one text preserves. The text has the functions of all units, at other places, and runs of it do
what runs of the units do.
-/

namespace ScriptHost

open Lexeme (Spells)
open Grammar (Comprises)

namespace Compiler

structure Reads (u : SourceUnit) (ks : List TokenKind) : Prop where
  spells : Spells u.text.toList ks
  comprises : ∃ ts, ts.map (·.kind) = ks ∧ (ts.map (·.place)).Nodup ∧ Comprises ts (parseUnit u).1.functions

lemma endless_of_kinds {ts : List Token} {ks : List TokenKind} (hk : ts.map (·.kind) = ks) (h : .eof ∉ ks) :
    Grammar.Endless ts := by
  intro t ht heof
  exact h (hk ▸ List.mem_map.mpr ⟨t, ht, heof⟩)

lemma exists_reads {u : SourceUnit} (h : (parseUnit u).2 = []) : ∃ ks, Reads u ks := by
  rw [parseUnit, List.map_eq_nil_iff, List.append_eq_nil_iff] at h
  obtain ⟨hscan, hparse⟩ := h
  obtain ⟨ks, hks⟩ := Scan.spells_of_clean hscan
  obtain ⟨-, ts, p, hts, hkinds, hplaces⟩ := Scan.ofText_spells hks
  refine ⟨ks, hks, ts, hkinds, hplaces, ?_⟩
  apply (Grammar.ofTokens_ended (endless_of_kinds hkinds hks.no_eof)).mp
  rw [← hts]
  change Parsed.ofTokens (Scan.ofText u.text).tokens = ⟨(Parsed.ofTokens (Scan.ofText u.text).tokens).functions, []⟩
  rw [← hparse]

lemma source_blankless {units : List SourceUnit} (h : ∀ u ∈ units, (parseUnit u).2 = []) :
    ∀ d ∈ (source units).definitions, ' ' ∉ d.decl.name.toList := by
  intro d hd
  obtain ⟨v, hv, hd⟩ := List.mem_flatMap.mp hd
  obtain ⟨u, hu, rfl⟩ := List.mem_map.mp hv
  obtain ⟨g, hg, rfl⟩ := List.mem_map.mp hd
  obtain ⟨ks, hspells, ts, hkinds, -, hcomprises⟩ := exists_reads (h u hu)
  have hname : .name g.name ∈ ks := hkinds ▸ hcomprises.name_mem hg
  exact fun hblank => absurd (hspells.name_parts hname ' ' hblank) (by decide)

def MovedFrom (u : SourceUnit) (fs : List FunctionDecl) : Prop :=
  ∃ f : Position → Position, fs = (parseUnit u).1.functions.map (FunctionDecl.move f)

lemma comprises_joined {units : List SourceUnit} {kss : List (List TokenKind)} (h : List.Forall₂ Reads units kss)
    {ts : List Token} (hts : ts.map (·.kind) = kss.flatten) :
    ∃ fss, List.Forall₂ MovedFrom units fss ∧ Comprises ts fss.flatten := by
  induction h generalizing ts with
  | nil =>
    obtain rfl := List.map_eq_nil_iff.mp hts
    exact ⟨[], .nil, Grammar.comprises_nil⟩
  | @cons u ks units kss hu _ ih =>
    rw [List.flatten_cons, List.map_eq_append_iff] at hts
    obtain ⟨first, rest, rfl, hfirst, hrest⟩ := hts
    obtain ⟨own, hown, hplaces, hcomprises⟩ := hu.comprises
    obtain ⟨f, rfl⟩ := Grammar.exists_move (hfirst.trans hown.symm) hplaces
    obtain ⟨fss, hmoved, hfss⟩ := ih hrest
    exact ⟨_ :: fss, .cons ⟨f, rfl⟩ hmoved, (hcomprises.move f).append hfss⟩

lemma parse_joined {units : List SourceUnit} {kss : List (List TokenKind)} (h : List.Forall₂ Reads units kss)
    {u : SourceUnit} (hu : Spells u.text.toList kss.flatten) :
    ∃ fss, List.Forall₂ MovedFrom units fss ∧ parseUnit u = (⟨u.name, fss.flatten⟩, []) := by
  obtain ⟨hscan, ts, p, hts, hkinds, -⟩ := Scan.ofText_spells hu
  obtain ⟨fss, hmoved, hcomprises⟩ := comprises_joined h hkinds
  refine ⟨fss, hmoved, ?_⟩
  have hparse := (Grammar.ofTokens_ended (p := p) (endless_of_kinds hkinds hu.no_eof)).mpr hcomprises
  rw [parseUnit, hscan, hts, hparse]
  rfl

end Compiler

namespace Coalesce

open Compiler (MovedFrom)

structure Became (entry : SourceUnit) (d d' : Definition) : Prop where
  unit : d'.unit = entry.name
  moved : ∃ f, d'.decl = d.decl.move f

lemma Became.name {entry : SourceUnit} {d d' : Definition} (h : Became entry d d') : d.decl.name = d'.decl.name := by
  obtain ⟨f, hf⟩ := h.moved
  rw [hf]
  rfl

def joined (entry : SourceUnit) (fss : List (List FunctionDecl)) : Catalog :=
  Catalog.ofParsed [⟨entry.name, fss.flatten⟩]

lemma joined_became {units : List SourceUnit} {fss : List (List FunctionDecl)} (entry : SourceUnit)
    (h : List.Forall₂ MovedFrom units fss) :
    List.Forall₂ (Became entry) (Compiler.source units).definitions (joined entry fss).definitions := by
  have hjoined (fss : List (List FunctionDecl)) :
      (joined entry fss).definitions = fss.flatten.map (⟨entry.name, ·⟩) := by
    rw [joined, Catalog.ofParsed, List.flatMap_singleton]
  rw [hjoined]
  induction h with
  | nil => exact .nil
  | @cons u fs units fss hu _ ih =>
    obtain ⟨f, rfl⟩ := hu
    have hsource : (Compiler.source (u :: units)).definitions =
        (Compiler.parseUnit u).1.functions.map (⟨u.name, ·⟩) ++ (Compiler.source units).definitions := rfl
    rw [hsource, List.flatten_cons, List.map_append]
    refine List.rel_append ?_ ih
    rw [List.forall₂_map_left_iff, List.forall₂_map_right_iff, List.forall₂_map_right_iff, List.forall₂_same]
    exact fun d _ => ⟨rfl, f, rfl⟩

lemma forall₂_left {α β : Type} {R : α → β → Prop} {l : List α} {l' : List β} (h : List.Forall₂ R l l') :
    ∀ x ∈ l, ∃ y ∈ l', R x y := by
  induction h with
  | nil => exact fun x hx => (List.not_mem_nil hx).elim
  | @cons x y l l' hxy _ ih =>
    refine List.forall_mem_cons.mpr ⟨⟨y, List.mem_cons_self, hxy⟩, fun x hx => ?_⟩
    obtain ⟨z, hz, hxz⟩ := ih x hx
    exact ⟨z, List.mem_cons_of_mem _ hz, hxz⟩

lemma forall₂_right {α β : Type} {R : α → β → Prop} {l : List α} {l' : List β} (h : List.Forall₂ R l l') :
    ∀ y ∈ l', ∃ x ∈ l, R x y :=
  forall₂_left (R := flip R) (List.Forall₂.flip (R := flip R) h)

section Joined

variable {units : List SourceUnit} (entry : SourceUnit) {fss : List (List FunctionDecl)} {c : Catalog}
  (hd : Catalog.Distinct c.definitions) (hp : c.definitions.Perm (Compiler.source units).definitions)
  (hm : List.Forall₂ MovedFrom units fss)

include hd hp hm

lemma joined_distinct : Catalog.Distinct (joined entry fss).definitions := by
  have hbecame := joined_became entry hm
  have hnames : (Compiler.source units).definitions.map (·.decl.name) =
      (joined entry fss).definitions.map (·.decl.name) :=
    List.forall₂_eq_eq_eq ▸ List.rel_map (fun _ _ h => h.name) hbecame
  refine ⟨hnames ▸ (hd.of_perm hp).names, fun d' hd' => ?_⟩
  obtain ⟨d, hd₀, hdd⟩ := forall₂_right hbecame d' hd'
  rw [← hdd.name]
  exact (hd.of_perm hp).unclaimed d hd₀

lemma joined_twins : c.Twins (fun d d' => d ∈ c.definitions ∧ Became entry d d') (joined entry fss) where
  distinct := hd
  distinct' := joined_distinct entry hd hp hm
  there d hmem := by
    obtain ⟨d', hd', hdd⟩ := forall₂_left (joined_became entry hm) d (hp.mem_iff.mp hmem)
    exact ⟨d', hd', hmem, hdd⟩
  back d' hd' := by
    obtain ⟨d, hmem, hdd⟩ := forall₂_right (joined_became entry hm) d' hd'
    exact ⟨d, hp.mem_iff.mpr hmem, hp.mem_iff.mpr hmem, hdd⟩
  moved h := h.2.moved

lemma joined_wellFormed (hw : c.WellFormed entry.name) : (joined entry fss).WellFormed entry.name := by
  have ht := joined_twins entry hd hp hm
  rw [Catalog.wellFormed_iff] at hw ⊢
  obtain ⟨-, hentry, hproper⟩ := hw
  refine ⟨ht.distinct', ?_, fun d' hd' => ?_⟩
  · obtain ⟨d, hmem, -, hname⟩ := hd.hasEntry_iff.mp hentry
    obtain ⟨d', hd', -, hdd⟩ := ht.there d hmem
    exact ht.distinct'.hasEntry_iff.mpr ⟨d', hd', hdd.unit, hdd.name ▸ hname⟩
  · obtain ⟨d, hmem, -, hdd⟩ := ht.back d' hd'
    obtain ⟨f, hf⟩ := hdd.moved
    rw [← Check.function_clean_iff, hf, Check.function_move f ht.sameCalls]
    intro x hx
    obtain ⟨y, hy, rfl⟩ := List.mem_map.mp hx
    exact (Check.function_clean_iff c d.decl).mpr (hproper d hmem) y hy

lemma joined_fits {limits : CompilerLimits}
    (hfits : ∀ d ∈ c.definitions, Compiler.shortage? limits d (Emit.function (Compiler.context c) d) = none) :
    ∀ d ∈ (joined entry fss).definitions,
      Compiler.shortage? limits d (Emit.function (Compiler.context (joined entry fss)) d) = none := by
  intro d' hd'
  have ht := joined_twins entry hd hp hm
  obtain ⟨d, hmem, -, hdd⟩ := ht.back d' hd'
  obtain ⟨f, hf⟩ := hdd.moved
  rw [Compiler.shortage_alike limits ht.context hf]
  exact hfits d hmem

end Joined

/-- Entries of two traces that name one function, each at a place of its own. The name ends at the first blank. -/
def SameFunction (e e' : String) : Prop :=
  ∃ name place place' : String, ' ' ∉ name.toList ∧ e = name ++ " (" ++ place ∧ e' = name ++ " (" ++ place'

lemma exists_traceEntry {p : Program} {f : Frame} {g : Function} (hg : p.functions[f.function]? = some g) :
    ∃ place, Machine.traceEntry p f = g.name ++ " (" ++ place := by
  have hget : p.functions.getD f.function default = g := by
    rw [Array.getD_eq_getD_getElem?, hg, Option.getD_some]
  refine ⟨g.unit ++ ":" ++ toString (g.lineAt (f.pc - 1)) ++ ")", ?_⟩
  rw [Machine.traceEntry, hget]
  simp only [String.append_assoc]

lemma joined_run {units : List SourceUnit} {entry : SourceUnit} {fss : List (List FunctionDecl)} {c : Catalog}
    {p q : Program} (hp : c.definitions.Perm (Compiler.source units).definitions)
    (hm : List.Forall₂ MovedFrom units fss) (hw : c.WellFormed entry.name) (hc : Compiler.Compiled c p)
    (hq : Compiler.Compiled (joined entry fss) q) (hpu : p.entryUnit = entry.name) (hqu : q.entryUnit = entry.name)
    (hblank : ∀ d ∈ c.definitions, ' ' ∉ d.decl.name.toList) {x : Execution}
    (hx : x.program = p) (hmain : x.entry = Catalog.entryName) (bounds : SandboxLimits) :
    (x.run bounds).1.Alike SameFunction (Execution.run { x with program := q } bounds).1 ∧
      (x.run bounds).2 = (Execution.run { x with program := q } bounds).2 := by
  subst hx
  have ht := joined_twins entry hc.distinct hp hm
  have hrenamed : x.program.Renamed (Catalog.Numbered (fun d d' => d ∈ c.definitions ∧ Became entry d d') c
      (joined entry fss)) SameFunction q := by
    refine hc.renamed hq ht ?_
    rintro d d' f f' ⟨hmem, hdd⟩ - hg hg'
    obtain ⟨place, hplace⟩ := exists_traceEntry hg
    obtain ⟨place', hplace'⟩ := exists_traceEntry hg'
    refine ⟨d.decl.name, place, place', hblank d hmem, hplace, ?_⟩
    rw [hplace', hdd.name]
    rfl
  refine Execution.run_alike hrenamed bounds (hqu.trans hpu.symm) ?_
  refine hc.entryPoint?_twins hq ht ?_ x.arguments.length
  rintro d d' ⟨hmem, hdd⟩ hname
  -- Units are compared for `main` only, which is in the entry unit before and after.
  obtain ⟨d₀, hmem₀, hunit₀, hname₀⟩ := hw.main
  have heq : d = d₀ :=
    List.inj_on_of_nodup_map hc.distinct.names hmem hmem₀ (hname.trans (hmain.trans hname₀.symm))
  rw [heq, hunit₀, hpu, hqu, hdd.unit]

lemma exists_forall₂ {α β : Type} {R : α → β → Prop} {l : List α} (h : ∀ x ∈ l, ∃ y, R x y) :
    ∃ l', List.Forall₂ R l l' := by
  induction l with
  | nil => exact ⟨[], .nil⟩
  | cons x l ih =>
    obtain ⟨⟨y, hy⟩, hl⟩ := List.forall_mem_cons.mp h
    obtain ⟨l', hl'⟩ := ih hl
    exact ⟨y :: l', .cons hy hl'⟩

lemma entry_perm {units : List SourceUnit} {entry : SourceUnit} (h : SourceUnit.entryOf units = .ok entry) :
    units.Perm (entry :: units.filter (!·.isEntry)) := by
  obtain ⟨-, -, hone⟩ := SourceUnit.entryOf_eq_ok_iff.mp h
  have hsplit := List.filter_append_perm (·.isEntry) units
  rw [hone] at hsplit
  exact hsplit.symm

lemma fold_parse {units : List SourceUnit} {entry : SourceUnit} {stamp : String}
    (hread : ∀ u ∈ units, (Compiler.parseUnit u).2 = []) (hentry : SourceUnit.entryOf units = .ok entry)
    (hnames : ∀ u ∈ units, '\n' ∉ u.name.toList) (hs : isMarked stampMark entry.text = false)
    (hu : isMarked unitsMark entry.text = false) (hstamp : '\n' ∉ stamp.toList) :
    ∃ fss, List.Forall₂ MovedFrom (entry :: units.filter (!·.isEntry)) fss ∧
      Compiler.parseUnit ⟨entry.name, fold stamp entry (units.filter (!·.isEntry)), true⟩ =
        (⟨entry.name, fss.flatten⟩, []) := by
  have hreads : ∀ u ∈ entry :: units.filter (!·.isEntry), ∃ ks, Compiler.Reads u ks := fun u hu =>
    Compiler.exists_reads (hread u ((entry_perm hentry).mem_iff.mpr hu))
  obtain ⟨kss, hkss⟩ := exists_forall₂ hreads
  refine Compiler.parse_joined hkss ?_
  cases hkss with
  | cons hfirst hrest =>
    refine fold_spells hstamp (fun u hu => hnames u (List.mem_of_mem_filter hu)) hs hu hfirst.spells ?_
    exact hrest.imp fun _ _ h => h.spells

lemma source_single {entry u : SourceUnit} {fss : List (List FunctionDecl)}
    (h : Compiler.parseUnit u = (⟨entry.name, fss.flatten⟩, [])) : Compiler.source [u] = joined entry fss := by
  rw [Compiler.source, List.map_singleton, h, joined]

open Compiler (compile)

lemma joined_compiles {limits : CompilerLimits} {session : Nat} {units : List SourceUnit} {entry : SourceUnit}
    {text : String} {fss : List (List FunctionDecl)} {c : Catalog} (hname : entry.isNameless = false)
    (hd : Catalog.Distinct c.definitions) (hp : c.definitions.Perm (Compiler.source units).definitions)
    (hm : List.Forall₂ MovedFrom units fss) (hw : c.WellFormed entry.name)
    (hfits : ∀ d ∈ c.definitions, Compiler.shortage? limits d (Emit.function (Compiler.context c) d) = none)
    (hparse : Compiler.parseUnit ⟨entry.name, text, true⟩ = (⟨entry.name, fss.flatten⟩, []))
    (hsize : text.utf8ByteSize ≤ limits.sourceBytes) :
    ∃ q, compile limits session [⟨entry.name, text, true⟩] = .ok q ∧
      Compiler.Compiled (joined entry fss) q ∧ q.entryUnit = entry.name := by
  have hsource := source_single hparse
  have hentry : SourceUnit.entryOf [⟨entry.name, text, true⟩] = .ok ⟨entry.name, text, true⟩ :=
    SourceUnit.entryOf_single rfl hname
  obtain ⟨q, hq⟩ : ∃ q, compile limits session [⟨entry.name, text, true⟩] = .ok q := by
    refine Compiler.compile_ok_iff.mpr ⟨_, hentry, ?_, ?_, ?_, ?_⟩
    · simpa [SourceUnit.totalSize] using hsize
    · intro u hu
      rw [List.mem_singleton.mp hu, hparse]
    · rw [hsource]
      exact joined_wellFormed entry hd hp hm hw
    · rw [hsource]
      exact joined_fits entry hd hp hm hfits
  obtain ⟨hcompiled, e, he, hunit⟩ := Compiler.compile_ok hq
  rw [hentry] at he
  cases he
  exact ⟨q, hq, hsource ▸ hcompiled, hunit⟩

/-- Folding units into one text preserves what they mean. If the units compile, none of their names has a line feed and
the entry unit has no mark, then the text compiles as the only unit as soon as there is room for it, whatever the time
stamp is. A run of its `main` ends as the run of the units does, with the same value, or the same fault while the same
functions are called, and with the same output. -/
theorem coalescing_preserves_meaning {limits : CompilerLimits} {session : Nat} {units : List SourceUnit} {p : Program}
    {entry : SourceUnit} {stamp : String} (hc : compile limits session units = .ok p)
    (hentry : SourceUnit.entryOf units = .ok entry) (hnames : ∀ u ∈ units, '\n' ∉ u.name.toList)
    (hs : isMarked stampMark entry.text = false) (hu : isMarked unitsMark entry.text = false)
    (hstamp : '\n' ∉ stamp.toList) :
    ∃ text, source stamp units = .ok text ∧ (text.utf8ByteSize ≤ limits.sourceBytes →
      ∀ session', ∃ q, compile limits session' [⟨entry.name, text, true⟩] = .ok q ∧
        ∀ (x : Execution) (bounds : SandboxLimits), x.program = p → x.entry = Catalog.entryName →
          (x.run bounds).1.Alike SameFunction (Execution.run { x with program := q } bounds).1 ∧
          (x.run bounds).2 = (Execution.run { x with program := q } bounds).2) := by
  obtain ⟨e, he, -, hread, hw, hroom⟩ := Compiler.compile_ok_iff.mp ⟨p, hc⟩
  obtain ⟨hcompiled, e', he', hunit⟩ := Compiler.compile_ok hc
  rw [hentry] at he he'
  cases he
  cases he'
  have hsplit := entry_perm hentry
  have hp := Compiler.source_perm hsplit
  have hname := (SourceUnit.entryOf_eq_ok_iff.mp hentry).1 entry (hsplit.mem_iff.mpr List.mem_cons_self)
  obtain ⟨fss, hm, hparse⟩ := fold_parse hread hentry hnames hs hu hstamp
  refine ⟨fold stamp entry (units.filter (!·.isEntry)), ?_, fun hsize session' => ?_⟩
  · rw [source, hentry]
    rfl
  · obtain ⟨q, hq, hjoined, hunit'⟩ := joined_compiles hname hcompiled.distinct hp hm hw hroom hparse hsize
    have hblank := Compiler.source_blankless hread
    exact ⟨q, hq, fun x bounds hx hmain =>
      joined_run hp hm hw hcompiled hjoined hunit hunit' hblank hx hmain bounds⟩

def scattered : List SourceUnit :=
  [{ name := "lib", text := "fn half(x) \x7b return x / 0; \x7d // of nothing" },
    { name := "m", text := "fn main() \x7b\r\n  return half(4);\r\n\x7d", isEntry := true }]

theorem coalescing_preserves_meaning_scattered :
    ∃ p text q, compile {} 0 scattered = .ok p ∧ source "now" scattered = .ok text ∧
      compile {} 1 [⟨"m", text, true⟩] = .ok q ∧
      (Execution.run ⟨p, "main", [], 1000, none, false⟩ {}).1.Alike SameFunction
        (Execution.run ⟨q, "main", [], 1000, none, false⟩ {}).1 := by
  have hok : (compile {} 0 scattered).isOk = true := by decide +kernel
  have hroom : ((source "now" scattered).toOption.elim 0 String.utf8ByteSize) ≤ 1024 * 1024 := by decide +kernel
  obtain ⟨p, hp⟩ := Compiler.exists_ok hok
  have hstamp : '\n' ∉ "now".toList := by decide
  obtain ⟨text, htext, hmeaning⟩ :=
    coalescing_preserves_meaning hp rfl (by decide) (by decide +kernel) (by decide +kernel) hstamp
  rw [htext] at hroom
  obtain ⟨q, hq, hruns⟩ := hmeaning hroom 1
  exact ⟨p, text, q, hp, htext, hq, (hruns ⟨p, "main", [], 1000, none, false⟩ {} rfl rfl).1⟩

end Coalesce

end ScriptHost
