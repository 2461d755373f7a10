import Mathlib.Algebra.Order.BigOperators.Group.List
import Mathlib.Algebra.Order.Ring.Nat
import ScriptHost.Proofs.Compile.Metered
import ScriptHost.Proofs.Compile.Statics

/-!
The limit on the instructions of a function. It decides whether there is room for a function, and nothing else, though
generating code leaves off at the first instruction that is too many.
-/

namespace ScriptHost

def CompilerLimits.upTo (limits : CompilerLimits) (n : Nat) : CompilerLimits :=
  { limits with functionInstructions := n }

namespace Capacity

variable {params n : Nat} {f : Function}

lemma shortage?_of_le (h : f.code.size ≤ n) : shortage? n params f = shortage? f.code.size params f := by
  have hfar : (f.code.findIdx? storesBeyond).any (· ≤ n) = (f.code.findIdx? storesBeyond).any (· ≤ f.code.size) := by
    cases hi : f.code.findIdx? storesBeyond with
    | none => rfl
    | some i =>
      have hlt : i < f.code.size := (Array.findIdx?_eq_some_iff_findIdx_eq.mp hi).1
      rw [Option.any_some, Option.any_some, decide_eq_true (by omega), decide_eq_true (by omega)]
  rw [shortage?, shortage?, hfar, if_neg (Nat.not_lt.mpr h), if_neg (Nat.lt_irrefl _)]

lemma shortage?_of_lt (h : n < f.code.size) (hroom : shortage? f.code.size params f = none) :
    shortage? n params f = some (.instructions n) := by
  rw [shortage?] at hroom ⊢
  split at hroom
  · cases hroom
  · next hfar =>
    rw [if_neg, if_pos h]
    intro hnear
    rw [Bool.or_eq_true] at hfar hnear
    refine hfar (hnear.imp_right fun hany => ?_)
    obtain ⟨i, hi, hle⟩ := Option.any_eq_true _ _ |>.mp hany
    rw [decide_eq_true_eq] at hle
    exact Option.any_eq_true _ _ |>.mpr ⟨i, hi, decide_eq_true (by omega)⟩

lemma size_le_of_shortage? (h : shortage? n params f = none) : f.code.size ≤ n := by
  rw [shortage?] at h
  split at h
  · cases h
  · split at h
    · cases h
    · next hle => exact Nat.not_lt.mp hle

end Capacity

namespace Compiler

def functions (c : Catalog) : List Function :=
  c.definitions.map (Emit.function (context c))

def lack? (limits : CompilerLimits) (c : Catalog) : Option Shortage :=
  c.definitions.findSome? fun d => shortage? limits d (Emit.function (context c) d)

def built (units : List SourceUnit) : List Function :=
  match SourceUnit.entryOf units with
  | .error _ => []
  | .ok _ =>
    if ((units.map parseUnit).flatMap (·.2)).isEmpty then
      functions (Catalog.ofUnits ((units.map parseUnit).map (·.1))).1
    else []

section Catalog

variable {limits : CompilerLimits} {c : Catalog} {n m : Nat}

lemma lack?_of_le (hn : ∀ f ∈ functions c, f.code.size ≤ n) (hm : ∀ f ∈ functions c, f.code.size ≤ m) :
    lack? (limits.upTo n) c = lack? (limits.upTo m) c := by
  rw [lack?, lack?, ← List.head?_filterMap, ← List.head?_filterMap]
  refine congrArg List.head? (List.filterMap_congr fun d hd => ?_)
  have hf : Emit.function (context c) d ∈ functions c := List.mem_map_of_mem hd
  exact (Capacity.shortage?_of_le (hn _ hf)).trans (Capacity.shortage?_of_le (hm _ hf)).symm

lemma size_le_of_lack? (h : lack? (limits.upTo n) c = none) : ∀ f ∈ functions c, f.code.size ≤ n := by
  intro f hf
  obtain ⟨d, hd, rfl⟩ := List.mem_map.mp hf
  exact Capacity.size_le_of_shortage? (List.findSome?_eq_none_iff.mp h d hd)

lemma lack?_of_lt (hm : lack? (limits.upTo m) c = none) (hn : ∃ f ∈ functions c, n < f.code.size) :
    lack? (limits.upTo n) c = some (.instructions n) := by
  have hsize := size_le_of_lack? hm
  have hshortage : ∀ d ∈ c.definitions,
      shortage? (limits.upTo n) d (Emit.function (context c) d) = none ∨
        shortage? (limits.upTo n) d (Emit.function (context c) d) = some (.instructions n) := by
    intro d hd
    have hroom := (Capacity.shortage?_of_le (hsize _ (List.mem_map_of_mem hd))).symm.trans
      (List.findSome?_eq_none_iff.mp hm d hd)
    rcases Nat.lt_or_ge n (Emit.function (context c) d).code.size with hlt | hle
    · exact .inr (Capacity.shortage?_of_lt hlt hroom)
    · exact .inl ((Capacity.shortage?_of_le hle).trans hroom)
  cases hl : lack? (limits.upTo n) c with
  | none =>
    obtain ⟨f, hf, hlt⟩ := hn
    exact absurd (size_le_of_lack? hl f hf) (Nat.not_le.mpr hlt)
  | some s =>
    obtain ⟨d, hd, hs⟩ := List.exists_of_findSome?_eq_some hl
    rcases hshortage d hd with hnone | hsome
    · rw [hnone] at hs
      cases hs
    · rw [← hs, hsome]

end Catalog

def settled (session : Nat) (entryUnit : String) (units : List ParsedUnit) : Except CompileError Program :=
  let ds := complaints entryUnit units
  let c := (Catalog.ofUnits units).1
  if ds.any Diagnostic.isError then .error (.failure ds)
  else .ok ⟨session, (functions c).toArray, (Literals.ofCatalog c).toArray, entryUnit, ds⟩

lemma link_eq (limits : CompilerLimits) (session : Nat) (entryUnit : String) (units : List ParsedUnit) :
    link limits session entryUnit units = match lack? limits (Catalog.ofUnits units).1 with
      | some s => .error (.unavailable s)
      | none => settled session entryUnit units := by
  rw [link, lack?, settled, complaints]
  dsimp only
  rw [← List.map_prod_left_eq_zip, List.findSome?_map]
  rfl

def linkMetered (limits : CompilerLimits) (session : Nat) (entryUnit : String) (units : List ParsedUnit) :
    Except CompileError Program :=
  let c := (Catalog.ofUnits units).1
  match c.definitions.mapM (Metered.function limits.functionInstructions (context c)) with
  | .error s => .error (.unavailable s)
  | .ok _ => settled session entryUnit units

def compileMetered (limits : CompilerLimits) (session : Nat) (units : List SourceUnit) : Except CompileError Program :=
  match SourceUnit.entryOf units with
  | .error e => .error (.invalid e)
  | .ok entry =>
    let size := SourceUnit.totalSize units
    if limits.sourceBytes < size then .error (.unavailable (.sourceSize size limits.sourceBytes))
    else
      let parsed := units.map parseUnit
      let diagnostics := parsed.flatMap (·.2)
      if diagnostics.isEmpty then linkMetered limits session entry.name (parsed.map (·.1))
      else .error (.failure diagnostics)

lemma mapM_metered (limits : CompilerLimits) (known : Catalog) (ds : List Definition) :
    ds.mapM (Metered.function limits.functionInstructions (context known)) =
      match ds.findSome? fun d => shortage? limits d (Emit.function (context known) d) with
      | some s => .error s
      | none => .ok (ds.map fun d =>
          ⟨(Emit.function (context known) d).code.size, (Emit.function (context known) d).locals⟩) := by
  induction ds with
  | nil => rfl
  | cons d ds ih =>
    rw [List.mapM_cons, ih, Emit.function_metered, List.findSome?_cons, shortage?]
    cases Capacity.shortage? _ _ (Emit.function (context known) d) with
    | some s => rfl
    | none => cases ds.findSome? fun d => shortage? limits d (Emit.function (context known) d) <;> rfl

lemma link_metered (limits : CompilerLimits) (session : Nat) (entryUnit : String) (units : List ParsedUnit) :
    linkMetered limits session entryUnit units = link limits session entryUnit units := by
  rw [link_eq, linkMetered, mapM_metered, lack?]
  cases List.findSome? _ (Catalog.ofUnits units).1.definitions <;> rfl

lemma compile_metered (limits : CompilerLimits) (session : Nat) (units : List SourceUnit) :
    compileMetered limits session units = compile limits session units := by
  rw [compileMetered, compile]
  cases SourceUnit.entryOf units with
  | error => rfl
  | ok entry => simp only [link_metered]

section Submission

variable (limits : CompilerLimits) (session : Nat) (units : List SourceUnit)

lemma compile_upTo :
    (∃ r, (built units = [] ∨ ∃ s, r = .error (.unavailable s)) ∧
      ∀ n, compile (limits.upTo n) session units = r) ∨
    ∃ c r, built units = functions c ∧ ∀ n,
      compile (limits.upTo n) session units = match lack? (limits.upTo n) c with
        | some s => .error (.unavailable s)
        | none => r := by
  cases hentry : SourceUnit.entryOf units with
  | error e => exact .inl ⟨.error (.invalid e), .inl (by rw [built, hentry]), fun n => by rw [compile, hentry]⟩
  | ok entry =>
    by_cases hsize : limits.sourceBytes < SourceUnit.totalSize units
    · let shortage := Shortage.sourceSize (SourceUnit.totalSize units) limits.sourceBytes
      refine .inl ⟨.error (.unavailable shortage), .inr ⟨shortage, rfl⟩, fun n => ?_⟩
      rw [compile, hentry]
      exact if_pos hsize
    · have hfits : ∀ n, ¬ (limits.upTo n).sourceBytes < SourceUnit.totalSize units := fun _ => hsize
      by_cases hclean : ((units.map parseUnit).flatMap (·.2)).isEmpty = true
      · let parsed := (units.map parseUnit).map (·.1)
        refine .inr ⟨(Catalog.ofUnits parsed).1, settled session entry.name parsed, ?_, fun n => ?_⟩
        · rw [built, hentry]
          exact if_pos hclean
        · rw [compile, hentry]
          dsimp only
          rw [if_neg (hfits n), if_pos hclean, link_eq]
      · refine .inl ⟨.error (.failure ((units.map parseUnit).flatMap (·.2))), .inl ?_, fun n => ?_⟩
        · rw [built, hentry]
          exact if_neg hclean
        · rw [compile, hentry]
          dsimp only
          rw [if_neg (hfits n), if_neg hclean]

/-- The limit on instructions only gates, though generating code leaves off at the first instruction that is too many.
From some limit on a submission compiles to one result. Unless that result is that the compiler is unavailable, a lower
limit gives the same one where every function that is built has no more instructions, and else the compiler is
unavailable for the limit's sake. So a result that is not for want of room stays when the limit is raised. -/
theorem instruction_limit_only_gates :
    (∀ n, compileMetered (limits.upTo n) session units = compile (limits.upTo n) session units) ∧ ∃ r,
    (∃ enough, ∀ n, enough ≤ n → compile (limits.upTo n) session units = r) ∧
    ((∀ s, r ≠ .error (.unavailable s)) → ∀ n,
      ((∀ f ∈ built units, f.code.size ≤ n) → compile (limits.upTo n) session units = r) ∧
      ((∃ f ∈ built units, n < f.code.size) →
        compile (limits.upTo n) session units = .error (.unavailable (.instructions n)))) ∧
    ∀ n m, n ≤ m → (∀ s, compile (limits.upTo n) session units ≠ .error (.unavailable s)) →
      compile (limits.upTo m) session units = compile (limits.upTo n) session units := by
  refine ⟨fun n => compile_metered (limits.upTo n) session units, ?_⟩
  rcases compile_upTo limits session units with ⟨r, hbuilt, hall⟩ | ⟨c, r, hbuilt, hall⟩
  · refine ⟨r, ⟨0, fun n _ => hall n⟩, fun hr n => ⟨fun _ => hall n, ?_⟩, fun n m _ _ => (hall m).trans (hall n).symm⟩
    rintro ⟨f, hf, -⟩
    rcases hbuilt with hnone | ⟨s, hs⟩
    · rw [hnone] at hf
      cases hf
    · exact absurd hs (hr s)
  · let enough := ((functions c).map (·.code.size)).sum
    have henough : ∀ f ∈ functions c, f.code.size ≤ enough := fun f hf =>
      List.single_le_sum (fun _ _ => Nat.zero_le _) _ (List.mem_map_of_mem hf)
    have hlack : ∀ n, (∀ s, compile (limits.upTo n) session units ≠ .error (.unavailable s)) →
        lack? (limits.upTo n) c = none := by
      intro n havailable
      cases hl : lack? (limits.upTo n) c with
      | none => rfl
      | some s => exact absurd (by rw [hall, hl]) (havailable s)
    have hsame : ∀ n m, (∀ f ∈ functions c, f.code.size ≤ n) → (∀ f ∈ functions c, f.code.size ≤ m) →
        compile (limits.upTo n) session units = compile (limits.upTo m) session units := by
      intro n m hn hm
      rw [hall, hall, lack?_of_le hn hm]
    refine ⟨_, ⟨enough, fun n hn => hsame n enough (fun f hf => (henough f hf).trans hn) henough⟩, ?_, ?_⟩
    · intro havailable n
      rw [hbuilt]
      refine ⟨fun hn => hsame n enough hn henough, fun hn => ?_⟩
      rw [hall, lack?_of_lt (hlack enough havailable) hn]
    · intro n m hle havailable
      have hn := size_le_of_lack? (hlack n havailable)
      exact hsame m n (fun f hf => (hn f hf).trans hle) hn

end Submission

end Compiler

end ScriptHost
