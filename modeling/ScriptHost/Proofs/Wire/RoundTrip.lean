import Mathlib
import ScriptHost.Proofs.Json.ReadBack
import ScriptHost.Wire.Verdict

/-!
Verdicts as texts. The text of a verdict is read back as the verdict, whatever its strings and numbers, as long as its
value nests no deeper than the reader allows. No two verdicts have one text, and a text that is read as a verdict may be
replaced by the verdict's own.
-/

namespace ScriptHost

namespace Value

mutual

def depth : Value → Nat
  | array vs => allDepth vs + 1
  | _ => 0

def allDepth : List Value → Nat
  | [] => 0
  | v :: vs => max v.depth (allDepth vs)

end

lemma allDepth_le_iff {vs : List Value} {n : Nat} : allDepth vs ≤ n ↔ ∀ v ∈ vs, v.depth ≤ n := by
  induction vs with
  | nil => simp [allDepth]
  | cons v vs ih => rw [allDepth, Nat.max_le, ih, List.forall_mem_cons]

lemma toJsons_eq (done : List Json) (vs : List Value) : toJsons done vs = done.reverse ++ vs.map toJson := by
  induction vs generalizing done with
  | nil => simp [toJsons]
  | cons v vs ih => rw [toJsons, ih, List.reverse_cons, List.append_assoc, List.map_cons, List.singleton_append]

lemma int_bounds (v : Int64) : -signedLimit ≤ v.toInt ∧ v.toInt < signedLimit := by
  have hlo := v.le_toInt
  have hhi := v.toInt_lt
  simp only [signedLimit]
  omega

mutual

lemma ofJson?_toJson (v : Value) : ofJson? v.toJson = some v := by
  cases v with
  | nil => rfl
  | bool b => rfl
  | int v =>
    rw [toJson, ofJson?, decide_eq_true (int_bounds v).1, decide_eq_true (int_bounds v).2, Int64.ofInt_toInt]
    rfl
  | str s => rfl
  | array vs =>
    rw [toJson, toJsons_eq, List.reverse_nil, List.nil_append, ofJson?, ofJsons?_map [] vs]
    rfl

lemma ofJsons?_map (done vs : List Value) : ofJsons? done (vs.map toJson) = some (done.reverse ++ vs) := by
  cases vs with
  | nil => simp [ofJsons?]
  | cons v vs =>
    rw [List.map_cons, ofJsons?, ofJson?_toJson v]
    dsimp only
    rw [ofJsons?_map (v :: done) vs, List.reverse_cons, List.append_assoc, List.singleton_append]

end

mutual

lemma toJson_plain (v : Value) : v.toJson.Plain := by
  cases v with
  | nil => exact .null
  | bool b => exact .bool b
  | int v =>
    obtain ⟨hlo, hhi⟩ := int_bounds v
    exact .int v.toInt hlo (Int.lt_trans hhi (by decide))
  | str s => exact .str s
  | array vs =>
    rw [toJson, toJsons_eq]
    exact .arr _ (toJsons_plain vs)

lemma toJsons_plain (vs : List Value) : ∀ j ∈ vs.map toJson, j.Plain := by
  cases vs with
  | nil => exact fun j hj => (List.not_mem_nil hj).elim
  | cons v vs => exact List.forall_mem_cons.mpr ⟨toJson_plain v, toJsons_plain vs⟩

end

mutual

lemma depth_toJson (v : Value) : v.toJson.depth = v.depth := by
  cases v with
  | array vs =>
    rw [toJson, toJsons_eq, Json.depth, depth]
    exact congrArg (· + 1) (itemsDepth_map vs)
  | _ => rfl

lemma itemsDepth_map (vs : List Value) : Json.itemsDepth (vs.map toJson) = allDepth vs := by
  cases vs with
  | nil => rfl
  | cons v vs => rw [List.map_cons, Json.itemsDepth, allDepth, depth_toJson v, itemsDepth_map vs]

end

mutual

lemma depth_of_ofJson? {v : Value} (j : Json) (h : ofJson? j = some v) : v.depth ≤ j.depth := by
  cases j with
  | arr items =>
    obtain ⟨vs, hvs, rfl⟩ := Option.map_eq_some_iff.mp h
    exact Nat.succ_le_succ (allDepth_le_iff.mpr fun v hv =>
      (depth_of_ofJsons? items hvs v hv).resolve_left (List.not_mem_nil))
  | null | bool | str =>
    cases h
    exact Nat.le_refl _
  | int v =>
    rw [ofJson?] at h
    split at h
    · cases h
      exact Nat.le_refl _
    · cases h
  | real | obj => cases h

lemma depth_of_ofJsons? {done vs : List Value} (js : List Json) (h : ofJsons? done js = some vs) :
    ∀ v ∈ vs, v ∈ done ∨ v.depth ≤ Json.itemsDepth js := by
  cases js with
  | nil =>
    cases h
    exact fun v hv => .inl (List.mem_reverse.mp hv)
  | cons j js =>
    rw [ofJsons?] at h
    split at h
    · next w hw =>
      intro v hv
      rw [Json.itemsDepth]
      rcases depth_of_ofJsons? js h v hv with hv | hv
      · rcases List.mem_cons.mp hv with rfl | hv
        · exact .inr (Nat.le_trans (depth_of_ofJson? j hw) (Nat.le_max_left _ _))
        · exact .inl hv
      · exact .inr (Nat.le_trans hv (Nat.le_max_right _ _))
    · cases h

end

end Value

namespace Json

lemma toNatBelow?_nat {limit n : Nat} (h : n < limit) : (nat n).toNatBelow? limit = some n := by
  have hbounds : (0 ≤ (n : Int) && (n : Int) < limit) = true := by simpa using h
  rw [nat, toNatBelow?, if_pos hbounds, Int.toNat_natCast]

lemma toNatBelow?_some {limit n : Nat} {j : Json} (h : j.toNatBelow? limit = some n) : n < limit := by
  cases j with
  | int v =>
    rw [toNatBelow?] at h
    split at h
    · next hbounds =>
      simp only [Bool.and_eq_true, decide_eq_true_eq] at hbounds
      cases h
      omega
    · cases h
  | _ => cases h

lemma mem_of_single? {fields : List (String × Json)} {name : String} {j : Json} (h : single? fields name = some j) :
    ∃ f ∈ fields, f.2 = j := by
  rw [single?] at h
  split at h
  · next f k hfilter =>
    cases h
    exact ⟨(f, j), (List.mem_filter.mp (hfilter ▸ List.mem_singleton_self (f, j))).1, rfl⟩
  · cases h

lemma depth_of_exactly? {names : List String} {j : Json} {found : List Json} (h : j.exactly? names = some found) :
    ∀ x ∈ found, x.depth < j.depth := by
  cases j with
  | obj fields =>
    rw [exactly?] at h
    rw [depth]
    induction names generalizing found with
    | nil =>
      cases h
      simp
    | cons name names ih =>
      rw [List.mapM_cons] at h
      obtain ⟨x, hx, h⟩ := Option.bind_eq_some_iff.mp h
      obtain ⟨xs, hxs, h⟩ := Option.bind_eq_some_iff.mp h
      cases h
      obtain ⟨f, hf, rfl⟩ := mem_of_single? hx
      exact List.forall_mem_cons.mpr ⟨Nat.lt_succ_of_le (fieldsDepth_le_iff.mp (Nat.le_refl _) f hf), ih hxs⟩
  | arr items =>
    rw [exactly?] at h
    split at h
    · cases h
      exact fun x hx => Nat.lt_succ_of_le (itemsDepth_le_iff.mp (Nat.le_refl _) x hx)
    · cases h
  | _ => cases h

lemma depth_of_tagged? {tag kind : String} {j j' : Json} (h : j.tagged? tag = some (kind, j')) :
    j'.depth ≤ j.depth := by
  cases j with
  | obj fields =>
    rw [tagged?] at h
    split at h
    · cases h
      rw [depth, depth]
      exact Nat.succ_le_succ (fieldsDepth_le_iff.mpr fun f hf =>
        fieldsDepth_le_iff.mp (Nat.le_refl _) f (List.mem_filter.mp hf).1)
    · cases h
  | arr items =>
    rw [tagged?.eq_def] at h
    split at h
    · next heq => cases heq
    · next heq =>
      cases heq
      cases h
      rw [depth, depth, itemsDepth]
      exact Nat.succ_le_succ (Nat.le_max_right _ _)
    · cases h
  | _ => cases h

end Json

namespace Diagnostic

def IsSized (d : Diagnostic) : Prop :=
  d.line < placeLimit ∧ d.column < placeLimit

lemma ofJson?_fields {j unit line column severity message : Json} {d : Diagnostic}
    (h : j.exactly? fieldNames = some [unit, line, column, severity, message]) (hunit : unit.toText? = some d.unit)
    (hline : line.toNatBelow? placeLimit = some d.line) (hcolumn : column.toNatBelow? placeLimit = some d.column)
    (hseverity : Severity.ofJson? severity = some d.severity) (hmessage : message.toText? = some d.message) :
    ofJson? j = some d := by
  rw [ofJson?, h]
  simp only [Option.bind_eq_bind, Option.bind_some, hunit, hline, hcolumn, hseverity, hmessage]
  rfl

lemma ofJson?_toJson {d : Diagnostic} (hd : d.IsSized) : ofJson? d.toJson = some d := by
  have hfields : d.toJson.exactly? fieldNames =
      some [.str d.unit, .nat d.line, .nat d.column, d.severity.toJson, .str d.message] := by
    simp [toJson, Json.exactly?, fieldNames, Json.single?]
  have hseverity : Severity.ofJson? d.severity.toJson = some d.severity := by cases d.severity <;> rfl
  exact ofJson?_fields hfields rfl (Json.toNatBelow?_nat hd.1) (Json.toNatBelow?_nat hd.2) hseverity rfl

lemma ofJson?_isSized {j : Json} {d : Diagnostic} (h : ofJson? j = some d) : d.IsSized := by
  obtain ⟨fields, -, h⟩ := Option.bind_eq_some_iff.mp h
  split at h
  · obtain ⟨unit, -, h⟩ := Option.bind_eq_some_iff.mp h
    obtain ⟨line, hline, h⟩ := Option.bind_eq_some_iff.mp h
    obtain ⟨column, hcolumn, h⟩ := Option.bind_eq_some_iff.mp h
    obtain ⟨severity, -, h⟩ := Option.bind_eq_some_iff.mp h
    obtain ⟨message, -, h⟩ := Option.bind_eq_some_iff.mp h
    cases h
    exact ⟨Json.toNatBelow?_some hline, Json.toNatBelow?_some hcolumn⟩
  · cases h

lemma toJson_plain {d : Diagnostic} (hd : d.IsSized) : d.toJson.Plain := by
  have hplace : ∀ n < placeLimit, (Json.nat n).Plain := fun n hn =>
    .int _ (by simp only [signedLimit]; omega) (by simp only [placeLimit, wordLimit] at hn ⊢; omega)
  refine .obj _ ?_
  simp only [List.forall_mem_cons]
  exact ⟨.str _, hplace _ hd.1, hplace _ hd.2, .str _, .str _, fun f hf => (List.not_mem_nil hf).elim⟩

lemma depth_toJson (d : Diagnostic) : d.toJson.depth = 1 := rfl

end Diagnostic

namespace Verdict

def IsSized : Verdict → Prop
  | success _ _ _ ms => ms < wordLimit
  | runtimeFault _ _ _ ms => ms < wordLimit
  | compileFailure ds => ∀ d ∈ ds, d.IsSized
  | _ => True

def depth : Verdict → Nat
  | success v _ _ _ => v.depth
  | _ => 0

lemma toJson_fields (v : Verdict) :
    ∃ j, v.toJson.tagged? "kind" = some (v.kind, j) ∧ j.exactly? (fieldNames v.kind) = some v.fields := by
  cases v <;> exact ⟨_, by simp [toJson, Json.tagged?, Json.single?, kind, fields, fieldNames]; rfl, by
    simp [Json.exactly?, Json.single?, kind, fields, fieldNames]⟩

lemma mapM_ofJson? {ds : List Diagnostic} (hds : ∀ d ∈ ds, d.IsSized) :
    (ds.map Diagnostic.toJson).mapM Diagnostic.ofJson? = some ds := by
  induction ds with
  | nil => rfl
  | cons d ds ih =>
    obtain ⟨hd, hds⟩ := List.forall_mem_cons.mp hds
    rw [List.map_cons, List.mapM_cons, Diagnostic.ofJson?_toJson hd, ih hds]
    rfl

lemma ofFields?_fields {v : Verdict} (hv : v.IsSized) : ofFields? v.kind v.fields = some v := by
  have hword : ∀ ms < wordLimit, (Json.nat ms).toWord? = some ms := fun ms => Json.toNatBelow?_nat
  -- The number stays folded in what is computed below.
  have hsuccess : ∀ (value : Value) (out err : String) (ms : Nat) (j : Json), j.toWord? = some ms →
      ofFields? "success" [value.toJson, .str out, .str err, j] = some (success value out err ms) := by
    intro value out err ms j hj
    simp only [ofFields?, Value.ofJson?_toJson, Json.toText?, hj, Option.bind_eq_bind, Option.bind_some]
    rfl
  have hfault : ∀ (exception out err : String) (ms : Nat) (j : Json), j.toWord? = some ms →
      ofFields? "runtimeFault" [.str exception, .str out, .str err, j] = some (runtimeFault exception out err ms) := by
    intro exception out err ms j hj
    simp only [ofFields?, Json.toText?, hj, Option.bind_eq_bind, Option.bind_some]
    rfl
  cases v with
  | success value out err ms => exact hsuccess value out err ms _ (hword ms hv)
  | compileFailure ds =>
    simp only [kind, fields, ofFields?, Json.toList?, mapM_ofJson? hv, Option.bind_eq_bind, Option.bind_some]
    rfl
  | runtimeFault exception out err ms => exact hfault exception out err ms _ (hword ms hv)
  | timeout out err => rfl
  | rejected reason => rfl
  | cancelled => rfl

lemma ofJson?_toJson {v : Verdict} (hv : v.IsSized) : ofJson? v.toJson = some v := by
  obtain ⟨j, htag, hfields⟩ := v.toJson_fields
  rw [ofJson?, htag]
  dsimp only [Option.bind_eq_bind, Option.bind_some]
  rw [hfields]
  exact ofFields?_fields hv

lemma isSized_of_mapM {js : List Json} {ds : List Diagnostic} (h : js.mapM Diagnostic.ofJson? = some ds) :
    ∀ d ∈ ds, d.IsSized := by
  induction js generalizing ds with
  | nil =>
    cases h
    exact fun d hd => (List.not_mem_nil hd).elim
  | cons j js ih =>
    rw [List.mapM_cons] at h
    obtain ⟨d, hd, h⟩ := Option.bind_eq_some_iff.mp h
    obtain ⟨ds, hds, h⟩ := Option.bind_eq_some_iff.mp h
    cases h
    exact List.forall_mem_cons.mpr ⟨Diagnostic.ofJson?_isSized hd, ih hds⟩

lemma ofFields?_some {kind : String} {fields : List Json} {v : Verdict} (h : ofFields? kind fields = some v) :
    v.IsSized ∧ ∀ n, (∀ j ∈ fields, j.depth ≤ n) → v.depth ≤ n := by
  rw [ofFields?.eq_def] at h
  split at h
  · next value out err ms =>
    obtain ⟨value, hvalue, h⟩ := Option.bind_eq_some_iff.mp h
    obtain ⟨out, -, h⟩ := Option.bind_eq_some_iff.mp h
    obtain ⟨err, -, h⟩ := Option.bind_eq_some_iff.mp h
    obtain ⟨ms, hms, h⟩ := Option.bind_eq_some_iff.mp h
    cases h
    exact ⟨Json.toNatBelow?_some hms, fun n hn =>
      Nat.le_trans (Value.depth_of_ofJson? _ hvalue) (hn _ List.mem_cons_self)⟩
  · obtain ⟨js, -, h⟩ := Option.bind_eq_some_iff.mp h
    obtain ⟨ds, hds, h⟩ := Option.bind_eq_some_iff.mp h
    cases h
    exact ⟨isSized_of_mapM hds, fun n _ => Nat.zero_le n⟩
  · obtain ⟨exception, -, h⟩ := Option.bind_eq_some_iff.mp h
    obtain ⟨out, -, h⟩ := Option.bind_eq_some_iff.mp h
    obtain ⟨err, -, h⟩ := Option.bind_eq_some_iff.mp h
    obtain ⟨ms, hms, h⟩ := Option.bind_eq_some_iff.mp h
    cases h
    exact ⟨Json.toNatBelow?_some hms, fun n _ => Nat.zero_le n⟩
  · obtain ⟨out, -, h⟩ := Option.bind_eq_some_iff.mp h
    obtain ⟨err, -, h⟩ := Option.bind_eq_some_iff.mp h
    cases h
    exact ⟨trivial, fun n _ => Nat.zero_le n⟩
  · obtain ⟨reason, -, h⟩ := Option.bind_eq_some_iff.mp h
    cases h
    exact ⟨trivial, fun n _ => Nat.zero_le n⟩
  · cases h
    exact ⟨trivial, fun n _ => Nat.zero_le n⟩
  · cases h

lemma ofJson?_some {j : Json} {v : Verdict} (h : ofJson? j = some v) : v.IsSized ∧ v.depth + 1 ≤ max 1 j.depth := by
  obtain ⟨⟨kind, j'⟩, htag, h⟩ := Option.bind_eq_some_iff.mp h
  obtain ⟨fields, hfields, h⟩ := Option.bind_eq_some_iff.mp h
  obtain ⟨hsized, hdepth⟩ := ofFields?_some h
  have hbound := hdepth (j'.depth - 1) fun x hx => Nat.le_sub_one_of_lt (Json.depth_of_exactly? hfields x hx)
  have htagged := Json.depth_of_tagged? htag
  exact ⟨hsized, by omega⟩

lemma fields_plain {v : Verdict} (hv : v.IsSized) : ∀ j ∈ v.fields, j.Plain := by
  have hword : ∀ ms < wordLimit, (Json.nat ms).Plain := fun ms hms =>
    .int _ (by simp only [signedLimit]; omega) (by omega)
  have hnone : ∀ j ∈ ([] : List Json), j.Plain := fun j hj => (List.not_mem_nil hj).elim
  cases v with
  | success value out err ms =>
    simp only [fields, List.forall_mem_cons]
    exact ⟨value.toJson_plain, .str _, .str _, hword ms hv, hnone⟩
  | compileFailure ds =>
    simp only [fields, List.forall_mem_cons]
    exact ⟨.arr _ (List.forall_mem_map.mpr fun d hd => Diagnostic.toJson_plain (hv d hd)), hnone⟩
  | runtimeFault exception out err ms =>
    simp only [fields, List.forall_mem_cons]
    exact ⟨.str _, .str _, .str _, hword ms hv, hnone⟩
  | timeout out err =>
    simp only [fields, List.forall_mem_cons]
    exact ⟨.str _, .str _, hnone⟩
  | rejected reason =>
    simp only [fields, List.forall_mem_cons]
    exact ⟨.str _, hnone⟩
  | cancelled => exact hnone

lemma toJson_plain {v : Verdict} (hv : v.IsSized) : v.toJson.Plain := by
  refine .obj _ (List.forall_mem_cons.mpr ⟨.str _, fun f hf => ?_⟩)
  exact fields_plain hv f.2 (List.of_mem_zip hf).2

lemma fields_depth (v : Verdict) : ∀ j ∈ v.fields, j.depth ≤ max 2 v.depth := by
  have hleaf : ∀ j : Json, j.depth = 0 → j.depth ≤ max 2 v.depth := fun j hj => hj ▸ Nat.zero_le _
  have hnone : ∀ j ∈ ([] : List Json), j.depth ≤ max 2 v.depth := fun j hj => (List.not_mem_nil hj).elim
  cases v with
  | success value out err ms =>
    simp only [fields, List.forall_mem_cons]
    exact ⟨value.depth_toJson ▸ Nat.le_max_right _ _, hleaf _ rfl, hleaf _ rfl, hleaf _ rfl, hnone⟩
  | compileFailure ds =>
    simp only [fields, List.forall_mem_cons]
    refine ⟨Nat.le_trans (Nat.succ_le_succ (Json.itemsDepth_le_iff.mpr ?_)) (Nat.le_max_left _ _), hnone⟩
    exact List.forall_mem_map.mpr fun d _ => Nat.le_of_eq d.depth_toJson
  | runtimeFault exception out err ms =>
    simp only [fields, List.forall_mem_cons]
    exact ⟨hleaf _ rfl, hleaf _ rfl, hleaf _ rfl, hleaf _ rfl, hnone⟩
  | timeout out err =>
    simp only [fields, List.forall_mem_cons]
    exact ⟨hleaf _ rfl, hleaf _ rfl, hnone⟩
  | rejected reason =>
    simp only [fields, List.forall_mem_cons]
    exact ⟨hleaf _ rfl, hnone⟩
  | cancelled => exact hnone

lemma depth_toJson (v : Verdict) : v.toJson.depth ≤ max 3 (v.depth + 1) := by
  have hfields : Json.fieldsDepth (("kind", .str v.kind) :: (fieldNames v.kind).zip v.fields) ≤ max 2 v.depth :=
    Json.fieldsDepth_le_iff.mpr <| List.forall_mem_cons.mpr ⟨Nat.zero_le _, fun f hf =>
      fields_depth v f.2 (List.of_mem_zip hf).2⟩
  rw [toJson, Json.depth]
  omega

lemma ofChars?_toJson {l : Json.Layout} (hl : l.IsBlank) {room : Nat} {v : Verdict} (hv : v.IsSized)
    (hdepth : max 3 (v.depth + 1) ≤ room) :
    Json.ofChars? room (Json.writeOnto l 0 "" v.toJson).toList = some v.toJson :=
  Json.ofChars?_writeOnto hl (toJson_plain hv) (Nat.le_trans v.depth_toJson hdepth)

lemma ofText?_writeOnto {l : Json.Layout} (hl : l.IsBlank) {v : Verdict} (hv : v.IsSized)
    (hdepth : v.depth < Json.depthLimit) :
    (Json.ofText? (Json.writeOnto l 0 "" v.toJson)).bind ofJson? = some v := by
  rw [Json.ofText?, ofChars?_toJson hl hv (Nat.max_le.mpr ⟨by decide, hdepth⟩), Option.bind_some, ofJson?_toJson hv]

lemma writeOnto_injective {l : Json.Layout} (hl : l.IsBlank) {v w : Verdict} (hv : v.IsSized) (hw : w.IsSized)
    (h : Json.writeOnto l 0 "" v.toJson = Json.writeOnto l 0 "" w.toJson) : v = w := by
  have hroom : max 3 (v.depth + 1) ≤ max 3 (max (v.depth + 1) (w.depth + 1)) := by omega
  have hjson : some v.toJson = some w.toJson := by
    rw [← ofChars?_toJson hl hv hroom, h, ofChars?_toJson hl hw (by omega)]
  apply Option.some.inj
  rw [← ofJson?_toJson hv, ← ofJson?_toJson hw, Option.some.inj hjson]

lemma of_ofText? {text : String} {v : Verdict} (h : (Json.ofText? text).bind ofJson? = some v) :
    v.IsSized ∧ v.depth < Json.depthLimit := by
  obtain ⟨j, hj, h⟩ := Option.bind_eq_some_iff.mp h
  obtain ⟨hsized, hdepth⟩ := ofJson?_some h
  have hroom := Json.ofChars?_depth hj
  have hlimit : 1 ≤ Json.depthLimit := by decide
  exact ⟨hsized, by omega⟩

end Verdict

/-- A verdict is read back from its text, which no other verdict has, and what is read as a verdict has it as well. The
numbers are those of the words that hold them. -/
theorem verdicts_are_read_back :
    (∀ v : Verdict, v.IsSized → v.depth < Json.depthLimit →
      (Json.ofText? v.toJson.render).bind Verdict.ofJson? = some v ∧
      (Json.ofText? v.toJson.renderIndented).bind Verdict.ofJson? = some v) ∧
    (∀ v w : Verdict, v.IsSized → w.IsSized →
      v.toJson.render = w.toJson.render ∨ v.toJson.renderIndented = w.toJson.renderIndented → v = w) ∧
    ∀ (text : String) (v : Verdict), (Json.ofText? text).bind Verdict.ofJson? = some v →
      (Json.ofText? v.toJson.render).bind Verdict.ofJson? = some v ∧
      (Json.ofText? v.toJson.renderIndented).bind Verdict.ofJson? = some v := by
  have hback : ∀ v : Verdict, v.IsSized → v.depth < Json.depthLimit →
      (Json.ofText? v.toJson.render).bind Verdict.ofJson? = some v ∧
      (Json.ofText? v.toJson.renderIndented).bind Verdict.ofJson? = some v := fun v hv hdepth =>
    ⟨Verdict.ofText?_writeOnto Json.Layout.compact_isBlank hv hdepth,
      Verdict.ofText?_writeOnto Json.Layout.indented_isBlank hv hdepth⟩
  refine ⟨hback, fun v w hv hw h => ?_, fun text v h => ?_⟩
  · rcases h with h | h
    · exact Verdict.writeOnto_injective Json.Layout.compact_isBlank hv hw h
    · exact Verdict.writeOnto_injective Json.Layout.indented_isBlank hv hw h
  · obtain ⟨hsized, hdepth⟩ := Verdict.of_ofText? h
    exact hback v hsized hdepth

theorem verdicts_are_read_back_escaped :
    (Json.ofText? (Verdict.success (.array [.array [.int Int64.minValue, .str "\"\\\x07\n\u2028é"], .nil, .bool true])
      "out" "" 7).toJson.render).bind Verdict.ofJson? =
      some (.success (.array [.array [.int Int64.minValue, .str "\"\\\x07\n\u2028é"], .nil, .bool true]) "out" "" 7) ∧
    (∀ d : Diagnostic, d.IsSized → (Verdict.compileFailure [d]).toJson.render ≠ Verdict.cancelled.toJson.render) ∧
    (Json.ofText? " \x7b \"reason\" : \"a\\u00e9\" , \"kind\" : \"rejected\" \x7d").bind Verdict.ofJson? =
      some (.rejected "aé") ∧
    (Json.ofText? (Verdict.rejected "aé").toJson.render).bind Verdict.ofJson? = some (.rejected "aé") := by
  have htext : (Json.ofText? " \x7b \"reason\" : \"a\\u00e9\" , \"kind\" : \"rejected\" \x7d").bind Verdict.ofJson? =
      some (.rejected "aé") := by cbv
  refine ⟨(verdicts_are_read_back.1 _ ?_ ?_).1, fun d hd h => ?_, htext, (verdicts_are_read_back.2.2 _ _ htext).1⟩
  · simp [Verdict.IsSized, wordLimit]
  · simp [Verdict.depth, Value.depth, Value.allDepth, Json.depthLimit]
  · have hsized : (Verdict.compileFailure [d]).IsSized := by simpa [Verdict.IsSized] using hd
    cases verdicts_are_read_back.2.1 _ .cancelled hsized trivial (.inl h)

end ScriptHost
