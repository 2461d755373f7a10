import ScriptHost.Proofs.Compile.Written

/-!
Functions built in one pass. Wherever the limits allow the function that is laid out for a definition, it is what is
built, and the drafts on the way are sound.
-/

namespace ScriptHost

namespace OnePass

open Draft (Sound)
open Emit (Code Context Note Op Settled Variable allBehind bodyNotes notes one param paramVariables slotsOf
  stmtsNotes)

def Draft.Declaring (names : List String) (d : Draft) : Prop :=
  d.code = #[] ∧ ∃ done, done <+: names ∧ d.visible = paramVariables done

def Draft.Keeps (names : List String) (d : Draft) : Prop :=
  d.Sound 0 ∧ (names.length ≤ d.most ∨ d.Declaring names)

lemma Draft.Sound.le {floor floor' : Nat} {d : Draft} (h : d.Sound floor) (hle : floor' ≤ floor) : d.Sound floor' :=
  { h with floor := Nat.le_trans hle h.floor }

lemma Draft.Sound.keeps {names : List String} {d : Draft} (h : d.Sound names.length) : d.Keeps names :=
  ⟨h.le (Nat.zero_le _), .inl h.floor⟩

section Params

variable {d : Draft} {loops : List Exits}

lemma paramVariables_concat (done : List String) (n : String) :
    paramVariables (done ++ [n]) = param (paramVariables done) n :=
  List.foldl_concat ..

lemma params_accords (done names : List String) (hd : d.EndsAt 0 (paramVariables done) loops)
    (hscopes : d.scopes = [paramVariables done]) :
    Accords (fun d => d.Sound 0 ∧ d.Declaring (done ++ names)) (params names) d
      (Metered.params (slotsOf (paramVariables done)) d.usage names) fun _ d' =>
        d.Grows d' #[] #[] [] (paramVariables (done ++ names)) loops := by
  induction names generalizing d done with
  | nil =>
    rw [List.append_nil]
    exact accords_pure (hd.visible ▸ hd.loops ▸ .refl d)
  | cons n names ih =>
    have hany : (d.scopes.headD []).any (·.name == n) = true ↔ n ∈ (paramVariables done).map Variable.name := by
      rw [hscopes]
      simp
    have hnames : (slotsOf (paramVariables done)).names = (paramVariables done).map Variable.name := rfl
    have hnext := paramVariables_concat done n
    refine accords_current ?_
    rw [Metered.params, hnames, List.append_cons]
    rw [param] at hnext
    by_cases hn : n ∈ (paramVariables done).map Variable.name
    · rw [if_pos hn] at hnext
      rw [if_pos (hany.mpr hn), if_pos hn, ← hnext]
      exact ih (done ++ [n]) (hnext ▸ hd) (hnext ▸ hscopes)
    · rw [if_neg hn] at hnext
      rw [if_neg (mt hany.mp hn), if_neg hn]
      refine Accords.bind (declare_accords hd (fun h => h.1.next) fun h => ⟨h.1.declare n _ hd.opened, h.2.1, ?_⟩)
        fun x d₁ hd₁ => ?_
      · refine ⟨done ++ [n], List.prefix_append _ _, ?_⟩
        rw [hnext, Draft.visible, hscopes, h.1.next, hd.visible, List.modifyHead_cons, List.flatten_singleton]
        rfl
      obtain ⟨rfl, h₁⟩ := hd₁
      obtain ⟨scope, scopes, hs⟩ := List.ne_nil_iff_exists_cons.mp (List.isEmpty_eq_false_iff.mp (h₁.endsAt hd).opened)
      have houter : scopes = [] := by simpa [hs, hscopes] using h₁.outer
      have hends := h₁.endsAt hd
      have hscope : d₁.scopes = [paramVariables (done ++ [n])] := by
        have hvisible := h₁.visible
        rw [Draft.visible, hs, houter, List.flatten_singleton] at hvisible
        rw [hs, houter, hvisible, hnext]
        rfl
      have hslots : slotsOf (paramVariables (done ++ [n])) = (slotsOf (paramVariables done)).declare n :=
        congrArg slotsOf hnext
      rw [← hslots]
      refine (ih (done ++ [n]) (hnext ▸ hends) hscope).mono fun _ d₂ h₂ => ?_
      have hboth := h₁.trans h₂
      rwa [Array.empty_append, Array.empty_append] at hboth

end Params

section Function

variable {limit : Nat} {c : Context} {d : Definition}

def opened : Draft :=
  { scopes := [[]] }

lemma empty_sound (scopes : List (List Variable)) (hscopes : scopes.flatten = []) : Draft.Sound 0 { scopes } := by
  have hvisible : Draft.visible { scopes } = [] := hscopes
  refine ⟨?_, ?_, Nat.le_refl _, Nat.le_refl _, by simp, rfl, rfl, .nil, by simp, by simp⟩
  · rw [hvisible]
    exact .nil
  · rw [hvisible, List.length_nil]

lemma empty_declaring (scopes : List (List Variable)) (hscopes : scopes.flatten = []) (names : List String) :
    Draft.Declaring names { scopes } :=
  ⟨rfl, [], List.nil_prefix, hscopes⟩

lemma sound_behind_params {d₁ : Draft} (hparams : d.decl.paramNames.Nodup) (h : d₁.Sound 0)
    (hvisible : d₁.visible = paramVariables d.decl.paramNames) : d₁.Sound d.decl.paramNames.length :=
  { h with floor := by rw [← Emit.paramVariables_length hparams, ← hvisible, ← h.next]; exact h.most }

lemma body_writes (hd : d.decl.Ready c) :
    Writes d.decl.paramNames.length 0 (paramVariables d.decl.paramNames) []
      (stmts limit c d.decl.body >>= fun _ => emit limit .nil d.decl.place >>= fun _ => emit limit .ret d.decl.place)
      (fun u => Metered.stmts limit c false (.ofParams d.decl.paramNames) u d.decl.body >>= Usage.emits limit 2)
      (Emit.body c d.decl) (bodyNotes c d.decl) (allBehind c (paramVariables d.decl.paramNames) 0 d.decl.body) := by
  have hslots := Emit.slotsOf_paramVariables d.decl.paramNames
  have hloops : false = true → ([] : List Exits).isEmpty = false := fun h => absurd h Bool.false_ne_true
  have h := (stmts_writes d.decl.paramNames.length limit c 0 (paramVariables d.decl.paramNames) [] hloops d.decl.body
    hd.body).seq (writes_return limit d.decl.place)
  rw [hslots] at h
  exact h.of_eq (Array.append_assoc ..).symm rfl

lemma function_accords (limit : Nat) (hd : d.decl.Ready c) :
    Accords (Draft.Keeps d.decl.paramNames) (function limit c d) {} (Metered.function limit c d) fun f w =>
      f = ⟨d.decl.name, d.unit, d.decl.arity, w.most, w.code, w.lines⟩ ∧
        Draft.Grows {} w (Emit.body c d.decl) (bodyNotes c d.decl) (exits 0 (Emit.body c d.decl)).all [] [] := by
  have hop : function limit c d = openScope >>= fun _ => params d.decl.paramNames >>= fun _ =>
      (stmts limit c d.decl.body >>= fun _ => emit limit .nil d.decl.place >>= fun _ =>
        emit limit .ret d.decl.place) >>= fun _ => closeScope >>= fun _ => current >>= fun w =>
      if Capacity.frameLimit < d.decl.arity then throw (.full (.parameters d.decl.name))
      else if Capacity.frameLimit < w.most then throw (.full (.locals d.decl.name))
      else return ⟨d.decl.name, d.unit, d.decl.arity, w.most, w.code, w.lines⟩ := by
    simp only [bind_assoc]
    rfl
  have hm : Metered.function limit c d = Metered.params .empty ⟨0, 0⟩ d.decl.paramNames >>= fun u =>
      (Metered.stmts limit c false (.ofParams d.decl.paramNames) u d.decl.body >>= Usage.emits limit 2) >>= fun u =>
      if Capacity.frameLimit < d.decl.arity then .error (.parameters d.decl.name)
      else if Capacity.frameLimit < u.slots then .error (.locals d.decl.name)
      else .ok u := by
    simp only [bind_assoc]
    rfl
  have hopened : opened.EndsAt 0 (paramVariables []) [] := ⟨rfl, rfl, rfl, rfl⟩
  have hsound := empty_sound [[]] rfl
  have hdeclaring := empty_declaring [[]] rfl d.decl.paramNames
  rw [hop, hm]
  -- Part by part, each of them given the draft that the one before it leaves: the scope, the parameters, the body
  -- with its two last instructions, and the end of the scope.
  refine Accords.andThen (accords_current (accords_commit (fun _ => ⟨hsound, .inr hdeclaring⟩) rfl
    (Q := fun _ d' => d' = opened) rfl)) fun _ d₁ hd₁ _ => ?_
  subst hd₁
  refine Accords.bind ((params_accords [] d.decl.paramNames hopened rfl).ending.weaken ⟨hsound, hdeclaring⟩
    fun e he => ⟨he.1, .inr he.2⟩) fun _ d₂ ⟨⟨hsound₂, _⟩, h₂⟩ => ?_
  have hsound₂ := sound_behind_params hd.params hsound₂ h₂.visible
  refine Accords.bind ((body_writes hd d₂ (h₂.endsAt hopened)).ending.weaken hsound₂ fun e he => he.keeps)
    fun _ d₃ ⟨hsound₃, h₃⟩ => ?_
  have hbody := h₂.trans h₃
  rw [Array.empty_append, Array.empty_append, List.nil_append] at hbody
  refine Accords.andThen ((closeScope_accords (d := {}) hbody).weaken hsound₃ fun e he => he.keeps) fun _ d₄ h₄ hu => ?_
  rw [← hu]
  refine accords_current ?_
  have hslots : d₄.usage.slots = d₄.most := rfl
  rw [hslots]
  by_cases hwide : Capacity.frameLimit < d.decl.arity
  · rw [if_pos hwide, if_pos hwide]
    exact accords_full _
  rw [if_neg hwide, if_neg hwide]
  by_cases hdeep : Capacity.frameLimit < d₄.most
  · rw [if_pos hdeep, if_pos hdeep]
    exact accords_full _
  rw [if_neg hdeep, if_neg hdeep]
  exact accords_pure ⟨rfl, h₄⟩

lemma drafts_ok {f : Function} {w : Work} (h : build limit c d = .ok f w) : drafts limit c d = w.draft :: w.past := by
  rw [drafts, h]

lemma drafts_error {s : Stop} {w : Work} (h : build limit c d = .error s w) :
    drafts limit c d = w.draft :: w.past := by
  rw [drafts, h]

lemma drafts_keep (hd : d.decl.Ready c) : ∀ e ∈ drafts limit c d, e.Keeps d.decl.paramNames := by
  have hends := function_accords limit hd ⟨empty_sound [] rfl, .inr (empty_declaring [] rfl _)⟩ []
  cases hm : Metered.function limit c d with
  | ok u =>
    rw [hm] at hends
    obtain ⟨f, w, new, hbuild, hnew, hkeeps, -⟩ := hends
    rw [List.append_nil] at hbuild
    rw [drafts_ok hbuild]
    exact List.forall_mem_cons.mpr ⟨hkeeps, hnew⟩
  | error s =>
    rw [hm] at hends
    obtain ⟨w, new, hbuild, hnew, hkeeps⟩ := hends
    rw [List.append_nil] at hbuild
    rw [drafts_error hbuild]
    exact List.forall_mem_cons.mpr ⟨hkeeps, hnew⟩

lemma map_held {code : Code} (h : Settled code) : code.map Emit.Line.held = code.filterMap Emit.Line.instr? := by
  refine Array.ext_getElem? fun k => ?_
  rw [← @Array.getElem?_toList _ (code.filterMap _), Array.toList_filterMap,
    Emit.getElem?_filterMap_instr? _ fun l hl => h l (Array.mem_toList_iff.mp hl), Array.getElem?_toList,
    Array.getElem?_map]
  cases hl : code[k]? with
  | none => rfl
  | some l =>
    have hl := h l (Array.mem_of_getElem? hl)
    obtain ⟨op, n⟩ := l
    cases op with
    | plain i => rfl
    | leave | again => cases hl

theorem build_ok (hd : d.decl.Ready c) (hsettled : Settled (Emit.body c d.decl))
    (hroom : Capacity.shortage? limit (Slots.ofParams d.decl.paramNames).next (Emit.function c d) = none) :
    ∃ w, build limit c d = .ok (Emit.function c d) w ∧ (Emit.function c d).code = w.draft.code ∧
      (Emit.function c d).lines = w.draft.lines ∧
      Draft.Grows {} w.draft (Emit.body c d.decl) (bodyNotes c d.decl) [] [] [] := by
  have hmetered : Metered.function limit c d = _ := Emit.function_metered
  have hends := function_accords limit hd ⟨empty_sound [] rfl, .inr (empty_declaring [] rfl _)⟩ []
  rw [FunctionDecl.paramNames] at hroom
  rw [hmetered, hroom] at hends
  obtain ⟨f, w, new, hbuild, -, -, hu, hf, hw⟩ := hends
  rw [exits_settled hsettled, Exits.all_empty] at hw
  have hfunction : f = Emit.function c d := by
    obtain ⟨-, hmost⟩ := Usage.mk.inj hu
    rw [hf, hmost, hw.instrs, hw.places]
    simp only [Emit.function, Emit.filter_settled hsettled, map_held hsettled, Array.empty_append]
  rw [List.append_nil] at hbuild
  exact ⟨⟨w, new⟩, hfunction ▸ hbuild, by rw [← hfunction, hf], by rw [← hfunction, hf], hw⟩

end Function

end OnePass

namespace Compiler

variable {limits : CompilerLimits} {session : Nat} {p : Program}

lemma link_roomy {entryUnit : String} {units : List ParsedUnit} (h : link limits session entryUnit units = .ok p)
    (hdistinct : Catalog.Distinct (Catalog.ofParsed units).definitions) :
    ∀ d ∈ (Catalog.ofParsed units).definitions,
      shortage? limits d (Emit.function (context (Catalog.ofParsed units)) d) = none := by
  rw [link, hdistinct.ofUnits] at h
  dsimp only at h
  split at h
  · cases h
  next hroom =>
  rw [← List.map_prod_left_eq_zip, List.findSome?_map] at hroom
  exact List.findSome?_eq_none_iff.mp hroom

lemma compile_roomy {units : List SourceUnit} (h : compile limits session units = .ok p) :
    ∀ d ∈ (source units).definitions, shortage? limits d (Emit.function (context (source units)) d) = none := by
  obtain ⟨entry, -, hlink⟩ := compile_eq_ok h
  exact link_roomy hlink (compile_ok h).1.distinct

lemma built_in_one_pass {units : List SourceUnit} (h : compile limits session units = .ok p) {d : Definition}
    (hd : d ∈ (source units).definitions) :
    ∃ w, OnePass.build limits.functionInstructions (context (source units)) d =
        .ok (Emit.function (context (source units)) d) w ∧
      (Emit.function (context (source units)) d).code = w.draft.code ∧
      (Emit.function (context (source units)) d).lines = w.draft.lines ∧
      OnePass.Draft.Grows {} w.draft (Emit.body (context (source units)) d.decl)
        (Emit.bodyNotes (context (source units)) d.decl) [] [] [] := by
  have hcompiled := (compile_ok h).1
  have hready := hcompiled.ready d hd
  exact OnePass.build_ok hready (Emit.body_settled hcompiled hready) (compile_roomy h d hd)

end Compiler

end ScriptHost
