import ScriptHost.Proofs.Evaluation.Bodies

/-!
Calls. The induction is on how many more calls the limit allows.
-/

namespace ScriptHost.Evaluation

open Machine

namespace Site

variable {known : Catalog}

lemma size_frameOf {g : Function} (id : Nat) {args : List Datum} (h : args.length ≤ g.locals) :
    (frameOf g id args).locals.size = g.locals := by
  rw [frameOf, Array.size_append, List.size_toArray, Array.size_replicate]
  omega

lemma body_from {σ : Site} {call : Call} (hc : Compiler.Compiled known σ.host.program)
    (hcall : σ.Answers known call) {d : Definition} (hd : d.decl.Ready (Compiler.context known))
    (hfunction : σ.function = Emit.function (Compiler.context known) d) (hsize : σ.size = σ.function.locals)
    {args : List Datum} (hargs : args.length = d.decl.arity) {w : World} {least : Nat}
    {k : Datum → Eval Datum} (hle : least ≤ σ.rounds)
    (hret : ∀ d pc locals w, σ.function.code[pc]? = some .ret → σ.From least pc locals [d] w (k d w)) :
    σ.From least 0 (frameOf σ.function σ.id args).locals [] w ((body call σ.rounds d.decl args >>= k) w) := by
  have hset := Emit.body_settled hc hd
  have hcode := Emit.function_laid (d := d) hset 0 0
  have hst := Emit.function_stores (d := d) hset
  have harity : d.decl.arity ≤ (Emit.function (Compiler.context known) d).locals :=
    Emit.function_params (c := Compiler.context known) (d := d) hd.params
  have hnext := Nat.le_max_left (Slots.ofParams d.decl.paramNames).next
    (Emit.usedSlots ((Emit.body (Compiler.context known) d.decl).filter (·.instr?.isSome)))
  change _ ≤ (Emit.function (Compiler.context known) d).locals at hnext
  have hbody : Emit.body (Compiler.context known) d.decl = Emit.stmts (Compiler.context known)
      (.ofParams d.decl.paramNames) 0 #[] d.decl.body ++ Emit.one .nil d.decl.place
        ++ Emit.one .ret d.decl.place := rfl
  rw [hbody] at hcode hst
  simp only [Emit.laid_append, Emit.laid_one, Emit.storesBelow_append, Array.size_append, Emit.size_one,
    ← Nat.add_assoc] at hcode hst
  rw [← hfunction] at hcode hst harity hnext
  rw [← hsize] at hst harity hnext
  obtain ⟨⟨hcode, hnil⟩, hlast⟩ := hcode
  have hlocals : (frameOf σ.function σ.id args).locals.size = σ.size := by
    rw [size_frameOf σ.id (by rw [← hsize, hargs]; exact harity), hsize]
  have hlen : d.decl.paramNames.length = args.length := by
    rw [hargs, FunctionDecl.paramNames, List.length_map, FunctionDecl.arity]
  have hvars := shown_frameOf σ.function σ.id hd.named hlen
  rw [← Slots.ofParams_names d.decl.paramNames hd.params] at hvars
  obtain ⟨names', hfollows⟩ := stmts_follows hc hcall (Slots.ofParams_shows hd.params hd.named) false d.decl.body
    hd.body hnext 0 0 0 hst.1.1 hcode
  simp only [body, bind_assoc]
  change σ.From least 0 _ [] w ((stmts call σ.rounds (d.decl.paramNames.zip args).reverse d.decl.body >>= _) w)
  rw [← hvars]
  -- Code that falls out of the body comes to the two instructions that give back `nil`.
  apply hfollows _ w least _ hlocals hle
  intro flow pc ops names'' locals' w hlands _ _
  cases hlands with
  | next =>
    rw [pure_bind]
    exact (From.resume σ.quiet σ.found hnil (exec_nil _ _ _ _ _ _) (hret .nil _ locals' w hlast)).weaken
  | leave h => cases h
  | again h => cases h
  | give d pc hi =>
    rw [pure_bind]
    exact hret d pc locals' w hi

lemma answers {σ : Site} (hc : Compiler.Compiled known σ.host.program) {left : Nat}
    (hleft : σ.depth + left = σ.host.callDepth) :
    σ.Answers known (apply known σ.host.callDepth σ.rounds left) := by
  induction left generalizing σ with
  | zero =>
    intro name callee d args pc locals ops w least k _ _ hi _ _
    exact From.deep σ.quiet σ.found hi rfl (Nat.le_of_eq hleft.symm)
  | succ left ih =>
    intro name callee d args pc locals ops w least k hf ha hi hle hnext
    have hfound := hc.find? hf
    have hd := hc.ready d (List.mem_of_getElem? (Catalog.find?_some hf).1)
    simp only [apply, hf]
    let σ' : Site :=
      { host := σ.host
        quiet := σ.quiet
        id := callee
        function := Emit.function (Compiler.context known) d
        found := hfound
        size := (Emit.function (Compiler.context known) d).locals
        rest := ⟨σ.id, pc + 1, locals, ops⟩ :: σ.rest
        depth := σ.depth + 1
        rounds := σ.rounds }
    have hleft' : σ.depth + 1 + left = σ.host.callDepth := by omega
    have hanswers : σ'.Answers known (apply known σ.host.callDepth σ.rounds left) :=
      ih (σ := σ') hc hleft'
    have hroom : ¬ σ.host.callDepth ≤ σ.depth := by omega
    refine (From.enter σ.quiet σ.found hi rfl hroom hfound ?_).weaken
    apply body_from (σ := σ') hc hanswers hd rfl rfl ha hle
    intro e pc' locals' w hret
    exact (From.ret σ'.quiet σ'.found hret rfl (hnext e w)).weaken

end Site

end ScriptHost.Evaluation
