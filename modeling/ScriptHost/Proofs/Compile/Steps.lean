import ScriptHost.Proofs.Compile.Drafts
import ScriptHost.Proofs.Machine.Yields

/-!
Steps of writing. Each needs what is counted for it, leaves sound drafts, and adds what is laid out: a line, a variable,
a block, the targets of jumps that wait for them.
-/

namespace ScriptHost.OnePass

open Draft (Sound)
open Emit (Code Note Op Stacked Variable note notes one slotsOf places spots)

section Accords

variable {α β : Type} {S S' : Draft → Prop}

/-- What a part of the writing ends with, if a count has come to the same: a draft for which `Q` holds, or the shortage
that the count has come to. The drafts on the way keep to `S` in either case. -/
def Ends (S : Draft → Prop) (past : List Draft) (Q : α → Draft → Prop) (r : EStateM.Result Stop Work α) :
    Except Shortage Usage → Prop
  | .ok u => ∃ a d new, r = .ok a ⟨d, new ++ past⟩ ∧ (∀ e ∈ new, S e) ∧ S d ∧ d.usage = u ∧ Q a d
  | .error s => ∃ d new, r = .error (.full s) ⟨d, new ++ past⟩ ∧ (∀ e ∈ new, S e) ∧ S d

/-- A part of the writing that goes on from a draft that keeps to `S` needs what the count `m` says. -/
def Accords (S : Draft → Prop) (op : Writer α) (d : Draft) (m : Except Shortage Usage) (Q : α → Draft → Prop) : Prop :=
  S d → ∀ past, Ends S past Q (op ⟨d, past⟩) m

variable {op : Writer α} {f : α → Writer β} {d : Draft} {m : Except Shortage Usage} {Q Q' : α → Draft → Prop}
  {R : β → Draft → Prop}

lemma accords_of_sound (h : S d → Accords S op d m Q) : Accords S op d m Q :=
  fun hd => h hd hd

lemma Accords.mono (h : Accords S op d m Q) (hQ : ∀ a d', Q a d' → Q' a d') : Accords S op d m Q' := by
  intro hd past
  have h := h hd past
  cases m with
  | ok u =>
    obtain ⟨a, d', new, hop, hnew, hd', hu, hq⟩ := h
    exact ⟨a, d', new, hop, hnew, hd', hu, hQ a d' hq⟩
  | error s => exact h

lemma Accords.ending (h : Accords S op d m Q) : Accords S op d m fun a d' => S d' ∧ Q a d' := by
  intro hd past
  have h := h hd past
  cases m with
  | ok u =>
    obtain ⟨a, d', new, hop, hnew, hd', hu, hq⟩ := h
    exact ⟨a, d', new, hop, hnew, hd', hu, hd', hq⟩
  | error s => exact h

lemma Accords.weaken (h : Accords S op d m Q) (hd : S d) (hS : ∀ e, S e → S' e) : Accords S' op d m Q := by
  intro _ past
  have h := h hd past
  cases m with
  | ok u =>
    obtain ⟨a, d', new, hop, hnew, hd', hu, hq⟩ := h
    exact ⟨a, d', new, hop, fun e he => hS e (hnew e he), hS d' hd', hu, hq⟩
  | error s =>
    obtain ⟨d', new, hop, hnew, hd'⟩ := h
    exact ⟨d', new, hop, fun e he => hS e (hnew e he), hS d' hd'⟩

lemma accords_pure {a : α} (hq : Q a d) : Accords S (pure a) d (.ok d.usage) Q :=
  fun hd _ => ⟨a, d, [], rfl, List.forall_mem_nil S, hd, rfl, hq⟩

lemma accords_full (s : Shortage) : Accords S (throw (.full s)) d (.error s) Q :=
  fun hd _ => ⟨d, [], rfl, List.forall_mem_nil S, hd⟩

lemma Accords.bind {k : Usage → Except Shortage Usage} (h : Accords S op d m Q)
    (hf : ∀ a d', Q a d' → Accords S (f a) d' (k d'.usage) R) : Accords S (op >>= f) d (m >>= k) R := by
  intro hd past
  have h := h hd past
  cases m with
  | error s =>
    obtain ⟨d', new, hop, hkeep⟩ := h
    exact ⟨d', new, bind_of_error hop f, hkeep⟩
  | ok u =>
    obtain ⟨a, d', new, hop, hnew, hd', rfl, hq⟩ := h
    have hrest := hf a d' hq hd' (new ++ past)
    have hbind := bind_of_ok hop f
    change Ends S past R ((op >>= f) ⟨d, past⟩) (k d'.usage)
    cases hk : k d'.usage with
    | error s =>
      rw [hk] at hrest
      obtain ⟨d'', new', hf, hnew', hd''⟩ := hrest
      refine ⟨d'', new' ++ new, ?_, List.forall_mem_append.mpr ⟨hnew', hnew⟩, hd''⟩
      rw [hbind, hf, List.append_assoc]
    | ok u =>
      rw [hk] at hrest
      obtain ⟨b, d'', new', hf, hnew', hd'', hu, hr⟩ := hrest
      refine ⟨b, d'', new' ++ new, ?_, List.forall_mem_append.mpr ⟨hnew', hnew⟩, hd'', hu, hr⟩
      rw [hbind, hf, List.append_assoc]

lemma Accords.andThen (h : Accords S op d (.ok d.usage) Q)
    (hf : ∀ a d', Q a d' → d'.usage = d.usage → Accords S (f a) d' m R) : Accords S (op >>= f) d m R := by
  have hboth : Accords S op d (.ok d.usage) fun a d' => Q a d' ∧ d'.usage = d.usage := by
    intro hd past
    obtain ⟨a, d', new, hop, hnew, hd', hu, hq⟩ := h hd past
    exact ⟨a, d', new, hop, hnew, hd', hu, hq, hu⟩
  exact Accords.bind hboth (k := fun _ => m) fun a d' hq => hf a d' hq.1 hq.2

lemma accords_commit {d' : Draft} {u : Usage} {Q : Unit → Draft → Prop} (hd' : S d → S d')
    (hu : d'.usage = u) (hq : Q () d') : Accords S (commit d') d (.ok u) Q := by
  intro hd past
  exact ⟨(), d', [d'], rfl, List.forall_mem_singleton.mpr (hd' hd), hd' hd, hu, hq⟩

lemma current_apply (f : Draft → Writer β) (past : List Draft) : (current >>= f) ⟨d, past⟩ = f d ⟨d, past⟩ := rfl

lemma accords_current {f : Draft → Writer β} (h : Accords S (f d) d m R) :
    Accords S (current >>= f) d m R := h

end Accords

section Steps

variable {floor limit : Nat} {d d₁ : Draft} {code c₁ c₂ : Code} {ns : Array Note} {waiting waiting' : List Nat}
  {start : Nat} {V W : List Variable} {l : Exits} {loops : List Exits}

lemma add_grows (d : Draft) {l : Emit.Line} {i : Instr} {p : Position} (subject : Option Variable) (hi : l.held = i)
    (hp : l.line = p.line) :
    d.Grows (d.add i p subject) #[l] #[⟨d.visible, subject⟩] [] d.visible d.loops := by
  subst hi
  exact ⟨⟨by simp [Draft.add], by simp [Draft.add, hp], by simp [Draft.add], fun pc => rfl, fun e he => .inl he⟩,
    rfl, rfl, rfl, rfl⟩

lemma accords_room {α : Type} {op : Writer α} {Q : α → Draft → Prop}
    (h : Accords (Sound floor) op d (.ok ⟨d.code.size + 1, d.most⟩) Q) :
    Accords (Sound floor) (if limit ≤ d.code.size then throw (.full (.instructions limit)) else op) d
      (d.usage.emit limit) Q := by
  have hsize : d.usage.instructions = d.code.size := rfl
  rw [Usage.emit, hsize]
  by_cases hfull : limit ≤ d.code.size
  · rw [if_pos hfull, if_pos hfull]
    exact accords_full _
  · rw [if_neg hfull, if_neg hfull]
    exact h

lemma write_accords {i : Instr} {p : Position} {subject : Option Variable}
    (hsubject : note d.visible ⟨.plain i, p.line⟩ = ⟨d.visible, subject⟩)
    (hslot : ∀ slot, (Op.plain i).slot? = some slot → slot < d.visible.length) :
    Accords (Sound floor) (write limit i p subject) d (d.usage.emit limit) fun _ d' =>
      d.Grows d' (one i p) (notes d.visible (one i p)) [] d.visible d.loops := by
  refine accords_current (accords_room (accords_commit (fun hd => hd.add p subject hslot) ?_ ?_))
  · exact congrArg (Usage.mk · d.most) (Array.size_push _)
  · have hnotes : notes d.visible (one i p) = #[⟨d.visible, subject⟩] := by
      rw [notes, one, List.map_toArray, List.map_cons, List.map_nil, hsubject]
    rw [hnotes]
    exact add_grows d subject rfl rfl

lemma emit_accords {i : Instr} {p : Position} (hd : d.EndsAt start V loops) (hi : (Op.plain i).slot? = none) :
    Accords (Sound floor) (emit limit i p) d (d.usage.emit limit) fun _ d' =>
      d.Grows d' (one i p) (notes V (one i p)) [] V loops := by
  obtain ⟨-, rfl, rfl, -⟩ := hd
  refine write_accords ?_ fun slot hs => nomatch hi.symm.trans hs
  rw [note, hi]
  rfl

lemma access_accords {i : Instr} {p : Position} {x : Variable} (hd : d.EndsAt start V loops) (hx : x ∈ V)
    (hi : (Op.plain i).slot? = some x.slot) :
    Accords (Sound floor) (write limit i p (some x)) d (d.usage.emit limit) fun _ d' =>
      d.Grows d' (one i p) (notes V (one i p)) [] V loops := by
  obtain ⟨-, rfl, rfl, -⟩ := hd
  refine accords_of_sound fun hd => write_accords ?_ fun slot hs => ?_
  · rw [note, hi, Option.bind_some, hd.stacked.find?_slot hx]
  · obtain rfl := Option.some.inj (hi.symm.trans hs)
    exact hd.stacked.slot_lt hx

lemma await_accords {l : Emit.Line} {jump : Nat → Instr} {p : Position} (hd : d.EndsAt start V loops)
    (hl : l.held = jump 0) (hp : l.line = p.line) (hnote : l.op.slot? = none)
    (hi : (Op.plain (jump 0)).slot? = none) :
    Accords (Sound floor) (await limit jump p) d (d.usage.emit limit) fun pc d' =>
      pc = start ∧ d.Grows d' #[l] (notes V #[l]) [start] V loops := by
  obtain ⟨rfl, rfl, rfl, -⟩ := hd
  let d' : Draft := { d.add (jump 0) p none with awaited := d.code.size :: d.awaited }
  have hsound (hd : d.Sound floor) : d'.Sound floor :=
    (hd.add p none fun slot hs => nomatch hi.symm.trans hs).await (Array.size_push _) hd.awaitedIn
  have hgrows : d.Grows d' #[l] (notes d.visible #[l]) [d.code.size] d.visible d.loops := by
    have hnotes : notes d.visible #[l] = #[⟨d.visible, none⟩] := by simp [notes, note, hnote]
    have h := add_grows d none hl hp
    rw [hnotes]
    refine ⟨⟨h.instrs, h.places, h.noted, fun pc => ?_, h.final⟩, rfl, rfl, rfl, rfl⟩
    have hcount : (d.code.size :: d.awaited).count pc = [d.code.size].count pc + d.awaited.count pc :=
      Draft.count_cons_eq _ _ pc
    change (d.code.size :: d.awaited).count pc + (d.given.map Prod.fst).count pc =
      d.awaited.count pc + (d.given.map Prod.fst).count pc + [d.code.size].count pc
    rw [hcount]
    omega
  refine accords_current (accords_room ?_)
  refine Accords.bind (k := .ok) (accords_commit (Q := fun _ d'' => d'' = d') hsound ?_ rfl) fun _ d'' hd'' => ?_
  · exact congrArg (Usage.mk · d.most) (Array.size_push _)
  · subst hd''
    exact accords_pure ⟨rfl, hgrows⟩

lemma aim_accords {op : Writer Unit} {k target : Nat} {l : Emit.Line} {i : Instr} (hd : d.Sound floor)
    (h : d.Grows d₁ code ns waiting V loops) (hl : code[k]? = some l) (hi : l.held.aimedAt? target = some i)
    (hw : waiting.Perm ((d.code.size + k) :: waiting'))
    (hop : ∀ past, op ⟨d₁, past⟩ = commit (d₁.aim (d.code.size + k) target i) ⟨d₁, past⟩) :
    Accords (Sound floor) op d₁ (.ok d₁.usage) fun _ d₂ =>
      d.Grows d₂ (code.modify k (Emit.Line.aim target)) ns waiting' V loops ∧ d₂.code.size = d₁.code.size := by
  intro hd₁ past
  have hk := (Array.getElem?_eq_some_iff.mp hl).1
  have hmem : d.code.size + k ∈ waiting := hw.mem_iff.mpr List.mem_cons_self
  have hnew := h.toExtends.not_given hd hd₁ hmem (Nat.le_add_right _ _)
  have hsize : (d₁.aim (d.code.size + k) target i).code.size = d₁.code.size := Array.size_setIfInBounds
  have haim : Accords (Sound floor) (commit (d₁.aim (d.code.size + k) target i)) d₁ (.ok d₁.usage) fun _ d₂ =>
      d.Grows d₂ (code.modify k (Emit.Line.aim target)) ns waiting' V loops ∧ d₂.code.size = d₁.code.size :=
    accords_commit (fun hd₁ => hd₁.aim (Draft.slot?_aimedAt? hi) (by rw [h.size]; omega))
      (congrArg (Usage.mk · d₁.most) hsize) ⟨h.aim hl hi hnew hw, hsize⟩
  exact hop past ▸ haim hd₁ past

lemma getElem?_grown (h : d.Grows d₁ code ns waiting V loops) {k : Nat} {l : Emit.Line} (hl : code[k]? = some l) :
    d₁.code[d.code.size + k]? = some l.held := by
  rw [h.instrs, Array.getElem?_append_right (Nat.le_add_right _ _), Nat.add_sub_cancel_left, Array.getElem?_map, hl,
    Option.map_some]

lemma patch_eq {pc : Nat} {i : Instr} (h : (d.code[pc]?).bind (Instr.aimedAt? d.code.size) = some i)
    (past : List Draft) : patch pc ⟨d, past⟩ = commit (d.aim pc d.code.size i) ⟨d, past⟩ := by
  rw [patch, current_apply, h]

lemma redirect_eq {pc t : Nat} (h : d.code[pc]? = some (.jump t)) (target : Nat) (past : List Draft) :
    redirect target pc ⟨d, past⟩ = commit (d.aim pc target (.jump target)) ⟨d, past⟩ := by
  rw [redirect, current_apply, h]

lemma patch_accords {jump : Nat → Instr} {p : Position} {pc : Nat} (target : Nat) (hd : d.Sound floor)
    (h : d.Grows d₁ (c₁ ++ one (jump 0) p ++ c₂) ns (pc :: waiting) V loops) (hpc : pc = d.code.size + c₁.size)
    (ht : target = pc + 1 + c₂.size) (hj : ∀ t, (jump 0).aimedAt? t = some (jump t)) :
    Accords (Sound floor) (patch pc) d₁ (.ok d₁.usage) fun _ d₂ =>
      d.Grows d₂ (c₁ ++ one (jump target) p ++ c₂) ns waiting V loops := by
  have hl : (c₁ ++ one (jump 0) p ++ c₂)[c₁.size]? = some ⟨.plain (jump 0), p.line⟩ := by
    rw [Array.getElem?_append_left (by simp), Array.getElem?_append_right (Nat.le_refl _), Nat.sub_self]
    rfl
  have hsize : d₁.code.size = target := by
    rw [h.size, ht, hpc, Array.size_append, Array.size_append, Emit.size_one]
    omega
  have haim : Emit.Line.aim target ⟨.plain (jump 0), p.line⟩ = ⟨.plain (jump target), p.line⟩ :=
    congrArg (Option.elim · _ _) (hj target)
  have hmodify : (c₁ ++ one (jump 0) p ++ c₂).modify c₁.size (Emit.Line.aim target) =
      c₁ ++ one (jump target) p ++ c₂ := by
    rw [one, Emit.modify_middle, haim, one]
  subst hpc
  refine (aim_accords hd h hl (hj target) (List.Perm.refl _) fun past => ?_).mono fun _ d₂ h₂ => hmodify ▸ h₂.1
  have hget := getElem?_grown h hl
  subst hsize
  exact patch_eq (by rw [hget, Option.bind_some]; exact hj _) past

section Scopes

lemma declare_accords {S : Draft → Prop} {name : String} {stored : Bool} (hd : d.EndsAt start V loops)
    (hnext : S d → d.next = d.visible.length)
    (hS : S d → S { d with
      scopes := d.scopes.modifyHead (⟨name, d.next, if stored then some d.code.size else none⟩ :: ·)
      next := d.next + 1
      most := max d.most (d.next + 1) }) :
    Accords S (declare name stored) d (d.usage.declare V.length) fun x d' =>
      x = ⟨name, V.length, if stored then some start else none⟩ ∧ d.Grows d' #[] #[] [] (x :: V) loops := by
  obtain ⟨rfl, rfl, rfl, hscopes⟩ := hd
  refine accords_of_sound fun hd => accords_current ?_
  rw [Usage.declare, ← hnext hd]
  by_cases hfull : Capacity.slotCount ≤ d.next
  · rw [if_pos hfull, if_pos hfull]
    exact accords_full _
  rw [if_neg hfull, if_neg hfull]
  refine Accords.bind (k := .ok) (accords_commit hS rfl
    (Q := fun _ d' => d.Grows d' #[] #[] [] (⟨name, d.next, if stored then some d.code.size else none⟩ :: d.visible)
      d.loops) ?_) fun _ d' hd' => accords_pure ⟨rfl, hd'⟩
  obtain ⟨scope, scopes, hs⟩ := List.ne_nil_iff_exists_cons.mp (List.isEmpty_eq_false_iff.mp hscopes)
  obtain ⟨hinstrs, hplaces, hnoted, hbalance, hfinal⟩ := Draft.Extends.refl d
  refine ⟨⟨hinstrs, hplaces, hnoted, hbalance, hfinal⟩, ?_, ?_, ?_, rfl⟩ <;> simp [Draft.visible, hs]

lemma closeScope_eq {scope : List Variable} {scopes : List (List Variable)} (hd : d.scopes = scope :: scopes)
    (past : List Draft) :
    closeScope ⟨d, past⟩ = commit { d with scopes, next := d.next - scope.length } ⟨d, past⟩ := by
  rw [closeScope, current_apply, hd]

lemma closeScope_accords {d' : Draft} (h : { d with scopes := [] :: d.scopes }.Grows d' code ns waiting W loops) :
    Accords (Sound floor) closeScope d' (.ok d'.usage) fun _ d'' => d.Grows d'' code ns waiting d.visible loops := by
  obtain ⟨scope, scopes, hs⟩ := List.ne_nil_iff_exists_cons.mp (List.isEmpty_eq_false_iff.mp h.opened)
  obtain rfl : scopes = d.scopes := by simpa [hs] using h.outer
  intro hd' past
  rw [closeScope_eq hs]
  refine accords_commit (fun hd' => hd'.closeScope hs) rfl ?_ hd' past
  exact ⟨⟨h.instrs, h.places, h.noted, h.balance, h.final⟩, rfl, rfl, rfl, h.loops⟩

lemma block_accords {body : Writer Unit} {m : Except Shortage Usage} {loops' : List Exits}
    (hd : d.EndsAt start V loops)
    (hbody : ∀ d₁ : Draft, d₁.EndsAt start V loops → d₁.usage = d.usage →
      Accords (Sound floor) body d₁ m fun _ d' => d₁.Grows d' code ns waiting W loops') :
    Accords (Sound floor) (block body) d m fun _ d' => d.Grows d' code ns waiting V loops' := by
  obtain ⟨rfl, rfl, rfl, -⟩ := hd
  replace hbody := hbody { d with scopes := [] :: d.scopes } ⟨rfl, rfl, rfl, rfl⟩ rfl
  have hrest : Accords (Sound floor) (body >>= fun _ => closeScope) { d with scopes := [] :: d.scopes } m
      fun _ d' => d.Grows d' code ns waiting d.visible loops' :=
    bind_pure m ▸ Accords.bind (k := .ok) hbody fun _ _ h => closeScope_accords h
  refine Accords.andThen (accords_current (accords_commit (fun hd => hd.openScope) rfl
    (Q := fun _ d' => d' = { d with scopes := [] :: d.scopes }) rfl)) fun _ d' hd' _ => hd' ▸ hrest

end Scopes

section Loops

variable {o : Op}

lemma enterLoop_accords :
    Accords (Sound floor) enterLoop d (.ok d.usage) fun _ d' => d' = { d with loops := {} :: d.loops } :=
  accords_current (accords_commit (fun hd => hd.holding _) rfl rfl)

lemma jumpOut_accords {hold : Nat → Exits → Exits} {p : Position} (hd : d.EndsAt start V loops)
    (ho : Emit.Line.held ⟨o, p.line⟩ = .jump 0) (hnote : o.slot? = none) (hloops : loops.isEmpty = false) :
    Accords (Sound floor) (jumpOut limit hold p) d (d.usage.emit limit) fun _ d' =>
      d.Grows d' #[⟨o, p.line⟩] (notes V #[⟨o, p.line⟩]) [start] V (loops.modifyHead (hold start)) := by
  refine accords_current ?_
  rw [if_neg (by simp [hd.loops, hloops]), ← bind_pure (d.usage.emit limit)]
  refine Accords.bind (k := .ok) (await_accords (l := ⟨o, p.line⟩) hd ho rfl hnote rfl) fun pc d' ⟨hpc, h⟩ => ?_
  subst hpc
  exact accords_current (accords_commit (fun hd' => hd'.holding _) rfl (h.loops ▸ h.holding _))

lemma aimAll_accords {size target : Nat} {op : Nat → Writer Unit} (hd : d.Sound floor)
    (h : d.Grows d₁ code ns waiting V loops) (ho : ∀ n, Emit.Line.held ⟨o, n⟩ = .jump 0)
    (hw : waiting.Perm (spots o d.code.size code ++ waiting')) (hsize : d₁.code.size = size)
    (hop : ∀ pc d' past, d'.code.size = size → d'.code[pc]? = some (.jump 0) →
      op pc ⟨d', past⟩ = commit (d'.aim pc target (.jump target)) ⟨d', past⟩) :
    Accords (Sound floor) ((spots o d.code.size code).forM op) d₁ (.ok d₁.usage) fun _ d₂ =>
      d.Grows d₂ (code.map (Emit.Line.toward o target)) ns waiting' V loops := by
  rw [← Emit.foldl_aim]
  have hks : ∀ k ∈ places o code, ∃ n, code[k]? = some ⟨o, n⟩ := fun k => Emit.mem_places.mp
  have hnodup := Emit.places_nodup o code
  rw [spots] at hw ⊢
  -- each step changes the code, and the jumps that are left are where they were
  generalize places o code = ks at hks hnodup hw
  induction ks generalizing code d₁ waiting with
  | nil => exact accords_pure (h.perm hw)
  | cons k ks ih =>
    obtain ⟨hk, hnodup⟩ := List.nodup_cons.mp hnodup
    obtain ⟨⟨n, hl⟩, hks⟩ := List.forall_mem_cons.mp hks
    have hi : (Emit.Line.held ⟨o, n⟩).aimedAt? target = some (.jump target) := by rw [ho]; rfl
    have hget := (getElem?_grown h hl).trans (congrArg some (ho n))
    have hfirst := aim_accords hd h hl hi hw fun past => hop _ _ past hsize hget
    refine Accords.andThen hfirst fun _ d₂ hd₂ hu => ?_
    obtain ⟨h₂, hsize₂⟩ := hd₂
    rw [← hu]
    refine ih h₂ (hsize₂.trans hsize) (fun j hj => ?_) hnodup (List.Perm.refl _)
    obtain ⟨m, hm⟩ := hks j hj
    refine ⟨m, ?_⟩
    rw [Array.getElem?_modify, if_neg (fun heq : k = j => hk (heq ▸ hj)), hm]

lemma settleAgains_accords (target : Nat) (hd : d.Sound floor)
    (h : d.Grows d₁ code ns (l.agains ++ waiting) V (l :: loops))
    (hl : l.agains = spots .again d.code.size code) :
    Accords (Sound floor) (settleAgains target) d₁ (.ok d₁.usage) fun _ d₂ =>
      d.Grows d₂ (code.map (Emit.Line.toward .again target)) ns waiting V ({ l with agains := [] } :: loops) := by
  let d' : Draft := { d₁ with loops := { l with agains := [] } :: loops }
  have hrest : Accords (Sound floor) (l.agains.forM (redirect target)) d' (.ok d'.usage) fun _ d₂ =>
      d.Grows d₂ (code.map (Emit.Line.toward .again target)) ns waiting V ({ l with agains := [] } :: loops) := by
    rw [hl]
    exact aimAll_accords hd (h.holding _) (fun n => rfl) (by rw [hl]) rfl
      fun pc d'' past _ hget => redirect_eq hget target past
  refine accords_current ?_
  rw [h.loops]
  exact Accords.andThen (accords_commit (fun hd₁ => hd₁.holding _) rfl (Q := fun _ d₂ => d₂ = d') rfl)
    fun _ d₂ hd₂ _ => hd₂ ▸ hrest

lemma finishLoop_accords (target : Nat) (hd : d.Sound floor)
    (h : d.Grows d₁ code ns l.leaves V (l :: loops))
    (hl : l.leaves = spots .leave d.code.size code) (ht : target = d.code.size + code.size) :
    Accords (Sound floor) finishLoop d₁ (.ok d₁.usage) fun _ d₂ =>
      d.Grows d₂ (code.map (Emit.Line.toward .leave target)) ns [] V loops := by
  let d' : Draft := { d₁ with loops }
  have hrest : Accords (Sound floor) (l.leaves.forM patch) d' (.ok d'.usage) fun _ d₂ =>
      d.Grows d₂ (code.map (Emit.Line.toward .leave target)) ns [] V loops := by
    rw [hl]
    refine aimAll_accords hd (h.holding _) (fun n => rfl) (by rw [hl, List.append_nil]) (h.size.trans ht.symm)
      fun pc d'' past hsize hget => ?_
    subst hsize
    exact patch_eq (by rw [hget]; rfl) past
  refine accords_current ?_
  rw [h.loops]
  exact Accords.andThen (accords_commit (fun hd₁ => hd₁.holding _) rfl (Q := fun _ d₂ => d₂ = d') rfl)
    fun _ d₂ hd₂ _ => hd₂ ▸ hrest

end Loops

end Steps

end ScriptHost.OnePass
