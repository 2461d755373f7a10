import ScriptHost.Proofs.Compile.Scopes

/-!
How control goes through scopes. From each line of generated code it goes on to lines where no variables are in scope
but those that were in scope before and at most a new one, which is stored to first right there.
-/

namespace ScriptHost.Emit

/-- Control may come from where the variables `U` are in scope to an address where it is the variables `V`. -/
def Comes (pc : Nat) (U V : List Variable) : Prop :=
  V <:+ U ∨ ∃ x W, V = x :: W ∧ x.first = some pc ∧ W <:+ U

lemma Comes.mono {pc : Nat} {U U' V : List Variable} (h : Comes pc U V) (hU : U <:+ U') : Comes pc U' V := by
  rcases h with h | ⟨x, W, rfl, hx, h⟩
  · exact .inl (h.trans hU)
  · exact .inr ⟨x, W, rfl, hx, h.trans hU⟩

lemma Comes.mem {pc : Nat} {U V : List Variable} (h : Comes pc U V) {x : Variable} (hx : x ∈ V)
    (hfirst : x.first ≠ some pc) : x ∈ U := by
  rcases h with h | ⟨y, W, rfl, hy, h⟩
  · exact h.subset hx
  · rcases List.mem_cons.mp hx with rfl | hx
    · exact absurd hy hfirst
    · exact h.subset hx

/-- Control may come to an address of code laid out from `start`, where the variables in scope are as noted and those
behind the code are `V`. -/
def Enters (start : Nat) (ns : Array Note) (V : List Variable) (pc : Nat) (U : List Variable) : Prop :=
  (∃ k n, pc = start + k ∧ ns[k]? = some n ∧ Comes pc U n.scope) ∨ (pc = start + ns.size ∧ V <:+ U)

section Enters

variable {start pc : Nat} {ns ns' : Array Note} {U U' V W : List Variable}

lemma Enters.mono (h : Enters start ns V pc U) (hU : U <:+ U') : Enters start ns V pc U' :=
  h.imp (fun ⟨k, n, hpc, hn, hcomes⟩ => ⟨k, n, hpc, hn, hcomes.mono hU⟩) fun ⟨hpc, hV⟩ => ⟨hpc, hV.trans hU⟩

lemma Enters.right (h : Enters (start + ns.size) ns' V pc U) : Enters start (ns ++ ns') V pc U := by
  rcases h with ⟨k, n, rfl, hn, hcomes⟩ | ⟨rfl, hV⟩
  · refine .inl ⟨ns.size + k, n, by omega, ?_, hcomes⟩
    rw [Array.getElem?_append_right (Nat.le_add_right _ _), Nat.add_sub_cancel_left, hn]
  · exact .inr ⟨by simp; omega, hV⟩

lemma Enters.left (h : Enters start ns W pc U) (hnext : Enters (start + ns.size) ns' V (start + ns.size) W) :
    Enters start (ns ++ ns') V pc U := by
  rcases h with ⟨k, n, rfl, hn, hcomes⟩ | ⟨rfl, hW⟩
  · refine .inl ⟨k, n, rfl, ?_, hcomes⟩
    rw [Array.getElem?_append_left (Array.getElem?_eq_some_iff.mp hn).1, hn]
  · exact (hnext.mono hW).right

lemma Enters.shrink (h : Enters start ns V pc U) (hW : W <:+ V) : Enters start ns W pc U :=
  h.imp id fun ⟨hpc, hV⟩ => ⟨hpc, hW.trans hV⟩

end Enters

/-- The note with a line names what the line loads or stores. A variable that is stored to first at its address is what
it stores. -/
structure Fits (pc : Nat) (l : Line) (n : Note) : Prop where
  stacked : Stacked n.scope
  subject : ∀ slot, l.op.slot? = some slot → ∃ x ∈ n.scope, n.subject = some x ∧ x.slot = slot
  first : ∀ x ∈ n.scope, x.first = some pc → l.op = .plain (.store x.slot) ∧ n.subject = some x

/-- `ns` notes the variables in scope in code laid out from `start`. Control comes to it with `V` in scope, leaves it
behind with `V'`, and jumps out of it where `out` allows. -/
structure Threads (out : Spot → List Variable → Prop) (start : Nat) (code : Code) (ns : Array Note)
    (V V' : List Variable) : Prop where
  size : ns.size = code.size
  enter : Enters start ns V' start V
  fits : ∀ (k : Nat) (l : Line) (n : Note), code[k]? = some l → ns[k]? = some n → Fits (start + k) l n
  next : ∀ (k : Nat) (l : Line) (n : Note), code[k]? = some l → ns[k]? = some n →
    ∀ t ∈ l.op.targets (start + k), (∃ pc, t = .at pc ∧ Enters start ns V' pc n.scope) ∨ out t n.scope

def OrWith (out : Spot → List Variable → Prop) (pc : Nat) (V : List Variable) (t : Spot) (U : List Variable) : Prop :=
  out t U ∨ t = .at pc ∧ V <:+ U

section Threads

variable {out out' : Spot → List Variable → Prop} {start : Nat} {code code' : Code} {ns ns' : Array Note}
  {U V V' W : List Variable}

lemma Threads.widen (h : Threads out start code ns V V') (ho : ∀ t U, out t U → out' t U) :
    Threads out' start code ns V V' :=
  ⟨h.size, h.enter, h.fits, fun k l n hl hn t ht => (h.next k l n hl hn t ht).imp_right (ho t _)⟩

lemma Threads.nil : Threads out start #[] #[] V V :=
  ⟨rfl, .inr ⟨rfl, List.suffix_refl V⟩, by simp, by simp⟩

lemma Threads.shrink (h : Threads out start code ns V V') (hW : W <:+ V') : Threads out start code ns V W :=
  ⟨h.size, h.enter.shrink hW, h.fits, fun k l n hl hn t ht =>
    (h.next k l n hl hn t ht).imp_left fun ⟨pc, hat, hpc⟩ => ⟨pc, hat, hpc.shrink hW⟩⟩

lemma Threads.closeFirst (h : Threads (OrWith out start V) start code ns V V') : Threads out start code ns V V' := by
  refine ⟨h.size, h.enter, h.fits, fun k l n hl hn t ht => ?_⟩
  rcases h.next k l n hl hn t ht with hin | hout | ⟨hat, hV⟩
  · exact .inl hin
  · exact .inr hout
  · exact .inl ⟨start, hat, h.enter.mono hV⟩

lemma Threads.closeLast (pc : Nat) (h : Threads (OrWith out pc V') start code ns V V') (hpc : pc = start + code.size) :
    Threads out start code ns V V' := by
  refine ⟨h.size, h.enter, h.fits, fun k l n hl hn t ht => ?_⟩
  rcases h.next k l n hl hn t ht with hin | hout | ⟨hat, hV⟩
  · exact .inl hin
  · exact .inr hout
  · exact .inl ⟨pc, hat, .inr ⟨by rw [hpc, h.size], hV⟩⟩

lemma Threads.append {mid : Nat} (h : Threads out start code ns V W) (h' : Threads out mid code' ns' W V')
    (hmid : mid = start + code.size) : Threads out start (code ++ code') (ns ++ ns') V V' := by
  obtain rfl : mid = start + ns.size := by rw [hmid, h.size]
  have hparts : ∀ (k : Nat) (l : Line) (n : Note), (code ++ code')[k]? = some l → (ns ++ ns')[k]? = some n →
      Fits (start + k) l n ∧ ∀ t ∈ l.op.targets (start + k),
        (∃ pc, t = .at pc ∧ Enters start (ns ++ ns') V' pc n.scope) ∨ out t n.scope := by
    intro k l n hl hn
    rw [Array.getElem?_append] at hl hn
    by_cases hk : k < code.size
    · rw [if_pos hk] at hl
      rw [if_pos (h.size.symm ▸ hk)] at hn
      exact ⟨h.fits k l n hl hn, fun t ht => (h.next k l n hl hn t ht).imp_left fun ⟨pc, hat, hpc⟩ =>
        ⟨pc, hat, hpc.left h'.enter⟩⟩
    · rw [if_neg hk] at hl
      rw [if_neg (h.size.symm ▸ hk), h.size] at hn
      have hat : start + k = start + ns.size + (k - code.size) := by rw [h.size]; omega
      rw [hat]
      exact ⟨h'.fits _ l n hl hn, fun t ht => (h'.next _ l n hl hn t ht).imp_left fun ⟨pc, hat, hpc⟩ =>
        ⟨pc, hat, hpc.right⟩⟩
  refine ⟨?_, h.enter.left h'.enter, fun k l n hl hn => (hparts k l n hl hn).1, fun k l n hl hn =>
    (hparts k l n hl hn).2⟩
  rw [Array.size_append, Array.size_append, h.size, h'.size]

lemma Threads.settle {exit round : Nat} (h : Threads out start code ns V V')
    (ho : ∀ t U, out t U → out' (t.settle exit round) U) :
    Threads out' start (code.map (Line.settle exit round)) ns V V' := by
  have hline : ∀ (k : Nat) (l' : Line), (code.map (Line.settle exit round))[k]? = some l' →
      ∃ l, code[k]? = some l ∧ l' = l.settle exit round := by
    intro k l' hl'
    rw [Array.getElem?_map] at hl'
    obtain ⟨l, hl, heq⟩ := Option.map_eq_some_iff.mp hl'
    exact ⟨l, hl, heq.symm⟩
  refine ⟨by rw [Array.size_map, h.size], h.enter, fun k l' n hl' hn => ?_, fun k l' n hl' hn t ht => ?_⟩
  · obtain ⟨⟨op, line⟩, hl, rfl⟩ := hline k l' hl'
    obtain ⟨hstacked, hsubject, hfirst⟩ := h.fits k _ n hl hn
    cases op with
    | plain i => exact ⟨hstacked, hsubject, hfirst⟩
    | leave | again =>
      refine ⟨hstacked, by simp [Line.settle, Op.slot?], fun x hx hfirst' => ?_⟩
      cases (hfirst x hx hfirst').1
  · obtain ⟨⟨op, line⟩, hl, rfl⟩ := hline k l' hl'
    have hnext := h.next k _ n hl hn
    cases op with
    | plain i =>
      refine (hnext t ht).imp_right fun hout => ?_
      obtain ⟨pc, -, rfl⟩ := List.mem_map.mp ht
      exact ho _ _ hout
    | leave =>
      obtain rfl := List.mem_singleton.mp ht
      rcases hnext _ List.mem_cons_self with ⟨pc, hat, -⟩ | hout
      · cases hat
      · exact .inr (ho _ _ hout)
    | again =>
      obtain rfl := List.mem_singleton.mp ht
      rcases hnext _ List.mem_cons_self with ⟨pc, hat, -⟩ | hout
      · cases hat
      · exact .inr (ho _ _ hout)

end Threads

def Before (start : Nat) (V : List Variable) : Prop :=
  ∀ x ∈ V, ∀ pc, x.first = some pc → pc < start

lemma Before.mono {start start' : Nat} {V : List Variable} (h : Before start V) (hle : start ≤ start') :
    Before start' V :=
  fun x hx pc hpc => Nat.lt_of_lt_of_le (h x hx pc hpc) hle

lemma Before.cons {start pc : Nat} {V : List Variable} {name : String} (h : Before start V) (hle : start ≤ pc) :
    Before (pc + 1) (storedAt V name pc :: V) := by
  refine List.forall_mem_cons.mpr ⟨fun q hq => ?_, h.mono (Nat.le_succ_of_le hle)⟩
  cases hq
  exact Nat.lt_succ_self pc

lemma Stacked.storedAt {V : List Variable} (h : Stacked V) (name : String) (pc : Nat) :
    Stacked (Emit.storedAt V name pc :: V) :=
  h.cons rfl

lemma fits_note {pc start : Nat} {l : Line} {V : List Variable} (hV : Stacked V) (hold : Before start V)
    (hle : start ≤ pc) (hslot : ∀ slot, l.op.slot? = some slot → slot < V.length) : Fits pc l (note V l) where
  stacked := hV
  subject slot hs := by
    obtain ⟨x, hx, rfl⟩ := hV.exists_slot (hslot slot hs)
    refine ⟨x, hx, ?_, rfl⟩
    rw [note, hs, Option.bind_some, hV.find?_slot hx]
  first x hx hfirst := absurd (hold x hx pc hfirst) (Nat.not_lt.mpr hle)

section Parts

variable {out : Spot → List Variable → Prop} {start : Nat} {code body otherwise : Code} {U V W L : List Variable}
  {ns ns' : Array Note}

lemma threads_single {l : Line} (hV : Stacked V) (hold : Before start V)
    (hslot : ∀ slot, l.op.slot? = some slot → slot < V.length)
    (hn : ∀ t ∈ l.op.targets start, t = .at (start + 1) ∨ out t V) :
    Threads out start #[l] (notes V #[l]) V V := by
  have hline : ∀ (k : Nat) (l' : Line) (n : Note), #[l][k]? = some l' → (notes V #[l])[k]? = some n →
      k = 0 ∧ l' = l ∧ n = note V l := by
    intro k l' n hl hn
    obtain rfl := eq_note hl hn
    obtain ⟨hk, rfl⟩ := Array.getElem?_eq_some_iff.mp hl
    obtain rfl : k = 0 := Nat.lt_one_iff.mp hk
    exact ⟨rfl, rfl, rfl⟩
  have hfirst : (notes V #[l])[0]? = some (note V l) := getElem?_notes rfl
  refine ⟨size_notes _ _, .inl ⟨0, _, rfl, hfirst, .inl (List.suffix_refl V)⟩, fun k l' n hl hn => ?_,
    fun k l' n hl hn' t ht => ?_⟩
  · obtain ⟨rfl, rfl, rfl⟩ := hline k l' n hl hn
    exact fits_note hV hold (Nat.le_refl _) hslot
  · obtain ⟨rfl, rfl, rfl⟩ := hline k l' n hl hn'
    rcases hn t ht with rfl | hout
    · exact .inl ⟨_, rfl, .inr ⟨by rw [size_notes]; rfl, List.suffix_refl V⟩⟩
    · exact .inr hout

lemma threads_plain {i : Instr} (p : Position) (hV : Stacked V) (hold : Before start V)
    (hslot : ∀ slot, (Op.plain i).slot? = some slot → slot < V.length) (hi : i.targets start = [start + 1]) :
    Threads out start (one i p) (notes V (one i p)) V V := by
  refine threads_single hV hold hslot fun t ht => .inl ?_
  rw [Op.targets, hi] at ht
  exact List.mem_singleton.mp ht

lemma threads_jump (i j : Instr) (p : Position) (hV : Stacked V) (hold : Before start V)
    (hi : (Op.plain i).slot? = none) (hj : (Op.plain j).slot? = none)
    (hnext : ∀ pc ∈ i.targets start, pc = start + 1 ∨ out (.at pc) V) :
    Threads out start (one i p) (notes V (one j p)) V V := by
  have hnote : notes V (one j p) = notes V (one i p) := by
    simp only [notes, one, List.map_toArray, List.map_cons, List.map_nil, note, hi, hj]
  rw [hnote]
  refine threads_single hV hold (fun slot hs => ?_) fun t ht => ?_
  · cases hi.symm.trans hs
  obtain ⟨pc, hpc, rfl⟩ := List.mem_map.mp ht
  exact (hnext pc hpc).imp_left (congrArg Spot.at)

lemma threads_first (p : Position) (hV : Stacked V) (hold : Before start V) (name : String) :
    Threads out start (one (.store (storedAt V name start).slot) p)
      (notes (storedAt V name start :: V) (one (.store (storedAt V name start).slot) p)) V
      (storedAt V name start :: V) := by
  have hx : Stacked (storedAt V name start :: V) := hV.storedAt name start
  have hsubject := hx.find?_slot List.mem_cons_self
  have hline : ∀ (k : Nat) (l : Line) (n : Note), (one (.store (storedAt V name start).slot) p)[k]? = some l →
      (notes (storedAt V name start :: V) (one (.store (storedAt V name start).slot) p))[k]? = some n →
      k = 0 ∧ l.op = .plain (.store (storedAt V name start).slot) ∧
        n = ⟨storedAt V name start :: V, some (storedAt V name start)⟩ := by
    intro k l n hl hn
    obtain rfl := eq_note hl hn
    obtain ⟨hk, rfl⟩ := Array.getElem?_eq_some_iff.mp hl
    obtain rfl : k = 0 := Nat.lt_one_iff.mp hk
    exact ⟨rfl, rfl, congrArg (Note.mk _) hsubject⟩
  have hnew : Comes start V (storedAt V name start :: V) := .inr ⟨_, V, rfl, rfl, List.suffix_refl V⟩
  refine ⟨size_notes _ _, .inl ⟨0, _, rfl, getElem?_notes rfl, hnew⟩, fun k l n hl hn => ?_,
    fun k l n hl hn t ht => ?_⟩
  · obtain ⟨rfl, hop, rfl⟩ := hline k l n hl hn
    refine ⟨hx, fun slot hs => ⟨_, List.mem_cons_self, rfl, ?_⟩, fun y hy hfirst => ?_⟩
    · rw [hop] at hs
      exact Option.some.inj hs
    · rcases List.mem_cons.mp hy with rfl | hy
      · exact ⟨hop, rfl⟩
      · exact absurd (hold y hy _ hfirst) (Nat.lt_irrefl start)
  · obtain ⟨rfl, hop, rfl⟩ := hline k l n hl hn
    rw [hop] at ht
    exact .inl ⟨start + 1, List.mem_singleton.mp ht, .inr ⟨by rw [size_notes]; rfl, List.suffix_refl _⟩⟩

lemma Level.threads {p : Program} {k k' : Nat}
    (h : Level (Instr.InRange p V.length) (fun _ _ => False) start code k k') (hV : Stacked V) (hold : Before start V) :
    Threads out start code (notes V code) V V := by
  obtain ⟨H, h⟩ := h
  have henters : ∀ pc, start ≤ pc → pc ≤ start + code.size → Enters start (notes V code) V pc V := by
    intro pc hlo hhi
    rcases Nat.lt_or_eq_of_le hhi with hlt | rfl
    · have hk : pc - start < code.size := by omega
      exact .inl ⟨pc - start, _, by omega, getElem?_notes (Array.getElem?_eq_getElem hk), .inl (List.suffix_refl V)⟩
    · exact .inr ⟨by rw [size_notes], List.suffix_refl V⟩
  refine ⟨size_notes V code, henters start (Nat.le_refl _) (Nat.le_add_right _ _), fun k l n hl hn => ?_,
    fun k l n hl hn t ht => ?_⟩
  · obtain rfl := eq_note hl hn
    refine fits_note hV hold (Nat.le_add_right _ _) fun slot hs => ?_
    have hrange := h.range k l hl
    obtain ⟨op, line⟩ := l
    cases op with
    | plain i =>
      cases i with
      | load | store =>
        cases hs
        exact hrange
      | _ => cases hs
    | leave | again => cases hs
  · obtain rfl := eq_note hl hn
    rw [← l.op.map_next _ (H (start + k))] at ht
    obtain ⟨s, hs, rfl⟩ := List.mem_map.mp ht
    obtain ⟨pc, hat, hlo, hhi, -⟩ := (h.next k l hl s hs).resolve_right id
    exact .inl ⟨pc, hat, henters pc hlo hhi⟩

def within (inLoop : Bool) (L : List Variable) (t : Spot) (U : List Variable) : Prop :=
  inLoop = true ∧ (t = .exit ∨ t = .round) ∧ L <:+ U

lemma Threads.looped (exit round : Nat) (h : Threads (within true L) start code ns V W)
    (he : ∀ U, L <:+ U → out (.at exit) U) (hr : ∀ U, L <:+ U → out (.at round) U) :
    Threads out start (code.map (Line.settle exit round)) ns V W := by
  refine h.settle ?_
  rintro t U ⟨-, rfl | rfl, hL⟩
  · exact he U hL
  · exact hr U hL

section Statements

variable {inLoop : Bool} (p : Position) (hV : Stacked V) (hold : Before start V) (hW : V <:+ W)

include hV hold hW

lemma branch_threads (hcond : ∀ out, Threads out start code (notes V code) V V)
    (hbody : Threads (within inLoop L) (start + code.size + 1) body ns V W) :
    Threads (within inLoop L) start (code ++ one (.jumpIfFalse (start + code.size + 1 + body.size)) p ++ body)
      (notes V (code ++ one (.jumpIfFalse 0) p) ++ ns) V V := by
  generalize hlast : start + code.size + 1 + body.size = last
  have hjump : Threads (OrWith (within inLoop L) last V) (start + code.size) (one (.jumpIfFalse last) p)
      (notes V (one (.jumpIfFalse 0) p)) V V :=
    threads_jump _ _ p hV (hold.mono (Nat.le_add_right _ _)) rfl rfl (by simp [Instr.targets, Instr.next, OrWith])
  have hall := ((hcond _).append hjump rfl).append ((hbody.shrink hW).widen fun _ _ => .inl) (by simp; omega)
  rw [notes_append]
  exact hall.closeLast last (by simp; omega)

lemma branchElse_threads {W' : List Variable} (hW' : V <:+ W')
    (hcond : ∀ out, Threads out start code (notes V code) V V)
    (hbody : Threads (within inLoop L) (start + code.size + 1) body ns V W)
    (hother : Threads (within inLoop L) (start + code.size + 1 + body.size + 1) otherwise ns' V W') :
    Threads (within inLoop L) start
      (code ++ one (.jumpIfFalse (start + code.size + 1 + body.size + 1)) p ++ body
        ++ one (.jump (start + code.size + 1 + body.size + 1 + otherwise.size)) p ++ otherwise)
      (notes V (code ++ one (.jumpIfFalse 0) p) ++ ns ++ notes V (one (.jump 0) p) ++ ns') V V := by
  generalize hmid : start + code.size + 1 + body.size + 1 = middle at hother ⊢
  generalize hlast : middle + otherwise.size = last
  -- the test goes to `middle` and the first part to `last` before there is code at either
  let out := OrWith (OrWith (within inLoop L) last V) middle V
  have htest : Threads out (start + code.size) (one (.jumpIfFalse middle) p) (notes V (one (.jumpIfFalse 0) p)) V V :=
    threads_jump _ _ p hV (hold.mono (Nat.le_add_right _ _)) rfl rfl (by simp [Instr.targets, Instr.next, OrWith, out])
  have hjump : Threads out (start + code.size + 1 + body.size) (one (.jump last) p) (notes V (one (.jump 0) p)) V V :=
    threads_jump _ _ p hV (hold.mono (by omega)) rfl rfl (by simp [Instr.targets, Instr.next, OrWith, out])
  have hthen := ((hcond out).append htest rfl).append ((hbody.shrink hW).widen fun _ _ h => .inl (.inl h))
    (by simp; omega)
  have hfirst := (hthen.append hjump (by simp; omega)).closeLast middle (by simp; omega)
  have hall := hfirst.append ((hother.shrink hW').widen fun _ _ => .inl) (by simp; omega)
  rw [notes_append]
  exact hall.closeLast last (by simp; omega)

lemma loop_threads (hcond : ∀ out, Threads out start code (notes V code) V V)
    (hbody : Threads (within true V) (start + code.size + 1) body ns V W) :
    Threads out start
      (code ++ one (.jumpIfFalse (start + code.size + 1 + body.size + 1)) p
        ++ body.map (Line.settle (start + code.size + 1 + body.size + 1) start) ++ one (.jump start) p)
      (notes V (code ++ one (.jumpIfFalse 0) p) ++ ns ++ notes V (one (.jump start) p)) V V := by
  generalize hexit : start + code.size + 1 + body.size + 1 = exit
  let out' := OrWith (OrWith out exit V) start V
  have htest : Threads out' (start + code.size) (one (.jumpIfFalse exit) p) (notes V (one (.jumpIfFalse 0) p)) V V :=
    threads_jump _ _ p hV (hold.mono (Nat.le_add_right _ _)) rfl rfl (by simp [Instr.targets, Instr.next, OrWith, out'])
  have hround : Threads out' (start + code.size + 1) (body.map (Line.settle exit start)) ns V V :=
    (hbody.looped exit start (fun U hU => .inl (.inr ⟨rfl, hU⟩)) fun U hU => .inr ⟨rfl, hU⟩).shrink hW
  have hjump : Threads out' (start + code.size + 1 + body.size) (one (.jump start) p) (notes V (one (.jump start) p))
      V V :=
    threads_jump _ _ p hV (hold.mono (by omega)) rfl rfl (by simp [Instr.targets, Instr.next, OrWith, out'])
  have hall := (((hcond out').append htest rfl).append hround (by simp; omega)).append hjump (by simp; omega)
  rw [notes_append]
  exact hall.closeFirst.closeLast exit (by simp; omega)

lemma round_threads (counter last : Nat) (hcounter : counter < V.length) (hlast : last < V.length)
    (hbody : Threads (within true V) (start + 4) body ns V W) :
    Threads out start
      (one (.load counter) p ++ one (.load last) p ++ one (.binary .lt) p
        ++ one (.jumpIfFalse (start + 4 + body.size + 5)) p
        ++ body.map (Line.settle (start + 4 + body.size + 5) (start + 4 + body.size))
        ++ (one (.load counter) p ++ one (.int 1) p ++ one (.binary .add) p ++ one (.store counter) p
          ++ one (.jump start) p))
      (notes V (one (.load counter) p ++ one (.load last) p ++ one (.binary .lt) p ++ one (.jumpIfFalse 0) p) ++ ns
        ++ notes V (one (.load counter) p ++ one (.int 1) p ++ one (.binary .add) p ++ one (.store counter) p
          ++ one (.jump start) p)) V V := by
  generalize hround : start + 4 + body.size = round
  let out' := OrWith (OrWith out (round + 5) V) start V
  have hline : ∀ {out : Spot → List Variable → Prop} {pc : Nat} (i : Instr), (Op.plain i).slot? = none → start ≤ pc →
      i.targets pc = [pc + 1] → Threads out pc (one i p) (notes V (one i p)) V V := fun i hslot hpc hi =>
    threads_plain p hV (hold.mono hpc) (fun slot hs => nomatch hslot.symm.trans hs) hi
  have haccess : ∀ {out : Spot → List Variable → Prop} {pc slot : Nat} (i : Instr), (Op.plain i).slot? = some slot →
      slot < V.length → start ≤ pc → i.targets pc = [pc + 1] →
      Threads out pc (one i p) (notes V (one i p)) V V := fun i hslot hlt hpc hi =>
    threads_plain p hV (hold.mono hpc) (fun slot hs => Option.some.inj (hslot.symm.trans hs) ▸ hlt) hi
  have htest : Threads (OrWith out' round V) start
      (one (.load counter) p ++ one (.load last) p ++ one (.binary .lt) p ++ one (.jumpIfFalse (round + 5)) p)
      (notes V (one (.load counter) p ++ one (.load last) p ++ one (.binary .lt) p ++ one (.jumpIfFalse 0) p)) V V := by
    have hjump : Threads (OrWith out' round V) (start + 3) (one (.jumpIfFalse (round + 5)) p)
        (notes V (one (.jumpIfFalse 0) p)) V V :=
      threads_jump _ _ p hV (hold.mono (Nat.le_add_right _ _)) rfl rfl
        (by simp [Instr.targets, Instr.next, OrWith, out'])
    simp only [notes_append]
    exact (((haccess _ rfl hcounter (Nat.le_refl _) rfl).append
      (haccess _ rfl hlast (Nat.le_succ _) rfl) rfl).append (hline _ rfl (Nat.le_add_right start 2) rfl) rfl).append
      hjump rfl
  have hrounds : Threads (OrWith out' round V) (start + 4) (body.map (Line.settle (round + 5) round)) ns V V :=
    (hbody.looped (round + 5) round (fun U hU => .inl (.inl (.inr ⟨rfl, hU⟩))) fun U hU => .inr ⟨rfl, hU⟩).shrink hW
  have hfirst := (htest.append hrounds rfl).closeLast round (by simp; omega)
  have hstep : Threads out' round
      (one (.load counter) p ++ one (.int 1) p ++ one (.binary .add) p ++ one (.store counter) p ++ one (.jump start) p)
      (notes V (one (.load counter) p ++ one (.int 1) p ++ one (.binary .add) p ++ one (.store counter) p
        ++ one (.jump start) p)) V V := by
    have hjump : Threads out' (round + 4) (one (.jump start) p) (notes V (one (.jump start) p)) V V :=
      threads_jump _ _ p hV (hold.mono (by omega)) rfl rfl (by simp [Instr.targets, Instr.next, OrWith, out'])
    simp only [notes_append]
    have hlo : start ≤ round := by omega
    exact ((((haccess _ rfl hcounter hlo rfl).append (hline _ rfl (Nat.le_add_right_of_le hlo) rfl) rfl).append
      (hline _ rfl (Nat.le_add_right_of_le hlo) rfl) rfl).append
      (haccess _ rfl hcounter (Nat.le_add_right_of_le hlo) rfl) rfl).append hjump rfl
  have hall := hfirst.append hstep (by simp; omega)
  exact hall.closeFirst.closeLast (round + 5) (by simp; omega)

end Statements

end Parts

section Compiled

variable {known : Catalog} {program : Program} {c : Context}

lemma expr_threads (hc : Compiler.Compiled known program) (hcontext : c = Compiler.context known) {V : List Variable}
    {names : List String} (hs : (slotsOf V).Shows names) (hV : Stacked V) {start : Nat} (hold : Before start V)
    (out : Spot → List Variable → Prop) (e : Expr) (he : e.Ready c names) :
    Threads out start (expr c (slotsOf V) start e) (notes V (expr c (slotsOf V) start e)) V V := by
  subst hcontext
  exact (expr_level hc hs (Nat.le_refl _) (fun _ _ => False) start 0 e he).threads hV hold

lemma assign_threads (hc : Compiler.Compiled known program) (hcontext : c = Compiler.context known) {V : List Variable}
    {names : List String} (hs : (slotsOf V).Shows names) (hV : Stacked V) {start : Nat} (hold : Before start V)
    (out : Spot → List Variable → Prop) (q : Position) (t : Target) (value : Expr) (ht : t.Ready c names)
    (hv : value.Ready c names) :
    Threads out start (stmt c (slotsOf V) start (.assign q t value)).1
      (notes V (stmt c (slotsOf V) start (.assign q t value)).1) V V := by
  subst hcontext
  exact (target_level hc hs (Nat.le_refl _) start q t value ht hv).threads hV hold

section Behind

variable {V : List Variable} {start : Nat}

lemma Stacked.behind (hV : Stacked V) (x : Stmt) : Stacked (Emit.behind c V start x) := by
  cases x with
  | declare _ name _ => exact hV.storedAt name _
  | _ => exact hV

lemma Before.behind (hold : Before start V) (x : Stmt) :
    Before (start + (stmt c (slotsOf V) start x).1.size) (Emit.behind c V start x) := by
  cases x with
  | declare p name init =>
    rw [stmt, Array.size_append, size_one, ← Nat.add_assoc]
    exact hold.cons (Nat.le_add_right _ _)
  | _ => exact hold.mono (Nat.le_add_right _ _)

lemma Stacked.allBehind (hV : Stacked V) (xs : List Stmt) : Stacked (Emit.allBehind c V start xs) := by
  induction xs generalizing V start with
  | nil => exact hV
  | cons x xs ih => exact ih (hV.behind x)

lemma Before.allBehind (hold : Before start V) (xs : List Stmt) :
    Before (start + (stmts c (slotsOf V) start #[] xs).size) (Emit.allBehind c V start xs) := by
  induction xs generalizing V start with
  | nil => exact hold
  | cons x xs ih =>
    rw [stmts_cons, stmt_slots, Array.size_append, ← Nat.add_assoc, ← slotsOf_behind c V start x]
    exact ih (hold.behind x)

end Behind

lemma count_threads (hc : Compiler.Compiled known program) (hcontext : c = Compiler.context known) {V L : List Variable}
    {names : List String} (hs : (slotsOf V).Shows names) (hV : Stacked V) {start : Nat} (hold : Before start V)
    (inLoop : Bool) (q : Position) {name : String} (hn : name ≠ "") {first bound : Expr} (hfirst : first.Ready c names)
    (hbound : bound.Ready c (name :: names)) {body : List Stmt}
    (hbody : ∀ {U : List Variable} {start : Nat}, (slotsOf U).Shows (name :: names) → Stacked U → Before start U →
      Threads (within true U) start (stmts c (slotsOf U) start #[] body) (stmtsNotes c U start body) U
        (allBehind c U start body)) :
    Threads (within inLoop L) start (stmt c (slotsOf V) start (.count q name first bound body)).1
      (stmtNotes c V start (.count q name first bound body)) V V := by
  let firstEnd := start + (expr c (slotsOf V) start first).size
  let W := storedAt V name firstEnd :: V
  let boundEnd := firstEnd + 1 + (expr c (slotsOf W) (firstEnd + 1) bound).size
  let U := storedAt W "" boundEnd :: W
  have hW : Stacked W := hV.storedAt name firstEnd
  have hU : Stacked U := hW.storedAt "" boundEnd
  have holdV : Before firstEnd V := hold.mono (Nat.le_add_right _ _)
  have holdW : Before (firstEnd + 1) W := holdV.cons (Nat.le_refl _)
  have holdW' : Before boundEnd W := holdW.mono (Nat.le_add_right _ _)
  have holdU : Before (boundEnd + 1) U := holdW'.cons (Nat.le_refl _)
  have holdU' : Before (boundEnd + 1 + 4) U := holdU.mono (Nat.le_add_right _ _)
  have hfirst := expr_threads hc hcontext hs hV hold (within inLoop L) first hfirst
  have hcounter : Threads (within inLoop L) firstEnd _ _ V W := threads_first q hV holdV name
  have hsW : (slotsOf W).Shows (name :: names) := hs.declare hn
  have hbound := expr_threads hc hcontext hsW hW holdW (within inLoop L) bound hbound
  have hlast : Threads (within inLoop L) boundEnd _ _ W U := threads_first q hW holdW' ""
  have hsU : (slotsOf U).Shows (name :: names) := hsW.hide
  have hbody := hbody hsU hU holdU'
  have hround : Threads (within inLoop L) (boundEnd + 1) _ _ U U :=
    round_threads q hU holdU (suffix_allBehind c U _ body) V.length W.length
      (Nat.lt_succ_of_lt (Nat.lt_succ_self _)) (Nat.lt_succ_self _) hbody
  have hall := ((((hfirst.append hcounter rfl).append hbound (by simp [firstEnd]; omega)).append hlast
    (by simp [boundEnd, firstEnd]; omega)).append hround (by simp [boundEnd, firstEnd]; omega)).shrink
    ((List.suffix_cons _ V).trans (List.suffix_cons _ W))
  rw [stmt, stmtNotes]
  simp only [notes_append, Array.append_assoc, Array.size_append, size_one, ← Nat.add_assoc] at hall ⊢
  exact hall

mutual

lemma stmt_threads (hc : Compiler.Compiled known program) (hcontext : c = Compiler.context known) {V L : List Variable}
    {names : List String} (hs : (slotsOf V).Shows names) (hV : Stacked V) {start : Nat} (hold : Before start V)
    (inLoop : Bool) (hL : L <:+ V) (x : Stmt) (hx : x.Ready c inLoop names) :
    Threads (within inLoop L) start (stmt c (slotsOf V) start x).1 (stmtNotes c V start x) V (behind c V start x) := by
  cases x with
  | declare q name init =>
    exact (expr_threads hc hcontext hs hV hold _ init hx.2).append
      (threads_first q hV (hold.mono (Nat.le_add_right _ _)) name) rfl
  | assign q t value =>
    rw [stmtNotes]
    exact assign_threads hc hcontext hs hV hold _ q t value hx.1 hx.2
  | branch q cond body otherwise =>
    let first := start + (expr c (slotsOf V) start cond).size + 1
    have hfirst : start ≤ first := Nat.le_add_right_of_le (Nat.le_add_right start _)
    cases otherwise with
    | none =>
      have hcond := fun out => expr_threads hc hcontext hs hV hold out cond hx.1
      have hbody := stmts_threads hc hcontext hs hV (hold.mono hfirst) inLoop hL body hx.2
      rw [stmt, stmtNotes]
      exact branch_threads q hV hold (suffix_allBehind c V first body) hcond hbody
    | some otherwise =>
      let middle := first + (stmts c (slotsOf V) first #[] body).size + 1
      have hmiddle : start ≤ middle := Nat.le_add_right_of_le (Nat.le_add_right_of_le hfirst)
      have hcond := fun out => expr_threads hc hcontext hs hV hold out cond hx.1
      have hbody := stmts_threads hc hcontext hs hV (hold.mono hfirst) inLoop hL body hx.2.1
      have hother := stmts_threads hc hcontext hs hV (hold.mono hmiddle) inLoop hL otherwise hx.2.2
      rw [stmt, stmtNotes]
      exact branchElse_threads q hV hold (suffix_allBehind c V first body) (suffix_allBehind c V middle otherwise) hcond
        hbody hother
  | loop q cond body =>
    let first := start + (expr c (slotsOf V) start cond).size + 1
    have hfirst : start ≤ first := Nat.le_add_right_of_le (Nat.le_add_right start _)
    have hcond := fun out => expr_threads hc hcontext hs hV hold out cond hx.1
    have hbody := stmts_threads hc hcontext hs hV (hold.mono hfirst) true (List.suffix_refl V) body hx.2
    rw [stmt, stmtNotes]
    exact loop_threads q hV hold (suffix_allBehind c V first body) hcond hbody
  | count q name first bound body =>
    obtain ⟨hn, hfirst, hbound, hbody⟩ := hx
    exact count_threads hc hcontext hs hV hold inLoop q hn hfirst hbound fun hs hU hold =>
      stmts_threads hc hcontext hs hU hold true (List.suffix_refl _) body hbody
  | give q value =>
    have hret : ∀ {pc}, start ≤ pc → Threads (within inLoop L) pc (one .ret q) (notes V (one .ret q)) V V := fun hpc =>
      threads_jump _ _ q hV (hold.mono hpc) rfl rfl (by simp [Instr.targets, Instr.next])
    cases value with
    | none =>
      rw [stmt, stmtNotes, notes_append]
      have hnil : Threads (within inLoop L) start (one .nil q) (notes V (one .nil q)) V V :=
        threads_plain q hV hold (fun slot hs => nomatch hs) rfl
      exact hnil.append (hret (Nat.le_succ start)) rfl
    | some value =>
      rw [stmt, stmtNotes, notes_append]
      exact (expr_threads hc hcontext hs hV hold _ value hx).append (hret (Nat.le_add_right _ _)) rfl
  | leave q =>
    exact threads_single hV hold (fun slot hs => nomatch hs) fun t ht =>
      .inr ⟨hx, .inl (List.mem_singleton.mp ht), hL⟩
  | again q =>
    exact threads_single hV hold (fun slot hs => nomatch hs) fun t ht =>
      .inr ⟨hx, .inr (List.mem_singleton.mp ht), hL⟩
  | block q body =>
    exact (stmts_threads hc hcontext hs hV hold inLoop hL body hx).shrink (suffix_allBehind c V start body)
  | eval q value =>
    rw [stmt, stmtNotes, notes_append]
    exact (expr_threads hc hcontext hs hV hold _ value hx).append
      (threads_plain q hV (hold.mono (Nat.le_add_right _ _)) (fun slot hs => nomatch hs) rfl) rfl

lemma stmts_threads (hc : Compiler.Compiled known program) (hcontext : c = Compiler.context known) {V L : List Variable}
    {names : List String} (hs : (slotsOf V).Shows names) (hV : Stacked V) {start : Nat} (hold : Before start V)
    (inLoop : Bool) (hL : L <:+ V) (xs : List Stmt) (hx : Stmt.AllReady c inLoop names xs) :
    Threads (within inLoop L) start (stmts c (slotsOf V) start #[] xs) (stmtsNotes c V start xs) V
      (allBehind c V start xs) := by
  cases xs with
  | nil => exact .nil
  | cons x xs =>
    have hfirst := stmt_threads hc hcontext hs hV hold inLoop hL x hx.1
    have hshows : (slotsOf (behind c V start x)).Shows (x.names names) := slotsOf_behind c V start x ▸ x.shows hs hx.1
    have hrest := stmts_threads hc hcontext hshows (hV.behind x) (hold.behind x) inLoop
      (hL.trans (suffix_behind c V start x)) xs hx.2
    rw [stmts_cons, stmt_slots, ← slotsOf_behind c V start x]
    exact hfirst.append hrest rfl

end

section Function

variable {f : FunctionDecl} {P : List Variable}

lemma body_threads (hc : Compiler.Compiled known program) (hcontext : c = Compiler.context known) (hf : f.Ready c)
    (hP : P = paramVariables f.paramNames) :
    Threads (fun _ _ => False) 0 (body c f) (bodyNotes c f) P (allBehind c P 0 f.body) := by
  have hslots : slotsOf P = .ofParams f.paramNames := hP ▸ slotsOf_paramVariables _
  have hstacked : Stacked P := hP ▸ paramVariables_stacked _
  have hold : Before 0 P := by
    intro x hx pc hpc
    rw [paramVariables_first f.paramNames x (hP ▸ hx)] at hpc
    cases hpc
  have hs : (slotsOf P).Shows f.paramNames.reverse := hslots ▸ Slots.ofParams_shows hf.params hf.named
  have hstmts := stmts_threads hc hcontext hs hstacked hold false List.nil_suffix f.body hf.body
  have hlast : Stacked (allBehind c P 0 f.body) := hstacked.allBehind f.body
  have holdLast := hold.allBehind (c := c) f.body
  have hnil : Threads (fun _ _ => False) _ (one .nil f.place) (notes _ (one .nil f.place)) _ _ :=
    threads_plain f.place hlast holdLast (fun slot hs => nomatch hs) rfl
  have hret : Threads (fun _ _ => False) _ (one .ret f.place) (notes _ (one .ret f.place)) _ _ :=
    threads_jump _ _ f.place hlast (holdLast.mono (Nat.le_succ _)) rfl rfl (by simp [Instr.targets, Instr.next])
  have hall := ((hstmts.widen fun t U h => nomatch h.1).append hnil rfl).append hret (by simp)
  rw [body, bodyNotes, notes_append, ← Array.append_assoc, ← FunctionDecl.paramNames, ← hslots, ← hP]
  exact hall

end Function

end Compiled

structure Scoped (g : Function) (ns : Array Note) (P : List Variable) : Prop where
  size : ns.size = g.code.size
  start : ∃ n, ns[0]? = some n ∧ Comes 0 P n.scope
  fits : ∀ (pc : Nat) (i : Instr) (n : Note), g.code[pc]? = some i → ns[pc]? = some n → Fits pc ⟨.plain i, 0⟩ n
  next : ∀ (pc : Nat) (i : Instr) (n : Note), g.code[pc]? = some i → ns[pc]? = some n → ∀ pc' ∈ i.targets pc,
    ∃ n', ns[pc']? = some n' ∧ Comes pc' n.scope n'.scope

lemma Enters.inside {ns : Array Note} {V U : List Variable} {pc : Nat} (h : Enters 0 ns V pc U) (hpc : pc < ns.size) :
    ∃ n, ns[pc]? = some n ∧ Comes pc U n.scope := by
  rcases h with ⟨k, n, hk, hn, hcomes⟩ | ⟨hend, -⟩
  · obtain rfl : pc = k := hk.trans (Nat.zero_add k)
    exact ⟨n, hn, hcomes⟩
  · omega

theorem function_scoped {known : Catalog} {p : Program} (hc : Compiler.Compiled known p) {id : Nat} {d : Definition}
    (hd : known.definitions[id]? = some d) :
    Scoped (function (Compiler.context known) d) (bodyNotes (Compiler.context known) d.decl)
      (paramVariables d.decl.paramNames) := by
  have hready := hc.ready d (List.mem_of_getElem? hd)
  have hg : p.functions[id]? = some (function (Compiler.context known) d) := by rw [hc.getElem?, hd, Option.map_some]
  obtain ⟨H, hH⟩ := function_heights hc hg
  have hsettled := body_settled hc hready
  have hsize := function_code_size hsettled
  have h := body_threads hc rfl hready rfl
  have hline : ∀ (pc : Nat) (i : Instr), (function (Compiler.context known) d).code[pc]? = some i →
      ∃ n, (body (Compiler.context known) d.decl)[pc]? = some ⟨.plain i, n⟩ := by
    intro pc i hi
    rw [function_code hsettled] at hi
    obtain ⟨⟨op, line⟩, hl, hop⟩ := Option.bind_eq_some_iff.mp hi
    cases op with
    | plain j => exact ⟨line, hl.trans (by rw [Option.some.inj hop])⟩
    | leave | again => cases hop
  have hinside : ∀ {pc : Nat}, pc < (function (Compiler.context known) d).code.size →
      pc < (bodyNotes (Compiler.context known) d.decl).size := fun hpc => by rwa [h.size, ← hsize]
  refine ⟨h.size.trans hsize.symm, h.enter.inside (hinside hH.nonempty), fun pc i n hi hn => ?_,
    fun pc i n hi hn pc' hpc' => ?_⟩
  · obtain ⟨line, hl⟩ := hline pc i hi
    obtain ⟨hstacked, hsubject, hfirst⟩ := h.fits pc _ n hl hn
    rw [Nat.zero_add] at hfirst
    exact ⟨hstacked, hsubject, hfirst⟩
  · obtain ⟨line, hl⟩ := hline pc i hi
    have hat : .at pc' ∈ (Op.plain i).targets (0 + pc) := by
      rw [Nat.zero_add]
      exact List.mem_map_of_mem hpc'
    obtain ⟨q, hq, henters⟩ := (h.next pc _ n hl hn _ hat).resolve_right not_false
    cases hq
    rw [← i.map_next pc (H pc)] at hpc'
    obtain ⟨s, hs, rfl⟩ := List.mem_map.mp hpc'
    exact henters.inside (hinside (hH.next pc i hi s hs).1)

end ScriptHost.Emit
