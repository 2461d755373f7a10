import ScriptHost.Proofs.Compile.Levels

/-!
Where control goes in generated code. Some addresses of code are live: its start is, and so is all that a live line goes
on to. What code is live is told part by part, and the part behind one that control never falls out of is not.
-/

namespace ScriptHost.Emit

namespace Op

def targets (pc : Nat) : Op → List Spot
  | plain i => (i.targets pc).map .at
  | leave => [.exit]
  | again => [.round]

lemma map_next (o : Op) (pc k : Nat) : (o.next pc k).map Prod.fst = o.targets pc := by
  cases o with
  | plain i =>
    rw [next, targets, ← i.map_next pc k, List.map_map, List.map_map]
    rfl
  | leave | again => rfl

end Op

/-- `live` holds of the start of code laid out from `start` and of all that a live line goes on to, if that is not
elsewhere, where `out` allows it. Control comes to the end only if `falls`. -/
structure Flows (out : Spot → Prop) (start : Nat) (code : Code) (falls : Prop) (live : Nat → Prop) : Prop where
  first : live start
  last : live (start + code.size) → falls
  next : ∀ (k : Nat) (l : Line), code[k]? = some l → live (start + k) → ∀ t ∈ l.op.targets (start + k),
    (∃ pc, t = .at pc ∧ start ≤ pc ∧ pc ≤ start + code.size ∧ live pc) ∨ out t

/-- Code in which control comes only to addresses that satisfy `S`. -/
def Flow (out : Spot → Prop) (start : Nat) (code : Code) (falls : Prop) (S : Nat → Prop) : Prop :=
  ∃ live, Flows out start code falls live ∧ ∀ pc, start ≤ pc → pc < start + code.size → live pc → S pc

/-- What `out` allows, or the address `pc` if `P`. -/
def OrTo (out : Spot → Prop) (pc : Nat) (P : Prop) (t : Spot) : Prop :=
  out t ∨ t = .at pc ∧ P

section Flow

variable {out out' : Spot → Prop} {start : Nat} {code code' : Code} {falls falls' P : Prop} {S S' : Nat → Prop}

lemma Flow.mono (h : Flow out start code falls S) (ho : ∀ t, out t → out' t) (hf : falls → falls')
    (hS : ∀ pc, start ≤ pc → pc < start + code.size → S pc → S' pc) : Flow out' start code falls' S' := by
  obtain ⟨live, h, hlive⟩ := h
  exact ⟨live, ⟨h.first, fun hend => hf (h.last hend), fun k l hl hk t ht => (h.next k l hl hk t ht).imp_right (ho t)⟩,
    fun pc hlo hhi hpc => hS pc hlo hhi (hlive pc hlo hhi hpc)⟩

lemma Flow.widen (h : Flow out start code falls S) (ho : ∀ t, out t → out' t) : Flow out' start code falls S :=
  h.mono ho id fun _ _ _ => id

lemma Flow.weaken (h : Flow out start code falls S) (hf : falls → falls') : Flow out start code falls' S :=
  h.mono (fun _ => id) hf fun _ _ _ => id

lemma Flow.imp (h : Flow out start code falls S) (hS : ∀ pc, start ≤ pc → pc < start + code.size → S pc → S' pc) :
    Flow out start code falls S' :=
  h.mono (fun _ => id) id hS

lemma Flow.nil (hf : falls) : Flow out start #[] falls S :=
  ⟨fun _ => True, ⟨trivial, fun _ => hf, by simp⟩, fun pc hlo hhi _ => absurd hhi (Nat.not_lt.mpr hlo)⟩

lemma Flow.closeFirst (h : Flow (OrTo out start True) start code falls S) : Flow out start code falls S := by
  obtain ⟨live, h, hlive⟩ := h
  refine ⟨live, ⟨h.first, h.last, fun k l hl hk t ht => ?_⟩, hlive⟩
  rcases h.next k l hl hk t ht with hin | hout | ⟨hat, -⟩
  · exact .inl hin
  · exact .inr hout
  · exact .inl ⟨start, hat, Nat.le_refl _, Nat.le_add_right _ _, h.first⟩

lemma Flow.closeLast (pc : Nat) (h : Flow (OrTo out pc P) start code falls S) (hpc : pc = start + code.size) :
    Flow out start code (falls ∨ P) S := by
  obtain ⟨live, h, hlive⟩ := h
  refine ⟨fun q => live q ∨ q = pc ∧ P, ⟨.inl h.first, ?_, fun k l hl hk t ht => ?_⟩, fun q hlo hhi hq => ?_⟩
  · exact fun hend => hend.imp h.last And.right
  · have hlt := (Array.getElem?_eq_some_iff.mp hl).1
    rcases h.next k l hl (hk.resolve_right fun hend => by omega) t ht with ⟨q, hat, hlo, hhi, hq⟩ | hout | ⟨hat, hP⟩
    · exact .inl ⟨q, hat, hlo, hhi, .inl hq⟩
    · exact .inr hout
    · exact .inl ⟨pc, hat, by omega, by omega, .inr ⟨rfl, hP⟩⟩
  · exact hlive q hlo hhi (hq.resolve_right fun hend => by omega)

lemma Flow.append {mid : Nat} (h : Flow out start code falls S) (h' : falls → Flow out mid code' falls' S)
    (hmid : mid = start + code.size) : Flow out start (code ++ code') (falls ∧ falls') S := by
  subst hmid
  obtain ⟨live, h, hlive⟩ := h
  have hsecond : ∃ live', ∀ hf : falls, Flows out (start + code.size) code' falls' live' ∧
      ∀ pc, start + code.size ≤ pc → pc < start + code.size + code'.size → live' pc → S pc := by
    by_cases hf : falls
    · obtain ⟨live', h'⟩ := h' hf
      exact ⟨live', fun _ => h'⟩
    · exact ⟨fun _ => True, fun hf' => absurd hf' hf⟩
  obtain ⟨live', h'⟩ := hsecond
  let both : Nat → Prop := fun pc => if pc < start + code.size then live pc else falls ∧ live' pc
  have hfirst : ∀ pc, pc < start + code.size → (both pc ↔ live pc) := fun pc hpc => by simp [both, hpc]
  have hlast : ∀ pc, start + code.size ≤ pc → (both pc ↔ falls ∧ live' pc) := fun pc hpc => by
    simp [both, Nat.not_lt.mpr hpc]
  -- In between, the first part is left and the second one begun.
  have hmid : ∀ pc, pc ≤ start + code.size → live pc → both pc := by
    intro pc hpc hl
    rcases Nat.lt_or_eq_of_le hpc with hlt | rfl
    · exact (hfirst pc hlt).mpr hl
    · have hf := h.last hl
      exact (hlast _ (Nat.le_refl _)).mpr ⟨hf, (h' hf).1.first⟩
  have hsize : start + (code ++ code').size = start + code.size + code'.size := by simp; omega
  refine ⟨both, ⟨hmid start (Nat.le_add_right _ _) h.first, fun hend => ?_, fun k l hl hk t ht => ?_⟩,
    fun pc hlo hhi hpc => ?_⟩
  · rw [hsize] at hend
    obtain ⟨hf, hl⟩ := (hlast _ (by omega)).mp hend
    exact ⟨hf, (h' hf).1.last hl⟩
  · rw [hsize]
    rw [Array.getElem?_append] at hl
    split at hl
    · next hlt =>
      rw [hfirst _ (by omega)] at hk
      rcases h.next k l hl hk t ht with ⟨pc, hat, hlo, hhi, hpc⟩ | hout
      · exact .inl ⟨pc, hat, hlo, by omega, hmid pc hhi hpc⟩
      · exact .inr hout
    · next hge =>
      obtain ⟨hf, hk⟩ := (hlast _ (by omega)).mp hk
      rw [show start + k = start + code.size + (k - code.size) by omega] at hk ht
      rcases (h' hf).1.next _ l hl hk t ht with ⟨pc, hat, hlo, hhi, hpc⟩ | hout
      · exact .inl ⟨pc, hat, by omega, hhi, (hlast pc hlo).mpr ⟨hf, hpc⟩⟩
      · exact .inr hout
  · rw [hsize] at hhi
    by_cases hlt : pc < start + code.size
    · exact hlive pc hlo hlt ((hfirst pc hlt).mp hpc)
    · obtain ⟨hf, hl⟩ := (hlast pc (Nat.not_lt.mp hlt)).mp hpc
      exact (h' hf).2 pc (Nat.not_lt.mp hlt) hhi hl

lemma Flow.andThen {mid : Nat} (h : Flow out start code True S) (h' : Flow out mid code' falls S)
    (hmid : mid = start + code.size) : Flow out start (code ++ code') falls S :=
  (Flow.append h (fun _ => h') hmid).weaken And.right

lemma Flow.single {o : Op} {n : Nat} (hS : S start)
    (hn : ∀ t ∈ o.targets start, t = .at (start + 1) ∧ falls ∨ out t) : Flow out start #[⟨o, n⟩] falls S := by
  refine ⟨fun pc => pc = start ∨ pc = start + 1 ∧ falls, ⟨.inl rfl, ?_, fun k l hl _ t ht => ?_⟩,
    fun pc hlo hhi _ => ?_⟩
  · rintro (hend | ⟨-, hf⟩)
    · simp at hend
    · exact hf
  · obtain ⟨hk, rfl⟩ := Array.getElem?_eq_some_iff.mp hl
    obtain rfl : k = 0 := Nat.lt_one_iff.mp hk
    rcases hn t ht with ⟨rfl, hf⟩ | hout
    · exact .inl ⟨start + 1, rfl, Nat.le_succ _, Nat.le_refl _, .inr ⟨rfl, hf⟩⟩
    · exact .inr hout
  · obtain rfl : pc = start := by
      simp at hhi
      omega
    exact hS

lemma Flow.plain {i : Instr} (p : Position) (hS : S start) (hi : i.targets start = [start + 1]) :
    Flow out start (one i p) True S := by
  refine .single hS fun t ht => .inl ⟨?_, trivial⟩
  rw [Op.targets, hi] at ht
  exact List.mem_singleton.mp ht

lemma Flow.jump {i : Instr} (p : Position) (hS : S start)
    (hi : ∀ pc ∈ i.targets start, pc = start + 1 ∧ falls ∨ out (.at pc)) : Flow out start (one i p) falls S := by
  refine .single hS fun t ht => ?_
  obtain ⟨pc, hpc, rfl⟩ := List.mem_map.mp ht
  exact (hi pc hpc).imp_left fun h => ⟨congrArg Spot.at h.1, h.2⟩

lemma Flow.settle {exit round : Nat} (h : Flow out start code falls S) (ho : ∀ t, out t → out' (t.settle exit round)) :
    Flow out' start (code.map (Line.settle exit round)) falls S := by
  obtain ⟨live, h, hlive⟩ := h
  have hsize : (code.map (Line.settle exit round)).size = code.size := Array.size_map
  refine ⟨live, ⟨h.first, by rw [hsize]; exact h.last, fun k l' hl' hk t ht => ?_⟩, by rw [hsize]; exact hlive⟩
  rw [Array.getElem?_map] at hl'
  obtain ⟨⟨op, line⟩, hl, rfl⟩ := Option.map_eq_some_iff.mp hl'
  have hn := h.next k _ hl hk
  rw [hsize]
  cases op with
  | plain i =>
    obtain ⟨pc, -, rfl⟩ := List.mem_map.mp ht
    exact (hn _ ht).imp_right (ho _)
  | leave =>
    obtain rfl := List.mem_singleton.mp ht
    rcases hn _ List.mem_cons_self with ⟨pc, hat, -⟩ | hout
    · cases hat
    · exact .inr (ho _ hout)
  | again =>
    obtain rfl := List.mem_singleton.mp ht
    rcases hn _ List.mem_cons_self with ⟨pc, hat, -⟩ | hout
    · cases hat
    · exact .inr (ho _ hout)

lemma Level.flow {R : Instr → Prop} {k k' : Nat} (h : Level R (fun _ _ => False) start code k k')
    (hS : ∀ pc, start ≤ pc → pc < start + code.size → S pc) : Flow out start code True S := by
  obtain ⟨H, h⟩ := h
  refine ⟨fun _ => True, ⟨trivial, fun _ => trivial, fun j l hl _ t ht => .inl ?_⟩, fun pc hlo hhi _ => hS pc hlo hhi⟩
  rw [← l.op.map_next _ (H (start + j))] at ht
  obtain ⟨s, hs, rfl⟩ := List.mem_map.mp ht
  obtain ⟨pc, hat, hlo, hhi, -⟩ := (h.next j l hl s hs).resolve_right id
  exact ⟨pc, hat, hlo, hhi, trivial⟩

lemma Flow.ends (h : Flow out start code falls S) (ho : ∀ pc, ¬ out (.at pc)) :
    Flow out start code falls fun pc => S pc ∧ (¬ falls → ∀ k l, pc = start + k → code[k]? = some l →
      .at (start + code.size) ∉ l.op.targets pc) := by
  obtain ⟨live, h, hlive⟩ := h
  refine ⟨live, h, fun pc hlo hhi hpc => ⟨hlive pc hlo hhi hpc, ?_⟩⟩
  rintro hf k l rfl hl hend
  rcases h.next k l hl hpc _ hend with ⟨pc, hat, -, -, hend⟩ | hout
  · cases hat
    exact hf (h.last hend)
  · exact ho _ hout

end Flow

end ScriptHost.Emit
