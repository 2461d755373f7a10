import ScriptHost.Proofs.Machine.Safety
import ScriptHost.Proofs.Machine.Trails

/-!
Where runs come to. A run comes to no address of a function that its code does not come to, neither in the innermost
call nor in one that waits for another.
-/

namespace ScriptHost.Machine

lemma call_begins {h : Host} {s : State} {id : Nat} {args : List Value} {limit : Nat}
    (hc : call h id args (.start limit) = .ok () s) :
    ∃ g ds, h.program.functions[id]? = some g ∧ ds.length = args.length ∧ s.frames = [frameOf g id ds] := by
  have hcall : Yields (call h id args) (.start limit) (fun _ t => ∃ g ds, h.program.functions[id]? = some g ∧
      ds.length = args.length ∧ t.frames = [frameOf g id ds]) fun _ _ => True := by
    rw [call, yields_bind]
    refine Yields.mono (takeInAll_tame h (.start limit) #[] args) ?_ fun _ _ _ => trivial
    rintro ds u ⟨hst, hds⟩
    obtain ⟨-, -, hsize⟩ := hds (fun items hi => (Array.not_mem_empty _ hi).elim) (by simp)
    rw [yields_bind]
    refine enter_frames (Q := fun frames => ∃ g ds, h.program.functions[id]? = some g ∧ ds.length = args.length ∧
      frames = [frameOf g id ds]) fun g hg => ⟨g, ds.toList, hg, by simpa using hsize, ?_⟩
    rw [hst.frames]
    rfl
  exact hcall.ok hc

def InReach (h : Host) (frames : List Frame) : Prop :=
  ∀ f ∈ frames, ∀ g, h.program.functions[f.function]? = some g → ∃ k, g.Reaches f.pc k

namespace InReach

variable {h : Host} {s t : State}

lemma enter {frames : List Frame} (hr : InReach h frames) {f : Frame} (hf : f.pc = 0) : InReach h (f :: frames) := by
  refine List.forall_mem_cons.mpr ⟨fun g _ => ⟨0, ?_⟩, hr⟩
  rw [hf]
  exact .start

lemma moves {f : Frame} {rest : List Frame} (hr : InReach h (f :: rest)) {g : Function} {i : Instr}
    (hg : h.program.functions[f.function]? = some g) (hi : g.code[f.pc]? = some i) {pc : Nat}
    (hpc : pc ∈ i.targets f.pc) (locals : Array Datum) (ops : List Datum) :
    InReach h (⟨f.function, pc, locals, ops⟩ :: rest) := by
  obtain ⟨hf, hrest⟩ : _ ∧ InReach h rest := List.forall_mem_cons.mp hr
  obtain ⟨k, hk⟩ := hf g hg
  refine List.forall_mem_cons.mpr ⟨fun g' hg' => ?_, hrest⟩
  obtain rfl : g' = g := Option.some.inj (hg'.symm.trans hg)
  rw [← i.map_next f.pc k] at hpc
  obtain ⟨⟨_, k'⟩, hnext, rfl⟩ := List.mem_map.mp hpc
  exact ⟨k', hk.step hi hnext⟩

lemma step (hr : InReach h s.frames) (hs : step h s = .ok none t) : InReach h t.frames := by
  obtain ⟨f, rest, g, i, hframes, hg, hi, hgoes⟩ := step_goes hs
  rw [hframes] at hr
  generalize t.frames = frames at hgoes
  cases hgoes with
  | stays pc ops _ hpc => exact moves hr hg hi hpc _ ops
  | stores slot pc d ops _ _ _ hpc => exact moves hr hg hi hpc _ ops
  | calls id pc callee args ops _ _ _ hpc => exact enter (moves hr hg hi hpc _ ops) rfl
  | returns caller below ops hbelow =>
    subst hbelow
    exact List.forall_mem_cons.mpr (List.forall_mem_cons.mp (List.forall_mem_cons.mp hr).2)

lemma advance {steps : Nat} (hr : InReach h s.frames) (ha : advance h steps s = .ok none t) : InReach h t.frames := by
  obtain ⟨trail, htrail⟩ := exists_trail ha
  clear ha
  induction htrail with
  | refl => exact hr
  | step hs _ ih => exact ih (hr.step hs)

lemma call {id : Nat} {args : List Value} {limit : Nat} (hc : call h id args (.start limit) = .ok () t) :
    InReach h t.frames := by
  obtain ⟨g, ds, -, -, hframes⟩ := call_begins hc
  have hnone : InReach h [] := fun _ hf => (List.not_mem_nil hf).elim
  exact hframes ▸ hnone.enter rfl

end InReach

end ScriptHost.Machine
