import ScriptHost.Proofs.Compile.Metered
import ScriptHost.Proofs.Compile.OnePass
import ScriptHost.Proofs.Machine.Yields

/-!
Drafts on the way to the code of a function. Writing goes as far as there is room for instructions and variables, and
writes what is laid out for the tree: each jump ahead waits at its address until it is given its target.
-/

namespace ScriptHost

namespace Instr

lemma destination?_aimedAt? {i j : Instr} {target : Nat} (h : i.aimedAt? target = some j) :
    j.destination? = some target := by
  cases i with
  | jump | jumpIfFalse | jumpKeep =>
    cases h
    rfl
  | _ => cases h

end Instr

namespace Emit

def Line.held (l : Line) : Instr :=
  match l.op with
  | .plain i => i
  | _ => .jump 0

def Line.aim (target : Nat) (l : Line) : Line :=
  (l.held.aimedAt? target).elim l fun i => ⟨.plain i, l.line⟩

def Line.toward (o : Op) (target : Nat) (l : Line) : Line :=
  if l.op = o then l.aim target else l

def places (o : Op) (code : Code) : List Nat :=
  (List.range code.size).filter fun k => code[k]?.map Line.op = some o

def spots (o : Op) (start : Nat) (code : Code) : List Nat :=
  (places o code).map (start + ·)

section Code

variable {o : Op} {start target : Nat} {code code' : Code}

lemma settled_one (i : Instr) (p : Position) : Settled (one i p) :=
  fun l hl => by rw [Array.mem_singleton.mp hl]; rfl

lemma settled_append (h : Settled code) (h' : Settled code') : Settled (code ++ code') :=
  fun l hl => (Array.mem_append.mp hl).elim (h l) (h' l)

lemma settled_settle (exit round : Nat) (code : Code) : Settled (code.map (Line.settle exit round)) := by
  intro l hl
  obtain ⟨⟨op, n⟩, -, rfl⟩ := Array.mem_map.mp hl
  cases op <;> rfl

@[simp] lemma map_toward_one (i : Instr) (p : Position) (ho : ∀ j, o ≠ .plain j) :
    (one i p).map (Line.toward o target) = one i p := by
  rw [one, List.map_toArray, List.map_cons, List.map_nil, Line.toward, if_neg fun h => ho i h.symm]

lemma map_toward_settled (ho : ∀ j, o ≠ .plain j) (h : Settled code) : code.map (Line.toward o target) = code := by
  have hline : ∀ l ∈ code, l.toward o target = l := by
    intro l hl
    have hsettled := h l hl
    obtain ⟨op, n⟩ := l
    cases op with
    | plain i => exact if_neg fun heq => ho i heq.symm
    | leave | again => cases hsettled
  exact (Array.map_congr_left hline).trans (Array.map_id' code)

lemma map_toward_toward (exit round : Nat) (code : Code) :
    (code.map (Line.toward .again round)).map (Line.toward .leave exit) = code.map (Line.settle exit round) := by
  rw [Array.map_map]
  refine Array.map_congr_left fun l _ => ?_
  obtain ⟨op, n⟩ := l
  cases op <;> rfl

lemma mem_places {k : Nat} : k ∈ places o code ↔ ∃ n, code[k]? = some ⟨o, n⟩ := by
  rw [places, List.mem_filter, List.mem_range, decide_eq_true_eq]
  constructor
  · rintro ⟨-, hk⟩
    obtain ⟨⟨op, n⟩, hl, rfl⟩ := Option.map_eq_some_iff.mp hk
    exact ⟨n, hl⟩
  · rintro ⟨n, hl⟩
    exact ⟨(Array.getElem?_eq_some_iff.mp hl).1, by rw [hl, Option.map_some]⟩

lemma places_nodup (o : Op) (code : Code) : (places o code).Nodup :=
  List.nodup_range.filter _

lemma mem_spots {pc : Nat} : pc ∈ spots o start code ↔ ∃ k n, pc = start + k ∧ code[k]? = some ⟨o, n⟩ := by
  rw [spots, List.mem_map]
  constructor
  · rintro ⟨k, hk, rfl⟩
    obtain ⟨n, hl⟩ := mem_places.mp hk
    exact ⟨k, n, rfl, hl⟩
  · rintro ⟨k, n, rfl, hl⟩
    exact ⟨k, mem_places.mpr ⟨n, hl⟩, rfl⟩

lemma spots_settled (ho : ∀ j, o ≠ .plain j) (h : Settled code) : spots o start code = [] := by
  refine List.eq_nil_iff_forall_not_mem.mpr fun pc hpc => ?_
  obtain ⟨k, n, -, hl⟩ := mem_spots.mp hpc
  have hsettled := h _ (Array.mem_of_getElem? hl)
  cases o with
  | plain i => exact ho i rfl
  | leave | again => cases hsettled

lemma spots_append (o : Op) (start : Nat) (code code' : Code) :
    spots o start (code ++ code') = spots o start code ++ spots o (start + code.size) code' := by
  have hleft : (List.range code.size).filter (fun k => (code ++ code')[k]?.map Line.op = some o) =
      (List.range code.size).filter fun k => code[k]?.map Line.op = some o :=
    List.filter_congr fun k hk => by rw [Array.getElem?_append_left (List.mem_range.mp hk)]
  have hright : (fun k => decide ((code ++ code')[code.size + k]?.map Line.op = some o)) =
      fun k => decide (code'[k]?.map Line.op = some o) := by
    funext k
    rw [Array.getElem?_append_right (Nat.le_add_right _ _), Nat.add_sub_cancel_left]
  rw [spots, places, Array.size_append, List.range_add, List.filter_append, hleft, List.filter_map, Function.comp_def,
    hright, List.map_append, List.map_map, spots, spots]
  simp only [places, Function.comp_def, Nat.add_assoc]

@[simp] lemma spots_one (i : Instr) (p : Position) (ho : ∀ j, o ≠ .plain j) : spots o start (one i p) = [] :=
  spots_settled ho (settled_one i p)

lemma spots_toward {o' : Op} (ho : ∀ j, o' ≠ .plain j) (hne : o' ≠ o) :
    spots o' start (code.map (Line.toward o target)) = spots o' start code := by
  have hop : ∀ l : Line, (l.toward o target).op = o' ↔ l.op = o' := by
    intro l
    rw [Line.toward]
    split
    · next heq =>
      rw [Line.aim]
      cases l.held.aimedAt? target with
      | none => rfl
      | some i => exact ⟨fun h => absurd h.symm (ho i), fun h => absurd (h.symm.trans heq) hne⟩
    · rfl
  rw [spots, spots, places, places, Array.size_map]
  congr 1
  refine List.filter_congr fun k _ => decide_eq_decide.mpr ?_
  rw [Array.getElem?_map, Option.map_map]
  cases code[k]? with
  | none => rfl
  | some l => exact Option.some_inj.trans ((hop l).trans Option.some_inj.symm)

lemma getElem?_foldl_modify {α : Type} (f : α → α) (ks : List Nat) (hks : ks.Nodup) (xs : Array α) (j : Nat) :
    (ks.foldl (fun xs k => xs.modify k f) xs)[j]? = if j ∈ ks then xs[j]?.map f else xs[j]? := by
  induction ks generalizing xs with
  | nil => rfl
  | cons k ks ih =>
    obtain ⟨hk, hks⟩ := List.nodup_cons.mp hks
    rw [List.foldl_cons, ih hks, Array.getElem?_modify]
    by_cases hj : k = j
    · subst hj
      simp [hk]
    · simp [hj, Ne.symm hj]

lemma modify_middle {α : Type} (f : α → α) (xs ys : Array α) (x : α) :
    (xs ++ #[x] ++ ys).modify xs.size f = xs ++ #[f x] ++ ys := by
  refine Array.ext_getElem? fun j => ?_
  grind

lemma foldl_aim (o : Op) (target : Nat) (code : Code) :
    (places o code).foldl (fun code k => code.modify k (Line.aim target)) code = code.map (Line.toward o target) := by
  refine Array.ext_getElem? fun j => ?_
  rw [getElem?_foldl_modify _ _ (places_nodup o code), Array.getElem?_map]
  cases hl : code[j]? with
  | none => exact ite_self _
  | some l =>
    have hj : j ∈ places o code ↔ l.op = o := by
      rw [mem_places, hl]
      exact ⟨fun ⟨n, hn⟩ => by cases hn; rfl, fun h => ⟨l.line, by rw [← h]⟩⟩
    rw [Option.map_some, Option.map_some, Line.toward]
    by_cases hop : l.op = o
    · rw [if_pos (hj.mpr hop), if_pos hop]
    · rw [if_neg (fun h => hop (hj.mp h)), if_neg hop]

end Code

end Emit

namespace OnePass

open Emit (Code Note Op Stacked Variable note notes one slotsOf spots)

namespace Draft

def usage (d : Draft) : Usage :=
  ⟨d.code.size, d.most⟩

structure Sound (floor : Nat) (d : Draft) : Prop where
  stacked : Stacked d.visible
  next : d.next = d.visible.length
  most : d.next ≤ d.most
  floor : floor ≤ d.most
  used : ∀ i ∈ d.code, ∀ slot, (Op.plain i).slot? = some slot → slot < d.most
  lines : d.lines.size = d.code.size
  notes : d.notes.size = d.code.size
  awaited : d.awaited.Pairwise (· > ·)
  awaitedIn : ∀ pc ∈ d.awaited, pc < d.code.size
  givenIn : ∀ e ∈ d.given, e.1 < d.code.size

structure Extends (d d' : Draft) (code : Code) (ns : Array Note) (waiting : List Nat) : Prop where
  instrs : d'.code = d.code ++ code.map Emit.Line.held
  places : d'.lines = d.lines ++ code.map Emit.Line.line
  noted : d'.notes = d.notes ++ ns
  balance : ∀ pc, d'.awaited.count pc + (d.given.map Prod.fst).count pc =
    d.awaited.count pc + (d'.given.map Prod.fst).count pc + waiting.count pc
  final : ∀ e ∈ d'.given, e ∈ d.given ∨ ∃ k n i, e.1 = d.code.size + k ∧ code[k]? = some ⟨.plain i, n⟩ ∧
    i.destination? = some e.2

structure Grows (d d' : Draft) (code : Code) (ns : Array Note) (waiting : List Nat) (V : List Variable)
    (loops : List Exits) : Prop extends Extends d d' code ns waiting where
  outer : d'.scopes.tail = d.scopes.tail
  opened : d'.scopes.isEmpty = d.scopes.isEmpty
  visible : d'.visible = V
  loops : d'.loops = loops

structure EndsAt (d : Draft) (start : Nat) (V : List Variable) (loops : List Exits) : Prop where
  size : d.code.size = start
  visible : d.visible = V
  loops : d.loops = loops
  opened : d.scopes.isEmpty = false

section Extends

variable {d d₁ d₂ : Draft} {code code' : Code} {ns ns' : Array Note} {waiting waiting' : List Nat}

lemma Extends.size (h : Extends d d₁ code ns waiting) : d₁.code.size = d.code.size + code.size := by
  rw [h.instrs, Array.size_append, Array.size_map]

lemma Extends.refl (d : Draft) : Extends d d #[] #[] [] :=
  ⟨by simp, by simp, by simp, fun pc => by simp, fun e he => .inl he⟩

lemma Extends.trans (h : Extends d d₁ code ns waiting) (h' : Extends d₁ d₂ code' ns' waiting') :
    Extends d d₂ (code ++ code') (ns ++ ns') (waiting ++ waiting') where
  instrs := by rw [h'.instrs, h.instrs, Array.map_append, Array.append_assoc]
  places := by rw [h'.places, h.places, Array.map_append, Array.append_assoc]
  noted := by rw [h'.noted, h.noted, Array.append_assoc]
  balance pc := by
    have hpc := h.balance pc
    have hpc' := h'.balance pc
    rw [List.count_append]
    omega
  final e he := by
    rcases h'.final e he with he | ⟨k, n, i, hk, hi, ht⟩
    · rcases h.final e he with he | ⟨k, n, i, hk, hi, ht⟩
      · exact .inl he
      · refine .inr ⟨k, n, i, hk, ?_, ht⟩
        rw [Array.getElem?_append_left (Array.getElem?_eq_some_iff.mp hi).1, hi]
    · refine .inr ⟨code.size + k, n, i, by rw [hk, h.size]; omega, ?_, ht⟩
      rw [Array.getElem?_append_right (Nat.le_add_right _ _), Nat.add_sub_cancel_left, hi]

lemma count_cons_eq (k : Nat) (ks : List Nat) (pc : Nat) : (k :: ks).count pc = [k].count pc + ks.count pc := by
  rw [← List.singleton_append, List.count_append]

lemma Extends.not_given {floor pc : Nat} (h : Extends d d₁ code ns waiting) (hd : d.Sound floor) (hd₁ : d₁.Sound floor)
    (hpc : pc ∈ waiting) (hle : d.code.size ≤ pc) : ∀ e ∈ d₁.given, e.1 ≠ pc := by
  intro e he heq
  have hbefore : (d.given.map Prod.fst).count pc = 0 := by
    refine List.count_eq_zero.mpr fun hm => ?_
    obtain ⟨e, he, rfl⟩ := List.mem_map.mp hm
    exact absurd (hd.givenIn e he) (Nat.not_lt.mpr hle)
  have honce : d₁.awaited.count pc ≤ 1 := List.nodup_iff_count_le_one.mp (hd₁.awaited.imp Nat.ne_of_gt) pc
  have hwaits := List.count_pos_iff.mpr hpc
  have hgiven : 0 < (d₁.given.map Prod.fst).count pc := List.count_pos_iff.mpr (heq ▸ List.mem_map_of_mem he)
  have hbalance := h.balance pc
  omega

lemma Extends.aim {k target : Nat} {l : Emit.Line} {i : Instr} (h : Extends d d₁ code ns waiting)
    (hl : code[k]? = some l) (hi : l.held.aimedAt? target = some i) (hnew : ∀ e ∈ d₁.given, e.1 ≠ d.code.size + k)
    (hw : waiting.Perm ((d.code.size + k) :: waiting')) :
    Extends d (d₁.aim (d.code.size + k) target i) (code.modify k (Emit.Line.aim target)) ns waiting' := by
  have hk := (Array.getElem?_eq_some_iff.mp hl).1
  have haim : l.aim target = ⟨.plain i, l.line⟩ := by rw [Emit.Line.aim, hi, Option.elim_some]
  have hline : ∀ j : Nat, (code.modify k (Emit.Line.aim target))[j]? =
      if k = j then some ⟨.plain i, l.line⟩ else code[j]? := by
    intro j
    rw [Array.getElem?_modify]
    split
    · next heq => rw [← heq, hl, Option.map_some, haim]
    · rfl
  refine ⟨?_, ?_, h.noted, fun pc => ?_, fun e he => ?_⟩
  · refine Array.ext_getElem? fun j => ?_
    rw [Draft.aim, h.instrs]
    dsimp only
    rw [Array.getElem?_setIfInBounds, Array.size_append, Array.size_map]
    by_cases hj : d.code.size + k = j
    · subst hj
      rw [if_pos rfl, if_pos (by omega), Array.getElem?_append_right (Nat.le_add_right _ _), Nat.add_sub_cancel_left,
        Array.getElem?_map, hline, if_pos rfl]
      rfl
    · rw [if_neg hj, Array.getElem?_append, Array.getElem?_append, Array.getElem?_map, Array.getElem?_map, hline]
      split
      · rfl
      · rw [if_neg (by omega)]
  · refine h.places.trans (congrArg (d.lines ++ ·) (Array.ext_getElem? fun j => ?_))
    rw [Array.getElem?_map, Array.getElem?_map, hline]
    split
    · next heq => rw [← heq, hl]; rfl
    · rfl
  · have hbalance := h.balance pc
    have hpc : waiting.count pc = [d.code.size + k].count pc + waiting'.count pc :=
      (hw.count_eq pc).trans (count_cons_eq _ _ pc)
    have hgiven : (((d.code.size + k, target) :: d₁.given).map Prod.fst).count pc =
        [d.code.size + k].count pc + (d₁.given.map Prod.fst).count pc := count_cons_eq _ _ pc
    change d₁.awaited.count pc + _ = _ + (((d.code.size + k, target) :: d₁.given).map Prod.fst).count pc + _
    rw [hgiven]
    omega
  · rcases List.mem_cons.mp he with rfl | he
    · exact .inr ⟨k, l.line, i, rfl, by rw [hline, if_pos rfl], Instr.destination?_aimedAt? hi⟩
    · refine (h.final e he).imp_right fun ⟨j, n, i', hj, hi', ht⟩ => ⟨j, n, i', hj, ?_, ht⟩
      rw [hline, if_neg (fun heq : k = j => hnew e he (by rw [hj, heq])), hi']

end Extends

section Grows

variable {d d₁ d₂ : Draft} {code code' : Code} {ns ns' : Array Note} {waiting waiting' : List Nat}
  {V V' : List Variable} {loops loops' : List Exits}

lemma Grows.refl (d : Draft) : Grows d d #[] #[] [] d.visible d.loops :=
  ⟨.refl d, rfl, rfl, rfl, rfl⟩

lemma Grows.trans (h : Grows d d₁ code ns waiting V loops) (h' : Grows d₁ d₂ code' ns' waiting' V' loops') :
    Grows d d₂ (code ++ code') (ns ++ ns') (waiting ++ waiting') V' loops' :=
  ⟨h.toExtends.trans h'.toExtends, h'.outer.trans h.outer, h'.opened.trans h.opened, h'.visible, h'.loops⟩

lemma Grows.endsAt {start : Nat} (h : Grows d d₁ code ns waiting V loops) (hd : d.EndsAt start V' loops') :
    d₁.EndsAt (start + code.size) V loops :=
  ⟨by rw [h.size, hd.size], h.visible, h.loops, h.opened.trans hd.opened⟩

lemma Grows.aim {k target : Nat} {l : Emit.Line} {i : Instr} (h : Grows d d₁ code ns waiting V loops)
    (hl : code[k]? = some l) (hi : l.held.aimedAt? target = some i) (hnew : ∀ e ∈ d₁.given, e.1 ≠ d.code.size + k)
    (hw : waiting.Perm ((d.code.size + k) :: waiting')) :
    Grows d (d₁.aim (d.code.size + k) target i) (code.modify k (Emit.Line.aim target)) ns waiting' V loops :=
  ⟨h.toExtends.aim hl hi hnew hw, h.outer, h.opened, h.visible, h.loops⟩

lemma Grows.perm (h : Grows d d₁ code ns waiting V loops) (hw : waiting.Perm waiting') :
    Grows d d₁ code ns waiting' V loops :=
  ⟨⟨h.instrs, h.places, h.noted, fun pc => by rw [h.balance pc, hw.count_eq pc], h.final⟩, h.outer, h.opened, h.visible,
    h.loops⟩

lemma Grows.holding (h : Grows d d₁ code ns waiting V loops) (loops' : List Exits) :
    Grows d { d₁ with loops := loops' } code ns waiting V loops' :=
  ⟨⟨h.instrs, h.places, h.noted, h.balance, h.final⟩, h.outer, h.opened, h.visible, rfl⟩

end Grows

section Sound

variable {floor : Nat} {d : Draft}

lemma Sound.slot_lt (h : d.Sound floor) {slot : Nat} (hs : slot < d.visible.length) : slot < d.most :=
  Nat.lt_of_lt_of_le hs (h.next ▸ h.most)

lemma Sound.add (h : d.Sound floor) {i : Instr} (p : Position) (subject : Option Variable)
    (hslot : ∀ slot, (Op.plain i).slot? = some slot → slot < d.visible.length) : (d.add i p subject).Sound floor where
  stacked := h.stacked
  next := h.next
  most := h.most
  floor := h.floor
  used j hj slot hs := by
    rcases Array.mem_push.mp hj with hj | rfl
    · exact h.used j hj slot hs
    · exact h.slot_lt (hslot slot hs)
  lines := by simp [Draft.add, h.lines]
  notes := by simp [Draft.add, h.notes]
  awaited := h.awaited
  awaitedIn pc hpc := by
    rw [Draft.add, Array.size_push]
    exact Nat.lt_succ_of_lt (h.awaitedIn pc hpc)
  givenIn e he := by
    rw [Draft.add, Array.size_push]
    exact Nat.lt_succ_of_lt (h.givenIn e he)

lemma Sound.declare (h : d.Sound floor) (name : String) (first : Option Nat) (hscopes : d.scopes.isEmpty = false) :
    { d with
      scopes := d.scopes.modifyHead (⟨name, d.next, first⟩ :: ·)
      next := d.next + 1
      most := max d.most (d.next + 1) }.Sound floor := by
  obtain ⟨scope, scopes, hd⟩ := List.ne_nil_iff_exists_cons.mp (List.isEmpty_eq_false_iff.mp hscopes)
  have hvisible : (d.scopes.modifyHead (⟨name, d.next, first⟩ :: ·)).flatten = ⟨name, d.next, first⟩ :: d.visible := by
    rw [visible, hd]
    rfl
  refine ⟨?_, ?_, Nat.le_max_right _ _, Nat.le_trans h.floor (Nat.le_max_left _ _), fun i hi slot hs => ?_, h.lines,
    h.notes, h.awaited, h.awaitedIn, h.givenIn⟩
  · rw [visible, hvisible]
    exact h.stacked.cons h.next
  · rw [visible, hvisible, List.length_cons, h.next]
  · exact Nat.lt_of_lt_of_le (h.used i hi slot hs) (Nat.le_max_left _ _)

lemma Sound.openScope (h : d.Sound floor) : { d with scopes := [] :: d.scopes }.Sound floor :=
  { h with }

lemma Sound.closeScope (h : d.Sound floor) {scope : List Variable} {scopes : List (List Variable)}
    (hd : d.scopes = scope :: scopes) : { d with scopes, next := d.next - scope.length }.Sound floor := by
  have hvisible : d.visible = scope ++ scopes.flatten := by rw [visible, hd, List.flatten_cons]
  have hnext : d.next = scope.length + scopes.flatten.length := by rw [h.next, hvisible, List.length_append]
  have hmost := h.most
  refine { h with stacked := ?_, next := ?_, most := ?_ }
  · exact h.stacked.suffix (hvisible ▸ List.suffix_append _ _)
  · change d.next - scope.length = scopes.flatten.length
    omega
  · change d.next - scope.length ≤ d.most
    omega

lemma Sound.holding (h : d.Sound floor) (loops : List Exits) : { d with loops }.Sound floor :=
  { h with }

lemma Sound.await (h : d.Sound floor) (hd : d.code.size = k + 1) (hk : ∀ pc ∈ d.awaited, pc < k) :
    { d with awaited := k :: d.awaited }.Sound floor :=
  { h with
    awaited := List.pairwise_cons.mpr ⟨hk, h.awaited⟩
    awaitedIn := List.forall_mem_cons.mpr ⟨hd ▸ Nat.lt_succ_self k, h.awaitedIn⟩ }

lemma slot?_aimedAt? {i j : Instr} {target : Nat} (h : i.aimedAt? target = some j) : (Op.plain j).slot? = none := by
  cases i with
  | jump | jumpIfFalse | jumpKeep =>
    cases h
    rfl
  | _ => cases h

lemma Sound.aim (h : d.Sound floor) {pc target : Nat} {i : Instr} (hi : (Op.plain i).slot? = none)
    (hpc : pc < d.code.size) : (d.aim pc target i).Sound floor where
  stacked := h.stacked
  next := h.next
  most := h.most
  floor := h.floor
  used j hj slot hs := by
    rcases Array.mem_or_eq_of_mem_setIfInBounds hj with hj | rfl
    · exact h.used j hj slot hs
    · cases hi.symm.trans hs
  lines := by simp [Draft.aim, h.lines]
  notes := by simp [Draft.aim, h.notes]
  awaited := h.awaited
  awaitedIn pc hpc := by
    rw [Draft.aim, Array.size_setIfInBounds]
    exact h.awaitedIn pc hpc
  givenIn e he := by
    rw [Draft.aim, Array.size_setIfInBounds]
    rcases List.mem_cons.mp he with rfl | he
    · exact hpc
    · exact h.givenIn e he

end Sound

end Draft

end OnePass

end ScriptHost
