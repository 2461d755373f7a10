import Mathlib.Data.Set.Card
import Mathlib.Data.Set.Finite.Lemmas
import ScriptHost.Coalesce.Watch
import ScriptHost.Proofs.Compile.Accepted

/-!
A directory that is watched. Between two looks files may come, go or change in any way, and may be such that nothing can
be made of them. What is published is always the last version that could be gathered and compiled.
-/

namespace ScriptHost

lemma mem_of_mapM {α β ε : Type} {f : α → Except ε β} {xs : List α} {ys : List β} (h : xs.mapM f = .ok ys) {y : β}
    (hy : y ∈ ys) : ∃ x ∈ xs, f x = .ok y := by
  induction xs generalizing ys with
  | nil =>
    cases h
    cases hy
  | cons x xs ih =>
    rw [List.mapM_cons] at h
    cases hx : f x with
    | error e => simp [hx, bind, Except.bind] at h
    | ok b =>
      cases hxs : xs.mapM f with
      | error e => simp [hx, hxs, bind, Except.bind] at h
      | ok bs =>
        simp only [hx, hxs, bind, Except.bind, pure, Except.pure, Except.ok.injEq] at h
        subst h
        rcases List.mem_cons.mp hy with rfl | hy
        · exact ⟨x, List.mem_cons_self, hx⟩
        · obtain ⟨x', hx', hf⟩ := ih hxs hy
          exact ⟨x', List.mem_cons_of_mem x hx', hf⟩

namespace Compiler

lemma link_valid (limits : CompilerLimits) (session : Nat) (entry : String) (units : List ParsedUnit) (e : ShapeError) :
    link limits session entry units ≠ .error (.invalid e) := by
  intro hlink
  rw [link] at hlink
  dsimp only at hlink
  split at hlink
  · cases hlink
  · split at hlink <;> cases hlink

lemma compile_valid {limits : CompilerLimits} {session : Nat} {units : List SourceUnit} {entry : SourceUnit}
    (h : SourceUnit.entryOf units = .ok entry) (e : ShapeError) :
    compile limits session units ≠ .error (.invalid e) := by
  intro hcompile
  rw [compile, h] at hcompile
  dsimp only at hcompile
  split at hcompile
  · cases hcompile
  · split at hcompile
    · exact link_valid _ _ _ _ e hcompile
    · cases hcompile

end Compiler

namespace Coalesce

open Compiler (compile)

lemma unitsOf_entry {dir main : String} {files : List FileEntry} {units : List SourceUnit} {entry : SourceUnit}
    (h : unitsOf dir main files = .ok units) (hentry : SourceUnit.entryOf units = .ok entry) :
    entry.name = FilePath.stem main := by
  obtain ⟨hmem, hmain⟩ := SourceUnit.mem_of_entryOf hentry
  cases hread : (unitFiles files).mapM (readUnit dir main) with
  | error e => simp [unitsOf, hread, bind, Except.bind] at h
  | ok us =>
    simp only [unitsOf, hread, bind, Except.bind] at h
    split at h
    · cases h
      obtain ⟨e, -, he⟩ := mem_of_mapM hread hmem
      rw [readUnit] at he
      split at he
      · cases he
        rw [← beq_iff_eq.mp hmain]
      · cases he
    · cases h

namespace Watch

/-- What a look sees, and when. -/
structure Sight where
  stamp : String
  files : List FileEntry

/-- What a watch can meet: a tick, at which the files are seen or cannot be, and the word to stop. -/
inductive Event where
  | tick (stamp : String) (files : Except GatherError (List FileEntry))
  | cancel

structure Course where
  watch : Watch := {}
  published : List Report := []
  isOver : Bool := false

namespace Course

def see (s : Settings) (c : Course) (x : Sight) : Course :=
  let (r, watch) := c.watch.look s x.stamp x.files
  { c with watch, published := c.published ++ r.toList }

def meet (s : Settings) (c : Course) (e : Event) : Course :=
  if c.isOver then c
  else
    match e with
    | .tick stamp (.ok files) => c.see s ⟨stamp, files⟩
    | .tick _ (.error _) | .cancel => { c with isOver := true }

end Course

variable {s : Settings} {c : Course}

lemma Course.meet_over (h : c.isOver = true) (e : Event) : c.meet s e = c :=
  if_pos h

lemma Course.meet_tick (h : c.isOver = false) (stamp : String) (files : List FileEntry) :
    c.meet s (.tick stamp (.ok files)) = c.see s ⟨stamp, files⟩ :=
  if_neg (Bool.eq_false_iff.mp h)

def run (s : Settings) (events : List Event) : Course :=
  events.foldl (Course.meet s) {}

def sights : List Event → List Sight
  | .tick stamp (.ok files) :: events => ⟨stamp, files⟩ :: sights events
  | _ => []

/-- What is seen gives a source that compiles, as the text of the main unit. -/
def Sight.Gives (s : Settings) (x : Sight) (text : String) : Prop :=
  ∃ units program, unitsOf s.dir s.main x.files = .ok units ∧ source x.stamp units = .ok text ∧
    compile s.limits session [⟨FilePath.stem s.main, text, true⟩] = .ok program

inductive Sight.Fails (s : Settings) (x : Sight) : Prop
  | ungathered {e : GatherError} : unitsOf s.dir s.main x.files = .error e → Fails s x
  | misshapen {units : List SourceUnit} {e : ShapeError} : unitsOf s.dir s.main x.files = .ok units →
      SourceUnit.entryOf units = .error e → Fails s x
  | oversized {units : List SourceUnit} {text : String} {shortage : Shortage} :
      unitsOf s.dir s.main x.files = .ok units → source x.stamp units = .ok text →
      compile s.limits session [⟨FilePath.stem s.main, text, true⟩] = .error (.unavailable shortage) → Fails s x
  | faulty {units : List SourceUnit} {text : String} {ds : List Diagnostic} :
      unitsOf s.dir s.main x.files = .ok units → source x.stamp units = .ok text →
      compile s.limits session [⟨FilePath.stem s.main, text, true⟩] = .error (.failure ds) → Fails s x

section Looks

variable {s : Settings} {x : Sight}

lemma source_eq_ok_iff {stamp text : String} {units : List SourceUnit} : source stamp units = .ok text ↔
    ∃ entry, SourceUnit.entryOf units = .ok entry ∧ fold stamp entry (units.filter (!·.isEntry)) = text := by
  rw [source]
  cases SourceUnit.entryOf units with
  | error e => simp [bind, Except.bind]
  | ok entry => simp [bind, Except.bind, pure, Except.pure]

lemma publishable?_of_units {units : List SourceUnit} (hunits : unitsOf s.dir s.main x.files = .ok units) :
    publishable? s x.stamp x.files = (report s.limits x.stamp units).toOption.filter (·.compiles) := by
  rw [publishable?, hunits]
  change ((report s.limits x.stamp units).toOption >>= fun r => (guard r.compiles : Option Unit) >>= fun _ => some r) = _
  cases report s.limits x.stamp units with
  | error e => rfl
  | ok r => cases hr : r.compiles <;> simp [hr, Except.toOption, guard, failure, Option.filter]

lemma publishable?_eq {units : List SourceUnit} {text : String} (hunits : unitsOf s.dir s.main x.files = .ok units)
    (htext : source x.stamp units = .ok text) : publishable? s x.stamp x.files =
      (compile s.limits session [⟨FilePath.stem s.main, text, true⟩]).toOption.map
        fun program => ⟨text, true, program.warnings⟩ := by
  obtain ⟨entry, hentry, -⟩ := source_eq_ok_iff.mp htext
  have hname := unitsOf_entry hunits hentry
  rw [publishable?_of_units hunits, report, hentry, htext]
  dsimp only [examine]
  rw [hname]
  cases hcompile : compile s.limits session [⟨FilePath.stem s.main, text, true⟩] with
  | ok program => rfl
  | error e => cases e <;> rfl

lemma fails_or_gives (s : Settings) (x : Sight) : x.Fails s ∨ ∃ text, x.Gives s text := by
  cases hunits : unitsOf s.dir s.main x.files with
  | error e => exact .inl (.ungathered hunits)
  | ok units =>
    cases hentry : SourceUnit.entryOf units with
    | error e => exact .inl (.misshapen hunits hentry)
    | ok entry =>
      obtain ⟨text, htext⟩ : ∃ text, source x.stamp units = .ok text :=
        ⟨_, source_eq_ok_iff.mpr ⟨entry, hentry, rfl⟩⟩
      cases hcompile : compile s.limits session [⟨FilePath.stem s.main, text, true⟩] with
      | ok program => exact .inr ⟨text, units, program, hunits, htext, hcompile⟩
      | error e =>
        cases e with
        | failure ds => exact .inl (.faulty hunits htext hcompile)
        | unavailable shortage => exact .inl (.oversized hunits htext hcompile)
        | invalid e =>
          have hnamed : entry.isNameless = false :=
            (SourceUnit.entryOf_eq_ok_iff.mp hentry).1 entry (SourceUnit.mem_of_entryOf hentry).1
          have halone : SourceUnit.entryOf [⟨entry.name, text, true⟩] = .ok ⟨entry.name, text, true⟩ :=
            SourceUnit.entryOf_single rfl hnamed
          rw [unitsOf_entry hunits hentry] at halone
          exact absurd hcompile (Compiler.compile_valid halone e)

lemma publishable?_of_gives {text : String} (h : x.Gives s text) :
    ∃ r, publishable? s x.stamp x.files = some r ∧ r.source = text := by
  obtain ⟨units, program, hunits, htext, hcompile⟩ := h
  rw [publishable?_eq hunits htext, hcompile]
  exact ⟨_, rfl, rfl⟩

lemma publishable?_of_fails (h : x.Fails s) : publishable? s x.stamp x.files = none := by
  cases h with
  | ungathered hunits =>
    rw [publishable?, hunits]
    rfl
  | misshapen hunits hentry =>
    rw [publishable?_of_units hunits, report, hentry]
    rfl
  | oversized hunits htext hcompile | faulty hunits htext hcompile =>
    rw [publishable?_eq hunits htext, hcompile]
    rfl

lemma Sight.Fails.not_gives {text : String} (h : x.Fails s) : ¬ x.Gives s text := by
  intro hx
  obtain ⟨r, hr, -⟩ := publishable?_of_gives hx
  rw [publishable?_of_fails h] at hr
  cases hr

end Looks

/-- At a look other unit files are seen than at the look before, if there was one. -/
def Differs (xs : List Sight) (i : Nat) : Prop :=
  ∃ x, xs[i]? = some x ∧ ∀ j y, j + 1 = i → xs[j]? = some y → unitFiles y.files ≠ unitFiles x.files

/-- A version that can be published: it differs from the one before, and gives a source. -/
def Renews (s : Settings) (xs : List Sight) (i : Nat) (text : String) : Prop :=
  Differs xs i ∧ ∃ x, xs[i]? = some x ∧ x.Gives s text

/-- The source of the last version that can be published. -/
def Newest (s : Settings) (xs : List Sight) (text : String) : Prop :=
  ∃ i, Renews s xs i text ∧ ∀ j other, i < j → ¬ Renews s xs j other

def renewals (s : Settings) (xs : List Sight) : Set Nat :=
  { i | ∃ text, Renews s xs i text }

section Versions

variable {s : Settings} {xs : List Sight} {x : Sight} {i : Nat} {text other : String}

lemma Sight.Gives.unique (h : x.Gives s text) (h' : x.Gives s other) : text = other := by
  obtain ⟨r, hr, rfl⟩ := publishable?_of_gives h
  obtain ⟨r', hr', rfl⟩ := publishable?_of_gives h'
  rw [Option.some.inj (hr.symm.trans hr')]

lemma Renews.lt (h : Renews s xs i text) : i < xs.length := by
  obtain ⟨-, x, hx, -⟩ := h
  exact (List.getElem?_eq_some_iff.mp hx).1

lemma finite_renewals (s : Settings) (xs : List Sight) : (renewals s xs).Finite :=
  (Set.finite_lt_nat xs.length).subset fun _ ⟨_, h⟩ => h.lt

lemma Renews.exists_newest (h : Renews s xs i text) : ∃ last, Newest s xs last := by
  obtain ⟨m, ⟨last, hm⟩, hmax⟩ := Set.exists_max_image (renewals s xs) id (finite_renewals s xs) ⟨i, text, h⟩
  exact ⟨last, m, hm, fun j other hj hother => Nat.not_le.mpr hj (hmax j ⟨other, hother⟩)⟩

lemma renews_concat_of_lt (hi : i < xs.length) : Renews s (xs ++ [x]) i text ↔ Renews s xs i text := by
  have hget : ∀ j, j ≤ i → (xs ++ [x])[j]? = xs[j]? := fun j hj =>
    List.getElem?_append_left (Nat.lt_of_le_of_lt hj hi)
  simp only [Renews, Differs, hget i le_rfl]
  refine and_congr_left fun _ => exists_congr fun y => and_congr_right fun _ => ?_
  refine forall_congr' fun j => forall_congr' fun z => imp_congr_right fun hj => ?_
  rw [hget j (hj ▸ Nat.le_succ j)]

lemma renews_concat : Renews s (xs ++ [x]) i text ↔
    Renews s xs i text ∨ i = xs.length ∧ Renews s (xs ++ [x]) xs.length text := by
  constructor
  · intro h
    have hlt := h.lt
    rw [List.length_append, List.length_singleton] at hlt
    rcases Nat.lt_succ_iff_lt_or_eq.mp hlt with hi | rfl
    · exact .inl ((renews_concat_of_lt hi).mp h)
    · exact .inr ⟨rfl, h⟩
  · rintro (h | ⟨rfl, h⟩)
    · exact (renews_concat_of_lt h.lt).mpr h
    · exact h

lemma differs_last : Differs (xs ++ [x]) xs.length ↔
    ∀ y, xs.getLast? = some y → unitFiles y.files ≠ unitFiles x.files := by
  constructor
  · rintro ⟨z, hz, h⟩ y hy
    obtain ⟨before, rfl⟩ := List.getLast?_eq_some_iff.mp hy
    rw [List.getElem?_concat_length, Option.some.injEq] at hz
    subst hz
    exact h before.length y (by simp) (by simp)
  · intro h
    refine ⟨x, List.getElem?_concat_length, fun j y hj hy => h y ?_⟩
    rw [List.getElem?_append_left (hj ▸ Nat.lt_succ_self j)] at hy
    rw [List.getLast?_eq_getElem?, ← hj]
    exact hy

lemma renews_last : Renews s (xs ++ [x]) xs.length text ↔ Differs (xs ++ [x]) xs.length ∧ x.Gives s text := by
  simp [Renews]

section Unchanged

variable (h : ∀ text, ¬ Renews s (xs ++ [x]) xs.length text)
include h

lemma newest_concat_none : Newest s (xs ++ [x]) text ↔ Newest s xs text := by
  simp [Newest, renews_concat, h]

lemma renewals_concat_none : renewals s (xs ++ [x]) = renewals s xs := by
  ext i
  simp [renewals, renews_concat, h]

end Unchanged

section Changed

variable (h : Renews s (xs ++ [x]) xs.length text)
include h

lemma newest_concat_some : Newest s (xs ++ [x]) other ↔ text = other := by
  constructor
  · rintro ⟨i, hi, hlast⟩
    rcases renews_concat.mp hi with hold | ⟨rfl, hnew⟩
    · exact absurd h (hlast _ text hold.lt)
    · exact (renews_last.mp h).2.unique (renews_last.mp hnew).2
  · rintro rfl
    refine ⟨xs.length, h, fun j other hj hother => ?_⟩
    have hlt := hother.lt
    rw [List.length_append, List.length_singleton] at hlt
    omega

lemma ncard_renewals_concat_some : (renewals s (xs ++ [x])).ncard = (renewals s xs).ncard + 1 := by
  have hset : renewals s (xs ++ [x]) = insert xs.length (renewals s xs) := by
    ext i
    constructor
    · rintro ⟨other, hother⟩
      rcases renews_concat.mp hother with hold | ⟨rfl, -⟩
      · exact .inr ⟨other, hold⟩
      · exact .inl rfl
    · rintro (rfl | ⟨other, hold⟩)
      · exact ⟨text, h⟩
      · exact ⟨other, renews_concat.mpr (.inl hold)⟩
  have hlast : xs.length ∉ renewals s xs := fun ⟨_, hr⟩ => Nat.lt_irrefl _ hr.lt
  rw [hset, Set.ncard_insert_of_notMem hlast (finite_renewals s xs)]

end Changed

end Versions

structure Tracks (s : Settings) (xs : List Sight) (c : Course) : Prop where
  seen : c.watch.seen = xs.getLast?.map fun x => fingerprint x.files
  latest (text : String) : c.watch.latest = some text ↔ Newest s xs text
  current : c.watch.latest = c.published.getLast?.map (·.source)
  publishes : c.watch.publishes = (renewals s xs).ncard
  published : c.published.length = c.watch.publishes
  alone : ∀ r ∈ c.published, ∃ program,
    compile s.limits session [⟨FilePath.stem s.main, r.source, true⟩] = .ok program

section Steps

variable {s : Settings} {xs : List Sight} {x : Sight} {c : Course} {text : String}

lemma see_same (h : c.watch.seen = some (fingerprint x.files)) : c.see s x = c := by
  rw [Course.see, look, if_pos h]
  dsimp only
  rw [Option.toList_none, List.append_nil]

lemma see_fails (h : c.watch.seen ≠ some (fingerprint x.files)) (hx : x.Fails s) :
    c.see s x = { c with watch := { c.watch with seen := some (fingerprint x.files) } } := by
  rw [Course.see, look, if_neg h, publishable?_of_fails hx]
  dsimp only
  rw [Option.toList_none, List.append_nil]
  rfl

lemma see_gives (h : c.watch.seen ≠ some (fingerprint x.files)) (hx : x.Gives s text) : ∃ r, r.source = text ∧
    c.see s x = { c with
      watch := { seen := some (fingerprint x.files), latest := some text, publishes := c.watch.publishes + 1 }
      published := c.published ++ [r] } := by
  obtain ⟨r, hr, hsource⟩ := publishable?_of_gives hx
  refine ⟨r, hsource, ?_⟩
  rw [Course.see, look, if_neg h, hr, ← hsource]
  rfl

lemma Tracks.differs_iff (h : Tracks s xs c)
    (hprints : ∀ y ∈ xs, fingerprint y.files = fingerprint x.files → unitFiles y.files = unitFiles x.files) :
    Differs (xs ++ [x]) xs.length ↔ c.watch.seen ≠ some (fingerprint x.files) := by
  rw [differs_last, h.seen]
  constructor
  · intro hdiffers hsame
    obtain ⟨y, hy, hprint⟩ := Option.map_eq_some_iff.mp hsame
    exact hdiffers y hy (hprints y (List.mem_of_getLast? hy) hprint)
  · intro hseen y hy hsame
    rw [hy, Option.map_some, fingerprint, hsame] at hseen
    exact hseen rfl

lemma Tracks.see (h : Tracks s xs c)
    (hprints : ∀ y ∈ xs, fingerprint y.files = fingerprint x.files → unitFiles y.files = unitFiles x.files) :
    Tracks s (xs ++ [x]) (c.see s x) := by
  have hdiffers := h.differs_iff hprints
  have hlast : (xs ++ [x]).getLast?.map (fun x => fingerprint x.files) = some (fingerprint x.files) := by
    rw [List.getLast?_concat, Option.map_some]
  -- A look adds a version only if something changed and something could be made of it; in both other cases the versions
  -- stay, but a change is remembered even when it fails.
  by_cases hseen : c.watch.seen = some (fingerprint x.files)
  · have hnone : ∀ text, ¬ Renews s (xs ++ [x]) xs.length text := fun text hr => hdiffers.mp hr.1 hseen
    rw [see_same hseen]
    exact ⟨hseen.trans hlast.symm, fun text => (h.latest text).trans (newest_concat_none hnone).symm, h.current,
      h.publishes.trans (congrArg Set.ncard (renewals_concat_none hnone).symm), h.published, h.alone⟩
  · rcases fails_or_gives s x with hx | ⟨text, hx⟩
    · have hnone : ∀ text, ¬ Renews s (xs ++ [x]) xs.length text := fun text hr =>
        hx.not_gives (renews_last.mp hr).2
      rw [see_fails hseen hx]
      exact ⟨hlast.symm, fun text => (h.latest text).trans (newest_concat_none hnone).symm, h.current,
        h.publishes.trans (congrArg Set.ncard (renewals_concat_none hnone).symm), h.published, h.alone⟩
    · have hnew : Renews s (xs ++ [x]) xs.length text := renews_last.mpr ⟨hdiffers.mpr hseen, hx⟩
      obtain ⟨r, rfl, hc⟩ := see_gives hseen hx
      obtain ⟨units, program, -, -, hcompile⟩ := hx
      rw [hc]
      refine ⟨hlast.symm, fun other => ?_, ?_, ?_, ?_, ?_⟩
      · rw [newest_concat_some hnew, Option.some.injEq]
      · rw [List.getLast?_concat, Option.map_some]
      · rw [ncard_renewals_concat_some hnew, ← h.publishes]
      · rw [List.length_append, List.length_singleton, h.published]
      · intro r' hr'
        rcases List.mem_append.mp hr' with hold | hlast
        · exact h.alone r' hold
        · rw [List.mem_singleton.mp hlast]
          exact ⟨program, hcompile⟩

end Steps

section Runs

variable {s : Settings}

lemma tracks_start : Tracks s [] {} where
  seen := rfl
  latest text := by simp [Newest, Renews]
  current := rfl
  publishes := by simp [renewals, Renews]
  published := rfl
  alone r hr := by cases hr

lemma tracks_sights (xs : List Sight)
    (hprints : ∀ x ∈ xs, ∀ y ∈ xs, fingerprint x.files = fingerprint y.files → unitFiles x.files = unitFiles y.files) :
    Tracks s xs (xs.foldl (Course.see s) {}) := by
  induction xs using List.reverseRecOn with
  | nil => exact tracks_start
  | append_singleton xs x ih =>
    rw [List.foldl_concat]
    have hbefore : ∀ y ∈ xs, y ∈ xs ++ [x] := fun y hy => List.mem_append_left [x] hy
    refine (ih fun y hy z hz => hprints y (hbefore y hy) z (hbefore z hz)).see fun y hy => ?_
    exact hprints y (hbefore y hy) x (List.mem_append_right xs (List.mem_singleton_self x))

lemma foldl_over {c : Course} (h : c.isOver = true) (events : List Event) : events.foldl (Course.meet s) c = c := by
  induction events with
  | nil => rfl
  | cons e events ih => rw [List.foldl_cons, Course.meet_over h, ih]

lemma foldl_meet {c : Course} (h : c.isOver = false) (events : List Event) : ∃ isOver,
    events.foldl (Course.meet s) c = { (sights events).foldl (Course.see s) c with isOver } := by
  induction events generalizing c with
  | nil => exact ⟨c.isOver, rfl⟩
  | cons e events ih =>
    rw [List.foldl_cons]
    match e with
    | .tick stamp (.ok files) =>
      rw [Course.meet_tick h]
      exact ih h
    | .tick _ (.error _) | .cancel =>
      have hover : ∀ e, c.meet s e = { c with isOver := true } → ∃ isOver,
          events.foldl (Course.meet s) (c.meet s e) = { c with isOver } := by
        intro e he
        rw [he]
        exact ⟨true, foldl_over rfl events⟩
      exact hover _ (if_neg (Bool.eq_false_iff.mp h))

lemma run_tracks (events : List Event)
    (hprints : ∀ x ∈ sights events, ∀ y ∈ sights events,
      fingerprint x.files = fingerprint y.files → unitFiles x.files = unitFiles y.files) :
    Tracks s (sights events) (run s events) := by
  obtain ⟨isOver, hrun⟩ := foldl_meet (s := s) (c := {}) rfl events
  have h := tracks_sights (s := s) (sights events) hprints
  rw [run, hrun]
  exact ⟨h.seen, h.latest, h.current, h.publishes, h.published, h.alone⟩

/-- Whatever a directory goes through while it is watched, as long as the same names, times and sizes of its unit files
mean the same files: what is published is the coalesced source of the last look at which other files were seen than
before and something could be made of them, and nothing if there was none. There are as many publications as such looks,
and each compiles by itself. A look fails if and only if it gives no source: its files cannot be gathered, or are no
submission, or their source is too large or has errors; then nothing that was published changes. -/
theorem last_good_version_is_published (s : Settings) (events : List Event)
    (hprints : ∀ x ∈ sights events, ∀ y ∈ sights events,
      fingerprint x.files = fingerprint y.files → unitFiles x.files = unitFiles y.files) :
    let xs := sights events
    let c := run s events
    (∀ text, c.watch.latest = some text ↔ Newest s xs text) ∧
      (c.watch.latest = none ↔ ∀ i text, ¬ Renews s xs i text) ∧
      c.watch.latest = c.published.getLast?.map (·.source) ∧
      (∀ r ∈ c.published, ∃ program,
        compile s.limits session [⟨FilePath.stem s.main, r.source, true⟩] = .ok program) ∧
      c.watch.publishes = (renewals s xs).ncard ∧ c.published.length = c.watch.publishes ∧
      ∀ x : Sight, (x.Fails s ↔ ∀ text, ¬ x.Gives s text) ∧
        (x.Fails s → (c.see s x).watch.latest = c.watch.latest ∧ (c.see s x).published = c.published) := by
  intro xs c
  have h : Tracks s xs c := run_tracks events hprints
  refine ⟨h.latest, ?_, h.current, h.alone, h.publishes, h.published, fun x => ⟨?_, fun hx => ?_⟩⟩
  · rw [Option.eq_none_iff_forall_ne_some]
    constructor
    · intro hnone i text hr
      obtain ⟨last, hlast⟩ := hr.exists_newest
      exact hnone last ((h.latest last).mpr hlast)
    · intro hnone text htext
      obtain ⟨i, hr, -⟩ := (h.latest text).mp htext
      exact hnone i text hr
  · exact ⟨fun hx text => hx.not_gives, fun hx => (fails_or_gives s x).resolve_right fun ⟨text, ht⟩ => hx text ht⟩
  · by_cases hseen : c.watch.seen = some (fingerprint x.files)
    · rw [see_same hseen]
      exact ⟨rfl, rfl⟩
    · rw [see_fails hseen hx]
      exact ⟨rfl, rfl⟩

end Runs

def single (modified : Nat) (text : String) : List FileEntry :=
  [⟨"m.mash", modified, text.utf8ByteSize, .ok text.toByteArray⟩]

section Single

lemma splitName_single : FilePath.splitName "m.mash" = ("m", some "mash") := by
  -- `splitOn` recurses on positions, so its steps are taken one by one.
  have h : "m.mash".splitOn "." = ["m", "mash"] := by
    rw [String.splitOn, if_neg (by decide +kernel)]
    rw [String.splitOnAux, if_neg (by decide +kernel), if_neg (by decide +kernel)]
    rw [String.splitOnAux, if_neg (by decide +kernel), if_pos (by decide +kernel), if_pos (by decide +kernel)]
    iterate 4 rw [String.splitOnAux, if_neg (by decide +kernel), if_neg (by decide +kernel)]
    rw [String.splitOnAux, if_pos (by decide +kernel)]
    decide +kernel
  rw [FilePath.splitName, h]
  decide +kernel

lemma unitFiles_single (modified : Nat) (text : String) : unitFiles (single modified text) = single modified text := by
  have hext : FilePath.extension? "m.mash" = some unitExtension := by
    rw [FilePath.extension?, splitName_single]
    rfl
  rw [unitFiles, single, List.filter_singleton, decide_eq_true hext, cond_true, List.mergeSort_singleton]

lemma fingerprint_single (modified : Nat) (text : String) :
    fingerprint (single modified text) = [("m.mash", modified, text.utf8ByteSize)] := by
  rw [fingerprint, unitFiles_single]
  rfl

lemma decode_toByteArray (text : String) : Disk.decode text.toByteArray = .ok text := by
  rw [Disk.decode, String.fromUTF8?, dif_pos text.isValidUTF8]
  rfl

lemma unitsOf_single (dir : String) (modified : Nat) (text : String) :
    unitsOf dir "m.mash" (single modified text) = .ok [⟨"m", text, true⟩] := by
  rw [unitsOf, unitFiles_single, single]
  simp [readUnit, decode_toByteArray, bind, Except.bind, FilePath.stem, splitName_single, pure, Except.pure]

lemma publishable?_single (dir stamp : String) (limits : CompilerLimits) (modified : Nat) (text : String) :
    publishable? ⟨dir, "m.mash", limits⟩ stamp (single modified text) =
      (report limits stamp [⟨"m", text, true⟩]).toOption.filter (·.compiles) :=
  publishable?_of_units (x := ⟨stamp, single modified text⟩) (unitsOf_single dir modified text)

end Single

def mended : List Event :=
  [.tick "one" (.ok (single 1 "fn main() \x7b return 1; \x7d")),
    .tick "two" (.ok (single 1 "fn main() \x7b return 1; \x7d")),
    .tick "three" (.ok (single 2 "fn main() \x7b return 2 +; \x7d")),
    .tick "four" (.ok (single 3 "fn main() \x7b return 3; \x7d")),
    .tick "five" (.ok (single 4 "fn main() \x7b return four(); \x7d")),
    .cancel,
    .tick "six" (.ok (single 5 "fn main() \x7b return 5; \x7d"))]

theorem last_good_version_is_published_mended :
    (∀ x ∈ sights mended, ∀ y ∈ sights mended,
      fingerprint x.files = fingerprint y.files → unitFiles x.files = unitFiles y.files) ∧
    Newest ⟨"d", "m.mash", {}⟩ (sights mended) "// mashed four\n\nfn main() \x7b return 3; \x7d\n" ∧
    (renewals ⟨"d", "m.mash", {}⟩ (sights mended)).ncard = 2 := by
  have hprints : ∀ x ∈ sights mended, ∀ y ∈ sights mended,
      fingerprint x.files = fingerprint y.files → unitFiles x.files = unitFiles y.files := by
    simp [mended, sights, fingerprint_single]
  obtain ⟨hlatest, -, -, -, hcount, -⟩ := last_good_version_is_published ⟨"d", "m.mash", {}⟩ mended hprints
  have hone : publishable? ⟨"d", "m.mash", {}⟩ "one" (single 1 "fn main() \x7b return 1; \x7d") =
      some ⟨"// mashed one\n\nfn main() \x7b return 1; \x7d\n", true, []⟩ := by
    rw [publishable?_single]
    decide +kernel
  have hthree : publishable? ⟨"d", "m.mash", {}⟩ "three" (single 2 "fn main() \x7b return 2 +; \x7d") = none := by
    rw [publishable?_single]
    decide +kernel
  have hfour : publishable? ⟨"d", "m.mash", {}⟩ "four" (single 3 "fn main() \x7b return 3; \x7d") =
      some ⟨"// mashed four\n\nfn main() \x7b return 3; \x7d\n", true, []⟩ := by
    rw [publishable?_single]
    decide +kernel
  have hfive : publishable? ⟨"d", "m.mash", {}⟩ "five" (single 4 "fn main() \x7b return four(); \x7d") = none := by
    rw [publishable?_single]
    decide +kernel
  have hrun : (run ⟨"d", "m.mash", {}⟩ mended).watch.latest =
        some "// mashed four\n\nfn main() \x7b return 3; \x7d\n" ∧
      (run ⟨"d", "m.mash", {}⟩ mended).watch.publishes = 2 := by
    simp [run, mended, Course.meet, Course.see, look, fingerprint_single, hone, hthree, hfour, hfive]
  exact ⟨hprints, (hlatest _).mp hrun.1, hcount.symm.trans hrun.2⟩

end Watch

end Coalesce

end ScriptHost
