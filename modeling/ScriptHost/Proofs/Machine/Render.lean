import Mathlib.Tactic.Lemma
import ScriptHost.Machine.Render
import ScriptHost.Proofs.Text.Fit

/-!
Whole texts of values, and how much of them a rendering keeps.
-/

namespace ScriptHost

namespace Rendering

/-- The text of a value inside an array, whatever its size, with some levels of nesting left. -/
def innerText (heap : Heap) : Nat → Datum → String
  | _, .nil => "nil"
  | _, .bool b => if b then "true" else "false"
  | _, .int v => toString v.toInt
  | _, .str s => Text.Quoted.quote s
  | 0, .array _ => deepText
  | levels + 1, .array handle =>
    "[" ++ ", ".intercalate ((heap.items handle).toList.map (innerText heap levels)) ++ "]"

def outerText (heap : Heap) : Datum → String
  | .str s => s
  | d => innerText heap renderDepth d

section Whole

variable (raised : Nat → Bool)

/-- What comes of adding `x` to a text that fits, unless the signal is up. Where there is no room for all of it, what
fits is kept. -/
def Added (r : Rendering) (x : String) : Step → Prop
  | .ok q => q.limit = r.limit ∧ q.text = r.text ++ x ∧ q.text.utf8ByteSize ≤ q.limit
  | .error (.full, q) =>
    q.text = Text.fit r.limit (r.text ++ x) ∧ r.limit < (r.text ++ x).utf8ByteSize
  | .error (.interrupted, q) => raised q.visits = true

def Adds (part : Rendering → Step) (x : String) : Prop :=
  ∀ r : Rendering, r.text.utf8ByteSize ≤ r.limit → Added raised r x (part r)

lemma adds_pure : Adds raised pure "" := fun _ hr => ⟨rfl, String.append_empty.symm, hr⟩

lemma adds_append (x : String) : Adds raised (append · x) x := by
  intro r hr
  have hsize : (r.text ++ x).utf8ByteSize = r.text.utf8ByteSize + x.utf8ByteSize :=
    String.utf8ByteSize_append
  change Added raised r x (append r x)
  rw [append]
  by_cases hx : x.utf8ByteSize ≤ r.limit - r.text.utf8ByteSize
  · rw [if_pos hx]
    refine ⟨rfl, rfl, ?_⟩
    change (r.text ++ x).utf8ByteSize ≤ r.limit
    omega
  · rw [if_neg hx]
    exact ⟨(Text.fit_left hr x).symm, by omega⟩

lemma adds_visit : Adds raised (visit raised) "" := by
  intro r hr
  rw [visit]
  dsimp only
  split
  · next hr => exact (Bool.and_eq_true_iff.mp hr).2
  · exact ⟨rfl, String.append_empty.symm, hr⟩

variable {raised}

lemma Added.after {r q : Rendering} {x y : String} {step : Step} (hlimit : q.limit = r.limit)
    (htext : q.text = r.text ++ x) (h : Added raised q y step) : Added raised r (x ++ y) step := by
  have hboth : q.text ++ y = r.text ++ (x ++ y) := by rw [htext, String.append_assoc]
  cases step with
  | ok p => exact ⟨h.1.trans hlimit, h.2.1.trans hboth, h.2.2⟩
  | error e =>
    obtain ⟨stop, p⟩ := e
    cases stop with
    | full =>
      obtain ⟨hp, hroom⟩ := h
      rw [hboth, hlimit] at hp hroom
      exact ⟨hp, hroom⟩
    | interrupted => exact h

lemma Adds.bind {part next : Rendering → Step} {x y : String} (hx : Adds raised part x)
    (hy : Adds raised next y) : Adds raised (fun r => part r >>= next) (x ++ y) := by
  intro r hr
  have hp := hx r hr
  change Added raised r (x ++ y) (part r >>= next)
  cases hpart : part r with
  | ok q =>
    rw [hpart] at hp
    obtain ⟨hlimit, htext, hq⟩ := hp
    exact (hy q hq).after hlimit htext
  | error e =>
    rw [hpart] at hp
    obtain ⟨stop, q⟩ := e
    cases stop with
    | full =>
      obtain ⟨htext, hroom⟩ := hp
      refine ⟨?_, ?_⟩
      · rw [← String.append_assoc, Text.fit_right hroom]
        exact htext
      · rw [← String.append_assoc, String.utf8ByteSize_append]
        exact Nat.lt_add_right _ hroom
    | interrupted => exact hp

section Separated

variable (datum : Rendering → Datum → Step) (separator : String)

def another (state : Rendering × Bool) (d : Datum) : Except (RenderStop × Rendering) (Rendering × Bool) := do
  let r ← if state.2 then pure state.1 else state.1.append separator
  return (← datum r d, false)

lemma separated_eq (r : Rendering) (items : Array Datum) :
    separated datum separator r items =
      Prod.fst <$> items.toList.foldlM (another datum separator) (r, true) := by
  rw [Array.foldlM_toList]
  rfl

variable {datum} {text : Datum → String} (hd : ∀ d, Adds raised (datum · d) (text d))
include hd

lemma adds_others (ds : List Datum) :
    Adds raised (fun r => Prod.fst <$> ds.foldlM (another datum separator) (r, false))
      (separator.intercalate ("" :: ds.map text)) := by
  induction ds with
  | nil =>
    rw [List.map_nil, String.intercalate_singleton]
    exact adds_pure raised
  | cons d ds ih =>
    have hnext := (adds_append raised separator).bind ((hd d).bind ih)
    rw [List.map_cons, String.intercalate_cons_cons, String.empty_append]
    rw [← String.intercalate_cons_append, String.append_empty] at hnext
    simpa [another, List.foldlM_cons] using hnext

lemma adds_separated (items : Array Datum) :
    Adds raised (separated datum separator · items) (separator.intercalate (items.toList.map text)) := by
  simp only [separated_eq]
  cases items.toList with
  | nil => exact adds_pure raised
  | cons d ds =>
    have hnext := (hd d).bind (adds_others separator hd ds)
    rw [← String.intercalate_cons_append, String.append_empty] at hnext
    simpa [another, List.foldlM_cons] using hnext

end Separated

section Values

variable (raised) (heap : Heap)

lemma adds_inner (levels : Nat) (d : Datum) :
    Adds raised (inner heap raised levels · d) (innerText heap levels d) := by
  have hvisited : ∀ {next : Rendering → Step} {x : String}, Adds raised next x →
      Adds raised (fun r => r.visit raised >>= next) x := by
    intro next x hx
    have hboth := (adds_visit raised).bind hx
    rwa [String.empty_append] at hboth
  induction levels generalizing d with
  | zero =>
    cases d with
    | nil => exact hvisited (adds_append raised "nil")
    | bool b => exact hvisited (adds_append raised _)
    | int v => exact hvisited (adds_append raised _)
    | str s => exact hvisited (adds_append raised _)
    | array handle => exact hvisited (adds_append raised deepText)
  | succ levels ih =>
    cases d with
    | nil => exact hvisited (adds_append raised "nil")
    | bool b => exact hvisited (adds_append raised _)
    | int v => exact hvisited (adds_append raised _)
    | str s => exact hvisited (adds_append raised _)
    | array handle =>
      have hitems := adds_separated ", " ih (heap.items handle)
      have hall := hvisited ((adds_append raised "[").bind (hitems.bind (adds_append raised "]")))
      rw [← String.append_assoc] at hall
      exact hall

lemma adds_outer (d : Datum) : Adds raised (outer heap raised · d) (outerText heap d) := by
  cases d with
  | str s =>
    have hboth := (adds_visit raised).bind (adds_append raised s)
    rwa [String.empty_append] at hboth
  | nil => exact adds_inner raised heap renderDepth .nil
  | bool b => exact adds_inner raised heap renderDepth (.bool b)
  | int v => exact adds_inner raised heap renderDepth (.int v)
  | array handle => exact adds_inner raised heap renderDepth (.array handle)

end Values

end Whole

end Rendering

def wholeText (heap : Heap) (separator : String) (values : Array Datum) : String :=
  separator.intercalate (values.toList.map (Rendering.outerText heap))

/-- Why a rendering stops, if it does, and what it keeps of the whole text. -/
lemma render_added (heap : Heap) (raised : Nat → Bool) (separator : String) (limit : Nat) (values : Array Datum) :
    match render heap raised separator limit values with
    | (r, none) => r.text = wholeText heap separator values ∧ (wholeText heap separator values).utf8ByteSize ≤ limit
    | (r, some .full) => r.text = Text.fit limit (wholeText heap separator values) ∧
        limit < (wholeText heap separator values).utf8ByteSize
    | (_, some .interrupted) => ∃ n, raised n = true := by
  have hadds : Rendering.Added raised ⟨"", limit, 0⟩ (wholeText heap separator values)
      (Rendering.separated (Rendering.outer heap raised) separator ⟨"", limit, 0⟩ values) :=
    Rendering.adds_separated separator (Rendering.adds_outer raised heap) values ⟨"", limit, 0⟩
      (Nat.zero_le limit)
  rw [render]
  cases hr : Rendering.separated (Rendering.outer heap raised) separator ⟨"", limit, 0⟩ values with
  | ok q =>
    rw [hr] at hadds
    obtain ⟨hlimit, htext, hq⟩ := hadds
    rw [String.empty_append] at htext
    rw [htext, hlimit] at hq
    exact ⟨htext, hq⟩
  | error e =>
    obtain ⟨stop, q⟩ := e
    rw [hr] at hadds
    cases stop with
    | full =>
      rw [Rendering.Added, String.empty_append] at hadds
      exact hadds
    | interrupted => exact ⟨_, hadds⟩

lemma render_text {heap : Heap} {raised : Nat → Bool} {separator : String} {limit : Nat} {values : Array Datum}
    (h : (render heap raised separator limit values).2 ≠ some .interrupted) :
    (render heap raised separator limit values).1.text = Text.fit limit (wholeText heap separator values) := by
  have hadded := render_added heap raised separator limit values
  rcases hr : render heap raised separator limit values with ⟨r, _ | _ | _⟩
  · rw [hr] at hadded
    exact hadded.1.trans (Text.fit_of_le hadded.2).symm
  · rw [hr] at hadded
    exact hadded.1
  · rw [hr] at h
    exact absurd rfl h

lemma Rendering.innerText_ne (heap : Heap) (levels : Nat) (d : Datum) : innerText heap levels d ≠ "" := by
  cases d with
  | nil =>
    rw [innerText]
    decide
  | bool b =>
    rw [innerText]
    cases b <;> decide
  | int v =>
    rw [innerText, Int.toString_eq_repr, Int.repr_eq_if]
    split
    · exact Nat.repr_ne_empty
    · simp
  | str s =>
    rw [innerText]
    simp [Text.Quoted.quote]
  | array handle =>
    cases levels with
    | zero =>
      rw [innerText]
      decide
    | succ levels =>
      rw [innerText]
      simp

lemma wholeText_ne_of_interrupted {heap : Heap} {raised : Nat → Bool} {separator : String} {limit : Nat}
    {values : Array Datum} (hs : separator ≠ "")
    (h : (render heap raised separator limit values).2 = some .interrupted) :
    wholeText heap separator values ≠ "" := by
  obtain ⟨ds⟩ := values
  intro htext
  rw [wholeText] at htext
  rcases ds with _ | ⟨d, _ | ⟨e, ds⟩⟩
  · cases h
  · rw [List.map_cons, List.map_nil, String.intercalate_singleton] at htext
    cases d with
    | str s =>
      subst htext
      cases h
    | _ => exact Rendering.innerText_ne heap renderDepth _ htext
  · rw [List.map_cons, List.map_cons, String.intercalate_cons_cons] at htext
    simp [hs] at htext

/-! More room. -/

namespace Rendering

def widen (more : Nat) (r : Rendering) : Rendering :=
  { r with limit := r.limit + more }

def Widened (more : Nat) : Step → Step → Prop
  | .ok q, step => step = .ok (q.widen more)
  | .error (.full, _), _ => True
  | .error (.interrupted, q), step => step = .error (.interrupted, q.widen more)

def Widens (part : Rendering → Step) : Prop :=
  ∀ r more, Widened more (part r) (part (r.widen more))

lemma widens_pure : Widens pure := fun _ _ => rfl

lemma widens_append (x : String) : Widens (append · x) := by
  intro r more
  change Widened more (append r x) (append (r.widen more) x)
  rw [append, append]
  by_cases hx : x.utf8ByteSize ≤ r.limit - r.text.utf8ByteSize
  · have hx' : x.utf8ByteSize ≤ (r.widen more).limit - (r.widen more).text.utf8ByteSize := by
      change x.utf8ByteSize ≤ r.limit + more - r.text.utf8ByteSize
      omega
    rw [if_pos hx, if_pos hx']
    rfl
  · rw [if_neg hx]
    trivial

lemma widens_visit (raised : Nat → Bool) : Widens (visit raised) := by
  intro r more
  by_cases hr : ((r.visits + 1) % pollInterval = 0 && raised (r.visits + 1)) = true
  · have hup : ∀ q : Rendering, q.visits = r.visits →
        visit raised q = .error (.interrupted, { q with visits := q.visits + 1 }) := by
      intro q hq
      exact if_pos (hq ▸ hr)
    rw [hup r rfl, hup (r.widen more) rfl]
    rfl
  · have hdown : ∀ q : Rendering, q.visits = r.visits → visit raised q = .ok { q with visits := q.visits + 1 } := by
      intro q hq
      exact if_neg (hq ▸ hr)
    rw [hdown r rfl, hdown (r.widen more) rfl]
    rfl

lemma Widens.bind {part next : Rendering → Step} (hp : Widens part) (hn : Widens next) :
    Widens fun r => part r >>= next := by
  intro r more
  have hp := hp r more
  change Widened more (part r >>= next) (part (r.widen more) >>= next)
  cases hr : part r with
  | ok q =>
    rw [hr] at hp
    change part (r.widen more) = _ at hp
    rw [hp]
    exact hn q more
  | error e =>
    obtain ⟨stop, q⟩ := e
    rw [hr] at hp
    cases stop with
    | full => trivial
    | interrupted =>
      change part (r.widen more) = _ at hp
      rw [hp]
      rfl

section Separated

variable {datum : Rendering → Datum → Step} (separator : String) (hd : ∀ d, Widens (datum · d))
include hd

lemma widens_others (ds : List Datum) :
    Widens fun r => Prod.fst <$> ds.foldlM (another datum separator) (r, false) := by
  induction ds with
  | nil => exact widens_pure
  | cons d ds ih =>
    have hnext := (widens_append separator).bind ((hd d).bind ih)
    simpa [another, List.foldlM_cons] using hnext

lemma widens_separated (items : Array Datum) : Widens (separated datum separator · items) := by
  simp only [separated_eq]
  cases items.toList with
  | nil => exact widens_pure
  | cons d ds =>
    have hnext := (hd d).bind (widens_others separator hd ds)
    simpa [another, List.foldlM_cons] using hnext

end Separated

section Values

variable (heap : Heap) (raised : Nat → Bool)

lemma widens_inner (levels : Nat) (d : Datum) : Widens (inner heap raised levels · d) := by
  have hvisited : ∀ {next : Rendering → Step}, Widens next → Widens fun r => r.visit raised >>= next :=
    fun hn => (widens_visit raised).bind hn
  induction levels generalizing d with
  | zero =>
    cases d with
    | nil => exact hvisited (widens_append "nil")
    | bool b => exact hvisited (widens_append _)
    | int v => exact hvisited (widens_append _)
    | str s => exact hvisited (widens_append _)
    | array handle => exact hvisited (widens_append deepText)
  | succ levels ih =>
    cases d with
    | nil => exact hvisited (widens_append "nil")
    | bool b => exact hvisited (widens_append _)
    | int v => exact hvisited (widens_append _)
    | str s => exact hvisited (widens_append _)
    | array handle =>
      have hitems := widens_separated ", " ih (heap.items handle)
      exact hvisited ((widens_append "[").bind (hitems.bind (widens_append "]")))

lemma widens_outer (d : Datum) : Widens (outer heap raised · d) := by
  cases d with
  | str s => exact (widens_visit raised).bind (widens_append s)
  | nil => exact widens_inner heap raised renderDepth .nil
  | bool b => exact widens_inner heap raised renderDepth (.bool b)
  | int v => exact widens_inner heap raised renderDepth (.int v)
  | array handle => exact widens_inner heap raised renderDepth (.array handle)

end Values

end Rendering

lemma render_widen {heap : Heap} {raised : Nat → Bool} {separator : String} {limit limit' : Nat}
    {values : Array Datum} (hle : limit ≤ limit') (h : (render heap raised separator limit values).2 ≠ some .full) :
    render heap raised separator limit' values =
      ((render heap raised separator limit values).1.widen (limit' - limit),
        (render heap raised separator limit values).2) := by
  obtain ⟨more, rfl⟩ := Nat.exists_eq_add_of_le hle
  have hwiden : Rendering.Widened more
      (Rendering.separated (Rendering.outer heap raised) separator ⟨"", limit, 0⟩ values)
      (Rendering.separated (Rendering.outer heap raised) separator ⟨"", limit + more, 0⟩ values) :=
    Rendering.widens_separated separator (Rendering.widens_outer heap raised) values ⟨"", limit, 0⟩ more
  rw [Nat.add_sub_cancel_left]
  rw [render] at h ⊢
  rw [render]
  cases hr : Rendering.separated (Rendering.outer heap raised) separator ⟨"", limit, 0⟩ values with
  | ok q =>
    rw [hr] at hwiden
    rw [Rendering.Widened] at hwiden
    rw [hwiden]
  | error e =>
    obtain ⟨stop, q⟩ := e
    rw [hr] at hwiden h
    cases stop with
    | full => exact absurd rfl h
    | interrupted =>
      rw [Rendering.Widened] at hwiden
      rw [hwiden]

end ScriptHost
