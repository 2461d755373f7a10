import ScriptHost.Proofs.Machine.Render

/-!
How much a rendering does. The limit bounds its text and, since all but a string that stands alone shows as some text,
its visits too, on heaps that share arrays or lead back to themselves as well.
-/

namespace ScriptHost

namespace Rendering

def weight (r : Rendering) : Int :=
  r.visits - r.text.utf8ByteSize

/-- A step adds at most `a` to the weight where it goes on, and `b` where it stops. -/
def Gains (r : Rendering) (a b : Int) : Step → Prop
  | .ok q => q.weight ≤ r.weight + a
  | .error (_, q) => q.weight ≤ r.weight + b

def Gain (part : Rendering → Step) (a b : Int) : Prop :=
  ∀ r, Gains r a b (part r)

section Parts

variable {part next : Rendering → Step} {a a' b b' : Int}

lemma Gain.mono (h : Gain part a b) (ha : a ≤ a') (hb : b ≤ b') : Gain part a' b' := by
  intro r
  have hr := h r
  cases hp : part r with
  | ok q =>
    rw [hp] at hr
    exact Int.le_trans hr (Int.add_le_add_left ha _)
  | error e =>
    rw [hp] at hr
    exact Int.le_trans hr (Int.add_le_add_left hb _)

lemma gain_pure : Gain pure 0 b := fun r => Int.le_of_eq (Int.add_zero r.weight).symm

lemma gain_append (x : String) : Gain (append · x) (-x.utf8ByteSize) 0 := by
  intro r
  change Gains r _ _ (append r x)
  rw [append]
  split
  · simp only [Gains, weight, String.utf8ByteSize_append]
    omega
  · simp only [Gains, weight, String.utf8ByteSize_append]
    omega

lemma gain_visit (raised : Nat → Bool) : Gain (visit raised) 1 1 := by
  intro r
  simp only [visit]
  split
  · simp only [Gains, weight]
    omega
  · simp only [Gains, weight]
    omega

lemma Gain.bind (h : Gain part a b) (h' : Gain next a' b') :
    Gain (fun r => part r >>= next) (a + a') (max b (a + b')) := by
  intro r
  have hr := h r
  change Gains r _ _ (part r >>= next)
  cases hp : part r with
  | error e =>
    rw [hp, Gains] at hr
    change e.2.weight ≤ _
    omega
  | ok q =>
    rw [hp, Gains] at hr
    have hq := h' q
    change Gains r _ _ (next q)
    cases hn : next q with
    | ok p =>
      rw [hn, Gains] at hq
      rw [Gains]
      omega
    | error e =>
      rw [hn, Gains] at hq
      rw [Gains]
      omega

section Separated

variable {datum : Rendering → Datum → Step} (separator : String) (hd : ∀ d, Gain (datum · d) a b) (ha : 0 ≤ a)
  (hab : a ≤ b)
include hd ha

lemma gain_first {rest : Rendering → Step} {n : Nat} (hrest : Gain rest (n * a) (n * a + (b - a))) (d : Datum) :
    Gain (fun r => datum r d >>= rest) ((n + 1) * a) ((n + 1) * a + (b - a)) := by
  have hsucc : ((n : Int) + 1) * a = n * a + a := by rw [Int.add_mul, Int.one_mul]
  have hnonneg : 0 ≤ (n : Int) * a := Int.mul_nonneg (Int.natCast_nonneg n) ha
  rw [hsucc]
  refine ((hd d).bind hrest).mono ?_ ?_
  · omega
  · omega

include hab

lemma gain_others (ds : List Datum) :
    Gain (fun r => Prod.fst <$> ds.foldlM (another datum separator) (r, false)) (ds.length * a)
      (ds.length * a + (b - a)) := by
  induction ds with
  | nil =>
    rw [List.length_nil, Int.natCast_zero, Int.zero_mul]
    exact gain_pure
  | cons d ds ih =>
    have hall := (gain_append separator).bind (gain_first hd ha ih d)
    have hnonneg : 0 ≤ ((ds.length : Int) + 1) * a := Int.mul_nonneg (by omega) ha
    rw [List.length_cons, Int.natCast_succ]
    refine Gain.mono (by simpa [another, List.foldlM_cons] using hall) ?_ ?_
    · omega
    · omega

lemma gain_separated (items : Array Datum) :
    Gain (separated datum separator · items) (items.size * a) (items.size * a + (b - a)) := by
  simp only [separated_eq]
  rw [← Array.length_toList]
  cases items.toList with
  | nil =>
    rw [List.length_nil, Int.natCast_zero, Int.zero_mul]
    exact gain_pure
  | cons d ds =>
    have hall := gain_first hd ha (gain_others separator hd ha hab ds) d
    rw [List.length_cons, Int.natCast_succ]
    simpa [another, List.foldlM_cons] using hall

end Separated

section Values

variable (heap : Heap) (raised : Nat → Bool)

lemma gain_inner (levels : Nat) (d : Datum) : Gain (inner heap raised levels · d) 0 1 := by
  have hvisited : ∀ {next : Rendering → Step}, Gain next (-1) 0 → Gain (fun r => r.visit raised >>= next) 0 1 :=
    fun hn => ((gain_visit raised).bind hn).mono (by omega) (by omega)
  have htext : ∀ x : String, x ≠ "" → Gain (fun r => r.visit raised >>= (append · x)) 0 1 := by
    intro x hx
    have hpos : 0 < x.utf8ByteSize := Nat.pos_of_ne_zero fun h => hx (String.utf8ByteSize_eq_zero_iff.mp h)
    exact hvisited ((gain_append x).mono (by omega) (Int.le_refl 0))
  induction levels generalizing d with
  | zero =>
    have hne := innerText_ne heap 0 d
    cases d with
    | nil => exact htext "nil" hne
    | bool b => exact htext _ hne
    | int v => exact htext _ hne
    | str s => exact htext _ hne
    | array handle => exact htext deepText hne
  | succ levels ih =>
    have hne := innerText_ne heap (levels + 1) d
    cases d with
    | nil => exact htext "nil" hne
    | bool b => exact htext _ hne
    | int v => exact htext _ hne
    | str s => exact htext _ hne
    | array handle =>
      have hitems := gain_separated ", " ih (Int.le_refl 0) (by decide) (heap.items handle)
      have hall := (gain_visit raised).bind ((gain_append "[").bind (hitems.bind (gain_append "]")))
      have hopen : "[".utf8ByteSize = 1 := rfl
      refine hall.mono ?_ ?_
      · omega
      · omega

lemma gain_outer (d : Datum) : Gain (outer heap raised · d) 1 1 := by
  have hinner := fun d => (gain_inner heap raised renderDepth d).mono (Int.zero_le_ofNat 1) (Int.le_refl 1)
  cases d with
  -- a string that stands alone may be empty, so its visit is not made up for by its text
  | str s => exact ((gain_visit raised).bind (gain_append s)).mono (by omega) (by omega)
  | nil => exact hinner .nil
  | bool b => exact hinner (.bool b)
  | int v => exact hinner (.int v)
  | array handle => exact hinner (.array handle)

end Values

end Parts

end Rendering

lemma render_visits_le (heap : Heap) (raised : Nat → Bool) (separator : String) (limit : Nat) (values : Array Datum) :
    (render heap raised separator limit values).1.visits ≤
      values.size + (render heap raised separator limit values).1.text.utf8ByteSize := by
  have hgain : Rendering.Gains ⟨"", limit, 0⟩ _ _
      (Rendering.separated (Rendering.outer heap raised) separator ⟨"", limit, 0⟩ values) :=
    Rendering.gain_separated separator (Rendering.gain_outer heap raised) (by decide) (Int.le_refl 1) values _
  rw [render]
  cases hr : Rendering.separated (Rendering.outer heap raised) separator ⟨"", limit, 0⟩ values with
  | ok q =>
    simp [hr, Rendering.Gains, Rendering.weight] at hgain
    dsimp only
    omega
  | error e =>
    simp [hr, Rendering.Gains, Rendering.weight] at hgain
    dsimp only
    omega

/-- Unless the signal is up, a rendering keeps the longest beginning of the whole text that is within the limit, tells
that it is full if that is not all, and comes to it after as many visits as there are values and bytes, at most. -/
theorem rendering_keeps_longest_beginning {raised : Nat → Bool} (hquiet : ∀ n, raised n = false) (heap : Heap)
    (separator : String) (limit : Nat) (values : Array Datum) :
    ∃ r stop, render heap raised separator limit values = (r, stop) ∧
      (∀ text, Text.Longest limit (wholeText heap separator values) text ↔ text = r.text) ∧
      stop = (if limit < (wholeText heap separator values).utf8ByteSize then some .full else none) ∧
      r.visits ≤ values.size + limit := by
  have hadded := render_added heap raised separator limit values
  have hvisits := render_visits_le heap raised separator limit values
  have hlongest : ∀ {r : Rendering}, r.text = Text.fit limit (wholeText heap separator values) →
      (∀ text, Text.Longest limit (wholeText heap separator values) text ↔ text = r.text) ∧
      r.text.utf8ByteSize ≤ limit := by
    intro r hr
    rw [hr]
    exact ⟨fun text => ⟨Text.Longest.eq_fit, fun heq => heq ▸ Text.longest_fit _ _⟩, Text.utf8ByteSize_fit_le_room _ _⟩
  rcases hr : render heap raised separator limit values with ⟨r, stop⟩
  rw [hr] at hadded hvisits
  cases stop with
  | none =>
    obtain ⟨htext, hsize⟩ := hadded
    obtain ⟨hiff, hle⟩ := hlongest (htext.trans (Text.fit_of_le hsize).symm)
    exact ⟨r, none, rfl, hiff, (if_neg (Nat.not_lt.mpr hsize)).symm, Nat.le_trans hvisits (Nat.add_le_add_left hle _)⟩
  | some stop =>
    cases stop with
    | full =>
      obtain ⟨htext, hsize⟩ := hadded
      obtain ⟨hiff, hle⟩ := hlongest htext
      exact ⟨r, some .full, rfl, hiff, (if_pos hsize).symm, Nat.le_trans hvisits (Nat.add_le_add_left hle _)⟩
    | interrupted =>
      obtain ⟨n, hn⟩ := hadded
      rw [hquiet n] at hn
      cases hn

def mirrors : Heap := #[#[.str "é", .array 0, .array 0]]

theorem rendering_keeps_longest_beginning_cyclic :
    (∀ n, (fun _ : Nat => false) n = false) ∧
    (∀ text, Text.Longest 7 (wholeText mirrors " " #[.array 0, .nil]) text ↔ text = "[\"é\", ") ∧
    (render mirrors (fun _ => false) " " 7 #[.array 0, .nil]).2 = some .full ∧
    (∀ text, Text.Longest 2 (wholeText mirrors " " #[.array 0, .nil]) text ↔ text = "[\"") ∧
    7 < (wholeText mirrors " " #[.array 0, .nil]).utf8ByteSize := by
  have hquiet : ∀ n, (fun _ : Nat => false) n = false := fun _ => rfl
  obtain ⟨r, stop, hr, hlongest, hstop, -⟩ :=
    rendering_keeps_longest_beginning hquiet mirrors " " 7 #[.array 0, .nil]
  obtain ⟨r', stop', hr', hlongest', -, -⟩ :=
    rendering_keeps_longest_beginning hquiet mirrors " " 2 #[.array 0, .nil]
  have htext : r.text = "[\"é\", " ∧ stop = some .full := by
    have heq : (render mirrors (fun _ => false) " " 7 #[.array 0, .nil]).1.text = "[\"é\", " ∧
        (render mirrors (fun _ => false) " " 7 #[.array 0, .nil]).2 = some .full := by decide +kernel
    rwa [hr] at heq
  have htext' : r'.text = "[\"" := by
    have heq : (render mirrors (fun _ => false) " " 2 #[.array 0, .nil]).1.text = "[\"" := by decide +kernel
    rwa [hr'] at heq
  refine ⟨hquiet, fun text => ?_, ?_, fun text => ?_, ?_⟩
  · rw [hlongest, htext.1]
  · rw [hr, htext.2]
  · rw [hlongest', htext']
  · rw [htext.2] at hstop
    exact Decidable.byContradiction fun hle => by simp [if_neg hle] at hstop

end ScriptHost
