import ScriptHost.Proofs.Syntax.Language
import ScriptHost.Proofs.Syntax.Move

/-!
Derivations at other places. Tokens of the same kinds have the same derivations, and these the same trees, but for the
places.
-/

namespace ScriptHost

def Token.move (f : Position → Position) (t : Token) : Token :=
  ⟨t.kind, f t.place⟩

lemma Parser.current_move (f : Position → Position) {ts : List Token} (h : ts ≠ []) :
    current (ts.map (Token.move f)) = (current ts).move f := by
  cases ts with
  | nil => cases h rfl
  | cons t ts => rfl

namespace Grammar

variable (f : Position → Position)

namespace Phrase

def move : {n : Piece} → Phrase n → Phrase n
  | _, int p v => int (f p) v
  | _, str p s => str (f p) s
  | _, yes p => yes (f p)
  | _, no p => no (f p)
  | _, nil p => nil (f p)
  | _, var p n => var (f p) n
  | _, call p n q args => call (f p) n (f q) args.move
  | _, parens q e q' => parens (f q) e.move (f q')
  | _, array p es => array (f p) es.move
  | _, empty q => empty (f q)
  | _, list e es => list e.move es.move
  | _, last q => last (f q)
  | _, next q e es => next (f q) e.move es.move
  | _, unary p o x => unary (f p) o x.move
  | _, indexed x is => indexed x.move is.move
  | _, bare => bare
  | _, index q i q' is => index (f q) i.move (f q') is.move
  | _, single x => single x.move
  | _, run x xs => run x.move xs.move
  | _, stop => stop
  | _, op o ho q x xs => op o ho (f q) x.move xs.move

lemma tokens_move {n : Piece} (d : Phrase n) : (d.move f).tokens = d.tokens.map (Token.move f) := by
  induction d <;> simp_all [move, Token.move]

lemma openings_move {n : Piece} (d : Phrase n) : (d.move f).openings = d.openings := by
  induction d <;> simp_all [move]

def Moved : {n : Piece} → n.Value → n.Value → Prop
  | .primary, e, e' => e' = e.move f
  | .operand, e, e' => e' = e.move f
  | .joined _, e, e' => e' = e.move f
  | .items _, es, es' => es' = Expr.moveAll f es
  | .more _, es, es' => es' = Expr.moveAll f es
  | .indexes, g, g' => ∀ e, g' (e.move f) = (g e).move f
  | .tail _, g, g' => ∀ e, g' (e.move f) = (g e).move f

lemma value_moved {n : Piece} (d : Phrase n) : Moved f d.value (d.move f).value := by
  induction d with
  | index q i q' is hi his =>
    intro e
    change (is.move f).value (.index (f q) (e.move f) (i.move f).value) = _
    rw [show (i.move f).value = i.value.move f from hi]
    exact his (.index q e i.value)
  | op o ho q x xs hx hxs =>
    intro e
    have hjoin : o.join (f q) (e.move f) (x.value.move f) = (o.join q e x.value).move f := by
      cases o <;> simp only [Operator.join, Expr.move]
    change (xs.move f).value (o.join (f q) (e.move f) (x.move f).value) = _
    rw [show (x.move f).value = x.value.move f from hx, hjoin]
    exact hxs (o.join q e x.value)
  | _ => simp_all [move, Moved, Expr.move, Expr.moveAll]

lemma value_move (e : Phrase .whole) : (e.move f).value = e.value.move f :=
  e.value_moved f

end Phrase

lemma writtenAs_move (t : Target) : writtenAs (t.move f) = (writtenAs t).move f := by
  cases t <;> rfl

lemma current_move (e : Phrase .whole) :
    (Parser.current (e.move f).tokens).place = f (Parser.current e.tokens).place := by
  obtain ⟨t, ts, hts, -⟩ := e.whole_first
  rw [e.tokens_move, Parser.current_move f (by simp [hts])]
  rfl

namespace Clause

def move : {n : Form} → Clause n → Clause n
  | _, declare p n q q₁ e q₂ => declare (f p) n (f q) (f q₁) (e.move f) (f q₂)
  | _, assign target t ht q e q₁ =>
    assign (target.move f) (t.move f) (by rw [target.value_move, ht, writtenAs_move]) (f q) (e.move f) (f q₁)
  | _, conditional c => conditional c.move
  | _, loop p cond body => loop (f p) (cond.move f) body.move
  | _, count p n q q₁ first q₂ bound body =>
    count (f p) n (f q) (f q₁) (first.move f) (f q₂) (bound.move f) body.move
  | _, give p q => give (f p) (f q)
  | _, giveValue p e q => giveValue (f p) (e.move f) (f q)
  | _, leave p q => leave (f p) (f q)
  | _, again p q => again (f p) (f q)
  | _, block q body => block (f q) body.move
  | _, eval e q => eval (e.move f) (f q)
  | _, branch p cond body => branch (f p) (cond.move f) body.move
  | _, branchElse p cond body q otherwise => branchElse (f p) (cond.move f) body.move (f q) otherwise.move
  | _, branchLink p cond body q c => branchLink (f p) (cond.move f) body.move (f q) c.move
  | _, braces q body => braces (f q) body.move
  | _, close q => close (f q)
  | _, cons s ss => cons s.move ss.move

lemma tokens_move {n : Form} (d : Clause n) : (d.move f).tokens = d.tokens.map (Token.move f) := by
  induction d <;> simp_all [move, Token.move, Phrase.tokens_move]

lemma openings_move {n : Form} (d : Clause n) : (d.move f).openings = d.openings := by
  induction d <;> simp_all [move, Phrase.openings_move]

def Moved : {n : Form} → n.Value → n.Value → Prop
  | .statement, s, s' => s' = s.move f
  | .conditional, s, s' => s' = s.move f
  | .block, ss, ss' => ss' = Stmt.moveAll f ss
  | .statements, ss, ss' => ss' = Stmt.moveAll f ss

lemma value_moved {n : Form} (d : Clause n) : Moved f d.value (d.move f).value := by
  induction d <;> simp_all [move, Moved, Stmt.move, Stmt.moveAll, Phrase.value_move, current_move]

lemma value_move (b : Clause .block) : (b.move f).value = Stmt.moveAll f b.value :=
  b.value_moved f

end Clause

namespace Parameters

def move : Parameters → Parameters
  | empty q => empty (f q)
  | list first more q => list (first.1, f first.2) (more.map fun (q, n, p) => (f q, n, f p)) (f q)

lemma tokens_move (ps : Parameters) : (ps.move f).tokens = ps.tokens.map (Token.move f) := by
  rcases ps with q | ⟨first, more, q⟩
  · rfl
  · induction more <;> simp_all [move, tokens, Token.move]

lemma value_move (ps : Parameters) : (ps.move f).value = ps.value.map fun p => (p.1, f p.2) := by
  rcases ps with q | ⟨first, more, q⟩
  · rfl
  · simp [move, value, Function.comp_def]

end Parameters

namespace Function

def move (d : Function) : Function :=
  ⟨f d.place, d.name, f d.namePlace, f d.openPlace, d.params.move f, d.body.move f⟩

lemma tokens_move (d : Function) : (d.move f).tokens = d.tokens.map (Token.move f) := by
  simp [move, Token.move, Parameters.tokens_move, Clause.tokens_move]

lemma value_move (d : Function) : (d.move f).value = d.value.move f := by
  rw [FunctionDecl.move, value, value, move]
  dsimp only
  rw [Parameters.value_move, Clause.value_move]

lemma openings_move (d : Function) : (d.move f).openings = d.openings :=
  d.body.openings_move f

end Function

def Comprises (ts : List Token) (fs : List FunctionDecl) : Prop :=
  ∃ u : List Function, u.flatMap Function.tokens = ts ∧ u.map Function.value = fs ∧
    ∀ d ∈ u, d.openings ≤ nestingLimit

lemma comprises_nil : Comprises [] [] :=
  ⟨[], rfl, rfl, fun _ hd => (List.not_mem_nil hd).elim⟩

lemma Comprises.append {ts us : List Token} {fs gs : List FunctionDecl} (h : Comprises ts fs) (h' : Comprises us gs) :
    Comprises (ts ++ us) (fs ++ gs) := by
  obtain ⟨u, rfl, rfl, hu⟩ := h
  obtain ⟨v, rfl, rfl, hv⟩ := h'
  exact ⟨u ++ v, List.flatMap_append, List.map_append, List.forall_mem_append.mpr ⟨hu, hv⟩⟩

lemma Comprises.move {ts : List Token} {fs : List FunctionDecl} (h : Comprises ts fs) :
    Comprises (ts.map (Token.move f)) (fs.map (FunctionDecl.move f)) := by
  obtain ⟨u, rfl, rfl, hu⟩ := h
  refine ⟨u.map (Function.move f), ?_, ?_, ?_⟩
  · rw [List.flatMap_map, List.map_flatMap]
    simp only [Function.tokens_move]
  · rw [List.map_map, List.map_map]
    exact List.map_congr_left fun d _ => d.value_move f
  · intro d hd
    obtain ⟨e, he, rfl⟩ := List.mem_map.mp hd
    rw [e.openings_move]
    exact hu e he

lemma Comprises.name_mem {ts : List Token} {fs : List FunctionDecl} (h : Comprises ts fs) {d : FunctionDecl}
    (hd : d ∈ fs) : .name d.name ∈ ts.map (·.kind) := by
  obtain ⟨u, rfl, rfl, -⟩ := h
  obtain ⟨e, he, rfl⟩ := List.mem_map.mp hd
  have hname : ⟨.name e.name, e.namePlace⟩ ∈ e.tokens := List.mem_cons_of_mem _ List.mem_cons_self
  exact List.mem_map.mpr ⟨_, List.mem_flatMap.mpr ⟨e, he, hname⟩, rfl⟩

lemma ofTokens_ended {ts : List Token} {p : Position} {fs : List FunctionDecl} (hts : Endless ts) :
    Parsed.ofTokens (ts ++ [⟨.eof, p⟩]) = ⟨fs, []⟩ ↔ Comprises ts fs := by
  rw [ofTokens_iff, takeWhile_endless hts (ahead_cons.mpr rfl), Comprises]

lemma exists_move {ts us : List Token} (hk : us.map (·.kind) = ts.map (·.kind)) (hp : (ts.map (·.place)).Nodup) :
    ∃ f : Position → Position, us = ts.map (Token.move f) := by
  induction ts generalizing us with
  | nil => exact ⟨id, List.map_eq_nil_iff.mp hk⟩
  | cons t ts ih =>
    obtain ⟨ht, hts⟩ := List.nodup_cons.mp hp
    obtain ⟨u, us, rfl, hu, hus⟩ := List.map_eq_cons_iff.mp hk
    obtain ⟨f, rfl⟩ := ih hus hts
    refine ⟨fun p => if p = t.place then u.place else f p, ?_⟩
    have hhead : u = t.move fun p => if p = t.place then u.place else f p := by
      dsimp only at hu
      rw [Token.move, if_pos rfl, ← hu]
    have htail : ts.map (Token.move fun p => if p = t.place then u.place else f p) = ts.map (Token.move f) := by
      apply List.map_congr_left
      intro v hv
      have hne : v.place ≠ t.place := fun h => ht (List.mem_map.mpr ⟨v, hv, h⟩)
      rw [Token.move, Token.move, if_neg hne]
    rw [List.map_cons, htail, ← hhead]

end Grammar

end ScriptHost
