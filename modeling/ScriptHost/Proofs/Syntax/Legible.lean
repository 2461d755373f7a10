import ScriptHost.Compile.Compiler
import ScriptHost.Proofs.Syntax.Trees

/-!
What texts can spell. No text spells a negative literal or an empty name, so no tree read off a text has
one.
-/

namespace ScriptHost

def TokenKind.Legible : TokenKind → Prop
  | .int v => 0 ≤ v
  | .name n => n ≠ ""
  | _ => True

mutual

def Expr.Legible : Expr → Prop
  | .int _ v => 0 ≤ v
  | .array _ items => Expr.AllLegible items
  | .index _ target i => target.Legible ∧ i.Legible
  | .call _ _ args => Expr.AllLegible args
  | .unary _ _ operand => operand.Legible
  | .binary _ _ lhs rhs => lhs.Legible ∧ rhs.Legible
  | .logic _ _ lhs rhs => lhs.Legible ∧ rhs.Legible
  | _ => True

def Expr.AllLegible : List Expr → Prop
  | [] => True
  | e :: es => e.Legible ∧ Expr.AllLegible es

end

def Target.Legible : Target → Prop
  | .var _ _ => True
  | .index _ target i => target.Legible ∧ i.Legible

mutual

/-- The literals of a statement are not negative, and the names that it declares are not empty. -/
def Stmt.Legible : Stmt → Prop
  | .declare _ name init => name ≠ "" ∧ init.Legible
  | .assign _ t value => t.Legible ∧ value.Legible
  | .branch _ cond body none => cond.Legible ∧ Stmt.AllLegible body
  | .branch _ cond body (some otherwise) =>
    cond.Legible ∧ Stmt.AllLegible body ∧ Stmt.AllLegible otherwise
  | .loop _ cond body => cond.Legible ∧ Stmt.AllLegible body
  | .count _ name first bound body =>
    name ≠ "" ∧ first.Legible ∧ bound.Legible ∧ Stmt.AllLegible body
  | .give _ none => True
  | .give _ (some value) => value.Legible
  | .leave _ => True
  | .again _ => True
  | .block _ body => Stmt.AllLegible body
  | .eval _ value => value.Legible

def Stmt.AllLegible : List Stmt → Prop
  | [] => True
  | s :: body => s.Legible ∧ Stmt.AllLegible body

end

structure FunctionDecl.Legible (f : FunctionDecl) : Prop where
  params : ∀ q ∈ f.params, q.1 ≠ ""
  body : Stmt.AllLegible f.body

lemma Expr.allLegible_iff {es : List Expr} : Expr.AllLegible es ↔ ∀ e ∈ es, e.Legible := by
  induction es with
  | nil => simp [Expr.AllLegible]
  | cons e es ih => simp [Expr.AllLegible, ih]

lemma Stmt.allLegible_iff {body : List Stmt} : Stmt.AllLegible body ↔ ∀ s ∈ body, s.Legible := by
  induction body with
  | nil => simp [Stmt.AllLegible]
  | cons s body ih => simp [Stmt.AllLegible, ih]

lemma Target.legible_ofExpr? {e : Expr} {t : Target} (h : Target.ofExpr? e = some t) (he : e.Legible) :
    t.Legible := by
  unfold ofExpr? at h
  split at h <;> cases h
  · trivial
  · exact he

/-! Texts. -/

namespace Lexeme

lemma splitOnto_ne_nil (found : List Lexeme) (cs : List Char) (h : ∀ x ∈ found, x.text ≠ []) :
    ∀ x ∈ splitOnto found cs, x.text ≠ [] := by
  fun_induction splitOnto found cs with
  | case1 found => exact fun x hx => h x (List.mem_reverse.mp hx)
  | case2 found c cs ih => exact ih (List.forall_mem_cons.mpr ⟨List.cons_ne_nil _ _, h⟩)

lemma split_ne_nil (cs : List Char) : ∀ x ∈ split cs, x.text ≠ [] :=
  splitOnto_ne_nil [] cs (by simp)

lemma read_legible (p : Position) {x : Lexeme} (hx : x.text ≠ []) :
    ∀ k ∈ (x.read p).1, k.Legible := by
  intro k hk
  rw [read] at hk
  split at hk
  case h_6 =>
    dsimp only at hk
    split at hk
    · next hlt =>
      cases hk
      change 0 ≤ Int64.ofNat _
      rw [Int64.le_iff_toInt_le, Int64.toInt_ofNat_of_lt hlt]
      exact Int.natCast_nonneg _
    · cases hk
  case h_7 =>
    cases hk
    cases Keyword.ofSpelling? (String.ofList x.text) with
    | some w => trivial
    | none =>
      change String.ofList x.text ≠ ""
      simpa using hx
  all_goals cases hk <;> trivial

end Lexeme

namespace Scan

lemma foldl_add_legible (xs : List Lexeme) (s : Progress) (hx : ∀ x ∈ xs, x.text ≠ [])
    (hs : ∀ t ∈ s.tokens, t.kind.Legible) :
    ∀ t ∈ (xs.foldl Progress.add s).tokens, t.kind.Legible := by
  induction xs generalizing s with
  | nil => exact hs
  | cons x xs ih =>
    obtain ⟨hx, hxs⟩ := List.forall_mem_cons.mp hx
    apply ih _ hxs
    have hread := Lexeme.read_legible s.place hx
    rw [Progress.add]
    split
    next kind found hk =>
    rw [hk] at hread
    cases kind with
    | none => exact hs
    | some k => exact List.forall_mem_cons.mpr ⟨hread k rfl, hs⟩

lemma ofText_legible (s : String) : ∀ t ∈ (ofText s).tokens, t.kind.Legible := by
  have h := foldl_add_legible (Lexeme.split s.toList) ⟨[], [], .start⟩ (Lexeme.split_ne_nil _) (by simp)
  intro t ht
  rcases List.mem_cons.mp (List.mem_reverse.mp ht) with rfl | ht
  · trivial
  · exact h t ht

end Scan

/-! Trees. -/

namespace Parser

lemma Whole.legible {room : Nat} {e : Expr} (h : Whole (fun _ _ e => e.Legible) room e) : e.Legible := by
  cases room with
  | zero => exact h.elim
  | succ room => exact h

lemma legible_keeps : KeepsExpr TokenKind.Legible fun _ _ e => e.Legible where
  int h := h
  str _ := trivial
  bool := trivial
  nil := trivial
  var _ := trivial
  parens h := h.legible
  array h := Expr.allLegible_iff.mpr fun e he => (h e he).legible
  call _ h := Expr.allLegible_iff.mpr fun e he => (h e he).legible
  index ht hi := ⟨ht, hi.legible⟩
  unary h := h
  loosen h := h
  binary hl hr := ⟨hl, hr⟩
  logic hl hr := ⟨hl, hr⟩

lemma Body.legible {room : Nat} {b : List Stmt} (h : Body (fun _ s => s.Legible) room b) :
    Stmt.AllLegible b := by
  cases room with
  | zero => exact h.elim
  | succ room => exact Stmt.allLegible_iff.mpr h

lemma legible_keeps_stmt :
    KeepsStmt TokenKind.Legible (fun _ _ e => e.Legible) fun _ s => s.Legible where
  declare hn he := ⟨hn, he.legible⟩
  assign ht he hv := ⟨Target.legible_ofExpr? ht he.legible, hv.legible⟩
  branch {room p c b o} hc hb ho := by
    cases o with
    | none => exact ⟨hc.legible, hb.legible⟩
    | some o => exact ⟨hc.legible, hb.legible, (ho o rfl).legible⟩
  loop hc hb := ⟨hc.legible, hb.legible⟩
  count hn he hu hb := ⟨hn, he.legible, hu.legible, hb.legible⟩
  give {room p o} h := by
    cases o with
    | none => trivial
    | some e => exact (h e rfl).legible
  leave := trivial
  again := trivial
  block hb := hb.legible
  eval he := he.legible

end Parser

theorem Compiler.parseUnit_legible (u : SourceUnit) :
    ∀ f ∈ (parseUnit u).1.functions, f.Legible := by
  intro f hf
  obtain ⟨hparams, hbody⟩ := Parser.ofTokens_holds Parser.legible_keeps Parser.legible_keeps_stmt
    (Scan.ofText_legible u.text) f hf
  exact ⟨hparams, hbody.legible⟩

end ScriptHost
