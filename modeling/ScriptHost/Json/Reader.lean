import ScriptHost.Json.Basic
import ScriptHost.Json.Escape
import ScriptHost.Json.Number
import ScriptHost.Json.Piece

/-!
Reading JSON values. Containers nest to a given depth. Half of a surrogate pair stands for no
character, and no number may be too large for a double.
-/

namespace ScriptHost.Json

abbrev Reader := (cs : List Char) → Option (Piece cs Json)

open Piece

/-! Strings. -/

def paired (lead : Nat) : (cs : List Char) → Option (Piece cs Char)
  | '\\' :: 'u' :: a :: b :: c :: d :: cs => do
    let trail ← hex4? a b c d
    if isTrail trail then
      return ⟨.ofNat (pairCode lead trail), cs, by simp only [List.length_cons]; omega⟩
    else none
  | _ => none

def escaped : (cs : List Char) → Option (Piece cs Char)
  | 'u' :: a :: b :: c :: d :: cs => do
    let n ← hex4? a b c d
    if isLead n then
      (paired n cs).map (·.widen (by simp only [List.length_cons]; omega))
    else if isTrail n then none
    else return ⟨.ofNat n, cs, by simp only [List.length_cons]; omega⟩
  | c :: cs => (named? c).map fun e => .head e c cs
  | [] => none

def stringFrom (cs₀ : List Char) (value : String) (cs : List Char)
    (h : cs.length ≤ cs₀.length) : Option (Piece cs₀ String) :=
  match cs with
  | [] => none
  | '"' :: cs => some ⟨value, cs, h⟩
  | '\\' :: cs =>
    match escaped cs with
    | some ⟨c, rest, h₁⟩ =>
      stringFrom cs₀ (value.push c) rest (by simp only [List.length_cons] at h; omega)
    | none => none
  | c :: cs =>
    if c < ' ' then none
    else stringFrom cs₀ (value.push c) cs (by simp only [List.length_cons] at h; omega)
  termination_by cs.length
  decreasing_by all_goals simp only [List.length_cons]; omega

/-! Numbers. -/

def number? (run : List Char) : Option Json := do
  let s ← run.foldlM NumberState.step? .start
  if s.isComplete then
    match ← Number.ofLiteral? run with
    | .int v => return .int v
    | .double _ => return .real (String.ofList run)
  else none

def isNumberPart (c : Char) : Bool :=
  isDigit c || c == '-' || c == '+' || c == '.' || c == 'e' || c == 'E'

/-! Values. -/

def wordRest? : List Char → List Char → Option (List Char)
  | [], cs => some cs
  | _ :: _, [] => none
  | w :: ws, c :: cs => if w == c then wordRest? ws cs else none

theorem length_wordRest? {ws cs rest : List Char} (h : wordRest? ws cs = some rest) :
    rest.length ≤ cs.length := by
  fun_induction wordRest? ws cs with
  | case1 => simp_all
  | case2 => simp at h
  | case3 w ws c cs _ ih => have := ih h; simp only [List.length_cons]; omega
  | case4 => simp at h

def wordValue (j : Json) (c : Char) (ws cs : List Char) : Option (Piece (c :: cs) Json) :=
  match h : wordRest? ws cs with
  | some rest => some ⟨j, rest, Nat.lt_succ_of_le (length_wordRest? h)⟩
  | none => none

def stringValue (cs : List Char) : Option (Piece ('"' :: cs) Json) :=
  (stringFrom cs "" cs (length_all cs)).map fun p => (p.map .str).behindHead

def numberValue (c : Char) (cs : List Char) : Option (Piece (c :: cs) Json) :=
  (number? (c :: cs.takeWhile isNumberPart)).map fun j =>
    ⟨j, cs.dropWhile isNumberPart, Nat.lt_succ_of_le (List.dropWhile_sublist _).length_le⟩

def itemsFrom (item : Reader) (cs₀ : List Char) (found : List Json) (cs : List Char)
    (h : cs.length ≤ cs₀.length) : Option (Piece cs₀ (List Json)) :=
  match item cs with
  | none => none
  | some ⟨j, rest, h₁⟩ =>
    match next? rest with
    | some ⟨',', rest, h₂⟩ => itemsFrom item cs₀ (j :: found) rest (by omega)
    | some ⟨']', rest, h₂⟩ => some ⟨(j :: found).reverse, rest, by omega⟩
    | _ => none
  termination_by cs.length

def fieldName (cs : List Char) : Option (Piece cs String) :=
  match next? cs with
  | some ⟨'"', rest, h⟩ =>
    match stringFrom rest "" rest (length_all rest) with
    | none => none
    | some ⟨name, rest, h₁⟩ =>
      match next? rest with
      | some ⟨':', rest, h₂⟩ => some ⟨name, rest, length_trans h (length_trans h₁ h₂)⟩
      | _ => none
  | _ => none

def fieldsFrom (item : Reader) (cs₀ : List Char) (found : List (String × Json)) (cs : List Char)
    (h : cs.length ≤ cs₀.length) : Option (Piece cs₀ (List (String × Json))) :=
  match fieldName cs with
  | none => none
  | some ⟨name, rest, h₁⟩ =>
    match item rest with
    | none => none
    | some ⟨j, rest, h₂⟩ =>
      match next? rest with
      | some ⟨',', rest, h₃⟩ => fieldsFrom item cs₀ ((name, j) :: found) rest (by omega)
      | some ⟨'}', rest, h₃⟩ => some ⟨((name, j) :: found).reverse, rest, by omega⟩
      | _ => none
  termination_by cs.length

def array (item : Reader) : Reader := fun cs =>
  match next? cs with
  | some ⟨']', rest, h⟩ => some ⟨.arr [], rest, h⟩
  | _ => (itemsFrom item cs [] cs (length_all cs)).map (·.map .arr)

def object (item : Reader) : Reader := fun cs =>
  match next? cs with
  | some ⟨'}', rest, h⟩ => some ⟨.obj [], rest, h⟩
  | _ => (fieldsFrom item cs [] cs (length_all cs)).map (·.map .obj)

/-- A value without the blanks before it; `item` reads what stands in a container. -/
def bareValue (item : Option Reader) : Reader
  | [] => none
  | c :: cs =>
    match c with
    | 'n' => wordValue .null 'n' "ull".toList cs
    | 't' => wordValue (.bool true) 't' "rue".toList cs
    | 'f' => wordValue (.bool false) 'f' "alse".toList cs
    | '"' => stringValue cs
    | '[' => item.bind fun item => (array item cs).map (·.behindHead)
    | '{' => item.bind fun item => (object item cs).map (·.behindHead)
    | c => numberValue c cs

def valueWith (item : Option Reader) : Reader := fun cs =>
  (bareValue item (skip cs)).map (·.behindBlanks)

def value : Nat → Reader
  | 0 => valueWith none
  | room + 1 => valueWith (some (value room))

def depthLimit : Nat := 127

def ofChars? (room : Nat) (cs : List Char) : Option Json := do
  let ⟨j, rest, _⟩ ← value room cs
  if (skip rest).isEmpty then some j else none

def ofText? (s : String) : Option Json :=
  ofChars? depthLimit s.toList

end ScriptHost.Json
