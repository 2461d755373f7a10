import ScriptHost.Json.Decoder

/-!
Passing over a value that nothing is made of. It may nest as deep as it likes, its strings need not
be text, and its numbers may have any size.
-/

namespace ScriptHost.Json.Decoder

open Piece

namespace Pass

def escape : Decoder (List Char)
  | [] => .error ⟨.ended .string, 0⟩
  | 'u' :: cs => (hexCode cs).map fun p => (p.map fun _ => []).behindHead
  | c :: cs =>
    if (named? c).isSome then .ok (head [] c cs) else .error ⟨.badEscape, cs.length⟩

def string : Decoder Unit := fun cs =>
  (stringFrom escape cs [] cs (length_all cs)).map (·.map fun _ => ())

def scalar : Decoder Unit
  | 'n' :: cs => word "null" ('n' :: cs)
  | 't' :: cs => word "true" ('t' :: cs)
  | 'f' :: cs => word "false" ('f' :: cs)
  | '"' :: cs => (string cs).map (·.behindHead)
  | cs => (literal .badNumber).map (fun _ => ()) cs

def colon : Decoder Unit := .skipBlanks fun
  | [] => .error ⟨.ended .object, 0⟩
  | ':' :: cs => .ok (head () ':' cs)
  | cs => .error (.ahead .expectedColon cs)

def name : Decoder Unit := .skipBlanks fun
  | [] => .error ⟨.ended .object, 0⟩
  | '"' :: cs => do
    let ⟨_, rest, h⟩ ← string cs
    return ((← colon rest).behind h).behindHead
  | cs => .error (.ahead .nameNotText cs)

inductive Open where
  | list
  | object
deriving DecidableEq, Repr

def front : Decoder (Option Open) := .skipBlanks fun
  | [] => .error ⟨.ended .value, 0⟩
  | '[' :: cs =>
    match next? cs with
    | none => .error ⟨.ended .list, 0⟩
    | some ⟨']', rest, h⟩ => .ok (behindHead ⟨none, rest, h⟩)
    | _ => .ok (head (some .list) '[' cs)
  | '{' :: cs =>
    match next? cs with
    | none => .error ⟨.ended .object, 0⟩
    | some ⟨'}', rest, h⟩ => .ok (behindHead ⟨none, rest, h⟩)
    | _ => (name cs).map fun p => (p.map fun _ => some .object).behindHead
  | cs => scalar.map (fun _ => none) cs

/-- The ends of containers behind a value, the innermost first, up to the front of the next value;
what is left open then. -/
def back (cs₀ : List Char) :
    List Open → (cs : List Char) → cs.length < cs₀.length → Except Flaw (Piece cs₀ (List Open))
  | [], cs, h => .ok ⟨[], cs, h⟩
  | .list :: outer, cs, h =>
    match next? cs with
    | none => .error ⟨.ended .list, 0⟩
    | some ⟨']', rest, h₁⟩ => back cs₀ outer rest (length_trans h h₁)
    | some ⟨',', rest, h₁⟩ => .ok ⟨.list :: outer, rest, length_trans h h₁⟩
    | some ⟨_, rest, _⟩ => .error ⟨.expectedItemEnd, rest.length⟩
  | .object :: outer, cs, h =>
    match next? cs with
    | none => .error ⟨.ended .object, 0⟩
    | some ⟨'}', rest, h₁⟩ => back cs₀ outer rest (length_trans h h₁)
    | some ⟨',', rest, h₁⟩ =>
      (name rest).map fun p => ((p.map fun _ => .object :: outer).behind h₁).behind h
    | some ⟨_, rest, _⟩ => .error ⟨.expectedFieldEnd, rest.length⟩

def value (cs₀ : List Char) (outer : List Open) (cs : List Char) (h : cs.length ≤ cs₀.length) :
    Except Flaw (Piece cs₀ Unit) :=
  match front cs with
  | .error flaw => .error flaw
  | .ok ⟨some o, rest, h₁⟩ => value cs₀ (o :: outer) rest (by omega)
  | .ok ⟨none, rest, h₁⟩ =>
    match back cs outer rest h₁ with
    | .error flaw => .error flaw
    | .ok ⟨[], rest, h₂⟩ => .ok ⟨(), rest, by omega⟩
    | .ok ⟨outer, rest, h₂⟩ => value cs₀ outer rest (by omega)
  termination_by cs.length

end Pass

def pass : Decoder Unit := fun cs =>
  Pass.value cs [] cs (length_all cs)

/-- A value that `f` makes something of; `type` names what is wanted. -/
def whole {α : Type} (type : String) (f : List Char → Option α) : Decoder α := fun cs => do
  let p ← pass cs
  match f (cs.take (cs.length - p.rest.length)) with
  | some a => return p.map fun _ => a
  | none => throw ⟨.noVariant type, p.rest.length⟩

end ScriptHost.Json.Decoder
