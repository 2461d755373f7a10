import ScriptHost.Json.Pass

/-!
Reading lists and records. A record is an object, or a list of its fields in their order; no field
of an object may be read twice, and fields of other names are passed over.
-/

namespace ScriptHost.Json

open Piece

namespace Decoder

/-! Lists. -/

def itemsFrom {α : Type} (item : Decoder α) (cs₀ : List Char) (found : List α) (cs : List Char)
    (h : cs.length ≤ cs₀.length) : Except Flaw (Piece cs₀ (List α)) := do
  let ⟨a, rest, h₁⟩ ← item cs
  match next? rest with
  | none => throw ⟨.ended .list, 0⟩
  | some ⟨']', rest, h₂⟩ => return ⟨(a :: found).reverse, rest, by omega⟩
  | some ⟨',', rest, h₂⟩ =>
    match next? rest with
    | none => throw ⟨.ended .value, 0⟩
    | some ⟨']', after, _⟩ => throw ⟨.trailingComma, after.length⟩
    | _ => itemsFrom item cs₀ (a :: found) rest (by omega)
  | some ⟨_, rest, _⟩ => throw ⟨.expectedItemEnd, rest.length⟩
  termination_by cs.length
  decreasing_by omega

def list {α : Type} (item : Decoder α) : Decoder (List α) := .skipBlanks fun
  | '[' :: cs =>
    match next? cs with
    | none => .error ⟨.ended .list, 0⟩
    | some ⟨']', rest, h⟩ => .ok (behindHead ⟨[], rest, h⟩)
    | _ => (itemsFrom item cs [] cs (length_all cs)).map (·.behindHead)
  | cs => .error (mismatch "a sequence" cs)

end Decoder

/-! Records. -/

/-- A field that is read once at most: what it holds, if it has been read. -/
abbrev Slot (α : Type) := Option α

def Slot.fill? {α σ : Type} (slot : Slot α) (d : Decoder α) (put : Slot α → σ) :
    Option (Decoder σ) :=
  match slot with
  | some _ => none
  | none => some (d.map fun a => put (some a))

def Slot.require {α : Type} (name : String) : Slot α → Except Cause α
  | some a => .ok a
  | none => .error (.missing name)

structure Record (σ α : Type) where
  title : String
  names : List String
  least : Nat := 0
  blank : σ
  field : String → σ → Option (Decoder σ)
  finish : σ → Except Cause α

namespace Record

variable {σ α : Type}

def close (r : Record σ α) {cs₀ : List Char} (s : σ) (rest : List Char)
    (h : rest.length < cs₀.length) : Except Flaw (Piece cs₀ α) :=
  match r.finish s with
  | .ok a => .ok ⟨a, rest, h⟩
  | .error cause => .error ⟨cause, rest.length⟩

def entry (r : Record σ α) (s : σ) : Decoder σ := fun cs => do
  let ⟨name, rest, h₁⟩ ← Decoder.stringBody cs
  match r.field name s with
  | none => throw (.ahead (.duplicate name) (skip rest))
  | some value =>
    let ⟨_, rest, h₂⟩ ← Decoder.Pass.colon rest
    return ((← value rest).behind h₂).behind h₁

def entriesFrom (r : Record σ α) (cs₀ : List Char) (s : σ) (cs : List Char)
    (h : cs.length < cs₀.length) : Except Flaw (Piece cs₀ α) := do
  let ⟨s, rest, h₁⟩ ← r.entry s cs
  match next? rest with
  | none => throw ⟨.ended .object, 0⟩
  | some ⟨'}', rest, h₂⟩ => r.close s rest (by omega)
  | some ⟨',', rest, h₂⟩ =>
    match next? rest with
    | none => throw ⟨.ended .value, 0⟩
    | some ⟨'"', rest, h₃⟩ => entriesFrom r cs₀ s rest (by omega)
    | some ⟨'}', after, _⟩ => throw ⟨.trailingComma, after.length⟩
    | some ⟨_, after, _⟩ => throw ⟨.nameNotText, after.length⟩
  | some ⟨_, rest, _⟩ => throw ⟨.expectedFieldEnd, rest.length⟩
  termination_by cs.length
  decreasing_by omega

def listEnd (r : Record σ α) {cs₀ : List Char} (s : σ) (cs : List Char)
    (h : cs.length < cs₀.length) : Except Flaw (Piece cs₀ α) :=
  match next? cs with
  | none => .error ⟨.ended .list, 0⟩
  | some ⟨']', rest, h₁⟩ => r.close s rest (length_trans h h₁)
  | some ⟨',', rest, _⟩ =>
    match next? rest with
    | some ⟨']', after, _⟩ => .error ⟨.trailingComma, after.length⟩
    | _ => .error (.ahead .trailing (skip rest))
  | some ⟨_, rest, _⟩ => .error ⟨.trailing, rest.length⟩

def asList (r : Record σ α) : String :=
  let n := r.names.length
  r.title ++ " with " ++ toString n ++ (if n = 1 then " element" else " elements")

/-- The field of a list that comes next, if the list does not end there. `isFirst` says that no
field stands before it. -/
def nextItem (isFirst : Bool) (cs : List Char) (d : Decoder σ) :
    Except Flaw (Option (Piece cs σ)) := do
  match next? cs with
  | none => throw ⟨.ended .list, 0⟩
  | some ⟨']', _, _⟩ => return none
  | some ⟨c, rest, h⟩ =>
    if isFirst then return some (← d cs)
    else if c == ',' then
      match next? rest with
      | none => throw ⟨.ended .value, 0⟩
      | some ⟨']', after, _⟩ => throw ⟨.trailingComma, after.length⟩
      | _ => return some ((← d rest).behind h)
    else throw ⟨.expectedItemEnd, rest.length⟩

def itemsFrom (r : Record σ α) (cs₀ : List Char) (count : Nat) (s : σ) :
    (names : List String) → (cs : List Char) → cs.length < cs₀.length →
    Except Flaw (Piece cs₀ α)
  | [], cs, h => r.listEnd s cs h
  | name :: names, cs, h => do
    match r.field name s with
    | none => throw (.ahead (.duplicate name) (skip cs))
    | some d =>
      match ← nextItem (count = 0) cs d with
      | some ⟨s, rest, h₁⟩ => itemsFrom r cs₀ (count + 1) s names rest (length_trans h h₁)
      | none =>
        if count < r.least then throw (.ahead (.tooShort count r.asList) (skip cs))
        else r.listEnd s cs h

def decoder (r : Record σ α) : Decoder α := .skipBlanks fun
  | '{' :: cs =>
    match next? cs with
    | none => .error ⟨.ended .object, 0⟩
    | some ⟨'}', rest, h⟩ => (r.close r.blank rest h).map (·.behindHead)
    | some ⟨'"', rest, h⟩ => (r.entriesFrom cs r.blank rest h).map (·.behindHead)
    | some ⟨_, rest, _⟩ => .error ⟨.nameNotText, rest.length⟩
  | '[' :: cs => r.itemsFrom ('[' :: cs) 0 r.blank r.names cs (length_tail '[' cs)
  | cs => .error (Decoder.mismatch r.title cs)

end Record

end ScriptHost.Json
