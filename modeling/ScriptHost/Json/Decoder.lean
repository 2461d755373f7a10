import ScriptHost.Json.Escape
import ScriptHost.Json.Flaw
import ScriptHost.Json.Number
import ScriptHost.Json.Piece
import ScriptHost.Text.Quoted
import ScriptHost.Text.Shortest
import ScriptHost.Text.Utf8

/-!
Reading something in particular off a JSON text, up to the first flaw. A text is read by its octets,
each of them the character of that number.
-/

namespace ScriptHost.Json

def octets (bytes : ByteArray) : List Char :=
  bytes.toList.map fun b => .ofNat b.toNat

def octetsOf (s : String) : List Char :=
  octets s.toUTF8

def bytesOf (cs : List Char) : List UInt8 :=
  cs.map fun c => .ofNat c.toNat

def textOf? (cs : List Char) : Option String :=
  Text.Utf8.spelt? (bytesOf cs)

abbrev Decoder (α : Type) := (cs : List Char) → Except Flaw (Piece cs α)

namespace Decoder

open Piece

def map {α β : Type} (f : α → β) (d : Decoder α) : Decoder β := fun cs =>
  (d cs).map (·.map f)

def skipBlanks {α : Type} (d : Decoder α) : Decoder α := fun cs =>
  (d (skip cs)).map (·.behindBlanks)

def readAll {α : Type} (d : Decoder α) (cs : List Char) : Except Flaw α := do
  let ⟨a, rest, _⟩ ← d cs
  match skip rest with
  | [] => return a
  | rest => throw (.ahead .trailing rest)

/-! Strings. -/

def hexCode : Decoder Nat
  | a :: b :: c :: d :: cs =>
    match hex4? a b c d with
    | some n => .ok ((head n d cs).behindHead.behindHead.behindHead)
    | none => .error ⟨.badEscape, cs.length⟩
  | _ => .error ⟨.ended .string, 0⟩

/-- A character that the second half of a pair must have. -/
def pairSign (wanted : Char) : Decoder Unit
  | [] => .error ⟨.ended .string, 0⟩
  | c :: cs => if c == wanted then .ok (head () c cs) else .error ⟨.cutPair, cs.length⟩

def trail : Decoder Nat := fun cs => do
  let ⟨_, rest, h₁⟩ ← pairSign '\\' cs
  let ⟨_, rest', h₂⟩ ← pairSign 'u' rest
  let p ← hexCode rest'
  if isTrail p.value then return (p.behind h₂).behind h₁ else throw ⟨.loneHalf, p.rest.length⟩

def octetsOfCode (n : Nat) : List Char :=
  octetsOf (Char.ofNat n).toString

def escape : Decoder (List Char)
  | [] => .error ⟨.ended .string, 0⟩
  | 'u' :: cs => do
    let p ← hexCode cs
    if isTrail p.value then throw ⟨.loneHalf, p.rest.length⟩
    else if isLead p.value then
      let t ← trail p.rest
      return ((t.map fun t => octetsOfCode (pairCode p.value t)).behind p.shorter).behindHead
    else return (p.map octetsOfCode).behindHead
  | c :: cs =>
    match named? c with
    | some e => .ok (head [e] c cs)
    | none => .error ⟨.badEscape, cs.length⟩

def stringFrom (escape : Decoder (List Char)) (cs₀ found cs : List Char)
    (h : cs.length ≤ cs₀.length) : Except Flaw (Piece cs₀ (List Char)) :=
  match cs with
  | [] => .error ⟨.ended .string, 0⟩
  | '"' :: cs => .ok ⟨found.reverse, cs, h⟩
  | '\\' :: cs =>
    match escape cs with
    | .ok ⟨os, rest, h₁⟩ =>
      stringFrom escape cs₀ (os.reverse ++ found) rest (by simp only [List.length_cons] at h; omega)
    | .error flaw => .error flaw
  | c :: cs =>
    if c < ' ' then .error ⟨.control, cs.length⟩
    else stringFrom escape cs₀ (c :: found) cs (by simp only [List.length_cons] at h; omega)
  termination_by cs.length
  decreasing_by all_goals simp only [List.length_cons]; omega

/-- The flaw of a string whose value is no text, with some octets left behind the string. It shows
as far in front of the end of the string as what is no text is in front of the end of the value. -/
def notText (value : List Char) (left : Nat) : Flaw :=
  ⟨.notUnicode, left + (value.length - Text.Utf8.textLength (bytesOf value))⟩

def stringBody : Decoder String := fun cs => do
  let p ← stringFrom escape cs [] cs (length_all cs)
  match textOf? p.value with
  | some s => return p.map fun _ => s
  | none => throw (notText p.value p.rest.length)

/-! Words and numbers. -/

def wordFrom (cs₀ : List Char) : (w cs : List Char) → cs.length < cs₀.length →
    Except Flaw (Piece cs₀ Unit)
  | [], cs, h => .ok ⟨(), cs, h⟩
  | _ :: _, [], _ => .error ⟨.ended .value, 0⟩
  | w :: ws, c :: cs, h =>
    if w == c then wordFrom cs₀ ws cs (Nat.lt_of_succ_lt h) else .error ⟨.expectedWord, cs.length⟩

def word (w : String) : Decoder Unit
  | [] => .error ⟨.ended .value, 0⟩
  | c :: cs => wordFrom (c :: cs) (w.toList.drop 1) cs (length_tail c cs)

/-- The rest of a literal behind the part already `found`, newest first. `cut` is what is wrong if
the text ends in the midst of it. -/
def literalFrom (cut : Cause) (cs₀ found : List Char) (s : NumberState) :
    (cs : List Char) → cs.length < cs₀.length → Except Flaw (Piece cs₀ (List Char))
  | [], h =>
    if s.isComplete then .ok ⟨found.reverse, [], h⟩ else .error ⟨cut, 0⟩
  | c :: cs, h =>
    match s.step? c with
    | some s => literalFrom cut cs₀ (c :: found) s cs (Nat.lt_of_succ_lt h)
    | none =>
      if s.endsBefore c then .ok ⟨found.reverse, c :: cs, h⟩ else .error ⟨.badNumber, cs.length⟩

def literal (cut : Cause) : Decoder (List Char)
  | [] => .error ⟨.ended .value, 0⟩
  | c :: cs =>
    match NumberState.start.step? c with
    | some s => literalFrom cut (c :: cs) [c] s cs (length_tail c cs)
    | none => .error ⟨.expectedValue, cs.length⟩

def number : Decoder Number := fun cs => do
  let p ← literal (.ended .value) cs
  match Number.ofLiteral? p.value with
  | some n => return p.map fun _ => n
  | none => throw (.ahead .hugeNumber p.rest)

/-! Values of one kind. -/

def describeNumber : Number → String
  | .int v => "integer `" ++ toString v ++ "`"
  | .double x => "floating point `" ++ Text.Shortest.write x ++ "`"

/-- The flaw of a text that goes on with a value of another kind than wanted. A list or an object
shows by its bracket, a number by what follows it. -/
def mismatch (wanted : String) (cs : List Char) : Flaw :=
  let flaw (found : String) (left : Nat) : Flaw := ⟨.mismatch found wanted, left⟩
  let result : Except Flaw Flaw := match cs with
    | [] => throw ⟨.ended .value, 0⟩
    | 'n' :: _ => do return flaw "null" (← word "null" cs).rest.length
    | 't' :: _ => do return flaw "boolean `true`" (← word "true" cs).rest.length
    | 'f' :: _ => do return flaw "boolean `false`" (← word "false" cs).rest.length
    | '"' :: cs => do
      let p ← stringBody cs
      return flaw ("string " ++ Text.Quoted.quote p.value) p.rest.length
    | '[' :: cs => return flaw "sequence" cs.length
    | '{' :: cs => return flaw "map" cs.length
    | cs => do
      let p ← number cs
      return flaw (describeNumber p.value) (p.rest.length - 1)
  match result with
  | .ok flaw => flaw
  | .error flaw => flaw

def text : Decoder String := .skipBlanks fun
  | '"' :: cs => (stringBody cs).map (·.behindHead)
  | cs => .error (mismatch "a string" cs)

def flag : Decoder Bool := .skipBlanks fun
  | 't' :: cs => (word "true").map (fun _ => true) ('t' :: cs)
  | 'f' :: cs => (word "false").map (fun _ => false) ('f' :: cs)
  | cs => .error (mismatch "a boolean" cs)

def natBelow (limit : Nat) (wanted : String) : Decoder Nat := .skipBlanks fun
  | [] => .error (mismatch wanted [])
  | c :: cs => do
    if c == '-' || isDigit c then
      let p ← number (c :: cs)
      match p.value with
      | .int v =>
        if 0 ≤ v && v < limit then return p.map fun _ => v.toNat
        else throw (.ahead (.outOfRange v wanted) p.rest)
      | .double _ => throw (.ahead (.mismatch (describeNumber p.value) wanted) p.rest)
    else throw (mismatch wanted (c :: cs))

def option {α : Type} (d : Decoder α) : Decoder (Option α) := .skipBlanks fun
  | 'n' :: cs => (word "null").map (fun _ => none) ('n' :: cs)
  | cs => d.map some cs

end Decoder

end ScriptHost.Json
