/-!
Text from bytes. Bytes fall into runs, each of them a character or as much of one as there is; a run
that is no character reads as the replacement character.
-/

namespace ScriptHost.Text.Utf8

def replacement : Char := '\uFFFD'

def isSecond (first second : UInt8) : Bool :=
  let f := first.toNat
  let s := second.toNat
  if f = 0xE0 then 0xA0 ≤ s && s < 0xC0
  else if f = 0xED then 0x80 ≤ s && s < 0xA0
  else if f = 0xF0 then 0x90 ≤ s && s < 0xC0
  else if f = 0xF4 then 0x80 ≤ s && s < 0x90
  else 0x80 ≤ s && s < 0xC0

def isFurther (b : UInt8) : Bool :=
  0x80 ≤ b.toNat && b.toNat < 0xC0

def width? (first : UInt8) : Option Nat :=
  let f := first.toNat
  if f < 0x80 then some 1
  else if 0xC2 ≤ f && f < 0xE0 then some 2
  else if 0xE0 ≤ f && f < 0xF0 then some 3
  else if 0xF0 ≤ f && f < 0xF5 then some 4
  else none

/-- How many bytes in front belong together: a character, or as much of one as there is. -/
def run (bs : List UInt8) : Nat :=
  match bs with
  | [] => 0
  | first :: rest =>
    match width? first, rest with
    | some width, second :: further =>
      if width = 1 || !isSecond first second then 1
      else 2 + ((further.take (width - 2)).takeWhile isFurther).length
    | _, _ => 1

theorem run_pos (b : UInt8) (bs : List UInt8) : 0 < run (b :: bs) := by
  unfold run
  split <;> try simp_all
  split <;> try omega
  split <;> omega

theorem length_drop_run (b : UInt8) (bs : List UInt8) :
    ((b :: bs).drop (run (b :: bs))).length < (b :: bs).length := by
  have := run_pos b bs
  simp only [List.length_drop, List.length_cons]
  omega

def spelt? (bs : List UInt8) : Option String :=
  String.fromUTF8? ⟨bs.toArray⟩

def decodeOnto (out : String) (bs : List UInt8) : String :=
  match bs with
  | [] => out
  | b :: rest =>
    let spelt := spelt? ((b :: rest).take (run (b :: rest)))
    decodeOnto (out ++ spelt.getD (String.singleton replacement))
      ((b :: rest).drop (run (b :: rest)))
  termination_by bs.length
  decreasing_by exact length_drop_run b rest

def decode (bs : List UInt8) : String :=
  decodeOnto "" bs

def textLengthFrom (n : Nat) (bs : List UInt8) : Nat :=
  match bs with
  | [] => n
  | b :: rest =>
    if (spelt? ((b :: rest).take (run (b :: rest)))).isSome then
      textLengthFrom (n + run (b :: rest)) ((b :: rest).drop (run (b :: rest)))
    else n
  termination_by bs.length
  decreasing_by exact length_drop_run b rest

def textLength (bs : List UInt8) : Nat :=
  textLengthFrom 0 bs

end ScriptHost.Text.Utf8
