/-!
What is read off the front of some characters. The rest is shorter, so that reading comes to an end.
-/

namespace ScriptHost.Json

def isBlank (c : Char) : Bool :=
  c == ' ' || c == '\n' || c == '\t' || c == '\r'

def skip (cs : List Char) : List Char :=
  cs.dropWhile isBlank

structure Piece (cs : List Char) (α : Type) where
  value : α
  rest : List Char
  shorter : rest.length < cs.length

namespace Piece

variable {α β : Type} {bs cs : List Char} {c : Char}

theorem length_skip (cs : List Char) : (skip cs).length ≤ cs.length :=
  (List.dropWhile_sublist _).length_le

theorem length_all (cs : List Char) : cs.length ≤ cs.length :=
  Nat.le_refl _

theorem length_tail (c : Char) (cs : List Char) : cs.length < (c :: cs).length :=
  Nat.lt_succ_self _

theorem length_trans {as : List Char} (h₁ : bs.length < cs.length) (h₂ : as.length < bs.length) :
    as.length < cs.length :=
  Nat.lt_trans h₂ h₁

def map (f : α → β) (p : Piece cs α) : Piece cs β :=
  ⟨f p.value, p.rest, p.shorter⟩

def head (a : α) (c : Char) (cs : List Char) : Piece (c :: cs) α :=
  ⟨a, cs, length_tail c cs⟩

def widen (h : bs.length ≤ cs.length) (p : Piece bs α) : Piece cs α :=
  ⟨p.value, p.rest, Nat.lt_of_lt_of_le p.shorter h⟩

def behind (h : bs.length < cs.length) (p : Piece bs α) : Piece cs α :=
  p.widen (Nat.le_of_lt h)

def behindHead (p : Piece cs α) : Piece (c :: cs) α :=
  p.behind (length_tail c cs)

def behindBlanks (p : Piece (skip cs) α) : Piece cs α :=
  p.widen (length_skip cs)

def next? (cs : List Char) : Option (Piece cs Char) :=
  match h : skip cs with
  | [] => none
  | c :: rest => some ⟨c, rest, Nat.lt_of_lt_of_le (h ▸ length_tail c rest) (length_skip cs)⟩

end Piece

end ScriptHost.Json
