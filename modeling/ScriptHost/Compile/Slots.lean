/-!
Slots of local variables. The variables in scope have the slots below `next`, the newest one the
highest, so a scope ends by going back to the slots of the scope around it.
-/

namespace ScriptHost

structure Slots where
  /-- The names in scope, newest first. -/
  names : List String
  next : Nat
  next_eq : next = names.length
deriving Repr

namespace Slots

def empty : Slots := ⟨[], 0, rfl⟩

def declare (s : Slots) (name : String) : Slots :=
  ⟨name :: s.names, s.next + 1, by simp [s.next_eq]⟩

def find? (s : Slots) (name : String) : Option Nat :=
  (s.names.idxOf? name).map fun i => s.next - 1 - i

/-- Parameters take the first slots; a repeated name takes none. -/
def ofParams (names : List String) : Slots :=
  names.foldl (fun s n => if n ∈ s.names then s else s.declare n) empty

end Slots

end ScriptHost
