/-!
Classes of characters, each given by the code points at which membership changes, in rising order.
A character is in the class when an odd number of changes lies at or below it.
-/

namespace ScriptHost.Text.CharClass

/-- Membership after passing every change at or below `code`, if it was `inside` before them. -/
def toggle (code : Nat) (inside : Bool) : List Nat → Bool
  | [] => inside
  | b :: bounds => if code < b then inside else toggle code (!inside) bounds

def holds (bounds : List Nat) (c : Char) : Bool :=
  toggle c.toNat false bounds

theorem toggle_not (code : Nat) (inside : Bool) (bounds : List Nat) :
    toggle code (!inside) bounds = !toggle code inside bounds := by
  induction bounds generalizing inside with
  | nil => rfl
  | cons b bounds ih => simp only [toggle]; split <;> simp [ih]

end ScriptHost.Text.CharClass
