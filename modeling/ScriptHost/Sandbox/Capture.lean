import ScriptHost.Text.Fit

/-!
Output streams that keep a bounded amount of text and count the bytes that did not fit.
-/

namespace ScriptHost

structure Captured where
  text : String := ""
  dropped : Nat := 0
deriving DecidableEq, Repr, Inhabited

structure Capture where
  limit : Nat
  kept : Captured := {}
deriving DecidableEq, Repr

namespace Capture

def room (c : Capture) : Nat :=
  c.limit - c.kept.text.utf8ByteSize

def write (c : Capture) (s : String) : Capture :=
  if s.utf8ByteSize ≤ c.room then
    { c with kept := ⟨c.kept.text ++ s, c.kept.dropped⟩ }
  else
    let part := Text.fit c.room s
    { c with
      kept := ⟨c.kept.text ++ part, c.kept.dropped + (s.utf8ByteSize - part.utf8ByteSize)⟩ }

def take (c : Capture) : Captured × Capture :=
  (c.kept, { c with kept := {} })

theorem limit_write (c : Capture) (s : String) : (c.write s).limit = c.limit := by
  unfold write
  split <;> rfl

end Capture

end ScriptHost
