/-!
Which sessions can be looked up: all that are not over, and the last few of the others.
-/

namespace ScriptHost

structure Registry where
  known : List Nat := []
  /-- The known sessions that are over, oldest first. -/
  retired : List Nat := []
deriving DecidableEq, Repr

namespace Registry

def insert (r : Registry) (id : Nat) : Registry :=
  { r with known := id :: r.known }

/-- Forgets the oldest retired sessions while there are more than `keep` of them. -/
def trim (keep : Nat) (r : Registry) : Registry :=
  let excess := r.retired.length - keep
  { known := r.known.filter (· ∉ r.retired.take excess)
    retired := r.retired.drop excess }

def retire (keep id : Nat) (r : Registry) : Registry :=
  trim keep { r with retired := r.retired ++ [id] }

end Registry

end ScriptHost
