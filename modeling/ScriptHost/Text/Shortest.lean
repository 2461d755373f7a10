import ScriptHost.Word

/-!
Doubles with the fewest digits that read back as the same double, the nearest of them if several
do. Numbers from one hundred-thousandth up to sixteen places are written in full; others have an
exponent.
-/

namespace ScriptHost.Text.Shortest

/-- A finite double without its sign, as `mantissa * 2 ^ power`. -/
structure Binary where
  mantissa : Nat
  power : Int
  /-- The next double below is only half as far away as the next above. -/
  isLowest : Bool
deriving DecidableEq, Repr

def hiddenBit : Nat := 0x10000000000000

def Binary.ofBits (bits : UInt64) : Binary :=
  let exponent := bits.toNat / hiddenBit % 2048
  let fraction := bits.toNat % hiddenBit
  if exponent = 0 then ⟨fraction, -1074, false⟩
  else ⟨fraction + hiddenBit, (exponent : Int) - 1075, fraction = 0 && 1 < exponent⟩

/-- The points of a decimal grid by which a double is read: the double, the halfway marks to its
neighbours, and the mesh, all in one unit. -/
structure Grid where
  value : Nat
  low : Nat
  high : Nat
  mesh : Nat
  closed : Bool

namespace Grid

def ofBinary (b : Binary) (place : Int) : Grid :=
  let power := b.power - 2
  let unit := Nat.pow 2 power.toNat * Nat.pow 10 (-place).toNat
  { value := 4 * b.mantissa * unit
    low := (4 * b.mantissa - if b.isLowest then 1 else 2) * unit
    high := (4 * b.mantissa + 2) * unit
    mesh := Nat.pow 10 place.toNat * Nat.pow 2 (-power).toNat
    closed := b.mantissa % 2 = 0 }

def holds (g : Grid) (n : Nat) : Bool :=
  let x := n * g.mesh
  if g.closed then g.low ≤ x && x ≤ g.high else g.low < x && x < g.high

/-- Whether the double is nearer to the `n`th point, below it, than to the next; half way between
the two, the even one counts as the nearer. -/
def leansDown (g : Grid) (n : Nat) : Bool :=
  let twice := 2 * (g.value - n * g.mesh)
  twice < g.mesh || (twice = g.mesh && n % 2 = 0)

/-- The point that reads back, the nearer one of two. -/
def nearest? (g : Grid) : Option Nat :=
  let n := g.value / g.mesh
  match g.holds n, g.holds (n + 1) with
  | true, true => some (if g.leansDown n then n else n + 1)
  | true, false => some n
  | false, true => some (n + 1)
  | false, false => none

end Grid

def places : List Int :=
  (List.range 634).map fun (n : Nat) => 309 - (n : Int)

def digits? (b : Binary) : Option (Nat × Int) :=
  if b.mantissa = 0 then none
  else places.findSome? fun place => ((Grid.ofBinary b place).nearest?).map (·, place)

def zeros (n : Nat) : List Char :=
  List.replicate n '0'

def signed (n : Int) : List Char :=
  if 0 ≤ n then '+' :: (toString n).toList else (toString n).toList

def layOut (ds : List Char) (place : Int) : List Char :=
  let front := ds.length + place
  if 0 ≤ place && front ≤ 16 then ds ++ zeros place.toNat ++ ['.', '0']
  else if 0 < front && front ≤ 16 then ds.take front.toNat ++ '.' :: ds.drop front.toNat
  else if -5 < front && front ≤ 0 then '0' :: '.' :: zeros (-front).toNat ++ ds
  else
    let exponent := 'e' :: signed (front - 1)
    match ds with
    | d :: e :: ds => d :: '.' :: e :: ds ++ exponent
    | ds => ds ++ exponent

def isNegative (bits : UInt64) : Bool :=
  signedLimit ≤ bits.toNat

def write (x : Float) : String :=
  let text := match digits? (.ofBits x.toBits) with
    | some (n, place) => layOut (Nat.toDigits 10 n) place
    | none => "0.0".toList
  String.ofList (if isNegative x.toBits then '-' :: text else text)

end ScriptHost.Text.Shortest
