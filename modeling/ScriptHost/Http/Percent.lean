import ScriptHost.Text.Utf8

/-!
Percent escapes in request targets. What they spell is bytes; bytes that spell no character read as
the replacement character.
-/

namespace ScriptHost.Http.Percent

def hexDigit? (b : UInt8) : Option UInt8 :=
  let n := b.toNat
  if 48 ≤ n && n < 58 then some (.ofNat (n - 48))
  else if 65 ≤ n && n < 71 then some (.ofNat (n - 55))
  else if 97 ≤ n && n < 103 then some (.ofNat (n - 87))
  else none

def byte? (high low : UInt8) : Option UInt8 := do
  return (← hexDigit? high) * 16 + (← hexDigit? low)

def decodeBytes (keep : UInt8 → Bool) : List UInt8 → List UInt8
  | 37 :: high :: low :: bs =>
    match byte? high low with
    | some b =>
      if keep b then 37 :: high :: low :: decodeBytes keep bs else b :: decodeBytes keep bs
    | none => 37 :: decodeBytes keep (high :: low :: bs)
  | b :: bs => b :: decodeBytes keep bs
  | [] => []

def decode (keep : UInt8 → Bool) (s : String) : String :=
  Text.Utf8.decode (decodeBytes keep s.toUTF8.toList)

end ScriptHost.Http.Percent
