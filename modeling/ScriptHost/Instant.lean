/-!
Points in time and how they are written. Time is counted in milliseconds from the start of 1970.
-/

namespace ScriptHost

structure Instant where
  millis : Nat
deriving DecidableEq, Repr, Inhabited

structure Date where
  year : Nat
  month : Nat
  day : Nat
deriving DecidableEq, Repr

namespace Date

/-- The date some days after the first of March of the year 0. Years are counted from March here, so
that a leap day comes last. -/
def ofMarchDays (n : Nat) : Date :=
  let era := n / 146097
  let inEra := n % 146097
  let yearOfEra := (inEra - inEra / 1460 + inEra / 36524 - inEra / 146096) / 365
  let inYear := inEra - (365 * yearOfEra + yearOfEra / 4 - yearOfEra / 100)
  let monthFromMarch := (5 * inYear + 2) / 153
  let day := inYear - (153 * monthFromMarch + 2) / 5 + 1
  let year := yearOfEra + era * 400
  if monthFromMarch < 10 then ⟨year, monthFromMarch + 3, day⟩
  else ⟨year + 1, monthFromMarch - 9, day⟩

def ofDays (n : Nat) : Date :=
  ofMarchDays (n + 719468)

end Date

namespace Instant

def padded (width n : Nat) : String :=
  let digits := toString n
  "".pushn '0' (width - digits.length) ++ digits

def date (i : Instant) : String :=
  let d := Date.ofDays (i.millis / 86400000)
  padded 4 d.year ++ "-" ++ padded 2 d.month ++ "-" ++ padded 2 d.day

def time (i : Instant) : String :=
  let ms := i.millis % 86400000
  padded 2 (ms / 3600000) ++ ":" ++ padded 2 (ms / 60000 % 60) ++ ":" ++ padded 2 (ms / 1000 % 60)
    ++ "." ++ padded 3 (ms % 1000)

def stamp (i : Instant) : String :=
  i.date ++ "|" ++ i.time

def iso (i : Instant) : String :=
  i.date ++ "T" ++ i.time ++ "Z"

end Instant

end ScriptHost
