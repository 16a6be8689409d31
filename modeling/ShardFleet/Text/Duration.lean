/-!
# Lengths of time

Two ways to write a length of time: the exact one used inside messages (`50ms`, `1.5s`, `0ns`) and
the rounded one used in reports (`250ms`, `42s`, `3m7s`, `1h0m5s`).
-/

namespace ShardFleet

/-- A length of time in nanoseconds. -/
structure Duration where
  nanos : Nat
deriving DecidableEq, Repr

namespace Duration

/-- So many milliseconds. -/
def ofMillis (ms : Nat) : Duration := ⟨ms * 1000000⟩

/-- `whole` units and `fraction` of a unit, of which there are `10 ^ places`: the fraction is
written with its trailing zeros dropped, and left out when it is nothing. -/
def decimal (whole fraction places : Nat) (unit : String) : String :=
  let digits := Nat.toDigits 10 fraction
  let padded := List.replicate (places - digits.length) '0' ++ digits
  let shown := (padded.reverse.dropWhile (· = '0')).reverse
  if shown.isEmpty then s!"{whole}" ++ unit
  else s!"{whole}" ++ "." ++ String.ofList shown ++ unit

/-- The exact form: in the largest unit of which there is at least one. -/
def exact (d : Duration) : String :=
  if 1000000000 ≤ d.nanos then decimal (d.nanos / 1000000000) (d.nanos % 1000000000) 9 "s"
  else if 1000000 ≤ d.nanos then decimal (d.nanos / 1000000) (d.nanos % 1000000) 6 "ms"
  else if 1000 ≤ d.nanos then decimal (d.nanos / 1000) (d.nanos % 1000) 3 "µs"
  else decimal d.nanos 0 0 "ns"

/-- The rounded form: milliseconds below one second, whole seconds from there on. -/
def rounded (d : Duration) : String :=
  let secs := d.nanos / 1000000000
  let s := secs % 60
  let m := secs / 60 % 60
  let h := secs / 3600
  if secs = 0 then
    let ms := d.nanos / 1000000
    s!"{ms}ms"
  else if secs < 60 then s!"{s}s"
  else if secs < 3600 then s!"{m}m{s}s"
  else s!"{h}h{m}m{s}s"

end Duration

end ShardFleet
