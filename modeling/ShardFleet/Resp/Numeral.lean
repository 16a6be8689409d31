import ShardFleet.Text.Utf8

/-!
# Numbers on a line

An integer line is an optional sign and at least one decimal digit, with a value that fits sixty-four
signed bits. Padding zeros are allowed.
-/

namespace ShardFleet.Resp.Numeral

/-- Why a line is no integer. -/
inductive Fault where
  | noDigits
  | notADigit
  | tooLarge
  | tooSmall
deriving DecidableEq, Repr

/-- The wording of a fault. -/
def Fault.message : Fault → String
  | noDigits => "cannot parse integer without digits"
  | notADigit => "invalid digit found in slice"
  | tooLarge => "number too large to fit in target type"
  | tooSmall => "number too small to fit in target type"

/-- The value of a decimal digit. -/
def digit? (b : UInt8) : Option Nat :=
  if 0x30 ≤ b && b ≤ 0x39 then some (b.toNat - 0x30) else none

/-- The number that the digits after a magnitude of `acc` make, as soon as it passes `limit` a
fault. -/
def magnitude (limit : Nat) (overflow : Fault) : Nat → Bytes → Except Fault Nat
  | acc, [] => .ok acc
  | acc, b :: rest =>
    match digit? b with
    | none => .error .notADigit
    | some d =>
      if acc * 10 + d ≤ limit then magnitude limit overflow (acc * 10 + d) rest
      else .error overflow

/-- The number after a sign. -/
def unsigned (limit : Nat) (overflow : Fault) : Bytes → Except Fault Nat
  | [] => .error .noDigits
  | digits => magnitude limit overflow 0 digits

/-- The largest integer of sixty-four bits. -/
def largest : Nat := Int64.maxValue.toInt.toNat

/-- The integer that a line writes. -/
def read : Bytes → Except Fault Int64
  | 0x2D :: digits => (unsigned (largest + 1) .tooSmall digits).map fun n => Int64.ofInt (-n)
  | 0x2B :: digits => (unsigned largest .tooLarge digits).map Int64.ofNat
  | digits => (unsigned largest .tooLarge digits).map Int64.ofNat

/-- The line that writes an integer: a minus sign where it is negative, and no padding. -/
def write (n : Int64) : Bytes := utf8 (toString n.toInt)

end ShardFleet.Resp.Numeral
