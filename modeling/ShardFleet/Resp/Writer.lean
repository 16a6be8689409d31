import ShardFleet.Resp.Reader

/-!
# Writing RESP frames

The one written form that this library gives to a value: no padding, no plus signs.
-/

namespace ShardFleet.Resp

/-- The end of a line. -/
def crlf : Bytes := [0x0D, 0x0A]

/-- A line that begins with a type byte. -/
def line (lead : UInt8) (body : Bytes) : Bytes := lead :: body ++ crlf

/-- The header of something of length `n`. -/
def header (lead : UInt8) (n : Nat) : Bytes := line lead (utf8 (toString n))

/-- A byte string. -/
def encodeBulk (b : Bytes) : Bytes := header 0x24 b.length ++ b ++ crlf

mutual

/-- The written form of a value. -/
def encode : Value → Bytes
  | .simple s => line 0x2B (utf8 s)
  | .error s => line 0x2D (utf8 s)
  | .integer n => line 0x3A (Numeral.write n)
  | .bulk b => encodeBulk b
  | .nullBulk => line 0x24 (utf8 "-1")
  | .array l => header 0x2A l.length ++ encodeAll l
  | .nullArray => line 0x2A (utf8 "-1")

/-- The written forms of values, one after the other. -/
def encodeAll : List Value → Bytes
  | [] => []
  | v :: l => encode v ++ encodeAll l

end

theorem encodeAll_eq_flatMap (l : List Value) : encodeAll l = l.flatMap encode := by
  induction l with
  | nil => rfl
  | cons v l ih => simp [encodeAll, ih]

end ShardFleet.Resp
