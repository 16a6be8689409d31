/-!
# UTF-8

Bytes, the bytes of a text, and the two ways back from bytes to text: `Utf8.decode`, which says
where and how a sequence stops being UTF-8, and `Utf8.lossy`, which puts one replacement character
for every maximal piece that is none.
-/

namespace ShardFleet

/-- A run of bytes, as it travels on a wire. -/
abbrev Bytes := List UInt8

/-- The bytes that write `s` in UTF-8. -/
def utf8 (s : String) : Bytes := s.toList.flatMap String.utf8EncodeChar

theorem utf8_append (s t : String) : utf8 (s ++ t) = utf8 s ++ utf8 t := by
  simp [utf8]

namespace Utf8

/-- Where a byte sequence stops being UTF-8: the number of good bytes before the fault, and the
length of the bad piece, or `none` when the sequence ends inside a character. -/
structure Fault where
  validUpTo : Nat
  badLength : Option Nat
deriving DecidableEq, Repr

/-- The wording of a fault. -/
def Fault.message : Fault → String
  | ⟨at_, some n⟩ => s!"invalid utf-8 sequence of {n} bytes from index {at_}"
  | ⟨at_, none⟩ => s!"incomplete utf-8 byte sequence from index {at_}"

/-- What a byte and the bytes after it begin: a character that takes `extra` further bytes, a bad
piece of `length` bytes, or a character whose end is missing. -/
inductive Lead where
  | scalar (c : Char) (extra : Nat)
  | invalid (length : Nat)
  | truncated

/-- Bytes that continue a character. -/
def isTail (b : UInt8) : Bool := 0x80 ≤ b && b ≤ 0xBF

/-- The six payload bits of a continuation byte. -/
def tailBits (b : UInt8) : Nat := b.toNat % 64

/-- Two-byte characters. -/
def lead2 (a : UInt8) : Bytes → Lead
  | [] => .truncated
  | b :: _ =>
    if isTail b then .scalar (Char.ofNat (a.toNat % 32 * 64 + tailBits b)) 1 else .invalid 1

/-- Three-byte characters, whose second byte lies between `lo` and `hi`. -/
def lead3 (lo hi a : UInt8) : Bytes → Lead
  | [] => .truncated
  | b :: rest =>
    if lo ≤ b && b ≤ hi then
      match rest with
      | [] => .truncated
      | c :: _ =>
        if isTail c then
          .scalar (Char.ofNat (a.toNat % 16 * 4096 + tailBits b * 64 + tailBits c)) 2
        else .invalid 2
    else .invalid 1

/-- Four-byte characters, whose second byte lies between `lo` and `hi`. -/
def lead4 (lo hi a : UInt8) : Bytes → Lead
  | [] => .truncated
  | b :: rest =>
    if lo ≤ b && b ≤ hi then
      match rest with
      | [] => .truncated
      | c :: rest =>
        if isTail c then
          match rest with
          | [] => .truncated
          | d :: _ =>
            if isTail d then
              .scalar (Char.ofNat
                (a.toNat % 8 * 262144 + tailBits b * 4096 + tailBits c * 64 + tailBits d)) 3
            else .invalid 3
        else .invalid 2
    else .invalid 1

/-- The character or fault that begins with the byte `a`, followed by `rest`. -/
def lead (a : UInt8) (rest : Bytes) : Lead :=
  if a ≤ 0x7F then .scalar (Char.ofNat a.toNat) 0
  else if 0xC2 ≤ a && a ≤ 0xDF then lead2 a rest
  else if a = 0xE0 then lead3 0xA0 0xBF a rest
  else if a = 0xED then lead3 0x80 0x9F a rest
  else if 0xE1 ≤ a && a ≤ 0xEF then lead3 0x80 0xBF a rest
  else if a = 0xF0 then lead4 0x90 0xBF a rest
  else if 0xF1 ≤ a && a ≤ 0xF3 then lead4 0x80 0xBF a rest
  else if a = 0xF4 then lead4 0x80 0x8F a rest
  else .invalid 1

/-- Decoding from offset `start` on, where the first `skip` bytes belong to a character already
taken. -/
def decodeFrom (start : Nat) : Nat → Bytes → Except Fault (List Char)
  | _, [] => .ok []
  | skip + 1, _ :: rest => decodeFrom (start + 1) skip rest
  | 0, a :: rest =>
    match lead a rest with
    | .scalar c extra => (decodeFrom (start + 1) extra rest).map (c :: ·)
    | .invalid n => .error ⟨start, some n⟩
    | .truncated => .error ⟨start, none⟩

/-- The text that a byte sequence writes, or its first fault. -/
def decode (b : Bytes) : Except Fault String := (decodeFrom 0 0 b).map String.ofList

/-- The text of a byte sequence, if it is one. -/
def decode? (b : Bytes) : Option String := (decode b).toOption

/-- The characters of `lossy`, where the first `skip` bytes are already accounted for. -/
def lossyFrom : Nat → Bytes → List Char
  | _, [] => []
  | skip + 1, _ :: rest => lossyFrom skip rest
  | 0, a :: rest =>
    match lead a rest with
    | .scalar c extra => c :: lossyFrom extra rest
    | .invalid n => '\uFFFD' :: lossyFrom (n - 1) rest
    | .truncated => ['\uFFFD']

/-- The text of a byte sequence with a replacement character for each bad piece. -/
def lossy (b : Bytes) : String := String.ofList (lossyFrom 0 b)

end Utf8

end ShardFleet
