import ShardFleet.Text.Utf8
import ShardFleet.Text.Printable

/-!
# Quoted texts

How texts and byte strings appear inside diagnostics: between double quotes, with the quote and the
backslash escaped, the usual short escapes, and every hidden character written by its number
(`\u{1b}` in a text, `\x1b` in a byte string).
-/

namespace ShardFleet.Text

/-- The digits of `n` in base sixteen, lower case, without leading zeros. -/
def hex (n : Nat) : String := String.ofList (Nat.toDigits 16 n)

/-- The digits of `n` in base sixteen, padded with zeros to `width` digits. -/
def hexPadded (width n : Nat) : String :=
  let digits := Nat.toDigits 16 n
  String.ofList (List.replicate (width - digits.length) '0' ++ digits)

/-- One character inside a quoted text. -/
def quotedChar (c : Char) : String :=
  match c with
  | '\x00' => "\\0"
  | '\t' => "\\t"
  | '\n' => "\\n"
  | '\r' => "\\r"
  | '"' => "\\\""
  | '\\' => "\\\\"
  | c => if isPrintable c then String.singleton c else "\\u\x7b" ++ hex c.toNat ++ "\x7d"

/-- A text between double quotes. -/
def quoted (s : String) : String :=
  "\"" ++ String.join (s.toList.map quotedChar) ++ "\""

/-- One byte inside a quoted byte string. -/
def quotedByte (b : UInt8) : String :=
  if b = 0 then "\\0"
  else if b = 0x09 then "\\t"
  else if b = 0x0A then "\\n"
  else if b = 0x0D then "\\r"
  else if b = 0x22 then "\\\""
  else if b = 0x5C then "\\\\"
  else if 0x20 ≤ b && b < 0x7F then String.singleton (Char.ofNat b.toNat)
  else "\\x" ++ hexPadded 2 b.toNat

/-- A byte string between double quotes, marked with a `b`. -/
def quotedBytes (b : Bytes) : String :=
  "b\"" ++ String.join (b.map quotedByte) ++ "\""

end ShardFleet.Text
