/-!
# Blank characters

The Unicode property `White_Space`, and the two operations that depend on it: whether a text is
blank, and its first word.
-/

namespace ShardFleet.Text

/-- Unicode white space. -/
def isBlank (c : Char) : Bool :=
  let n := c.toNat
  (0x09 ≤ n && n ≤ 0x0D) || n = 0x20 || n = 0x85 || n = 0xA0 || n = 0x1680 ||
    (0x2000 ≤ n && n ≤ 0x200A) || n = 0x2028 || n = 0x2029 || n = 0x202F || n = 0x205F || n = 0x3000

/-- A text with nothing but white space in it. -/
def allBlank (s : String) : Bool := s.toList.all isBlank

/-- The first run of characters that are not white space, if there is one. -/
def firstWord? (s : String) : Option String :=
  match (s.toList.dropWhile isBlank).takeWhile (!isBlank ·) with
  | [] => none
  | word => some (String.ofList word)

end ShardFleet.Text
