/-!
# Scalars of TOML

Readers for the texts, numbers and dates of TOML 1.0. A reader takes what it reads from the front of
the characters and returns the rest, or nothing when the characters are not what it reads.
-/

namespace ShardFleet.Toml

/-- A reader of the front of a text. -/
abbrev Reader (α : Type) := List Char → Option (α × List Char)

/-- Spaces and tabs. -/
def isSpace (c : Char) : Bool := c = ' ' || c = '\t'

/-- The text after leading spaces and tabs. -/
def skipSpaces (cs : List Char) : List Char := cs.dropWhile isSpace

/-- The text after a line break, if it begins with one. -/
def newline? : List Char → Option (List Char)
  | '\n' :: r => some r
  | '\r' :: '\n' :: r => some r
  | _ => none

/-- Characters that may stand in a comment. -/
def isCommentChar (c : Char) : Bool := c = '\t' || (' ' ≤ c && c ≠ '\x7f')

/-- The text after a comment, if it begins with one. -/
def skipComment : List Char → List Char
  | '#' :: r => r.dropWhile isCommentChar
  | r => r

/-- The text after the front `p`, if it begins so. -/
def literal? : List Char → List Char → Option (List Char)
  | [], r => some r
  | p :: ps, c :: r => if p = c then literal? ps r else none
  | _ :: _, [] => none

/-! ### Texts -/

/-- Characters that stand for themselves between double quotes. -/
def isBasicChar (c : Char) : Bool := c = '\t' || (' ' ≤ c && c ≠ '"' && c ≠ '\\' && c ≠ '\x7f')

/-- Characters that stand for themselves between single quotes. -/
def isLiteralChar (c : Char) : Bool := c = '\t' || (' ' ≤ c && c ≠ '\'' && c ≠ '\x7f')

/-- The value of a digit in base sixteen. -/
def hexDigit? (c : Char) : Option Nat :=
  if '0' ≤ c && c ≤ '9' then some (c.toNat - '0'.toNat)
  else if 'a' ≤ c && c ≤ 'f' then some (c.toNat - 'a'.toNat + 10)
  else if 'A' ≤ c && c ≤ 'F' then some (c.toNat - 'A'.toNat + 10)
  else none

/-- The number of exactly so many digits in base sixteen. -/
def hexNumber : Nat → Nat → Reader Nat
  | 0, acc, r => some (acc, r)
  | n + 1, acc, c :: r => (hexDigit? c).bind fun d => hexNumber n (acc * 16 + d) r
  | _ + 1, _, [] => none

/-- The character of an escape, after its backslash. -/
def escape : Reader Char
  | 'b' :: r => some ('\x08', r)
  | 't' :: r => some ('\t', r)
  | 'n' :: r => some ('\n', r)
  | 'f' :: r => some ('\x0c', r)
  | 'r' :: r => some ('\r', r)
  | '"' :: r => some ('"', r)
  | '\\' :: r => some ('\\', r)
  | 'u' :: r => scalar 4 r
  | 'U' :: r => scalar 8 r
  | _ => none
where
  /-- The character with a number of so many digits. -/
  scalar (digits : Nat) : Reader Char := fun r =>
    (hexNumber digits 0 r).bind fun (n, r) => if n.isValidChar then some (Char.ofNat n, r) else none

/-- The rest of a one-line text between double quotes, where `fuel` bounds its length. -/
def basicFrom : Nat → Reader (List Char)
  | 0, _ => none
  | _ + 1, '"' :: r => some ([], r)
  | fuel + 1, '\\' :: r =>
    (escape r).bind fun (c, r) => (basicFrom fuel r).map fun (s, r) => (c :: s, r)
  | fuel + 1, c :: r =>
    if isBasicChar c then (basicFrom fuel r).map fun (s, r) => (c :: s, r) else none
  | _ + 1, [] => none

/-- The text after the spaces and line breaks that an escaped line break swallows. -/
def skipBlankLines : List Char → List Char
  | '\r' :: '\n' :: r => skipBlankLines r
  | c :: r => if isSpace c || c = '\n' then skipBlankLines r else c :: r
  | [] => []

/-- The closing of a text of several lines, three quotes `q`, of which up to two more may stand
before it as part of the text. -/
def closing (q : Char) : Reader (List Char)
  | a :: b :: c :: r =>
    if a = q && b = q && c = q then
      match r with
      | d :: e :: r' =>
        if d = q then (if e = q then some ([q, q], r') else some ([q], e :: r')) else some ([], r)
      | [d] => if d = q then some ([q], []) else some ([], r)
      | [] => some ([], [])
    else none
  | _ => none

/-- The rest of a text of several lines between three double quotes. -/
def basicLinesFrom : Nat → Reader (List Char)
  | 0, _ => none
  | fuel + 1, r =>
    match closing '"' r with
    | some closed => some closed
    | none =>
      match r with
      | '\\' :: r' =>
        match newline? (skipSpaces r') with
        | some r'' => basicLinesFrom fuel (skipBlankLines r'')
        | none => (escape r').bind fun (c, r) => (basicLinesFrom fuel r).map fun (s, r) => (c :: s, r)
      | c :: r' =>
        match newline? r with
        | some r'' => (basicLinesFrom fuel r'').map fun (s, r) => ('\n' :: s, r)
        | none =>
          if isBasicChar c || c = '"' then
            (basicLinesFrom fuel r').map fun (s, r) => (c :: s, r)
          else none
      | [] => none

/-- The rest of a one-line text between single quotes. -/
def literalFrom : Reader (List Char)
  | '\'' :: r => some ([], r)
  | c :: r => if isLiteralChar c then (literalFrom r).map fun (s, r) => (c :: s, r) else none
  | [] => none

/-- The rest of a text of several lines between three single quotes. -/
def literalLinesFrom : Nat → Reader (List Char)
  | 0, _ => none
  | fuel + 1, r =>
    match closing '\'' r with
    | some closed => some closed
    | none =>
      match newline? r with
      | some r' => (literalLinesFrom fuel r').map fun (s, r) => ('\n' :: s, r)
      | none =>
        match r with
        | c :: r' =>
          if isLiteralChar c || c = '\'' then
            (literalLinesFrom fuel r').map fun (s, r) => (c :: s, r)
          else none
        | [] => none

/-- A text on one line, in either kind of quotes. -/
def lineText : Reader String
  | '"' :: r => (basicFrom r.length r).map fun (s, r) => (String.ofList s, r)
  | '\'' :: r => (literalFrom r).map fun (s, r) => (String.ofList s, r)
  | _ => none

/-- A text in any of the four kinds of quotes. -/
def text : Reader String
  | '"' :: '"' :: '"' :: r =>
    let r := (newline? r).getD r
    (basicLinesFrom (r.length + 1) r).map fun (s, r) => (String.ofList s, r)
  | '\'' :: '\'' :: '\'' :: r =>
    let r := (newline? r).getD r
    (literalLinesFrom (r.length + 1) r).map fun (s, r) => (String.ofList s, r)
  | r => lineText r

/-! ### Numbers -/

/-- The digits after the first one, each of which a single underscore may precede. An underscore
that no digit follows makes the number unreadable. -/
def moreDigits (isDigit : Char → Bool) : Reader (List Char)
  | '_' :: c :: r =>
    if isDigit c then (moreDigits isDigit r).map fun (s, r) => (c :: s, r) else none
  | ['_'] => none
  | c :: r =>
    if isDigit c then (moreDigits isDigit r).map fun (s, r) => (c :: s, r) else some ([], c :: r)
  | [] => some ([], [])

/-- One or more digits. -/
def digits (isDigit : Char → Bool) : Reader (List Char)
  | c :: r => if isDigit c then (moreDigits isDigit r).map fun (s, r) => (c :: s, r) else none
  | [] => none

/-- The number that digits write in a base. -/
def number (base : Nat) (ds : List Char) : Nat :=
  ds.foldl (fun n c => n * base + (hexDigit? c).getD 0) 0

/-- The sign in front of a number. -/
def sign : List Char → Bool × List Char
  | '-' :: r => (true, r)
  | '+' :: r => (false, r)
  | r => (false, r)

/-- The digits of a whole number, which has no leading zeros. -/
def wholeDigits : Reader (List Char)
  | '0' :: r => some (['0'], r)
  | r => digits Char.isDigit r

/-- An integer that fits sixty-four signed bits. -/
def bounded (negative : Bool) (n : Nat) : Option Int :=
  let i : Int := if negative then -n else n
  if Int64.minValue.toInt ≤ i ∧ i ≤ Int64.maxValue.toInt then some i else none

/-- Digits of a base other than ten, after their mark. -/
def based (base : Nat) : Reader Int := fun r =>
  (digits (fun c => (hexDigit? c).any (· < base)) r).bind fun (ds, r) =>
    (bounded false (number base ds)).map (·, r)

/-- An integer. -/
def integer : Reader Int
  | '0' :: 'x' :: r => based 16 r
  | '0' :: 'o' :: r => based 8 r
  | '0' :: 'b' :: r => based 2 r
  | r =>
    let (negative, r) := sign r
    (wholeDigits r).bind fun (ds, r) => (bounded negative (number 10 ds)).map (·, r)

/-- An exponent, with its mark: its value, and the rest. -/
def exponent : Reader Int
  | c :: r =>
    if c = 'e' || c = 'E' then
      let (negative, r) := sign r
      (digits Char.isDigit r).map fun (ds, r) =>
        (if negative then -(number 10 ds : Int) else number 10 ds, r)
    else none
  | [] => none

/-- Whether `mantissa · 10 ^ exponent` is beyond every finite number of double precision: at or
above the midpoint between the largest of them and the next power of two. -/
def isBeyondDouble (mantissa : Nat) (exponent : Int) : Bool :=
  let bound := (1 <<< 1024) - (1 <<< 970)
  let size : Int := (Nat.toDigits 10 mantissa).length + exponent
  if mantissa = 0 || size < 300 then false
  else if 320 < size then true
  else if 0 ≤ exponent then bound ≤ mantissa * Nat.pow 10 exponent.toNat
  else bound * Nat.pow 10 (-exponent).toNat ≤ mantissa

/-- A number with a fraction or an exponent, or one of the special ones: what is left after it. -/
def fraction? (cs : List Char) : Option (List Char) :=
  let (negative, r) := sign cs
  match literal? ['i', 'n', 'f'] r, literal? ['n', 'a', 'n'] r with
  | some r, _ => some r
  | none, some r => some r
  | none, none =>
    (wholeDigits r).bind fun (ds, r) =>
      match r with
      | '.' :: r =>
        (digits Char.isDigit r).bind fun (fs, r) =>
          match r with
          | c :: _ =>
            if c = 'e' || c = 'E' then
              (exponent r).bind fun (e, r) => finite negative (ds ++ fs) (e - fs.length) r
            else finite negative (ds ++ fs) (-fs.length) r
          | [] => finite negative (ds ++ fs) (-fs.length) r
      | r => (exponent r).bind fun (e, r) => finite negative ds e r
where
  /-- Positive numbers must be finite. -/
  finite (negative : Bool) (ds : List Char) (e : Int) (r : List Char) : Option (List Char) :=
    if !negative && isBeyondDouble (number 10 ds) e then none else some r

/-! ### Dates and times -/

/-- A number of exactly so many digits. -/
def fixedNumber : Nat → Nat → Reader Nat
  | 0, acc, r => some (acc, r)
  | n + 1, acc, c :: r =>
    if c.isDigit then fixedNumber n (acc * 10 + (c.toNat - '0'.toNat)) r else none
  | _ + 1, _, [] => none

/-- A character that must stand at the front. -/
def expect (c : Char) : List Char → Option (List Char)
  | d :: r => if d = c then some r else none
  | [] => none

/-- The number of days of a month. -/
def daysIn (year month : Nat) : Nat :=
  if month = 2 then
    (if year % 4 = 0 && (year % 100 ≠ 0 || year % 400 = 0) then 29 else 28)
  else if month = 4 || month = 6 || month = 9 || month = 11 then 30 else 31

/-- A calendar date. -/
def date? (r : List Char) : Option (List Char) := do
  let (year, r) ← fixedNumber 4 0 r
  let r ← expect '-' r
  let (month, r) ← fixedNumber 2 0 r
  let r ← expect '-' r
  let (day, r) ← fixedNumber 2 0 r
  if 1 ≤ month ∧ month ≤ 12 ∧ 1 ≤ day ∧ day ≤ daysIn year month then some r else none

/-- A time of day. -/
def time? (r : List Char) : Option (List Char) := do
  let (hour, r) ← fixedNumber 2 0 r
  let r ← expect ':' r
  let (minute, r) ← fixedNumber 2 0 r
  let r ← expect ':' r
  let (second, r) ← fixedNumber 2 0 r
  if hour < 24 ∧ minute < 60 ∧ second ≤ 60 then
    match r with
    | '.' :: c :: r' => if c.isDigit then some (r'.dropWhile Char.isDigit) else none
    | ['.'] => none
    | r => some r
  else none

/-- An offset from universal time. -/
def offset? : List Char → Option (List Char)
  | c :: r =>
    if c = 'Z' || c = 'z' then some r
    else if c = '+' || c = '-' then do
      let (hour, r) ← fixedNumber 2 0 r
      let r ← expect ':' r
      let (minute, r) ← fixedNumber 2 0 r
      if hour < 24 ∧ minute < 60 then some r else none
    else none
  | [] => none

/-- Whether the text begins like a date: four digits and a dash. -/
def beginsDate (r : List Char) : Bool :=
  match fixedNumber 4 0 r with
  | some (_, '-' :: _) => true
  | _ => false

/-- Whether the text begins like a time: two digits and a colon. -/
def beginsTime (r : List Char) : Bool :=
  match fixedNumber 2 0 r with
  | some (_, ':' :: _) => true
  | _ => false

/-- A date, a time, or both: what is left after it. -/
def moment? (r : List Char) : Option (List Char) :=
  if beginsDate r then
    (date? r).bind fun r =>
      match r with
      | c :: r' =>
        if (c = 'T' || c = 't' || c = ' ') && ((fixedNumber 2 0 r').isSome) then
          (time? r').bind fun r =>
            match r with
            | d :: _ =>
              if d = 'Z' || d = 'z' || d = '+' || d = '-' then offset? r else some r
            | [] => some r
        else some r
      | [] => some r
  else time? r

end ShardFleet.Toml
