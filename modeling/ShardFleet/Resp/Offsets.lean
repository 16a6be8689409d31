import ShardFleet.Resp.Reader

/-!
# Reading RESP frames by offsets

How a machine reads a frame from a buffer that stays where it is: by offsets of sixty-four bits, and by
slices that have to lie in what they are cut from. A sum that does not fit is a trap, and so are a slice
that lies outside and a run that is followed less far than it goes. How many frames a run looks for is
counted.
-/

namespace ShardFleet.Resp

/-- A buffer in memory. Its size is one that a signed word can tell. -/
structure Buffer where
  bytes : Bytes
  fits : bytes.length ≤ Numeral.largest

namespace Buffer

/-- How many bytes a buffer holds. -/
def size (b : Buffer) : Nat := b.bytes.length

/-- The buffer that is left when the first `n` bytes are taken. -/
def drop (b : Buffer) (n : Nat) : Buffer :=
  ⟨b.bytes.drop n, Nat.le_trans (by simp) b.fits⟩

end Buffer

/-- What would end a run on the spot. -/
inductive Trap where
  /-- A sum of offsets that sixty-four bits do not hold. -/
  | overflow
  /-- A slice that does not lie in what it is cut from. -/
  | outOfBounds
  /-- A run that goes on where it is no longer followed. -/
  | cutOff
deriving DecidableEq, Repr

/-- A run that may trap, with the number of frames that were looked for so far. -/
abbrev Decoding := StateT Nat (Except Trap)

/-- Counts a frame that is looked for. -/
def look : Decoding Unit := modify (· + 1)

/-- The offset that lies `n` bytes behind another. -/
def advance (pos n : Nat) : Decoding Nat :=
  if pos + n < UInt64.size then pure (pos + n) else throw .overflow

/-- The bytes from the offset `first` up to the offset `stop`. -/
def slice (b : Bytes) (first stop : Nat) : Decoding Bytes :=
  if first ≤ stop ∧ stop ≤ b.length then pure ((b.drop first).take (stop - first))
  else throw .outOfBounds

/-- Takes the first `n` bytes of a buffer away. -/
def Buffer.splitTo (b : Buffer) (n : Nat) : Decoding Buffer :=
  if n ≤ b.size then pure (b.drop n) else throw .outOfBounds

/-- What a decoder makes of the bytes at an offset. -/
inductive Located (α : Type) where
  /-- The buffer ends too early to tell. -/
  | incomplete
  | invalid (f : Fault)
  /-- A value, and the offset behind it. -/
  | found (value : α) (stop : Nat)
deriving DecidableEq, Repr

namespace Located

variable {α β : Type}

/-- A decoder's result with its value changed. -/
def map (f : α → β) : Located α → Located β
  | incomplete => incomplete
  | invalid e => invalid e
  | found v stop => found (f v) stop

/-- A value that may be faulty in itself, with the offset behind it. -/
def ofExcept (stop : Nat) : Except Fault α → Located α
  | .ok v => found v stop
  | .error e => invalid e

/-- How many bytes at the front of a buffer a result takes. -/
def taken : Located α → Nat
  | found _ stop => stop
  | _ => 0

/-- What a decoder says of a buffer, as a reader says it. -/
def scan (b : Buffer) : Located α → Scan α
  | incomplete => .incomplete
  | invalid e => .invalid e
  | found v stop => .found v (b.bytes.drop stop)

end Located

/-- Where the first end of line begins. -/
def lineEnd? (b : Bytes) : Option Nat := (b.zip b.tail).findIdx? (· = (0x0D, 0x0A))

/-- The line that begins at an offset, and the offset behind its end. -/
def lineAt (b : Buffer) (pos : Nat) : Decoding (Option (Bytes × Nat)) :=
  if b.size < pos then return none
  else
    let rest := b.bytes.drop pos
    match lineEnd? rest with
    | none => return none
    | some i => do
      let line ← slice rest 0 i
      let stop ← advance pos i
      let next ← advance stop 2
      return some (line, next)

/-- A byte string of length `n` at an offset, which an end of line must follow. -/
def bulkAt (b : Buffer) (n next : Nat) : Decoding (Located Value) := do
  let stop ← advance next n
  let after ← advance stop 2
  if b.size < after then return .incomplete
  else
    let tail ← slice b.bytes stop after
    if tail = [0x0D, 0x0A] then
      let payload ← slice b.bytes next stop
      return .found (.bulk payload) after
    else return .invalid .unterminatedBulk

/-- The loop over the items of an array: how many turns it takes, and what comes of it. -/
def itemsAt (item : Nat → Decoding (Located Value)) :
    Nat → Nat → Decoding (Nat × Located (List Value))
  | 0, pos => return (0, .found [] pos)
  | n + 1, pos => do
    match ← item pos with
    | .incomplete => return (1, .incomplete)
    | .invalid e => return (1, .invalid e)
    | .found v stop =>
      let (turns, others) ← itemsAt item n stop
      return (turns + 1, others.map (v :: ·))

/-- What follows the header of a frame, of which the first byte is `lead` and the others are `body`. -/
def decodeAfter (item : Nat → Decoding (Located Value)) (b : Buffer) (lead : UInt8) (body : Bytes)
    (next : Nat) : Decoding (Located Value) :=
  if lead = 0x2B then return .ofExcept next (readText .simple body)
  else if lead = 0x2D then return .ofExcept next (readText .error body)
  else if lead = 0x3A then
    return .ofExcept next (((Numeral.read body).mapError .notInteger).map .integer)
  else if lead = 0x24 then
    match readLength .bulkLength body with
    | .error e => return .invalid e
    | .ok none => return .found .nullBulk next
    | .ok (some n) => bulkAt b n next
  else if lead = 0x2A then
    match readLength .arrayLength body with
    | .error e => return .invalid e
    | .ok none => return .found .nullArray next
    | .ok (some n) => do
      let (_, items) ← itemsAt item n next
      return items.map .array
  else return .invalid (.unknownType lead)

/-- The frame at an offset, whose arrays are followed `depth` deep. -/
def decode (b : Buffer) : Nat → Nat → Decoding (Located Value)
  | 0, _ => throw .cutOff
  | depth + 1, pos => do
    look
    match ← lineAt b pos with
    | none => return .incomplete
    | some ([], _) => return .invalid .emptyHeader
    | some (lead :: others, next) =>
      let body ← slice (lead :: others) 1 (lead :: others).length
      decodeAfter (decode b depth) b lead body next

/-- The frame at the front of a buffer, and the buffer without it. -/
def takeFrame (depth : Nat) (b : Buffer) : Decoding (Located Value × Buffer) := do
  match ← decode b depth 0 with
  | .found v stop =>
    let rest ← b.splitTo stop
    return (.found v stop, rest)
  | l => return (l, b)

/-- Every frame at the front of a buffer, where the loop is followed for so many turns. -/
def takeAll (depth : Nat) : Nat → Buffer → Decoding Drained
  | 0, _ => throw .cutOff
  | turns + 1, b => do
    match ← takeFrame depth b with
    | (.incomplete, rest) => return ⟨[], none, rest.bytes⟩
    | (.invalid e, rest) => return ⟨[], some e, rest.bytes⟩
    | (.found v _, rest) =>
      let d ← takeAll depth turns rest
      return { d with values := v :: d.values }

end ShardFleet.Resp
