import ShardFleet.Resp.Value
import ShardFleet.Resp.Numeral

/-!
# Reading RESP frames

`parse` takes one frame from the front of a buffer, or says that more bytes are needed, or that the
bytes are no frame; `drain` takes every frame that is there. Neither touches the bytes of a frame
that it does not take.
-/

namespace ShardFleet.Resp

/-- The largest length that a byte string or an array may announce. -/
def maxLength : Nat := 512 * 1024 * 1024

/-- Why bytes are no frame. -/
inductive Fault where
  /-- A line with nothing on it where a frame should begin. -/
  | emptyHeader
  /-- A frame that begins with an unknown byte. -/
  | unknownType (lead : UInt8)
  | bulkLength (n : Int64)
  | arrayLength (n : Int64)
  /-- A byte string that is not followed by the end of a line. -/
  | unterminatedBulk
  | notText (f : Utf8.Fault)
  | notInteger (f : Numeral.Fault)
deriving DecidableEq, Repr

/-- The wording of a fault. -/
def Fault.message : Fault → String
  | emptyHeader => "Invalid RESP format: empty frame header"
  | unknownType b => "Invalid RESP format: Unknown RESP type: " ++ String.singleton (Char.ofNat b.toNat)
  | bulkLength n => "Invalid RESP format: Invalid bulk string size: " ++ toString n.toInt
  | arrayLength n => "Invalid RESP format: Invalid array size: " ++ toString n.toInt
  | unterminatedBulk => "Invalid RESP format: Missing \\r\\n after bulk string"
  | notText f => "Invalid UTF-8: " ++ f.message
  | notInteger f => "Invalid integer: " ++ f.message

/-- What a reader makes of a buffer. -/
inductive Scan (α : Type) where
  /-- The buffer ends too early to tell. -/
  | incomplete
  | invalid (f : Fault)
  /-- A value, and the bytes after it. -/
  | found (value : α) (rest : Bytes)
deriving DecidableEq, Repr, Inhabited

namespace Scan

variable {α β : Type}

/-- A reader's result with its value changed. -/
def map (f : α → β) : Scan α → Scan β
  | incomplete => incomplete
  | invalid e => invalid e
  | found v rest => found (f v) rest

/-- The result of a second reader on what the first leaves. -/
def andThen (s : Scan α) (next : α → Bytes → Scan β) : Scan β :=
  match s with
  | incomplete => incomplete
  | invalid e => invalid e
  | found v rest => next v rest

/-- A value that may be faulty in itself, with the bytes after it. -/
def ofExcept (rest : Bytes) : Except Fault α → Scan α
  | .ok v => found v rest
  | .error e => invalid e

end Scan

/-- The bytes before the first end of line, and those after it. -/
def readLine : Bytes → Option (Bytes × Bytes)
  | a :: b :: rest =>
    if a = 0x0D ∧ b = 0x0A then some ([], rest)
    else (readLine (b :: rest)).map fun (line, after) => (a :: line, after)
  | _ => none

/-- The payload of a byte string of length `n`, which an end of line must follow. -/
def readPayload (n : Nat) (b : Bytes) : Scan Bytes :=
  if b.length < n + 2 then .incomplete
  else if (b.drop n).take 2 = [0x0D, 0x0A] then .found (b.take n) (b.drop (n + 2))
  else .invalid .unterminatedBulk

/-- So many items, one after the other. -/
def readItems {α : Type} (item : Bytes → Scan α) : Nat → Bytes → Scan (List α)
  | 0, b => .found [] b
  | n + 1, b => (item b).andThen fun v rest => (readItems item n rest).map (v :: ·)

/-- The length that a header announces: `none` for the marker of absence. -/
def readLength (outOfRange : Int64 → Fault) (digits : Bytes) : Except Fault (Option Nat) :=
  match Numeral.read digits with
  | .error e => .error (.notInteger e)
  | .ok n =>
    if n.toInt = -1 then .ok none
    else if 0 ≤ n.toInt ∧ n.toInt ≤ maxLength then .ok (some n.toInt.toNat)
    else .error (outOfRange n)

/-- The text of a line. -/
def readText (make : String → Value) (body : Bytes) : Except Fault Value :=
  match Utf8.decode body with
  | .ok s => .ok (make s)
  | .error f => .error (.notText f)

/-- One frame, whose arrays nest at most `depth` deep. -/
def readFrame : Nat → Bytes → Scan Value
  | 0, _ => .incomplete
  | depth + 1, b =>
    match readLine b with
    | none => .incomplete
    | some ([], _) => .invalid .emptyHeader
    | some (lead :: body, rest) =>
      if lead = 0x2B then .ofExcept rest (readText .simple body)
      else if lead = 0x2D then .ofExcept rest (readText .error body)
      else if lead = 0x3A then
        .ofExcept rest (((Numeral.read body).mapError .notInteger).map .integer)
      else if lead = 0x24 then
        match readLength .bulkLength body with
        | .error e => .invalid e
        | .ok none => .found .nullBulk rest
        | .ok (some n) => (readPayload n rest).map .bulk
      else if lead = 0x2A then
        match readLength .arrayLength body with
        | .error e => .invalid e
        | .ok none => .found .nullArray rest
        | .ok (some n) => (readItems (readFrame depth) n rest).map .array
      else .invalid (.unknownType lead)

/-- The frame at the front of a buffer. Each array around a frame takes at least one byte, so the
buffer's length bounds how deep its arrays nest. -/
def parse (b : Bytes) : Scan Value := readFrame b.length b

/-- Every frame at the front of a buffer, the fault that ended them if there was one, and the bytes
left. -/
structure Drained where
  values : List Value
  fault : Option Fault
  rest : Bytes
deriving Repr, DecidableEq

/-- At most `count` frames from the front of a buffer. -/
def drainUpTo : Nat → Bytes → Drained
  | 0, b => ⟨[], none, b⟩
  | count + 1, b =>
    match parse b with
    | .incomplete => ⟨[], none, b⟩
    | .invalid e => ⟨[], some e, b⟩
    | .found v rest => let d := drainUpTo count rest; { d with values := v :: d.values }

/-- Every frame at the front of a buffer. Each takes at least one byte. -/
def drain (b : Bytes) : Drained := drainUpTo b.length b

end ShardFleet.Resp
