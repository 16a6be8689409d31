import ShardFleet.Fault

/-!
# Notices

What a server says on a connection with subscriptions: messages, and acknowledgements that carry the
number of subscriptions the connection then has. `Notice.ofFrame` reads a frame as a notice; a field
that is missing or no text reads as the empty text, and a count that is no number reads as zero.
-/

namespace ShardFleet

/-- What is subscribed to. -/
inductive Topic where
  | channels
  | patterns
deriving DecidableEq, Repr

/-- The command that subscribes. -/
def Topic.joinCommand : Topic → String
  | channels => "SUBSCRIBE"
  | patterns => "PSUBSCRIBE"

/-- The command that takes subscriptions back. -/
def Topic.leaveCommand : Topic → String
  | channels => "UNSUBSCRIBE"
  | patterns => "PUNSUBSCRIBE"

/-- What a server says about subscriptions. -/
inductive Notice where
  | message (channel : String) (payload : Bytes)
  | patternMessage (pattern channel : String) (payload : Bytes)
  /-- A name was subscribed to, and there are now so many. -/
  | joined (topic : Topic) (name : String) (count : Nat)
  /-- A name was taken back, and there are now so many. -/
  | left (topic : Topic) (name : String) (count : Nat)
  | pong
deriving DecidableEq, Repr

namespace Notice

/-- The text of a field. -/
def textAt (items : List Resp.Value) (i : Nat) : String := (items[i]?.bind (·.asText?)).getD ""

/-- The bytes of a field. -/
def payloadAt (items : List Resp.Value) (i : Nat) : Bytes :=
  match items[i]? with
  | some (.bulk b) => b
  | _ => []

/-- The count of an acknowledgement. -/
def countAt (items : List Resp.Value) (i : Nat) : Nat :=
  ((items[i]?.bind (·.asInteger?)).map (·.toInt.toNat)).getD 0

/-- The notice of an array, by its first field, in which the case of letters does not matter. -/
def ofItems (items : List Resp.Value) : Except Fault Notice :=
  let kind := (textAt items 0).map Char.toLower
  let name := textAt items 1
  if kind = "message" then .ok (message name (payloadAt items 2))
  else if kind = "pmessage" then .ok (patternMessage name (textAt items 2) (payloadAt items 3))
  else if kind = "subscribe" then .ok (joined .channels name (countAt items 2))
  else if kind = "psubscribe" then .ok (joined .patterns name (countAt items 2))
  else if kind = "unsubscribe" then .ok (left .channels name (countAt items 2))
  else if kind = "punsubscribe" then .ok (left .patterns name (countAt items 2))
  else if kind = "pong" then .ok pong
  else .error (.protocol (.unexpectedEvent kind))

/-- The notice of a frame. -/
def ofFrame : Resp.Value → Except Fault Notice
  | .array items => ofItems items
  | .error m => .error (.data m)
  | v => .error (.protocol (.unexpectedFrame v))

end Notice

end ShardFleet
