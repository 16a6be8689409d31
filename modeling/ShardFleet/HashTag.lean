import ShardFleet.Text.Utf8

/-!
# Hash tags

A key may name the part of itself that decides where it lives: the text between its first opening
brace and the first closing brace after it. Keys with the same tag live together.
-/

namespace ShardFleet

/-- The bytes of a key that are hashed: its tag when that is there and not empty, else all of it. -/
def hashTag (key : Bytes) : Bytes :=
  match key.dropWhile (· != 0x7B) with
  | [] => key
  | _ :: inner =>
    let tag := inner.takeWhile (· != 0x7D)
    if tag.isEmpty || tag.length = inner.length then key else tag

end ShardFleet
