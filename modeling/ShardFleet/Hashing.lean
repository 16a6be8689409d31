import ShardFleet.Digest.Md5
import ShardFleet.Digest.Fnv1a

/-!
# Hashing onto the ring

The two hash functions a ring may use. Both send a byte list to a 64-bit position.
-/

namespace ShardFleet

/-- The hash function of a ring. -/
inductive Hashing where
  | md5
  | fnv1a
deriving DecidableEq, Repr

namespace Hashing

/-- The number that a byte list writes, most significant byte first. -/
def bigEndian (b : Bytes) : UInt64 := b.foldl (fun n x => n <<< 8 ||| x.toUInt64) 0

/-- The position of a byte list: the first eight bytes of its MD5 digest, or its FNV-1a hash. -/
def hash : Hashing → Bytes → UInt64
  | md5, b => bigEndian ((Md5.digest b).take 8)
  | fnv1a, b => Fnv1a.hash b

/-- The name used in settings. -/
def name : Hashing → String
  | md5 => "md5"
  | fnv1a => "fnv1a"

/-- The hash function with a name, if there is one. -/
def ofName? : String → Option Hashing
  | "md5" => some md5
  | "fnv1a" => some fnv1a
  | _ => none

/-- The name used in reports. -/
def title : Hashing → String
  | md5 => "Md5"
  | fnv1a => "Fnv1a"

theorem ofName?_name (h : Hashing) : ofName? h.name = some h := by cases h <;> rfl

end Hashing

end ShardFleet
