import ShardFleet.Text.Utf8

/-!
# FNV-1a

The hash FNV-1a in 64 bits: every byte is xored in before the state is multiplied by the prime.
-/

namespace ShardFleet.Fnv1a

/-- The state before the first byte. -/
def offsetBasis : UInt64 := 0xcbf29ce484222325

/-- The multiplier. -/
def prime : UInt64 := 0x100000001b3

/-- The hash of a byte list. -/
def hash (m : Bytes) : UInt64 := m.foldl (fun h b => (h ^^^ b.toUInt64) * prime) offsetBasis

end ShardFleet.Fnv1a
