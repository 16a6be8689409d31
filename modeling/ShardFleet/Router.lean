import ShardFleet.Ring
import ShardFleet.HashTag

/-!
# Routing keys to shards

A router is a ring together with the choice whether hash tags count.
-/

namespace ShardFleet

/-- A ring whose keys may carry hash tags. -/
structure Router (α : Type) where
  ring : Ring α
  /-- Whether only the tag of a key is hashed. -/
  keyTags : Bool

namespace Router

variable {α : Type}

/-- The bytes of a key that are hashed. -/
def shardKey (r : Router α) (key : Bytes) : Bytes := if r.keyTags then hashTag key else key

/-- The index of the shard that owns `key`. -/
def routeIndex (r : Router α) (key : Bytes) : Nat := r.ring.routeIndex (r.shardKey key)

/-- The shard that owns `key`. -/
def route (r : Router α) (key : Bytes) : α := r.ring.route (r.shardKey key)

theorem routeIndex_lt (r : Router α) (key : Bytes) : r.routeIndex key < r.ring.shards.length :=
  r.ring.routeIndex_lt _

theorem route_eq_get (r : Router α) (key : Bytes) :
    r.route key = r.ring.shards.get ⟨r.routeIndex key, r.routeIndex_lt key⟩ := rfl

/-- Where all of `names` live, if there is one such place: `none` for no names, the index of their
shard, or the first name that lives elsewhere. -/
def together? (r : Router α) : List Bytes → Option (Except (Bytes × Nat) Nat)
  | [] => none
  | first :: rest =>
    let shard := r.routeIndex first
    match rest.find? (r.routeIndex · ≠ shard) with
    | some stray => some (.error (stray, shard))
    | none => some (.ok shard)

end Router

end ShardFleet
