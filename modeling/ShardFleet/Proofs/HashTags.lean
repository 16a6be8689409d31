import Mathlib.Data.List.TakeWhile
import ShardFleet.Proofs.Texts
import ShardFleet.Router

/-!
# Keys with hash tags

A key has a tag where there is some text between its first opening brace and the first closing brace
after it. Only the tag of such a key is hashed, and of any other key all of it. So keys with the same
tag belong to one shard, and so does their tag itself.
-/

namespace ShardFleet

/-- The parts of a key with a tag: what stands before its braces, in them and behind them. The opening
brace is the first of the key and the closing one the first after it. -/
structure Parts (key before tag after : Bytes) : Prop where
  whole : key = before ++ 0x7B :: (tag ++ 0x7D :: after)
  opens : 0x7B ∉ before
  closes : 0x7D ∉ tag
  nonempty : tag ≠ []

/-- Whether a key has a tag. -/
def Tagged (key tag : Bytes) : Prop := ∃ before after, Parts key before tag after

/-- Of a key with a tag the tag is hashed. -/
theorem Tagged.hashTag_eq {key tag : Bytes} (h : Tagged key tag) : hashTag key = tag := by
  obtain ⟨before, after, rfl, hopen, hclose, hsome⟩ := h
  have hdrop : (before ++ 0x7B :: (tag ++ 0x7D :: after)).dropWhile (· != 0x7B) =
      0x7B :: (tag ++ 0x7D :: after) := by
    rw [List.dropWhile_append_of_pos fun b hb => bne_iff_ne.2 (ne_of_mem_of_not_mem hb hopen)]
    exact List.dropWhile_cons_of_neg (by simp)
  have htake : (tag ++ 0x7D :: after).takeWhile (· != 0x7D) = tag := by
    rw [List.takeWhile_append_of_pos fun b hb => bne_iff_ne.2 (ne_of_mem_of_not_mem hb hclose),
      List.takeWhile_cons_of_neg (by simp), List.append_nil]
  simp only [hashTag, hdrop, htake]
  exact if_neg (by simp [hsome])

/-- The first of some bytes that is `b` splits them. -/
theorem split_at_first {b x : UInt8} {l rest : Bytes} (h : l.dropWhile (· != b) = x :: rest) :
    l = l.takeWhile (· != b) ++ b :: rest ∧ b ∉ l.takeWhile (· != b) := by
  have hfirst := List.head?_dropWhile_not (· != b) l
  rw [h] at hfirst
  obtain rfl : x = b := by simpa using hfirst
  refine ⟨?_, fun hmem => by simpa using List.mem_takeWhile_imp hmem⟩
  rw [← h, List.takeWhile_append_dropWhile]

/-- Of a key without a tag all is hashed. -/
theorem hashTag_eq_self {key : Bytes} (h : ∀ tag, ¬ Tagged key tag) : hashTag key = key := by
  unfold hashTag
  split
  · rfl
  rename_i b inner hopen
  dsimp only
  split
  · rfl
  rename_i htag
  simp only [Bool.or_eq_true, List.isEmpty_iff, decide_eq_true_eq, not_or] at htag
  obtain ⟨hsome, hshort⟩ := htag
  obtain ⟨hkey, hbefore⟩ := split_at_first hopen
  cases hclose : inner.dropWhile (· != 0x7D) with
  | nil =>
    have hwhole := List.takeWhile_append_dropWhile (p := (· != 0x7D)) (l := inner)
    rw [hclose, List.append_nil] at hwhole
    exact absurd (congrArg List.length hwhole) hshort
  | cons y after =>
    obtain ⟨hinner, hnone⟩ := split_at_first hclose
    exact absurd ⟨_, after, hinner ▸ hkey, hbefore, hnone, hsome⟩ (h _)

/-! ### The parts of a key -/

/-- A key has parts in one way only. -/
theorem Parts.unique {key before tag after before' tag' after' : Bytes}
    (h : Parts key before tag after) (h' : Parts key before' tag' after') :
    before' = before ∧ tag' = tag ∧ after' = after := by
  obtain ⟨hbefore, hrest⟩ :=
    append_cons_inj_of_front h'.opens h.opens (h'.whole.symm.trans h.whole)
  obtain ⟨htag, hafter⟩ := append_cons_inj_of_front h'.closes h.closes hrest
  exact ⟨hbefore, htag, hafter⟩

/-- A tag has no tag of its own: whatever braces open in it, none of them is closed in it. -/
theorem Tagged.untagged {key tag : Bytes} (h : Tagged key tag) (inner : Bytes) :
    ¬ Tagged tag inner := by
  obtain ⟨-, -, -, -, hclose, -⟩ := h
  rintro ⟨before, after, rfl, -⟩
  simp at hclose

theorem hashTag_hashTag (key : Bytes) : hashTag (hashTag key) = hashTag key := by
  by_cases h : ∃ tag, Tagged key tag
  · obtain ⟨tag, htag⟩ := h
    rw [htag.hashTag_eq, hashTag_eq_self htag.untagged]
  · rw [hashTag_eq_self (not_exists.1 h), hashTag_eq_self (not_exists.1 h)]

/-! ### Where keys live -/

namespace Router

variable {α : Type} {r : Router α} {key other : Bytes}

theorem shardKey_shardKey (r : Router α) (key : Bytes) :
    r.shardKey (r.shardKey key) = r.shardKey key := by
  unfold shardKey
  split
  · exact hashTag_hashTag key
  · rfl

theorem routeIndex_shardKey (r : Router α) (key : Bytes) :
    r.routeIndex (r.shardKey key) = r.routeIndex key := by
  rw [routeIndex, shardKey_shardKey, routeIndex]

theorem routeIndex_of_hashTag (counts : r.keyTags = true) (h : hashTag other = hashTag key) :
    r.routeIndex other = r.routeIndex key := by
  rw [routeIndex, routeIndex, shardKey, shardKey, if_pos counts, if_pos counts, h]

/-- What decides where a key lives. -/
structure Decides (r : Router α) (key : Bytes) : Prop where
  /-- Of a key with a tag the tag is hashed. -/
  tag : ∀ before tag after, Parts key before tag after → hashTag key = tag
  /-- Of any other key all is hashed. -/
  whole : (¬ ∃ before tag after, Parts key before tag after) → hashTag key = key
  unique : ∀ before tag after before' tag' after', Parts key before tag after →
    Parts key before' tag' after' → before' = before ∧ tag' = tag ∧ after' = after
  stable : hashTag (hashTag key) = hashTag key
  /-- Keys of which the same is hashed live together if tags count. -/
  together : r.keyTags = true → ∀ other, hashTag other = hashTag key →
    r.routeIndex other = r.routeIndex key
  /-- So does the tag by itself. -/
  bare : r.keyTags = true → r.routeIndex (hashTag key) = r.routeIndex key
  owner : r.ring.shards[r.routeIndex key]? = some (r.route key)
  hashed : r.routeIndex key = r.routeIndex (r.shardKey key)

/-- **The tag of a key decides where it lives**, if it has one and tags count: what is hashed of a key
is its tag, which it has in one way only, and all of a key without one. Nothing changes if this is done
again, so keys with the same tag live on one shard, where the tag by itself would live too. -/
theorem tag_decides_shard (r : Router α) (key : Bytes) : r.Decides key where
  tag before _ after h := Tagged.hashTag_eq ⟨before, after, h⟩
  whole h := hashTag_eq_self fun _ ⟨before, after, hparts⟩ => h ⟨before, _, after, hparts⟩
  unique _ _ _ _ _ _ h h' := h.unique h'
  stable := hashTag_hashTag key
  together counts _ h := routeIndex_of_hashTag counts h
  bare counts := routeIndex_of_hashTag counts (hashTag_hashTag key)
  owner := List.getElem?_eq_getElem (r.routeIndex_lt key)
  hashed := (r.routeIndex_shardKey key).symm

/-- A closing brace before the first opening one does not count, and an opening one in a tag is a part
of it. -/
example : hashTag (utf8 "a\x7db\x7b\x7bc\x7dd\x7d") = utf8 "\x7bc" := by decide +kernel

end Router

end ShardFleet
