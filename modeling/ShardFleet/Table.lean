/-!
# Tables

Finite maps as lists of entries whose keys are distinct. Main statements: `find?_insert` and
`find?_erase` say what each operation does to the one view, `find?`.
-/

namespace ShardFleet

/-- A finite map from keys to values. -/
structure Table (κ α : Type) where
  entries : List (κ × α)
  distinct : (entries.map (·.1)).Nodup
deriving Repr

namespace Table

variable {κ α : Type} [DecidableEq κ]

/-- The map of nothing. -/
def empty : Table κ α := ⟨[], .nil⟩

instance : EmptyCollection (Table κ α) := ⟨empty⟩

instance : Inhabited (Table κ α) := ⟨empty⟩

/-- The value of a key. -/
def find? (t : Table κ α) (key : κ) : Option α := (t.entries.find? (·.1 = key)).map (·.2)

/-- The keys that have a value. -/
def keys (t : Table κ α) : List κ := t.entries.map (·.1)

/-- The values. -/
def values (t : Table κ α) : List α := t.entries.map (·.2)

/-- The map without a key. -/
def erase (t : Table κ α) (key : κ) : Table κ α where
  entries := t.entries.filter (·.1 ≠ key)
  distinct := t.distinct.sublist (List.filter_sublist.map _)

/-- The map with a new value for a key. -/
def insert (t : Table κ α) (key : κ) (a : α) : Table κ α where
  entries := (key, a) :: (t.erase key).entries
  distinct := by
    refine List.nodup_cons.2 ⟨fun h => ?_, (t.erase key).distinct⟩
    obtain ⟨e, he, hk⟩ := List.mem_map.1 h
    simp only [erase, List.mem_filter, decide_eq_true_eq] at he
    exact he.2 hk

/-- The map of some entries, of which later ones replace earlier ones with the same key. -/
def ofList (l : List (κ × α)) : Table κ α := l.foldl (fun t e => t.insert e.1 e.2) empty

@[simp] theorem find?_empty (key : κ) : (empty : Table κ α).find? key = none := rfl

theorem find?_erase (t : Table κ α) (key other : κ) :
    (t.erase key).find? other = if other = key then none else t.find? other := by
  obtain ⟨l, hl⟩ := t
  simp only [find?, erase]
  clear hl
  induction l with
  | nil => simp
  | cons e l ih =>
    by_cases hk : e.1 = key <;> by_cases ho : e.1 = other <;>
      simp_all

theorem find?_insert (t : Table κ α) (key other : κ) (a : α) :
    (t.insert key a).find? other = if other = key then some a else t.find? other := by
  by_cases h : other = key
  · subst h; simp [find?, insert]
  · have := t.find?_erase key other
    simp only [h, if_false] at this ⊢
    rw [← this]
    simp [find?, insert, Ne.symm h]

@[simp] theorem find?_insert_self (t : Table κ α) (key : κ) (a : α) :
    (t.insert key a).find? key = some a := by simp [find?_insert]

@[simp] theorem find?_erase_self (t : Table κ α) (key : κ) : (t.erase key).find? key = none := by
  simp [find?_erase]

theorem find?_eq_some_iff {t : Table κ α} {key : κ} {a : α} :
    t.find? key = some a ↔ (key, a) ∈ t.entries := by
  obtain ⟨l, hl⟩ := t
  simp only [find?]
  induction l with
  | nil => simp
  | cons e l ih =>
    obtain ⟨hn, hl⟩ := List.nodup_cons.1 hl
    by_cases hk : e.1 = key
    · subst hk
      have : ∀ b, (e.1, b) ∉ l := fun b hb => hn (List.mem_map.2 ⟨_, hb, rfl⟩)
      simp [this, Prod.ext_iff, eq_comm]
    · have : (key, a) ≠ e := fun h => hk (by rw [← h])
      simp only [List.find?_cons, hk, decide_false, List.mem_cons, this, false_or]
      exact ih hl

/-! ### Changes to one key after the other -/

omit [DecidableEq κ] in
theorem ext {t u : Table κ α} (h : t.entries = u.entries) : t = u := by
  cases t
  cases u
  congr

theorem entries_insert (t : Table κ α) (key : κ) (a : α) :
    (t.insert key a).entries = (key, a) :: (t.erase key).entries := rfl

theorem find?_eq_none_iff {t : Table κ α} {key : κ} :
    t.find? key = none ↔ ∀ e ∈ t.entries, e.1 ≠ key := by
  simp [find?]

theorem erase_of_find?_eq_none {t : Table κ α} {key : κ} (h : t.find? key = none) :
    t.erase key = t := by
  refine ext (List.filter_eq_self.2 fun e he => ?_)
  simpa using find?_eq_none_iff.1 h e he

@[simp] theorem erase_erase (t : Table κ α) (key : κ) : (t.erase key).erase key = t.erase key :=
  erase_of_find?_eq_none (t.find?_erase_self key)

@[simp] theorem erase_insert (t : Table κ α) (key : κ) (a : α) :
    (t.insert key a).erase key = t.erase key := by
  refine ext ?_
  simp [erase, insert]

@[simp] theorem insert_erase (t : Table κ α) (key : κ) (a : α) :
    (t.erase key).insert key a = t.insert key a := by
  refine ext ?_
  rw [entries_insert, entries_insert, erase_erase]

@[simp] theorem insert_insert (t : Table κ α) (key : κ) (a b : α) :
    (t.insert key a).insert key b = t.insert key b := by
  refine ext ?_
  rw [entries_insert, entries_insert, erase_insert]

end Table

end ShardFleet
