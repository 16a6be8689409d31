import ShardFleet.Proofs.Grammar
import ShardFleet.Command

/-!
# What is written is read

Writing a value and reading it back gives the value, exactly if all that it holds can be written at
all: texts in which no line ends, and lengths that a header may announce.
-/

namespace ShardFleet

namespace Resp

/-! ### Values that can be written -/

/-- Whether `u` is a value or stands somewhere inside it. -/
inductive Value.Inside (u : Value) : Value → Prop where
  | self : Inside u u
  | item {v : Value} {items : List Value} (mem : v ∈ items) (inside : Inside u v) :
      Inside u (.array items)

/-- Whether a value, apart from its items, has a written form that a reader takes. -/
def Value.Fits : Value → Prop
  | .simple s => ¬ crlf <:+: utf8 s
  | .error s => ¬ crlf <:+: utf8 s
  | .bulk b => b.length ≤ maxLength
  | .array items => items.length ≤ maxLength
  | _ => True

/-- Whether a value and all that stands inside it has a written form that a reader takes. -/
def Value.Encodable (v : Value) : Prop := ∀ u : Value, u.Inside v → u.Fits

theorem Value.encodable_array {items : List Value} :
    (Value.array items).Encodable ↔ items.length ≤ maxLength ∧ ∀ v ∈ items, v.Encodable := by
  constructor
  · intro h
    exact ⟨h _ .self, fun v hv u hu => h u (.item hv hu)⟩
  · rintro ⟨hlength, hitems⟩ u hu
    cases hu with
    | self => exact hlength
    | item hv hu => exact hitems _ hv u hu

theorem Value.encodable_of_leaf {v : Value} (hv : ∀ items, v ≠ .array items) :
    v.Encodable ↔ v.Fits := by
  constructor
  · exact fun h => h v .self
  · intro h u hu
    cases hu with
    | self => exact h
    | item => exact absurd rfl (hv _)

mutual

/-- Only values that can be written have frames. -/
theorem encodable_of_derives {v : Value} {frame : Bytes} (h : Derives v frame) : v.Encodable := by
  cases h with
  | simple h => exact (Value.encodable_of_leaf (by simp)).2 h
  | error h => exact (Value.encodable_of_leaf (by simp)).2 h
  | integer h => exact (Value.encodable_of_leaf (by simp)).2 trivial
  | bulk h le => exact (Value.encodable_of_leaf (by simp)).2 le
  | nullBulk h => exact (Value.encodable_of_leaf (by simp)).2 trivial
  | array h le all => exact Value.encodable_array.2 ⟨le, encodable_of_derivesAll all⟩
  | nullArray h => exact (Value.encodable_of_leaf (by simp)).2 trivial

theorem encodable_of_derivesAll {items : List Value} {frames : Bytes}
    (h : DerivesAll items frames) : ∀ v ∈ items, v.Encodable := by
  cases h with
  | nil => simp
  | cons first others =>
    exact List.forall_mem_cons.2 ⟨encodable_of_derives first, encodable_of_derivesAll others⟩

end

theorem spells_absent : Numeral.Spells (utf8 "-1") (-1) := by
  have h : toString (-1 : Int) = "-1" := rfl
  rw [← h]
  exact Numeral.spells_integer (-1)

mutual

/-- The written form of a value is one of its frames. -/
theorem derives_encode : ∀ v : Value, v.Encodable → Derives v (encode v)
  | .simple _, h => .simple (h _ .self)
  | .error _, h => .error (h _ .self)
  | .integer n, _ => .integer (Numeral.spells_write n)
  | .bulk b, h => .bulk (Numeral.spells_natural b.length) (h _ .self)
  | .nullBulk, _ => .nullBulk spells_absent
  | .array items, h =>
    .array (Numeral.spells_natural items.length) (h _ .self)
      (derivesAll_encodeAll items (Value.encodable_array.1 h).2)
  | .nullArray, _ => .nullArray spells_absent

theorem derivesAll_encodeAll : ∀ items : List Value, (∀ v ∈ items, v.Encodable) →
    DerivesAll items (encodeAll items)
  | [], _ => .nil
  | v :: items, h =>
    .cons (derives_encode v (h v List.mem_cons_self))
      (derivesAll_encodeAll items fun w hw => h w (List.mem_cons_of_mem _ hw))

end

theorem parse_encode {v : Value} (h : v.Encodable) (rest : Bytes) :
    parse (encode v ++ rest) = .found v rest :=
  parse_of_derives (derives_encode v h) rest

theorem encodable_of_parse {b rest : Bytes} {v : Value} (h : parse b = .found v rest) :
    v.Encodable := by
  obtain ⟨frame, hframe, -⟩ := derives_of_parse h
  exact encodable_of_derives hframe

/-- **A value is read back from its written form exactly if it can be written.** -/
theorem parse_encode_iff (v : Value) (rest : Bytes) :
    parse (encode v ++ rest) = .found v rest ↔ v.Encodable :=
  ⟨encodable_of_parse, fun h => parse_encode h rest⟩

end Resp

end ShardFleet
