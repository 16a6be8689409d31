import Mathlib.Tactic.IntervalCases
import ShardFleet.Proofs.Texts
import ShardFleet.Resp.Numeral

/-!
# Numbers and the lines that write them

The grammar of integer lines, and that reading follows it: a line is read as an integer exactly if
it writes one of sixty-four bits. What is written for a number is such a line.
-/

namespace ShardFleet.Resp.Numeral

/-- At least one decimal digit, and nothing else. -/
structure Digits (b : Bytes) : Prop where
  ne_nil : b ≠ []
  digit : ∀ x ∈ b, 0x30 ≤ x ∧ x ≤ 0x39

/-- The number that decimal digits write after a number `n`. -/
def decimalFrom (n : Nat) (digits : Bytes) : Nat :=
  digits.foldl (fun n x => n * 10 + (x.toNat - 0x30)) n

/-- The number that decimal digits write. -/
def decimal (digits : Bytes) : Nat := decimalFrom 0 digits

/-- Whether a line writes an integer: a sign or none, and digits. -/
inductive Spells : Bytes → Int → Prop where
  | plain {digits} (h : Digits digits) : Spells digits (decimal digits)
  | plus {digits} (h : Digits digits) : Spells (0x2B :: digits) (decimal digits)
  | minus {digits} (h : Digits digits) : Spells (0x2D :: digits) (-decimal digits)

/-! ### Reading -/

theorem digit?_eq_some {b : UInt8} {d : Nat} :
    digit? b = some d ↔ (0x30 ≤ b ∧ b ≤ 0x39) ∧ d = b.toNat - 0x30 := by
  grind [digit?]

theorem le_decimalFrom (n : Nat) (digits : Bytes) : n ≤ decimalFrom n digits := by
  induction digits generalizing n with
  | nil => exact Nat.le_refl n
  | cons x digits ih =>
    have := ih (n * 10 + (x.toNat - 0x30))
    simp only [decimalFrom, List.foldl_cons] at this ⊢
    omega

theorem magnitude_eq_ok {limit : Nat} {overflow : Fault} {acc n : Nat} {b : Bytes}
    (hacc : acc ≤ limit) :
    magnitude limit overflow acc b = .ok n ↔
      (∀ x ∈ b, 0x30 ≤ x ∧ x ≤ 0x39) ∧ decimalFrom acc b = n ∧ n ≤ limit := by
  induction b generalizing acc with
  | nil =>
    simp only [magnitude, decimalFrom]
    grind
  | cons x b ih =>
    cases hd : digit? x with
    | none =>
      have hx : ¬ (0x30 ≤ x ∧ x ≤ 0x39) := fun hx => by
        simp [digit?_eq_some.2 ⟨hx, rfl⟩] at hd
      simp [magnitude, hd, hx]
    | some d =>
      obtain ⟨hx, rfl⟩ := digit?_eq_some.1 hd
      have hfrom : decimalFrom acc (x :: b) = decimalFrom (acc * 10 + (x.toNat - 0x30)) b := rfl
      simp only [magnitude, hd, List.forall_mem_cons, hx, hfrom]
      split
      · rename_i hle
        rw [ih hle]
        simp
      · rename_i hlt
        have := le_decimalFrom (acc * 10 + (x.toNat - 0x30)) b
        simp
        omega

theorem unsigned_eq_ok {limit : Nat} {overflow : Fault} {n : Nat} {b : Bytes} :
    unsigned limit overflow b = .ok n ↔ Digits b ∧ decimal b = n ∧ n ≤ limit := by
  cases b with
  | nil =>
    constructor
    · intro h
      cases h
    · rintro ⟨h, -⟩
      exact absurd rfl h.ne_nil
  | cons x b =>
    rw [unsigned, magnitude_eq_ok (Nat.zero_le _)]
    · exact ⟨fun ⟨h, h'⟩ => ⟨⟨by simp, h⟩, h'⟩, fun ⟨h, h'⟩ => ⟨h.digit, h'⟩⟩
    · simp

theorem largest_eq : largest = 2 ^ 63 - 1 := by decide

/-- What digits are read as, where `value` is the integer that a number stands for and `f` makes it
one of sixty-four bits. -/
theorem unsigned_map_eq_ok {limit : Nat} {overflow : Fault} {f : Nat → Int64} (value : Nat → Int)
    (hvalue : ∀ m ≤ limit, (f m).toInt = value m)
    (hlimit : ∀ m (n : Int64), value m = n.toInt → m ≤ limit) {b : Bytes} {n : Int64} :
    (unsigned limit overflow b).map f = .ok n ↔ Digits b ∧ value (decimal b) = n.toInt := by
  simp only [map_eq_ok_iff, unsigned_eq_ok]
  constructor
  · rintro ⟨m, ⟨hb, rfl, hle⟩, rfl⟩
    exact ⟨hb, (hvalue _ hle).symm⟩
  · rintro ⟨hb, hn⟩
    have hle := hlimit _ _ hn
    exact ⟨_, ⟨hb, rfl, hle⟩, Int64.toInt_inj.1 ((hvalue _ hle).trans hn)⟩

theorem unsigned_map_ofNat_eq_ok {b : Bytes} {n : Int64} :
    (unsigned largest .tooLarge b).map Int64.ofNat = .ok n ↔
      Digits b ∧ (decimal b : Int) = n.toInt := by
  refine unsigned_map_eq_ok (fun m => m) (fun m hm => ?_) fun m n h => ?_
  · rw [largest_eq] at hm
    exact Int64.toInt_ofNat_of_lt (by omega)
  · have hupper := n.toInt_lt
    rw [largest_eq]
    omega

theorem read_minus_eq_ok {digits : Bytes} {n : Int64} :
    read (0x2D :: digits) = .ok n ↔ Digits digits ∧ -(decimal digits : Int) = n.toInt := by
  have hread : read (0x2D :: digits) =
      (unsigned (largest + 1) .tooSmall digits).map fun m : Nat => Int64.ofInt (-m) := by
    rw [read]
    cases unsigned (largest + 1) .tooSmall digits <;> rfl
  rw [hread, largest_eq]
  refine unsigned_map_eq_ok (fun m => -m) (fun m hm => ?_) fun m n h => ?_
  · exact Int64.toInt_ofInt_of_le (by omega) (by omega)
  · have hlower := n.le_toInt
    omega

theorem read_plus_eq_ok {digits : Bytes} {n : Int64} :
    read (0x2B :: digits) = .ok n ↔ Digits digits ∧ (decimal digits : Int) = n.toInt :=
  unsigned_map_ofNat_eq_ok

theorem read_plain_eq_ok {b : Bytes} (hminus : b.head? ≠ some 0x2D) (hplus : b.head? ≠ some 0x2B)
    {n : Int64} : read b = .ok n ↔ Digits b ∧ (decimal b : Int) = n.toInt := by
  have hread : read b = (unsigned largest .tooLarge b).map Int64.ofNat := by
    unfold read
    split
    · exact absurd rfl hminus
    · exact absurd rfl hplus
    · rfl
  rw [hread, unsigned_map_ofNat_eq_ok]

theorem Digits.head?_ne {b : Bytes} (h : Digits b) {x : UInt8} (hx : ¬ (0x30 ≤ x ∧ x ≤ 0x39)) :
    b.head? ≠ some x :=
  fun hb => hx (h.digit x (List.mem_of_mem_head? hb))

/-- **A line is read as an integer exactly if it writes one of sixty-four bits.** -/
theorem read_eq_ok_iff {b : Bytes} {n : Int64} : read b = .ok n ↔ Spells b n.toInt := by
  constructor
  · intro h
    by_cases hminus : b.head? = some 0x2D
    · obtain ⟨digits, rfl⟩ := List.head?_eq_some_iff.1 hminus
      rw [read_minus_eq_ok] at h
      exact h.2 ▸ .minus h.1
    by_cases hplus : b.head? = some 0x2B
    · obtain ⟨digits, rfl⟩ := List.head?_eq_some_iff.1 hplus
      rw [read_plus_eq_ok] at h
      exact h.2 ▸ .plus h.1
    · rw [read_plain_eq_ok hminus hplus] at h
      exact h.2 ▸ .plain h.1
  · intro h
    generalize hz : n.toInt = z at h
    cases h with
    | plain hdigits =>
      exact (read_plain_eq_ok (hdigits.head?_ne (by decide)) (hdigits.head?_ne (by decide))).2
        ⟨hdigits, hz.symm⟩
    | plus hdigits => exact read_plus_eq_ok.2 ⟨hdigits, hz.symm⟩
    | minus hdigits => exact read_minus_eq_ok.2 ⟨hdigits, hz.symm⟩

/-! ### What an integer line holds -/

theorem Spells.mem {b : Bytes} {z : Int} (h : Spells b z) :
    ∀ x ∈ b, x = 0x2B ∨ x = 0x2D ∨ 0x30 ≤ x ∧ x ≤ 0x39 := by
  cases h with
  | plain h => exact fun x hx => .inr (.inr (h.digit x hx))
  | plus h => exact List.forall_mem_cons.2 ⟨.inl rfl, fun x hx => .inr (.inr (h.digit x hx))⟩
  | minus h =>
    exact List.forall_mem_cons.2 ⟨.inr (.inl rfl), fun x hx => .inr (.inr (h.digit x hx))⟩

/-! ### Writing -/

theorem utf8_digitChar {d : Nat} (h : d < 10) :
    String.utf8EncodeChar (Nat.digitChar d) = [UInt8.ofNat (0x30 + d)] := by
  interval_cases d <;> rfl

theorem decimal_concat (b : Bytes) (x : UInt8) :
    decimal (b ++ [x]) = decimal b * 10 + (x.toNat - 0x30) := by
  simp [decimal, decimalFrom]

theorem utf8_repr (n : Nat) :
    utf8 n.repr = (if n < 10 then [] else utf8 (n / 10).repr) ++ [UInt8.ofNat (0x30 + n % 10)] := by
  split
  · rename_i h
    rw [Nat.repr_of_lt h, Nat.mod_eq_of_lt h]
    simp [utf8, utf8_digitChar h]
  · rename_i h
    rw [Nat.repr_of_ge (by omega), utf8_append]
    simp [utf8, utf8_digitChar (Nat.mod_lt n (by decide : 0 < 10))]

/-- The written form of a number is made of digits, and they write it. -/
theorem digits_repr (n : Nat) : Digits (utf8 n.repr) ∧ decimal (utf8 n.repr) = n := by
  induction n using Nat.strongRecOn with
  | ind n ih =>
    have hdigit : 0x30 ≤ UInt8.ofNat (0x30 + n % 10) ∧ UInt8.ofNat (0x30 + n % 10) ≤ 0x39 := by
      rw [UInt8.le_iff_toNat_le, UInt8.le_iff_toNat_le, UInt8.toNat_ofNat']
      simp
      omega
    have hvalue : (UInt8.ofNat (0x30 + n % 10)).toNat - 0x30 = n % 10 := by
      rw [UInt8.toNat_ofNat']
      omega
    rw [utf8_repr, decimal_concat, hvalue]
    by_cases h : n < 10
    · rw [if_pos h]
      exact ⟨⟨by simp, by simpa using hdigit⟩, by simp [decimal, decimalFrom]; omega⟩
    · rw [if_neg h]
      obtain ⟨hdigits, hdecimal⟩ := ih (n / 10) (by omega)
      refine ⟨⟨by simp, ?_⟩, by omega⟩
      intro x hx
      rcases List.mem_append.1 hx with hx | hx
      · exact hdigits.digit x hx
      · rw [List.mem_singleton.1 hx]
        exact hdigit

theorem spells_natural (n : Nat) : Spells (utf8 (toString n)) n := by
  obtain ⟨hdigits, hdecimal⟩ := digits_repr n
  have h := Spells.plain hdigits
  rwa [hdecimal] at h

/-- An integer is written in digits, after a minus sign if it is negative. -/
theorem utf8_integer (z : Int) : utf8 (toString z) =
    if 0 ≤ z then utf8 z.toNat.repr else 0x2D :: utf8 (-z).toNat.repr := by
  rw [Int.toString_eq_repr, Int.repr_eq_if]
  split
  · rfl
  · rw [utf8_append]
    rfl

theorem spells_integer (z : Int) : Spells (utf8 (toString z)) z := by
  rw [utf8_integer]
  split
  · rename_i hz
    have h := spells_natural z.toNat
    rwa [Int.toNat_of_nonneg hz] at h
  · rename_i hz
    obtain ⟨hdigits, hdecimal⟩ := digits_repr (-z).toNat
    have h := Spells.minus hdigits
    rwa [hdecimal, Int.toNat_of_nonneg (by omega), Int.neg_neg] at h

theorem spells_write (n : Int64) : Spells (write n) n.toInt := spells_integer n.toInt

end ShardFleet.Resp.Numeral

namespace ShardFleet

/-- Different numbers are written in different ways. -/
theorem utf8_natural_injective : Function.Injective fun n : Nat => utf8 (toString n) :=
  fun m n h => by simpa [Resp.Numeral.digits_repr] using congrArg Resp.Numeral.decimal h

end ShardFleet
