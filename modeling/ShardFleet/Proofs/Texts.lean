import Mathlib.Tactic.SplitIfs
import ShardFleet.Text.Utf8

/-!
# Texts in bytes

Reading UTF-8 undoes writing it, and nothing else is read: bytes are a text exactly if they are what
writes it. So different texts have different bytes.
-/

namespace ShardFleet

theorem map_eq_ok_iff {ε α β : Type} {r : Except ε α} {f : α → β} {b : β} :
    r.map f = .ok b ↔ ∃ a, r = .ok a ∧ f a = b := by
  cases r <;> simp [Except.map]

/-! ### Around a mark -/

/-- A mark splits a list in one way if neither front has it. -/
theorem append_cons_inj_of_front {α : Type} {a : α} {x₁ x₂ z₁ z₂ : List α} (h₁ : a ∉ x₁) (h₂ : a ∉ x₂)
    (h : x₁ ++ a :: z₁ = x₂ ++ a :: z₂) : x₁ = x₂ ∧ z₁ = z₂ := by
  rcases List.append_eq_append_iff.1 h with ⟨c, rfl, hc⟩ | ⟨c, rfl, hc⟩ <;> cases c <;> simp_all

/-- A mark splits a list in one way if neither back has it. -/
theorem append_cons_inj_of_back {α : Type} {a : α} {x₁ x₂ z₁ z₂ : List α} (h₁ : a ∉ z₁) (h₂ : a ∉ z₂)
    (h : x₁ ++ a :: z₁ = x₂ ++ a :: z₂) : x₁ = x₂ ∧ z₁ = z₂ := by
  have hr := congrArg List.reverse h
  simp only [List.reverse_append, List.reverse_cons, List.append_assoc, List.singleton_append] at hr
  obtain ⟨hz, hx⟩ := append_cons_inj_of_front (by simpa using h₁) (by simpa using h₂) hr
  exact ⟨List.reverse_inj.1 hx, List.reverse_inj.1 hz⟩

namespace Utf8

open String (utf8EncodeChar)

/-! ### The bytes of one character -/

/-- The bytes of the character with number `n`, as numbers. -/
def scalarBytes (n : Nat) : List Nat :=
  if n ≤ 0x7F then [n]
  else if n ≤ 0x7FF then [n / 64 + 0xC0, n % 64 + 0x80]
  else if n ≤ 0xFFFF then [n / 4096 + 0xE0, n / 64 % 64 + 0x80, n % 64 + 0x80]
  else [n / 262144 + 0xF0, n / 4096 % 64 + 0x80, n / 64 % 64 + 0x80, n % 64 + 0x80]

theorem toNat_bounds (c : Char) :
    c.toNat < 0xD800 ∨ 0xDFFF < c.toNat ∧ c.toNat < 0x110000 := c.valid

theorem map_utf8EncodeChar (c : Char) :
    (utf8EncodeChar c).map UInt8.toNat = scalarBytes c.toNat := by
  have hc := toNat_bounds c
  simp only [utf8EncodeChar, scalarBytes, Char.toNat_val]
  split_ifs <;> simp only [List.map_cons, List.map_nil, UInt8.toNat_ofNat', List.cons.injEq,
    and_true] <;> omega

theorem utf8EncodeChar_eq_iff {c : Char} {b : Bytes} :
    utf8EncodeChar c = b ↔ scalarBytes c.toNat = b.map UInt8.toNat := by
  rw [← map_utf8EncodeChar, List.map_inj_right fun _ _ => UInt8.toNat_inj.1]

theorem eq_ofNat_iff {c : Char} {n : Nat} (h : n.isValidChar) : c = Char.ofNat n ↔ c.toNat = n := by
  have hn : (Char.ofNat n).toNat = n := by
    rw [Char.ofNat, dif_pos h]
    rfl
  constructor
  · rintro rfl
    exact hn
  · intro hc
    rw [← hc, Char.ofNat_toNat]

theorem isTail_iff {b : UInt8} : isTail b ↔ 0x80 ≤ b.toNat ∧ b.toNat ≤ 0xBF := by
  simp [isTail, UInt8.le_iff_toNat_le]

theorem utf8EncodeChar_eq_one {c : Char} {a : UInt8} :
    utf8EncodeChar c = [a] ↔ a ≤ 0x7F ∧ c = Char.ofNat a.toNat := by
  simp only [utf8EncodeChar_eq_iff, scalarBytes, UInt8.le_iff_toNat_le, UInt8.reduceToNat]
  constructor
  · intro h
    split_ifs at h <;> simp only [List.map_cons, List.map_nil, List.cons.injEq, reduceCtorEq,
      and_false, and_true] at h
    exact ⟨by omega, (eq_ofNat_iff (.inl (by omega))).2 h⟩
  · rintro ⟨ha, hc⟩
    rw [eq_ofNat_iff (.inl (by omega))] at hc
    rw [hc, if_pos ha, List.map_cons, List.map_nil]

theorem utf8EncodeChar_eq_two {c : Char} {a b : UInt8} :
    utf8EncodeChar c = [a, b] ↔ (0xC2 ≤ a ∧ a ≤ 0xDF) ∧ isTail b ∧
      c = Char.ofNat (a.toNat % 32 * 64 + tailBits b) := by
  simp only [utf8EncodeChar_eq_iff, scalarBytes, isTail_iff, tailBits, UInt8.le_iff_toNat_le,
    UInt8.reduceToNat]
  constructor
  · intro h
    split_ifs at h <;> simp only [List.map_cons, List.map_nil, List.cons.injEq, reduceCtorEq,
      and_false, and_true] at h
    exact ⟨by omega, by omega, (eq_ofNat_iff (.inl (by omega))).2 (by omega)⟩
  · rintro ⟨ha, hb, hc⟩
    rw [eq_ofNat_iff (.inl (by omega))] at hc
    rw [if_neg (by omega), if_pos (by omega)]
    simp only [List.map_cons, List.map_nil, List.cons.injEq, and_true]
    omega

/-- The second byte of a character, where the first may narrow what it can be. -/
theorem second_iff {a b x y lo hi : UInt8} (hlo : 0x80 ≤ lo) (hhi : hi ≤ 0xBF) :
    ((if a = x then lo else 0x80) ≤ b ∧ b ≤ if a = y then hi else 0xBF) ↔
      isTail b ∧ (a = x → lo ≤ b) ∧ (a = y → b ≤ hi) := by
  unfold isTail
  grind

theorem utf8EncodeChar_eq_three {c : Char} {a b d : UInt8} :
    utf8EncodeChar c = [a, b, d] ↔ (0xE0 ≤ a ∧ a ≤ 0xEF) ∧
      (isTail b ∧ (a = 0xE0 → 0xA0 ≤ b) ∧ (a = 0xED → b ≤ 0x9F)) ∧ isTail d ∧
      c = Char.ofNat (a.toNat % 16 * 4096 + tailBits b * 64 + tailBits d) := by
  have hbounds := toNat_bounds c
  simp only [utf8EncodeChar_eq_iff, scalarBytes, isTail_iff, tailBits, UInt8.le_iff_toNat_le,
    ← UInt8.toNat_inj, UInt8.reduceToNat]
  constructor
  · intro h
    split_ifs at h <;> simp only [List.map_cons, List.map_nil, List.cons.injEq, reduceCtorEq,
      and_false, and_true] at h
    refine ⟨by omega, by omega, by omega, (eq_ofNat_iff ?_).2 (by omega)⟩
    unfold Nat.isValidChar
    omega
  · rintro ⟨ha, hb, hd, hc⟩
    rw [eq_ofNat_iff (by unfold Nat.isValidChar; omega)] at hc
    rw [if_neg (by omega), if_neg (by omega), if_pos (by omega)]
    simp only [List.map_cons, List.map_nil, List.cons.injEq, and_true]
    omega

theorem utf8EncodeChar_eq_four {c : Char} {a b d e : UInt8} :
    utf8EncodeChar c = [a, b, d, e] ↔ (0xF0 ≤ a ∧ a ≤ 0xF4) ∧
      (isTail b ∧ (a = 0xF0 → 0x90 ≤ b) ∧ (a = 0xF4 → b ≤ 0x8F)) ∧ isTail d ∧ isTail e ∧
      c = Char.ofNat
        (a.toNat % 8 * 262144 + tailBits b * 4096 + tailBits d * 64 + tailBits e) := by
  have hbounds := toNat_bounds c
  simp only [utf8EncodeChar_eq_iff, scalarBytes, isTail_iff, tailBits, UInt8.le_iff_toNat_le,
    ← UInt8.toNat_inj, UInt8.reduceToNat]
  constructor
  · intro h
    split_ifs at h <;> simp only [List.map_cons, List.map_nil, List.cons.injEq, reduceCtorEq,
      and_false, and_true] at h
    refine ⟨by omega, by omega, by omega, by omega, (eq_ofNat_iff ?_).2 (by omega)⟩
    unfold Nat.isValidChar
    omega
  · rintro ⟨ha, hb, hd, he, hc⟩
    rw [eq_ofNat_iff (by unfold Nat.isValidChar; omega)] at hc
    rw [if_neg (by omega), if_neg (by omega), if_neg (by omega)]
    simp only [List.map_cons, List.map_nil, List.cons.injEq, and_true]
    omega

/-! ### Reading one character -/

theorem lead_one {a : UInt8} (h : a ≤ 0x7F) (rest : Bytes) :
    lead a rest = .scalar (Char.ofNat a.toNat) 0 := by
  rw [lead, if_pos h]

theorem lead_two {a : UInt8} (h : 0xC2 ≤ a ∧ a ≤ 0xDF) (rest : Bytes) :
    lead a rest = lead2 a rest := by
  grind [lead]

theorem lead_three {a : UInt8} (h : 0xE0 ≤ a ∧ a ≤ 0xEF) (rest : Bytes) :
    lead a rest =
      lead3 (if a = 0xE0 then 0xA0 else 0x80) (if a = 0xED then 0x9F else 0xBF) a rest := by
  grind [lead]

theorem lead_four {a : UInt8} (h : 0xF0 ≤ a ∧ a ≤ 0xF4) (rest : Bytes) :
    lead a rest =
      lead4 (if a = 0xF0 then 0x90 else 0x80) (if a = 0xF4 then 0x8F else 0xBF) a rest := by
  grind [lead]

theorem lead_cases (a : UInt8) (rest : Bytes) :
    a ≤ 0x7F ∨ (0xC2 ≤ a ∧ a ≤ 0xDF) ∨ (0xE0 ≤ a ∧ a ≤ 0xEF) ∨ (0xF0 ≤ a ∧ a ≤ 0xF4) ∨
      lead a rest = .invalid 1 := by
  grind [lead]

theorem lead2_eq_scalar {a : UInt8} {rest : Bytes} {c : Char} {n : Nat} :
    lead2 a rest = .scalar c n ↔ ∃ b after, rest = b :: after ∧ isTail b ∧
      c = Char.ofNat (a.toNat % 32 * 64 + tailBits b) ∧ n = 1 := by
  rcases rest with _ | ⟨b, after⟩ <;> grind [lead2]

theorem lead3_eq_scalar {lo hi a : UInt8} {rest : Bytes} {c : Char} {n : Nat} :
    lead3 lo hi a rest = .scalar c n ↔ ∃ b d after, rest = b :: d :: after ∧
      (lo ≤ b ∧ b ≤ hi) ∧ isTail d ∧
      c = Char.ofNat (a.toNat % 16 * 4096 + tailBits b * 64 + tailBits d) ∧ n = 2 := by
  rcases rest with _ | ⟨b, _ | ⟨d, after⟩⟩ <;> grind [lead3]

theorem lead4_eq_scalar {lo hi a : UInt8} {rest : Bytes} {c : Char} {n : Nat} :
    lead4 lo hi a rest = .scalar c n ↔ ∃ b d e after, rest = b :: d :: e :: after ∧
      (lo ≤ b ∧ b ≤ hi) ∧ isTail d ∧ isTail e ∧
      c = Char.ofNat
        (a.toNat % 8 * 262144 + tailBits b * 4096 + tailBits d * 64 + tailBits e) ∧ n = 3 := by
  rcases rest with _ | ⟨b, _ | ⟨d, _ | ⟨e, after⟩⟩⟩ <;> grind [lead4]

/-- A character is found in the bytes that write it, whatever follows them. -/
theorem lead_of_utf8EncodeChar {c : Char} {a : UInt8} {tail : Bytes}
    (h : utf8EncodeChar c = a :: tail) (after : Bytes) :
    lead a (tail ++ after) = .scalar c tail.length := by
  match tail with
  | [] =>
    obtain ⟨ha, rfl⟩ := utf8EncodeChar_eq_one.1 h
    exact lead_one ha _
  | [b] =>
    obtain ⟨ha, hb, hc⟩ := utf8EncodeChar_eq_two.1 h
    rw [lead_two ha]
    exact lead2_eq_scalar.2 ⟨b, after, rfl, hb, hc, rfl⟩
  | [b, d] =>
    obtain ⟨ha, hb, hd, hc⟩ := utf8EncodeChar_eq_three.1 h
    rw [lead_three ha]
    exact lead3_eq_scalar.2
      ⟨b, d, after, rfl, (second_iff (by decide) (by decide)).2 hb, hd, hc, rfl⟩
  | [b, d, e] =>
    obtain ⟨ha, hb, hd, he, hc⟩ := utf8EncodeChar_eq_four.1 h
    rw [lead_four ha]
    exact lead4_eq_scalar.2
      ⟨b, d, e, after, rfl, (second_iff (by decide) (by decide)).2 hb, hd, he, hc, rfl⟩
  | _ :: _ :: _ :: _ :: _ =>
    rw [utf8EncodeChar_eq_iff, scalarBytes] at h
    split_ifs at h <;> simp at h

/-- What is found for a character is written by it. -/
theorem utf8EncodeChar_of_lead {a : UInt8} {rest : Bytes} {c : Char} {n : Nat}
    (h : lead a rest = .scalar c n) :
    ∃ tail after, rest = tail ++ after ∧ tail.length = n ∧ utf8EncodeChar c = a :: tail := by
  rcases lead_cases a rest with ha | ha | ha | ha | hinvalid
  · rw [lead_one ha] at h
    cases h
    exact ⟨[], rest, rfl, rfl, utf8EncodeChar_eq_one.2 ⟨ha, rfl⟩⟩
  · rw [lead_two ha, lead2_eq_scalar] at h
    obtain ⟨b, after, rfl, hb, hc, rfl⟩ := h
    exact ⟨[b], after, rfl, rfl, utf8EncodeChar_eq_two.2 ⟨ha, hb, hc⟩⟩
  · rw [lead_three ha, lead3_eq_scalar] at h
    obtain ⟨b, d, after, rfl, hb, hd, hc, rfl⟩ := h
    rw [second_iff (by decide) (by decide)] at hb
    exact ⟨[b, d], after, rfl, rfl, utf8EncodeChar_eq_three.2 ⟨ha, hb, hd, hc⟩⟩
  · rw [lead_four ha, lead4_eq_scalar] at h
    obtain ⟨b, d, e, after, rfl, hb, hd, he, hc, rfl⟩ := h
    rw [second_iff (by decide) (by decide)] at hb
    exact ⟨[b, d, e], after, rfl, rfl, utf8EncodeChar_eq_four.2 ⟨ha, hb, hd, he, hc⟩⟩
  · rw [hinvalid] at h
    cases h

/-! ### Reading a text -/

theorem decodeFrom_append (tail after : Bytes) (start : Nat) :
    decodeFrom start tail.length (tail ++ after) = decodeFrom (start + tail.length) 0 after := by
  induction tail generalizing start with
  | nil => rfl
  | cons b tail ih =>
    rw [List.length_cons, List.cons_append, decodeFrom, ih, Nat.add_right_comm, Nat.add_assoc]

theorem decodeFrom_flatMap (cs : List Char) (start : Nat) :
    decodeFrom start 0 (cs.flatMap utf8EncodeChar) = .ok cs := by
  induction cs generalizing start with
  | nil => rfl
  | cons c cs ih =>
    obtain ⟨a, tail, hc⟩ := List.exists_cons_of_ne_nil (String.utf8EncodeChar_ne_nil (c := c))
    rw [List.flatMap_cons, hc, List.cons_append, decodeFrom, lead_of_utf8EncodeChar hc]
    simp only [decodeFrom_append, ih]
    rfl

theorem eq_flatMap_of_decodeFrom {start : Nat} {b : Bytes} {cs : List Char}
    (h : decodeFrom start 0 b = .ok cs) : b = cs.flatMap utf8EncodeChar := by
  induction hn : b.length using Nat.strongRecOn generalizing start b cs with
  | ind n ih =>
    cases b with
    | nil =>
      cases h
      rfl
    | cons a rest =>
      rw [decodeFrom] at h
      cases hl : lead a rest with
      | scalar c extra =>
        obtain ⟨tail, after, rfl, rfl, hc⟩ := utf8EncodeChar_of_lead hl
        simp only [hl, decodeFrom_append] at h
        obtain ⟨cs', hafter, rfl⟩ := map_eq_ok_iff.1 h
        have hlt : after.length < n := by
          rw [← hn, List.length_cons, List.length_append]
          omega
        rw [List.flatMap_cons, hc, ← ih _ hlt hafter rfl, List.cons_append]
      | _ => simp [hl] at h

theorem decode_utf8 (s : String) : decode (utf8 s) = .ok s := by
  rw [decode, utf8, decodeFrom_flatMap]
  exact congrArg Except.ok String.ofList_toList

/-- **Bytes are read as a text exactly if they are what writes it.** -/
theorem decode_eq_ok_iff {b : Bytes} {s : String} : decode b = .ok s ↔ b = utf8 s := by
  constructor
  · intro h
    obtain ⟨cs, hcs, rfl⟩ := map_eq_ok_iff.1 h
    rw [utf8, String.toList_ofList]
    exact eq_flatMap_of_decodeFrom hcs
  · rintro rfl
    exact decode_utf8 s

end Utf8

theorem utf8_injective : Function.Injective utf8 := by
  intro s t h
  have hs := Utf8.decode_utf8 s
  rw [h, Utf8.decode_utf8] at hs
  exact (Except.ok.inj hs).symm

end ShardFleet
