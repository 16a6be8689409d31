import ShardFleet.Proofs.TomlTexts

/-!
# Reading lines back

The lines of a written document are of three kinds: a key with its value, the header of a table, and the
header of one more table in an array of tables. Each of them is read as what it was written for. Keys are
never quoted, and values are texts, counts, truth values and lists without items.
-/

namespace ShardFleet.Toml

/-! ### Counts -/

theorem toList_natural (n : Nat) : (toString (n : Int)).toList = Nat.toDigits 10 n := by
  rw [Int.toString_eq_repr, Int.repr_eq_if, if_pos (Int.natCast_nonneg n), Int.toNat_natCast,
    Nat.toList_repr]

theorem isDigit_toDigits {n : Nat} : ∀ d ∈ Nat.toDigits 10 n, d.isDigit := fun _ hd =>
  Nat.isDigit_of_mem_toDigits (by decide) (by decide) hd

/-- Only zero begins with a zero. -/
theorem head_toDigits {n : Nat} (h : (Nat.toDigits 10 n).head? = some '0') : n = 0 := by
  induction n using Nat.strongRecOn with
  | ind n ih =>
    by_cases hn : n < 10
    · rw [Nat.toDigits_of_lt_base hn] at h
      have : ∀ n < 10, [n.digitChar].head? = some '0' → n = 0 := by decide
      exact this n hn h
    · rw [Nat.toDigits_of_base_le (by decide) (by omega),
        List.head?_append_of_ne_nil _ Nat.toDigits_ne_nil] at h
      have := ih (n / 10) (by omega) h
      omega

theorem hexDigit?_of_isDigit {c : Char} (h : c.isDigit) : hexDigit? c = some (c.toNat - '0'.toNat) := by
  simp only [Char.isDigit, Bool.and_eq_true, decide_eq_true_eq] at h
  have hle : '0' ≤ c ∧ c ≤ '9' := h
  simp [hexDigit?, hle]

theorem number_of_digits {ds : List Char} (h : ∀ d ∈ ds, d.isDigit) :
    number 10 ds = Nat.ofDigitChars 10 ds 0 := by
  suffices ∀ acc, ds.foldl (fun n c => n * 10 + (hexDigit? c).getD 0) acc = Nat.ofDigitChars 10 ds acc
    from this 0
  induction ds with
  | nil => exact fun acc => rfl
  | cons d ds ih =>
    intro acc
    obtain ⟨hd, hds⟩ := List.forall_mem_cons.1 h
    rw [List.foldl_cons, ih hds, Nat.ofDigitChars_cons, hexDigit?_of_isDigit hd, Nat.mul_comm acc,
      Option.getD_some]

theorem moreDigits_append {ds : List Char} (h : ∀ d ∈ ds, d.isDigit) (rest : List Char) :
    moreDigits Char.isDigit (ds ++ '\n' :: rest) = some (ds, '\n' :: rest) := by
  induction ds with
  | nil => rfl
  | cons d ds ih =>
    obtain ⟨hd, hds⟩ := List.forall_mem_cons.1 h
    have hne : d ≠ '_' := by
      rintro rfl
      exact absurd hd (by decide)
    rw [List.cons_append, moreDigits, if_pos hd, ih hds]
    · rfl
    · exact fun c r h => absurd h hne
    · exact fun h => absurd h hne

theorem wholeDigits_toDigits (n : Nat) (rest : List Char) :
    wholeDigits (Nat.toDigits 10 n ++ '\n' :: rest) = some (Nat.toDigits 10 n, '\n' :: rest) := by
  obtain ⟨d, ds, hds⟩ := List.exists_cons_of_ne_nil (Nat.toDigits_ne_nil (n := n) (b := 10))
  have hdigits := isDigit_toDigits (n := n)
  have hzero := head_toDigits (n := n)
  rw [hds] at hdigits hzero ⊢
  obtain ⟨hd, hrest⟩ := List.forall_mem_cons.1 hdigits
  by_cases h : d = '0'
  · subst h
    rw [hzero rfl, Nat.toDigits_of_lt_base (by decide)] at hds
    cases hds
    rfl
  · rw [List.cons_append, wholeDigits, digits, if_pos hd, moreDigits_append hrest]
    · rfl
    · exact fun r hr => h (List.cons.inj hr).1

/-- What is written for a count begins with a digit, and with a zero only for zero itself. -/
theorem toDigits_cases (n : Nat) : (n = 0 ∧ Nat.toDigits 10 n = ['0']) ∨
    ∃ d ds, Nat.toDigits 10 n = d :: ds ∧ d.isDigit ∧ d ≠ '0' := by
  obtain ⟨d, ds, hds⟩ := List.exists_cons_of_ne_nil (Nat.toDigits_ne_nil (n := n) (b := 10))
  have hdigits := isDigit_toDigits (n := n)
  have hzero := head_toDigits (n := n)
  rw [hds] at hdigits hzero
  by_cases h : d = '0'
  · have hn := hzero (congrArg some h)
    exact .inl ⟨hn, by rw [hn]; rfl⟩
  · exact .inr ⟨d, ds, hds, hdigits d List.mem_cons_self, h⟩

theorem sign_of_isDigit {d : Char} (h : d.isDigit) (r : List Char) : sign (d :: r) = (false, d :: r) := by
  unfold sign
  split
  · rename_i heq
    cases heq
    exact absurd h (by decide)
  · rename_i heq
    cases heq
    exact absurd h (by decide)
  · rfl

theorem sign_toDigits (n : Nat) (rest : List Char) :
    sign (Nat.toDigits 10 n ++ rest) = (false, Nat.toDigits 10 n ++ rest) := by
  obtain ⟨d, ds, hds⟩ := List.exists_cons_of_ne_nil (Nat.toDigits_ne_nil (n := n) (b := 10))
  have hdigits := isDigit_toDigits (n := n)
  rw [hds] at hdigits ⊢
  exact sign_of_isDigit (hdigits d List.mem_cons_self) _

/-- A count that fits sixty-four signed bits is read back. -/
theorem integer_toDigits {n : Nat} (h : (n : Int) ≤ Int64.maxValue.toInt) (rest : List Char) :
    integer (Nat.toDigits 10 n ++ '\n' :: rest) = some ((n : Int), '\n' :: rest) := by
  have hbounded : bounded false n = some (n : Int) := by
    have hmin : Int64.minValue.toInt ≤ (n : Int) := by
      have : Int64.minValue.toInt ≤ 0 := by decide
      omega
    rw [bounded, if_neg Bool.false_ne_true, if_pos ⟨hmin, h⟩]
  have hplain : integer (Nat.toDigits 10 n ++ '\n' :: rest) =
      (wholeDigits (Nat.toDigits 10 n ++ '\n' :: rest)).bind fun read =>
        (bounded false (number 10 read.1)).map (·, read.2) := by
    have hsign := sign_toDigits n ('\n' :: rest)
    obtain ⟨rfl, -⟩ | ⟨d, ds, hds, hd, hzero⟩ := toDigits_cases n
    · rfl
    · rw [hds] at hsign ⊢
      rw [List.cons_append] at hsign ⊢
      rw [integer, hsign]
      all_goals exact fun r hr => hzero (List.cons.inj hr).1
  rw [hplain, wholeDigits_toDigits, Option.bind_some]
  simp only [number_of_digits isDigit_toDigits, Nat.ofDigitChars_ten_toDigits, hbounded, Option.map_some]

theorem fixedNumber_append {k acc m : Nat} {ds rest r : List Char} (h : ∀ d ∈ ds, d.isDigit)
    (hr : fixedNumber k acc (ds ++ '\n' :: rest) = some (m, r)) :
    ∃ ds', (∀ d ∈ ds', d.isDigit) ∧ r = ds' ++ '\n' :: rest := by
  induction k generalizing acc ds with
  | zero =>
    cases hr
    exact ⟨ds, h, rfl⟩
  | succ k ih =>
    cases ds with
    | nil => simp [fixedNumber] at hr
    | cons d ds =>
      obtain ⟨hd, hds⟩ := List.forall_mem_cons.1 h
      simp only [List.cons_append, fixedNumber, hd, if_true] at hr
      exact ih hds hr

/-- A count is no date and no time: nothing but the end of its line follows its digits. -/
theorem not_moment {ds : List Char} (h : ∀ d ∈ ds, d.isDigit) (rest : List Char) :
    beginsDate (ds ++ '\n' :: rest) = false ∧ beginsTime (ds ++ '\n' :: rest) = false := by
  have hmark : ∀ {k m r} (c : Char), ¬ c.isDigit → c ≠ '\n' →
      fixedNumber k 0 (ds ++ '\n' :: rest) ≠ some (m, c :: r) := by
    intro k m r c hc hline hr
    obtain ⟨ds', hds', hr'⟩ := fixedNumber_append h hr
    cases ds' with
    | nil => exact hline (List.cons.inj hr').1
    | cons d ds' =>
      obtain rfl := (List.cons.inj hr').1
      exact hc (hds' c List.mem_cons_self)
  constructor
  · unfold beginsDate
    split
    · rename_i hr
      exact absurd hr (hmark '-' (by decide) (by decide))
    · rfl
  · unfold beginsTime
    split
    · rename_i hr
      exact absurd hr (hmark ':' (by decide) (by decide))
    · rfl

theorem fraction?_toDigits (n : Nat) (rest : List Char) :
    fraction? (Nat.toDigits 10 n ++ '\n' :: rest) = none := by
  have hword : ∀ c w, ¬ c.isDigit → literal? (c :: w) (Nat.toDigits 10 n ++ '\n' :: rest) = none := by
    intro c w hc
    obtain ⟨d, ds, hds⟩ := List.exists_cons_of_ne_nil (Nat.toDigits_ne_nil (n := n) (b := 10))
    have hd := isDigit_toDigits d (hds ▸ List.mem_cons_self)
    have hne : c ≠ d := by
      rintro rfl
      exact hc hd
    rw [hds, List.cons_append, literal?, if_neg hne]
  simp only [fraction?, sign_toDigits, hword 'i' _ (by decide), hword 'n' _ (by decide),
    wholeDigits_toDigits, Option.bind_some]
  rfl

/-! ### Values -/

/-- Values on the line of their key that are read back as they were: texts, counts that fit sixty-four
signed bits, truth values and the list without items. -/
inductive Plain : Tree → Prop where
  | text (s : String) : Plain (.text s)
  | count (n : Nat) (h : (n : Int) ≤ Int64.maxValue.toInt) : Plain (.integer n)
  | boolean (b : Bool) : Plain (.boolean b)
  | noItems : Plain (.list [])

theorem value_of_quote {c : Char} (h : c = '"' ∨ c = '\'') (depth : Nat) (r : List Char) :
    value (depth + 1) (c :: r) = (text (c :: r)).map fun (s, r) => (.text s, r) := by
  rcases h with rfl | rfl <;> rfl

theorem value_of_digit {d : Char} (hd : d.isDigit) (depth : Nat) (r : List Char) :
    value (depth + 1) (d :: r) =
      if beginsDate (d :: r) || beginsTime (d :: r) then (moment? (d :: r)).map fun r => (.other, r)
      else
        match fraction? (d :: r) with
        | some r => some (.other, r)
        | none => (integer (d :: r)).map fun (n, r) => (.integer n, r) := by
  have hne : ∀ c, ¬ c.isDigit → ∀ r', d :: r ≠ c :: r' := by
    intro c hc r' h
    exact hc ((List.cons.inj h).1 ▸ hd)
  rw [value]
  all_goals first
    | rfl
    | exact fun r' h => hne _ (by decide) r' h

theorem value_natural {n : Nat} (h : (n : Int) ≤ Int64.maxValue.toInt) (depth : Nat) (rest : List Char) :
    value (depth + 1) (Nat.toDigits 10 n ++ '\n' :: rest) = some (.integer n, '\n' :: rest) := by
  have hinteger := integer_toDigits h rest
  have hfraction := fraction?_toDigits n rest
  obtain ⟨hdate, htime⟩ := not_moment (isDigit_toDigits (n := n)) rest
  obtain ⟨d, ds, hds⟩ := List.exists_cons_of_ne_nil (Nat.toDigits_ne_nil (n := n) (b := 10))
  have hd := isDigit_toDigits d (hds ▸ List.mem_cons_self)
  rw [hds, List.cons_append] at hinteger hfraction hdate htime ⊢
  rw [value_of_digit hd, hdate, htime, hfraction, hinteger]
  rfl

/-- A value is read back, and reading ends at the end of its line. -/
theorem value_inline {v : Tree} (h : Plain v) (rest : List Char) :
    value (nestingLimit + 1) ((inline v).toList ++ '\n' :: rest) = some (v, '\n' :: rest) := by
  cases h with
  | text s =>
    have htext := text_quotedText s rest
    obtain ⟨r, hr⟩ | ⟨r, hr⟩ := head_quotedText s <;>
    · rw [inline, hr, List.cons_append, value_of_quote (by decide), ← List.cons_append, ← hr, htext]
      rfl
  | count n h => rw [inline, toList_natural, value_natural h]
  | boolean b => cases b <;> rfl
  | noItems => rfl

/-- No value begins with a space. -/
theorem skipSpaces_inline {v : Tree} (h : Plain v) (rest : List Char) :
    skipSpaces ((inline v).toList ++ rest) = (inline v).toList ++ rest := by
  cases h with
  | text s =>
    obtain ⟨r, hr⟩ | ⟨r, hr⟩ := head_quotedText s <;>
    · rw [inline, hr]
      rfl
  | count n h =>
    rw [inline, toList_natural]
    obtain ⟨d, ds, hds⟩ := List.exists_cons_of_ne_nil (Nat.toDigits_ne_nil (n := n) (b := 10))
    have hd := isDigit_toDigits d (hds ▸ List.mem_cons_self)
    have hspace : ¬ isSpace d := by
      intro h
      obtain rfl | rfl : d = ' ' ∨ d = '\t' := by simpa [isSpace] using h
      all_goals exact absurd hd (by decide)
    rw [hds, List.cons_append, skipSpaces, List.dropWhile_cons_of_neg hspace]
  | boolean b => cases b <;> rfl
  | noItems => rfl

/-! ### Keys -/

/-- Keys that need no quotes. -/
def Bare (s : String) : Prop := s.toList ≠ [] ∧ ∀ c ∈ s.toList, isBareChar c

-- The instance for lists is named, since there is one for all characters too, which tries every one.
instance (s : String) : Decidable (Bare s) := @instDecidableAnd _ _ _ (List.decidableBAll _ _)

/-- The full name of a table, from the keys of the tables around it and its own. -/
def dotted (path : List String) : String := String.intercalate "." path

theorem dotted_cons_cons (k l : String) (path : List String) :
    dotted (k :: l :: path) = k ++ "." ++ dotted (l :: path) := String.intercalate_cons_cons

theorem length_le_dotted {path : List String} (h : ∀ k ∈ path, Bare k) :
    path.length ≤ (dotted path).toList.length := by
  induction path with
  | nil => exact Nat.zero_le _
  | cons k path ih =>
    obtain ⟨hk, hpath⟩ := List.forall_mem_cons.1 h
    have hpos := List.length_pos_iff.2 hk.1
    cases path with
    | nil => simpa [dotted] using Nat.succ_le_of_lt hpos
    | cons l path =>
      have := ih hpath
      rw [dotted_cons_cons, String.toList_append, String.toList_append, List.length_append,
        List.length_append, List.length_cons]
      omega

theorem nested_dotted {path : List String} (h : ∀ k ∈ path, Bare k) (key : String) :
    nested (dotted path) key = dotted (path ++ [key]) := by
  cases path with
  | nil => rfl
  | cons k path =>
    have hne : dotted (k :: path) ≠ "" := by
      intro he
      have := length_le_dotted h
      simp [he] at this
    rw [nested, if_neg (by simpa using hne), dotted, dotted,
      String.intercalate_append_of_ne_nil (List.cons_ne_nil _ _) (List.cons_ne_nil _ _),
      String.intercalate_singleton]

/-- What may follow a key without quotes: it ends there. -/
def EndsKey (r : List Char) : Prop := ∀ c, r.head? = some c → ¬ isBareChar c

theorem keyPart_bare {k : String} (h : Bare k) {r : List Char} (hr : EndsKey r) :
    keyPart (k.toList ++ r) = some (k, r) := by
  obtain ⟨c, cs, hcs⟩ := List.exists_cons_of_ne_nil h.1
  have hname : (k.toList ++ r).takeWhile isBareChar = k.toList := by
    rw [List.takeWhile_append_of_pos h.2]
    cases r with
    | nil => simp
    | cons d r => simp [List.takeWhile_cons_of_neg (hr d rfl)]
  have hrest : (k.toList ++ r).dropWhile isBareChar = r := by
    rw [List.dropWhile_append_of_pos h.2]
    cases r with
    | nil => rfl
    | cons d r => rw [List.dropWhile_cons_of_neg (hr d rfl)]
  have hc := h.2 c (hcs ▸ List.mem_cons_self)
  have hne : ∀ d, isBareChar d = false → ∀ r', c :: (cs ++ r) ≠ d :: r' := by
    intro d hd r' h
    rw [(List.cons.inj h).1, hd] at hc
    cases hc
  rw [hcs] at hname hrest ⊢
  rw [List.cons_append, keyPart, ← List.cons_append, hname, hrest]
  · simp only [← hcs, String.ofList_toList]
  all_goals exact fun r' h => hne _ (by decide) r' h

theorem skipSpaces_bare {k : String} (h : Bare k) (r : List Char) :
    skipSpaces (k.toList ++ r) = k.toList ++ r := by
  obtain ⟨c, cs, hcs⟩ := List.exists_cons_of_ne_nil h.1
  have hc := h.2 c (hcs ▸ List.mem_cons_self)
  have hspace : ¬ isSpace c := by
    intro h
    obtain rfl | rfl : c = ' ' ∨ c = '\t' := by simpa [isSpace] using h
    all_goals exact absurd hc (by decide)
  rw [hcs, List.cons_append, skipSpaces, List.dropWhile_cons_of_neg hspace]

theorem keyParts_dotted {k : String} {path : List String} (h : ∀ x ∈ k :: path, Bare x) {r : List Char}
    (hr : EndsKey r) (hdot : (skipSpaces r).head? ≠ some '.') {fuel : Nat} (hfuel : path.length < fuel) :
    keyParts fuel ((dotted (k :: path)).toList ++ r) = some (k :: path, skipSpaces r) := by
  induction path generalizing k fuel with
  | nil =>
    obtain ⟨fuel, rfl⟩ := Nat.exists_eq_add_one.2 (Nat.zero_lt_of_lt hfuel)
    have hk := h k List.mem_cons_self
    rw [dotted, String.intercalate_singleton, keyParts, skipSpaces_bare hk, keyPart_bare hk hr,
      Option.bind_some]
    simp only []
    split
    · rename_i heq
      rw [heq] at hdot
      exact absurd rfl hdot
    · rfl
  | cons l path ih =>
    obtain ⟨fuel, rfl⟩ := Nat.exists_eq_add_one.2 (Nat.zero_lt_of_lt hfuel)
    obtain ⟨hk, hpath⟩ := List.forall_mem_cons.1 h
    have hdots : EndsKey ('.' :: ((dotted (l :: path)).toList ++ r)) := by
      rintro c ⟨⟩
      decide
    have hchars : (dotted (k :: l :: path)).toList ++ r =
        k.toList ++ '.' :: ((dotted (l :: path)).toList ++ r) := by
      simp [dotted_cons_cons]
    rw [hchars, keyParts, skipSpaces_bare hk, keyPart_bare hk hdots, Option.bind_some]
    have hskip : skipSpaces ('.' :: ((dotted (l :: path)).toList ++ r)) =
        '.' :: ((dotted (l :: path)).toList ++ r) := rfl
    simp only [hskip, ih hpath (Nat.lt_of_succ_lt_succ hfuel), Option.map_some]

/-- A key is read back as its parts. -/
theorem key_dotted {path : List String} {name : String} (hpath : ∀ x ∈ path, Bare x) (hname : Bare name)
    (hlimit : path.length < nestingLimit) {r : List Char} (hr : EndsKey r)
    (hdot : (skipSpaces r).head? ≠ some '.') :
    key ((dotted (path ++ [name])).toList ++ r) = some ((path, name), skipSpaces r) := by
  have hparts : ∀ x ∈ path ++ [name], Bare x :=
    List.forall_mem_append.2 ⟨hpath, List.forall_mem_singleton.2 hname⟩
  have hlength := length_le_dotted hparts
  have hread : keyParts ((dotted (path ++ [name])).toList ++ r).length
      ((dotted (path ++ [name])).toList ++ r) = some (path ++ [name], skipSpaces r) := by
    rw [List.length_append] at hlength ⊢
    cases path with
    | nil => exact keyParts_dotted hparts hr hdot (by simp at hlength ⊢; omega)
    | cons k path => exact keyParts_dotted hparts hr hdot (by simp at hlength ⊢; omega)
  have hshort : (path ++ [name]).length ≤ nestingLimit := by simpa using Nat.succ_le_of_lt hlimit
  rw [key, hread, Option.bind_some]
  simp only [List.reverse_append, List.reverse_cons, List.reverse_nil, List.nil_append,
    List.singleton_append, hshort, if_true, List.reverse_reverse]

/-! ### Lines -/

theorem endLine_newline (rest : List Char) : endLine ('\n' :: rest) = some rest := rfl

theorem readLine_blank (d : Draft) (rest : List Char) :
    readLine d ('\n' :: rest) = some (d, rest) := rfl

/-- A key and its value are put into the current table. -/
theorem readLine_field (d : Draft) {name : String} (hname : Bare name) {v : Tree} (hv : Plain v)
    (rest : List Char) :
    readLine d ((name ++ " = " ++ inline v).toList ++ '\n' :: rest) =
      (d.insert [] name v).map (·, rest) := by
  let after := ' ' :: '=' :: ' ' :: ((inline v).toList ++ '\n' :: rest)
  have hchars : (name ++ " = " ++ inline v).toList ++ '\n' :: rest = name.toList ++ after := by
    simp [after]
  have hkey : key (name.toList ++ after) = some (([], name), skipSpaces after) := by
    have hends : EndsKey after := by
      rintro c ⟨⟩
      decide
    have hpath : ∀ x ∈ ([] : List String), Bare x := List.forall_mem_nil _
    have h := key_dotted hpath hname (by decide) hends (by simp [after, skipSpaces, isSpace])
    rwa [List.nil_append, dotted, String.intercalate_singleton] at h
  have hafter : skipSpaces after = '=' :: ' ' :: ((inline v).toList ++ '\n' :: rest) := rfl
  have hvalue : skipSpaces (' ' :: ((inline v).toList ++ '\n' :: rest)) =
      (inline v).toList ++ '\n' :: rest := skipSpaces_inline hv _
  obtain ⟨c, cs, hcs⟩ := List.exists_cons_of_ne_nil hname.1
  have hc := hname.2 c (hcs ▸ List.mem_cons_self)
  have hne : ∀ x, ¬ isBareChar x → c ≠ x := by
    rintro x hx rfl
    exact hx hc
  have hline : newline? (c :: (cs ++ after)) = none :=
    newline?_eq_none (by simpa using hne _ (by decide)) (by simpa using hne _ (by decide))
  rw [hcs, List.cons_append] at hkey
  rw [hchars, hcs, List.cons_append, readLine, hline, hkey, hafter]
  · simp only [Option.bind_eq_bind, Option.bind_some, expect, if_true, hvalue, value_inline hv,
      endLine_newline]
    cases d.insert [] name v <;> rfl
  all_goals
    intro r hr
    exact hne _ (by decide) (List.cons.inj hr).1

/-- A header opens the table that it names. -/
theorem readLine_header (d : Draft) {path : List String} {name : String} (hpath : ∀ k ∈ path, Bare k)
    (hname : Bare name) (hlimit : path.length < nestingLimit) (rest : List Char) :
    readLine d (("[" ++ dotted (path ++ [name]) ++ "]").toList ++ '\n' :: rest) =
      (d.tables.openTable path name).map fun t =>
        ({ tables := t, current := path ++ [name] }, rest) := by
  have hkey : key ((dotted (path ++ [name])).toList ++ ']' :: '\n' :: rest) =
      some ((path, name), ']' :: '\n' :: rest) := by
    refine key_dotted hpath hname hlimit ?_ (by simp [skipSpaces, isSpace])
    rintro c ⟨⟩
    decide
  have hchars : ("[" ++ dotted (path ++ [name]) ++ "]").toList ++ '\n' :: rest =
      '[' :: ((dotted (path ++ [name])).toList ++ ']' :: '\n' :: rest) := by
    simp
  -- No key begins with a bracket, so that the header is none of an array.
  have hhead : ∀ r, (dotted (path ++ [name])).toList ++ ']' :: '\n' :: rest ≠ '[' :: r := by
    intro r hr
    rw [hr] at hkey
    cases hkey
  rw [hchars, readLine, hkey]
  · simp only [Option.bind_eq_bind, Option.bind_some, expect, if_true, endLine_newline]
    cases d.tables.openTable path name <;> rfl
  · exact hhead

/-- A header of an array opens one more table in it. -/
theorem readLine_element (d : Draft) {path : List String} {name : String} (hpath : ∀ k ∈ path, Bare k)
    (hname : Bare name) (hlimit : path.length < nestingLimit) (rest : List Char) :
    readLine d (("[[" ++ dotted (path ++ [name]) ++ "]]").toList ++ '\n' :: rest) =
      (d.tables.openElement path name).map fun t =>
        ({ tables := t, current := path ++ [name] }, rest) := by
  have hkey : key ((dotted (path ++ [name])).toList ++ ']' :: ']' :: '\n' :: rest) =
      some ((path, name), ']' :: ']' :: '\n' :: rest) := by
    refine key_dotted hpath hname hlimit ?_ (by simp [skipSpaces, isSpace])
    rintro c ⟨⟩
    decide
  have hchars : ("[[" ++ dotted (path ++ [name]) ++ "]]").toList ++ '\n' :: rest =
      '[' :: '[' :: ((dotted (path ++ [name])).toList ++ ']' :: ']' :: '\n' :: rest) := by
    simp
  rw [hchars, readLine, hkey]
  simp only [Option.bind_eq_bind, Option.bind_some, literal?, if_true, endLine_newline]
  cases d.tables.openElement path name <;> rfl

end ShardFleet.Toml
