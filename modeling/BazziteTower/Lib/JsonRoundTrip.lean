import BazziteTower.Lib.JsonHook
import Mathlib.Data.List.TakeWhile

/-!
# What is written as JSON reads back

The decoder reads what the encoder wrote, for every value whose keys are distinct, whose
integers have a spelling that Python converts, whose floats are spelled as numbers, and
whose nesting fits the recursion limit; whatever the hook makes of equal keys.  Sorting
the keys keeps every one of these.

## Main results

* `Json.parseString_render`, `Json.parseNumber_render` — strings and integers.
* `Json.readValue_render` — every such value, whatever follows it.
* `Json.loadsHook_render`, `Json.loads_dumpsSorted` — the round trip through bytes.
* `Json.find_sortMembers` — sorting keeps the members.
* `Json.loadsHook_dumpsStrings` — a dictionary of strings on one line reads back.
-/

namespace Json

/-! ## Strings -/

theorem hexValue_digitChar {n : ℕ} (hn : n < 16) : hexValue (Nat.digitChar n) = some n := by
  have h : ∀ m : Fin 16, hexValue (Nat.digitChar m) = some m.val := by decide
  exact h ⟨n, hn⟩

theorem readHex4_hex4 {n : ℕ} (hn : n < 65536) (rest : Text) :
    readHex4 (hex4 n ++ rest) = some (n, rest) := by
  simp only [hex4, List.cons_append, List.nil_append, readHex4,
    hexValue_digitChar (Nat.mod_lt _ (by decide : 16 > 0))]
  congr 2
  omega

/-- A character is no surrogate. -/
theorem char_range (c : Char) : c.toNat < 0xD800 ∨ (0xDFFF < c.toNat ∧ c.toNat < 0x110000) :=
  c.valid

theorem unitChar_toNat (c : Char) : unitChar c.toNat = c := by
  have hc := char_range c
  have hs : Text.isSurrogate c.toNat = false := by
    simp only [Text.isSurrogate, Bool.and_eq_false_iff, decide_eq_false_iff_not]
    omega
  have hlt : c.toNat < 0x110000 := by omega
  simp [unitChar, Text.scalar, hs, hlt, Char.ofNat_toNat]

/-- The escape of a character reads back. -/
theorem readUnicode_small {c : Char} (hc : c.toNat < 0x10000) (rest : Text) :
    readUnicode (hex4 c.toNat ++ rest) = .ok (c, rest) := by
  have hr := char_range c
  have hhigh : ¬(0xD800 ≤ c.toNat ∧ c.toNat < 0xDC00 ∧ rest.take 2 = ['\\', 'u']) := by omega
  simp only [readUnicode, readHex4_hex4 hc, if_neg hhigh, unitChar_toNat]

theorem readUnicode_pair {high low : ℕ} (h1 : 0xD800 ≤ high) (h2 : high < 0xDC00)
    (h3 : 0xDC00 ≤ low) (h4 : low < 0xE000) (rest : Text) :
    readUnicode (hex4 high ++ (unicodeEscape low ++ rest)) =
      .ok (Char.ofNat (0x10000 + (high - 0xD800) * 1024 + (low - 0xDC00)), rest) := by
  rw [readUnicode, readHex4_hex4 (by omega)]
  simp only
  rw [if_pos ⟨h1, h2, rfl⟩, show List.drop 2 (unicodeEscape low ++ rest) = hex4 low ++ rest from rfl,
    readHex4_hex4 (by omega)]
  simp only
  rw [if_pos ⟨h3, h4⟩]

theorem readUnicode_large {c : Char} (hc : 0x10000 ≤ c.toNat) (rest : Text) :
    readUnicode (hex4 (0xD800 + (c.toNat - 0x10000) / 1024) ++
      (unicodeEscape (0xDC00 + (c.toNat - 0x10000) % 1024) ++ rest)) = .ok (c, rest) := by
  have hr := char_range c
  rw [readUnicode_pair (by omega) (by omega) (by omega) (by omega)]
  have hback : 0x10000 + (0xD800 + (c.toNat - 0x10000) / 1024 - 0xD800) * 1024 +
      (0xDC00 + (c.toNat - 0x10000) % 1024 - 0xDC00) = c.toNat := by omega
  rw [hback, Char.ofNat_toNat]

/-- One character of a string, escaped or not, takes one step of the reader. -/
theorem parseString_escapeChar (c : Char) (fuel : ℕ) (rest : Text) :
    parseString (fuel + 1) (escapeChar c ++ rest) =
      (parseString fuel rest).map fun r => (c :: r.1, r.2) := by
  have hescape : ∀ {d : Char} {ds : Text}, readEscape (d :: ds ++ rest) = .ok (c, rest) →
      parseString (fuel + 1) ('\\' :: d :: ds ++ rest) =
        (parseString fuel rest).map fun r => (c :: r.1, r.2) := by
    intro d ds h
    simp only [List.cons_append] at h ⊢
    rw [parseString, if_neg (by decide), if_pos rfl, h]
    simp only [bind, Except.bind]
    rcases parseString fuel rest with _ | ⟨s, cs⟩ <;> rfl
  unfold escapeChar
  split_ifs with h1 h2 h3 h4 h5 h6 h7 h8 h9
  · subst h1; exact hescape rfl
  · subst h2; exact hescape rfl
  · subst h3; exact hescape rfl
  · subst h4; exact hescape rfl
  · subst h5; exact hescape rfl
  · subst h6; exact hescape rfl
  · subst h7; exact hescape rfl
  · rw [List.singleton_append, parseString, if_neg h1, if_neg h2, if_neg (by omega)]
    simp only [bind, Except.bind]
    rcases parseString fuel rest with _ | ⟨s, cs⟩ <;> rfl
  · refine hescape ?_
    simp only [List.cons_append, readEscape, if_true]
    exact readUnicode_small h9 rest
  · have hlarge : 0x10000 ≤ c.toNat := by omega
    rw [unicodeEscape, List.cons_append, List.cons_append]
    refine hescape ?_
    simp only [List.cons_append, readEscape, if_true]
    exact readUnicode_large hlarge rest

/-- **Strings read back.** -/
theorem parseString_render (s : Text) {fuel : ℕ} (hf : s.length < fuel) (rest : Text) :
    parseString fuel (s.flatMap escapeChar ++ '"' :: rest) = .ok (s, rest) := by
  induction s generalizing fuel with
  | nil =>
    obtain ⟨fuel, rfl⟩ : ∃ n, fuel = n + 1 := ⟨fuel - 1, by simp at hf; omega⟩
    simp [parseString]
  | cons c s ih =>
    obtain ⟨fuel, rfl⟩ : ∃ n, fuel = n + 1 := ⟨fuel - 1, by simp at hf; omega⟩
    rw [List.flatMap_cons, List.append_assoc, parseString_escapeChar,
      ih (by simpa using hf)]
    rfl

theorem escapeChar_ne_nil (c : Char) : escapeChar c ≠ [] := by
  unfold escapeChar
  split_ifs <;> simp [unicodeEscape]

theorem length_renderString (s : Text) : s.length + 2 ≤ (renderString s).length := by
  have h : s.length ≤ (s.flatMap escapeChar).length := by
    induction s with
    | nil => simp
    | cons c s ih =>
      have := List.length_pos_of_ne_nil (escapeChar_ne_nil c)
      simp only [List.flatMap_cons, List.length_append, List.length_cons]
      omega
  simpa [renderString] using h

/-! ## Numbers -/

/-- What may follow a number without becoming a part of it. -/
def EndsNumber (rest : Text) : Prop :=
  ∀ c ∈ rest.head?, c.isDigit = false ∧ c ≠ '.' ∧ c ≠ 'e' ∧ c ≠ 'E'

theorem head_toDigits {n : ℕ} (hn : n ≠ 0) : (Nat.toDigits 10 n).head? ≠ some '0' := by
  induction n using Nat.strong_induction_on with
  | _ n ih =>
    by_cases h : n < 10
    · have hdigit : ∀ m : Fin 10, m.val ≠ 0 → Nat.digitChar m ≠ '0' := by decide
      rw [Nat.toDigits_of_lt_base h]
      simpa using hdigit ⟨n, h⟩ hn
    · rw [Nat.toDigits_of_base_le (by decide) (by omega),
        List.head?_append_of_ne_nil _ Nat.toDigits_ne_nil]
      exact ih (n / 10) (by omega) (by omega)

theorem takeWhile_digits {n : ℕ} {rest : Text} (h : EndsNumber rest) :
    (Nat.toDigits 10 n ++ rest).takeWhile Char.isDigit = Nat.toDigits 10 n := by
  rw [List.takeWhile_append_of_pos fun c hc =>
    Nat.isDigit_of_mem_toDigits (by decide) (by decide) hc]
  cases rest with
  | nil => simp
  | cons c cs => simp [(h c rfl).1]

theorem readFraction_ends {rest : Text} (h : EndsNumber rest) : readFraction rest = [] := by
  refine if_neg fun hdot => ?_
  exact (h _ hdot.1).2.1 rfl

theorem readExponent_ends {rest : Text} (h : EndsNumber rest) : readExponent rest = [] := by
  refine if_neg fun he => ?_
  rcases he with he | he
  · exact (h _ he).2.2.1 rfl
  · exact (h _ he).2.2.2 rfl

/-- The digits of a natural number are read as a whole part. -/
theorem whole_toDigits {n : ℕ} {rest : Text} (h : EndsNumber rest) :
    (if (Nat.toDigits 10 n ++ rest).head? = some '0' then ['0']
      else (Nat.toDigits 10 n ++ rest).takeWhile Char.isDigit) = Nat.toDigits 10 n := by
  by_cases hn : n = 0
  · subst hn
    simp
  · rw [List.head?_append_of_ne_nil _ Nat.toDigits_ne_nil, if_neg (head_toDigits hn),
      takeWhile_digits h]

/-- **Integers read back.** -/
theorem parseNumber_render {n : ℤ} (hn : n.natAbs < 10 ^ maxDigits) {rest : Text}
    (h : EndsNumber rest) : parseNumber (renderInt n ++ rest) = .ok (.int n, rest) := by
  have hlen : ¬maxDigits < (Nat.toDigits 10 n.natAbs).length := by
    rw [not_lt, Nat.length_toDigits_le_iff (by decide) (by decide)]
    exact hn
  have hdigit : (Nat.toDigits 10 n.natAbs ++ rest).head? ≠ some '-' := by
    rw [List.head?_append_of_ne_nil _ Nat.toDigits_ne_nil]
    intro hc
    have := Nat.isDigit_of_mem_toDigits (b := 10) (n := n.natAbs) (by decide) (by decide)
      (List.mem_of_mem_head? hc)
    exact absurd this (by decide)
  unfold parseNumber renderInt
  by_cases hneg : n < 0
  · simp only [if_pos hneg, List.cons_append, List.head?_cons, if_true, List.length_singleton,
      List.drop_succ_cons, List.drop_zero]
    simp only [whole_toDigits h, List.drop_left, readFraction_ends h, readExponent_ends h,
      List.length_nil, List.drop_zero, if_neg Nat.toDigits_ne_nil, if_neg hlen, and_self, if_true,
      Nat.ofDigitChars_ten_toDigits]
    simp only [List.cons_ne_nil, if_false]
    congr 3
    omega
  · simp only [if_neg hneg, hdigit, if_false, List.length_nil, List.drop_zero, whole_toDigits h]
    simp only [List.drop_left, readFraction_ends h, readExponent_ends h, List.length_nil,
      List.drop_zero, if_neg Nat.toDigits_ne_nil, if_neg hlen, and_self, if_true,
      Nat.ofDigitChars_ten_toDigits]
    congr 3
    omega

/-! ## Seven-bit text -/

/-- A seven-bit character other than NUL. -/
def sevenBit (c : Char) : Bool := 0 < c.toNat && c.toNat < 0x80

theorem sevenBit_digitChar {n : ℕ} : sevenBit (Nat.digitChar (n % 16)) := by
  have h : ∀ m : Fin 16, sevenBit (Nat.digitChar m) := by decide
  exact h ⟨n % 16, Nat.mod_lt _ (by decide)⟩

theorem sevenBit_escapeChar (c : Char) : (escapeChar c).all sevenBit := by
  have hbackslash : sevenBit '\\' := by decide
  have hu : sevenBit 'u' := by decide
  unfold escapeChar
  split_ifs with h1 h2 h3 h4 h5 h6 h7 h8 h9
  iterate 7 decide
  · simp only [List.all_cons, List.all_nil, sevenBit, Bool.and_true, Bool.and_eq_true,
      decide_eq_true_eq]
    omega
  all_goals simp [unicodeEscape, hex4, sevenBit_digitChar, hbackslash, hu]

theorem sevenBit_renderString (s : Text) : (renderString s).all sevenBit := by
  have hquote : sevenBit '"' := by decide
  simp [renderString, List.all_flatMap, sevenBit_escapeChar, hquote]

theorem sevenBit_of_isDigit {c : Char} (h : c.isDigit) : sevenBit c := by
  simp only [Char.isDigit, Bool.and_eq_true, decide_eq_true_eq, ge_iff_le,
    UInt32.le_iff_toNat_le] at h
  simp only [sevenBit, Bool.and_eq_true, decide_eq_true_eq]
  exact ⟨lt_of_lt_of_le (by decide) h.1, lt_of_le_of_lt h.2 (by decide)⟩

theorem sevenBit_renderInt (n : ℤ) : (renderInt n).all sevenBit := by
  have hdigits : (Nat.toDigits 10 n.natAbs).all sevenBit := by
    rw [List.all_eq_true]
    intro c hc
    exact sevenBit_of_isDigit (Nat.isDigit_of_mem_toDigits (by decide) (by decide) hc)
  have hminus : sevenBit '-' := by decide
  unfold renderInt
  split <;> simp only [List.all_cons, hdigits, hminus, Bool.and_self]

theorem sevenBit_newline (indent : Option ℕ) (level : ℕ) : (newline indent level).all sevenBit := by
  have hspace : sevenBit ' ' := by decide
  have hbreak : sevenBit '\n' := by decide
  cases indent <;> simp [newline, hspace, hbreak]

theorem sevenBit_separator (indent : Option ℕ) (level : ℕ) :
    (separator indent level).all sevenBit := by
  have hcomma : sevenBit ',' := by decide
  cases indent with
  | none => rfl
  | some width => simpa [separator, hcomma] using sevenBit_newline (some width) level

/-! ## Floats -/

/-- A spelling of a float: it begins like a number, and is read as itself. -/
structure Spelled (s : Text) : Prop where
  first : ∃ c cs, s = c :: cs ∧ isSpace c = false ∧ c ∉ ['"', '{', '[', ']']
  sevenBit : s.all Json.sevenBit
  reads : ∀ rest, EndsNumber rest → readScalar (s ++ rest) = .ok (.float s, rest)

/-- Digits, at least one. -/
def Digits (cs : Text) : Prop := cs ≠ [] ∧ ∀ c ∈ cs, c.isDigit

/-- The parts of the spelling of a float. -/
structure Parts (minus whole fraction exponent : Text) : Prop where
  sign : minus = [] ∨ minus = ['-']
  digits : Digits whole
  zero : whole.head? = some '0' → whole = ['0']
  point : fraction = [] ∨ ∃ ds, Digits ds ∧ fraction = '.' :: ds
  power : exponent = [] ∨ ∃ e sign ds, (e = 'e' ∨ e = 'E') ∧
    (sign = [] ∨ sign = ['+'] ∨ sign = ['-']) ∧ Digits ds ∧ exponent = e :: (sign ++ ds)
  proper : ¬(fraction = [] ∧ exponent = [])

theorem Digits.takeWhile {ds rest : Text} (h : Digits ds) (hrest : ∀ c ∈ rest.head?, c.isDigit = false) :
    (ds ++ rest).takeWhile Char.isDigit = ds := by
  rw [List.takeWhile_append_of_pos fun c hc => h.2 c hc]
  cases rest with
  | nil => simp
  | cons c cs => simp [hrest c rfl]

theorem digits_takeWhile {cs : Text} (h : cs.takeWhile Char.isDigit ≠ []) :
    Digits (cs.takeWhile Char.isDigit) :=
  ⟨h, fun _ hc => List.mem_takeWhile_imp hc⟩

theorem fraction_of_readFraction (cs : Text) :
    readFraction cs = [] ∨ ∃ ds, Digits ds ∧ readFraction cs = '.' :: ds := by
  unfold readFraction
  split
  · rename_i h
    exact .inr ⟨_, digits_takeWhile h.2, rfl⟩
  · exact .inl rfl

theorem exponent_of_readExponent (cs : Text) :
    readExponent cs = [] ∨ ∃ e sign ds, (e = 'e' ∨ e = 'E') ∧
      (sign = [] ∨ sign = ['+'] ∨ sign = ['-']) ∧ Digits ds ∧ readExponent cs = e :: (sign ++ ds) := by
  cases cs with
  | nil => exact .inl rfl
  | cons e cs =>
    by_cases he : e = 'e' ∨ e = 'E'
    · cases cs with
      | nil => exact .inl (by simp [readExponent])
      | cons c cs =>
        by_cases hc : c = '+' ∨ c = '-'
        · by_cases hds : cs.takeWhile Char.isDigit = []
          · exact .inl (by simp [readExponent, hc, hds])
          · exact .inr ⟨e, [c], _, he, by simpa using hc, digits_takeWhile hds, by
              simp [readExponent, he, hc, hds]⟩
        · by_cases hds : (c :: cs).takeWhile Char.isDigit = []
          · exact .inl (by simp [readExponent, hc, hds])
          · exact .inr ⟨e, [], _, he, .inl rfl, digits_takeWhile hds, by
              simp [readExponent, he, hc, hds]⟩
    · exact .inl (by simp [readExponent, he])

theorem readFraction_spelled {fraction rest : Text}
    (h : fraction = [] ∨ ∃ ds, Digits ds ∧ fraction = '.' :: ds)
    (hrest : ∀ c ∈ rest.head?, c.isDigit = false ∧ c ≠ '.') :
    readFraction (fraction ++ rest) = fraction := by
  rcases h with rfl | ⟨ds, hds, rfl⟩
  · refine if_neg fun hdot => ?_
    exact (hrest _ hdot.1).2 rfl
  · have htake := hds.takeWhile fun c hc => (hrest c hc).1
    simp only [readFraction, List.cons_append, List.head?_cons, List.tail_cons, htake]
    exact if_pos ⟨trivial, hds.1⟩

theorem readExponent_spelled {exponent rest : Text} (h : exponent = [] ∨ ∃ e sign ds,
    (e = 'e' ∨ e = 'E') ∧ (sign = [] ∨ sign = ['+'] ∨ sign = ['-']) ∧ Digits ds ∧
      exponent = e :: (sign ++ ds)) (hrest : EndsNumber rest) :
    readExponent (exponent ++ rest) = exponent := by
  rcases h with rfl | ⟨e, sign, ds, he, hsign, hds, rfl⟩
  · exact readExponent_ends hrest
  · have htake := hds.takeWhile fun c hc => (hrest c hc).1
    rcases hsign with rfl | rfl | rfl
    · obtain ⟨d, ds, rfl⟩ := List.exists_cons_of_ne_nil hds.1
      have hd : d.isDigit := hds.2 d (by simp)
      have hplus : d ≠ '+' := by
        rintro rfl
        exact absurd hd (by decide)
      have hminus : d ≠ '-' := by
        rintro rfl
        exact absurd hd (by decide)
      rw [List.cons_append] at htake
      simp [readExponent, he, hplus, hminus, htake]
    · simp [readExponent, he, htake, hds.1]
    · simp [readExponent, he, htake, hds.1]

theorem Parts.reads {minus whole fraction exponent rest : Text}
    (h : Parts minus whole fraction exponent) (hrest : EndsNumber rest) :
    parseNumber (minus ++ (whole ++ (fraction ++ (exponent ++ rest)))) =
      .ok (.float (minus ++ whole ++ fraction ++ exponent), rest) := by
  have hexponent := readExponent_spelled h.power hrest
  have htail : ∀ c ∈ (exponent ++ rest).head?, c.isDigit = false ∧ c ≠ '.' := by
    rcases h.power with rfl | ⟨e, sign, ds, rfl | rfl, -, -, rfl⟩
    · exact fun c hc => ⟨(hrest c hc).1, (hrest c hc).2.1⟩
    · simp
    · simp
  have hfraction := readFraction_spelled h.point htail
  have hbehind : ∀ c ∈ (fraction ++ (exponent ++ rest)).head?, c.isDigit = false := by
    rcases h.point with rfl | ⟨ds, -, rfl⟩
    · exact fun c hc => (htail c hc).1
    · simp
  have hwhole : (if (whole ++ (fraction ++ (exponent ++ rest))).head? = some '0' then ['0']
      else (whole ++ (fraction ++ (exponent ++ rest))).takeWhile Char.isDigit) = whole := by
    rw [List.head?_append_of_ne_nil _ h.digits.1]
    split
    · rename_i hzero
      exact (h.zero hzero).symm
    · exact h.digits.takeWhile hbehind
  have hsign : (whole ++ (fraction ++ (exponent ++ rest))).head? ≠ some '-' := by
    rw [List.head?_append_of_ne_nil _ h.digits.1]
    exact fun hc => absurd (h.digits.2 _ (List.mem_of_mem_head? hc)) (by decide)
  have hminus : (if (minus ++ (whole ++ (fraction ++ (exponent ++ rest)))).head? = some '-' then ['-']
      else []) = minus := by
    rcases h.sign with rfl | rfl
    · exact if_neg hsign
    · rfl
  unfold parseNumber
  simp only [hminus, List.drop_left, hwhole, hfraction, hexponent, if_neg h.digits.1, if_neg h.proper]

/-- No constant starts like a number. -/
theorem parseConstant_digits {minus ds : Text} (hminus : minus = [] ∨ minus = ['-']) (hds : Digits ds)
    (rest : Text) : parseConstant (minus ++ ds ++ rest) = none := by
  obtain ⟨c, cs, rfl⟩ := List.exists_cons_of_ne_nil hds.1
  have hd : c.isDigit := hds.2 c (by simp)
  have hne : ∀ d : Char, d.isDigit = false → (d == c) = false := by
    intro d hdd
    simp only [beq_eq_false_iff_ne]
    rintro rfl
    simp [hdd] at hd
  rcases hminus with rfl | rfl <;> simp [parseConstant, constants, List.isPrefixOf, hne]

theorem Digits.sevenBit {ds : Text} (h : Digits ds) : ds.all Json.sevenBit :=
  List.all_eq_true.mpr fun c hc => sevenBit_of_isDigit (h.2 c hc)

theorem Parts.spelled {minus whole fraction exponent : Text} (h : Parts minus whole fraction exponent) :
    Spelled (minus ++ whole ++ fraction ++ exponent) where
  first := by
    rcases h.sign with rfl | rfl
    · obtain ⟨c, cs, rfl⟩ := List.exists_cons_of_ne_nil h.digits.1
      have hd : c.isDigit := h.digits.2 c (by simp)
      refine ⟨c, cs ++ fraction ++ exponent, rfl, ?_, ?_⟩
      · by_contra hspace
        simp only [isSpace, Bool.not_eq_false, Bool.or_eq_true, decide_eq_true_eq] at hspace
        rcases hspace with ((rfl | rfl) | rfl) | rfl <;> exact absurd hd (by decide)
      · intro hmem
        simp only [List.mem_cons, List.not_mem_nil, or_false] at hmem
        rcases hmem with rfl | rfl | rfl | rfl <;> exact absurd hd (by decide)
    · exact ⟨'-', whole ++ fraction ++ exponent, rfl, rfl, by decide⟩
  sevenBit := by
    have hminus : minus.all Json.sevenBit := by rcases h.sign with rfl | rfl <;> decide
    have hpoint : fraction.all Json.sevenBit := by
      rcases h.point with rfl | ⟨ds, hds, rfl⟩
      · rfl
      · rw [List.all_cons, hds.sevenBit]
        decide
    have hpower : exponent.all Json.sevenBit := by
      rcases h.power with rfl | ⟨e, sign, ds, he, hsign, hds, rfl⟩
      · rfl
      · rw [List.all_cons, List.all_append, hds.sevenBit]
        rcases he with rfl | rfl <;> rcases hsign with rfl | rfl | rfl <;> decide
    simp only [List.all_append, hminus, h.digits.sevenBit, hpoint, hpower, Bool.and_self]
  reads := by
    intro rest hrest
    have hnone := parseConstant_digits h.sign h.digits (fraction ++ (exponent ++ rest))
    have hreads := h.reads hrest
    simp only [List.append_assoc] at hnone hreads ⊢
    rw [readScalar, hnone]
    exact hreads

/-- Whatever is read as a float is spelled as one. -/
theorem spelled_of_parseNumber {cs rest s : Text} (h : parseNumber cs = .ok (.float s, rest)) :
    Spelled s := by
  unfold parseNumber at h
  dsimp only at h
  generalize hminus : (if cs.head? = some '-' then ['-'] else []) = minus at h
  generalize hwhole : (if (cs.drop minus.length).head? = some '0' then ['0']
    else (cs.drop minus.length).takeWhile Char.isDigit) = whole at h
  split_ifs at h with hnone hproper hlong
  · cases (Prod.mk.inj (Except.ok.inj h)).1
  · cases (Prod.mk.inj (Except.ok.inj h)).1
  · obtain ⟨hs, -⟩ := Prod.mk.inj (Except.ok.inj h)
    obtain rfl := Json.float.inj hs
    refine Parts.spelled ⟨?_, ?_, ?_, fraction_of_readFraction _, exponent_of_readExponent _, hproper⟩
    · rw [← hminus]
      split
      · exact .inr rfl
      · exact .inl rfl
    · split at hwhole
      · rw [← hwhole]
        exact ⟨by simp, by simp⟩
      · subst hwhole
        exact digits_takeWhile hnone
    · split at hwhole
      · exact fun _ => hwhole.symm
      · rename_i hzero
        intro hhead
        obtain ⟨tail, htail⟩ := List.takeWhile_prefix (p := Char.isDigit) (l := cs.drop minus.length)
        rw [hwhole] at htail
        rw [← htail, List.head?_append, hhead] at hzero
        exact absurd rfl hzero

theorem spelled_constants : ∀ s ∈ ["NaN".toList, "Infinity".toList, "-Infinity".toList], Spelled s := by
  intro s hs
  simp only [List.mem_cons, List.not_mem_nil, or_false] at hs
  rcases hs with rfl | rfl | rfl
  · exact ⟨⟨_, _, rfl, rfl, by decide⟩, by decide, fun _ _ => rfl⟩
  · exact ⟨⟨_, _, rfl, rfl, by decide⟩, by decide, fun _ _ => rfl⟩
  · exact ⟨⟨_, _, rfl, rfl, by decide⟩, by decide, fun _ _ => rfl⟩

/-! ## Values -/

mutual

/-- A value that is written and read back as it is: no float, short integers, distinct
keys, and no deeper than `depth`. -/
def Plain : ℕ → Json → Prop
  | _, .null | _, .bool _ | _, .str _ => True
  | _, .int n => n.natAbs < 10 ^ maxDigits
  | _, .float _ => False
  | depth, .arr xs => 0 < depth ∧ PlainItems (depth - 1) xs
  | depth, .obj ms => 0 < depth ∧ (ms.map Prod.fst).Nodup ∧ PlainMembers (depth - 1) ms

def PlainItems : ℕ → List Json → Prop
  | _, [] => True
  | depth, x :: xs => Plain depth x ∧ PlainItems depth xs

def PlainMembers : ℕ → List (Text × Json) → Prop
  | _, [] => True
  | depth, (_, v) :: ms => Plain depth v ∧ PlainMembers depth ms

end

mutual

/-- A value that reads back once it is written: floats as they are spelled, short integers,
distinct keys, and no deeper than `depth`. -/
def Written : ℕ → Json → Prop
  | _, .null | _, .bool _ | _, .str _ => True
  | _, .int n => n.natAbs < 10 ^ maxDigits
  | _, .float s => Spelled s
  | depth, .arr xs => 0 < depth ∧ WrittenItems (depth - 1) xs
  | depth, .obj ms => 0 < depth ∧ (ms.map Prod.fst).Nodup ∧ WrittenMembers (depth - 1) ms

def WrittenItems : ℕ → List Json → Prop
  | _, [] => True
  | depth, x :: xs => Written depth x ∧ WrittenItems depth xs

def WrittenMembers : ℕ → List (Text × Json) → Prop
  | _, [] => True
  | depth, (_, v) :: ms => Written depth v ∧ WrittenMembers depth ms

end

mutual

theorem Plain.written {depth : ℕ} : ∀ {v : Json}, Plain depth v → Written depth v
  | .null, _ | .bool _, _ | .str _, _ => trivial
  | .int _, h => h
  | .float _, h => h.elim
  | .arr _, h => ⟨h.1, PlainItems.written h.2⟩
  | .obj _, h => ⟨h.1, h.2.1, PlainMembers.written h.2.2⟩

theorem PlainItems.written {depth : ℕ} : ∀ {xs : List Json}, PlainItems depth xs → WrittenItems depth xs
  | [], _ => trivial
  | _ :: _, h => ⟨h.1.written, PlainItems.written h.2⟩

theorem PlainMembers.written {depth : ℕ} :
    ∀ {ms : List (Text × Json)}, PlainMembers depth ms → WrittenMembers depth ms
  | [], _ => trivial
  | _ :: _, h => ⟨h.1.written, PlainMembers.written h.2⟩

end

@[simp] theorem skipSpace_newline (indent : Option ℕ) (level : ℕ) (cs : Text) :
    skipSpace (newline indent level ++ cs) = skipSpace cs := by
  cases indent with
  | none => rfl
  | some width =>
    have h : ∀ k, skipSpace (List.replicate k ' ' ++ cs) = skipSpace cs := by
      intro k
      induction k with
      | zero => rfl
      | succ k ih => simpa [List.replicate_succ, skipSpace, isSpace] using ih
    simpa [newline, skipSpace, isSpace] using h (width * level)

theorem skipSpace_cons {c : Char} (h : isSpace c = false) (cs : Text) :
    skipSpace (c :: cs) = c :: cs := by
  simp [skipSpace, h]

/-- No value starts with space or with the end of a container. -/
theorem render_head {depth : ℕ} {v : Json} (hv : Written depth v) (indent : Option ℕ) (level : ℕ) :
    ∃ c cs, render indent level v = c :: cs ∧ isSpace c = false ∧ c ≠ ']' := by
  have hdigits : ∀ n, ∃ c cs, Nat.toDigits 10 n = c :: cs ∧ isSpace c = false ∧ c ≠ ']' := by
    intro n
    obtain ⟨c, cs, hc⟩ := List.exists_cons_of_ne_nil (Nat.toDigits_ne_nil (b := 10) (n := n))
    have hd : c.isDigit := Nat.isDigit_of_mem_toDigits (b := 10) (n := n) (by decide) (by decide)
      (by simp [hc])
    refine ⟨c, cs, hc, ?_, ?_⟩
    · by_contra hspace
      simp only [isSpace, Bool.not_eq_false, Bool.or_eq_true, decide_eq_true_eq] at hspace
      rcases hspace with ((rfl | rfl) | rfl) | rfl <;> exact absurd hd (by decide)
    · rintro rfl
      exact absurd hd (by decide)
  cases v with
  | null => exact ⟨'n', _, rfl, rfl, by decide⟩
  | bool b => cases b <;> exact ⟨_, _, rfl, rfl, by decide⟩
  | int n =>
    rw [render, renderInt]
    split
    · exact ⟨'-', _, rfl, rfl, by decide⟩
    · exact hdigits _
  | float s =>
    obtain ⟨c, cs, hc, hspace, hne⟩ := Spelled.first hv
    exact ⟨c, cs, hc, hspace, fun h => hne (by simp [h])⟩
  | str s => exact ⟨'"', _, rfl, rfl, by decide⟩
  | arr xs => cases xs <;> exact ⟨'[', _, rfl, rfl, by decide⟩
  | obj ms => cases ms <;> exact ⟨'{', _, rfl, rfl, by decide⟩

theorem skipSpace_render {depth : ℕ} {v : Json} (hv : Written depth v) (indent : Option ℕ)
    (level : ℕ) (rest : Text) :
    skipSpace (render indent level v ++ rest) = render indent level v ++ rest := by
  obtain ⟨c, cs, hc, hspace, -⟩ := render_head hv indent level
  rw [hc, List.cons_append, skipSpace_cons hspace]

theorem renderInt_head (n : ℤ) :
    ∃ c cs, renderInt n = c :: cs ∧ c ≠ '"' ∧ c ≠ '{' ∧ c ≠ '[' := by
  unfold renderInt
  split
  · exact ⟨'-', _, rfl, by decide⟩
  · obtain ⟨c, cs, hc⟩ := List.exists_cons_of_ne_nil
      (Nat.toDigits_ne_nil (b := 10) (n := n.natAbs))
    have hd : c.isDigit := Nat.isDigit_of_mem_toDigits (b := 10) (n := n.natAbs) (by decide)
      (by decide) (by simp [hc])
    refine ⟨c, cs, hc, ?_, ?_, ?_⟩ <;> rintro rfl <;> exact absurd hd (by decide)

/-- No constant starts like an integer. -/
theorem parseConstant_renderInt (n : ℤ) (rest : Text) : parseConstant (renderInt n ++ rest) = none := by
  have hdigits : Digits (Nat.toDigits 10 n.natAbs) :=
    ⟨Nat.toDigits_ne_nil, fun _ => Nat.isDigit_of_mem_toDigits (by decide) (by decide)⟩
  unfold renderInt
  split
  · exact parseConstant_digits (.inr rfl) hdigits rest
  · exact parseConstant_digits (.inl rfl) hdigits rest

/-- What follows a member or an item: the next one, or the end of the container. -/
theorem endsNumber_newline (indent : Option ℕ) (level : ℕ) {c : Char} {cs : Text}
    (h : EndsNumber (c :: cs)) : EndsNumber (newline indent level ++ c :: cs) := by
  cases indent with
  | none => exact h
  | some width => intro d hd; cases hd; decide

theorem endsNumber_comma (cs : Text) : EndsNumber (',' :: cs) := by
  intro d hd; cases hd; decide

theorem endsNumber_bracket (cs : Text) : EndsNumber (']' :: cs) := by
  intro d hd; cases hd; decide

theorem endsNumber_brace (cs : Text) : EndsNumber ('}' :: cs) := by
  intro d hd; cases hd; decide

theorem exists_separator (indent : Option ℕ) (level : ℕ) :
    ∃ sep, separator indent level = ',' :: sep ∧ ∀ cs, skipSpace (sep ++ cs) = skipSpace cs := by
  cases indent with
  | none => exact ⟨[' '], rfl, fun cs => rfl⟩
  | some width => exact ⟨_, rfl, skipSpace_newline _ _⟩

section Hook
variable {hook : List (Text × Json) → Except Error Json}

/-- Reading one member, if its value reads back. -/
theorem readMembers_member {fuel depth level : ℕ} {indent : Option ℕ} {k : Text} {v : Json}
    {tail : Text} (hk : k.length < fuel)
    (hskip : skipSpace (render indent level v ++ tail) = render indent level v ++ tail)
    (hv : readValue hook fuel depth (render indent level v ++ tail) = .ok (v, tail)) :
    readMembers hook (fuel + 1) depth
        (renderString k ++ ':' :: ' ' :: (render indent level v ++ tail)) =
      if (skipSpace tail).head? = some '}' then .ok ([(k, v)], (skipSpace tail).tail)
      else if (skipSpace tail).head? = some ',' then
        (readMembers hook fuel depth (skipSpace (skipSpace tail).tail)).map fun p =>
          ((k, v) :: p.1, p.2)
      else .error .value := by
  have hspace : skipSpace (' ' :: (render indent level v ++ tail)) =
      skipSpace (render indent level v ++ tail) := rfl
  simp only [renderString, List.cons_append, List.append_assoc, List.nil_append]
  rw [readMembers, if_pos rfl, parseString_render k hk]
  simp only [bind, Except.bind, skipSpace_cons (c := ':') (by decide), List.head?_cons, if_true,
    List.tail_cons, hspace, hskip, hv]
  cases readMembers hook fuel depth (skipSpace (skipSpace tail).tail) <;> rfl

/-- The hook makes objects of distinct keys. -/
def KeepsDistinct (hook : List (Text × Json) → Except Error Json) : Prop :=
  ∀ ms : List (Text × Json), (ms.map Prod.fst).Nodup → hook ms = .ok (.obj ms)

mutual

/-- **Values read back**, whatever follows them, if the hook makes objects of distinct keys. -/
theorem readValue_render (hhook : KeepsDistinct hook) (indent : Option ℕ) (level : ℕ)
    {fuel depth : ℕ} {rest : Text} :
    ∀ (v : Json), Written depth v → EndsNumber rest → (render indent level v).length ≤ fuel →
      readValue hook fuel depth (render indent level v ++ rest) = .ok (v, rest)
  | .null, _, _, hf => by
    obtain ⟨fuel, rfl⟩ : ∃ n, fuel = n + 1 := ⟨fuel - 1, by simp [render] at hf; omega⟩
    rfl
  | .bool b, _, _, hf => by
    obtain ⟨fuel, rfl⟩ : ∃ n, fuel = n + 1 := ⟨fuel - 1, by cases b <;> simp [render] at hf <;> omega⟩
    cases b <;> rfl
  | .int n, hv, hrest, hf => by
    obtain ⟨c, cs, hc, hquote, hbrace, hbracket⟩ := renderInt_head n
    rw [render] at hf ⊢
    obtain ⟨fuel, rfl⟩ : ∃ n, fuel = n + 1 := ⟨fuel - 1, by simp [hc] at hf; omega⟩
    have hconstant := parseConstant_renderInt n rest
    have hnumber := parseNumber_render hv hrest
    rw [hc, List.cons_append] at hconstant hnumber ⊢
    rw [readValue, if_neg hquote, if_neg hbrace, if_neg hbracket, hconstant]
    exact hnumber
  | .float s, hv, hrest, hf => by
    obtain ⟨c, cs, hc, -, hne⟩ := Spelled.first hv
    simp only [List.mem_cons, not_or] at hne
    have hreads := Spelled.reads hv rest hrest
    rw [render] at hf ⊢
    obtain ⟨fuel, rfl⟩ : ∃ n, fuel = n + 1 := ⟨fuel - 1, by simp [hc] at hf; omega⟩
    rw [hc, List.cons_append] at hreads ⊢
    rw [readValue, if_neg hne.1, if_neg hne.2.1, if_neg hne.2.2.1]
    exact hreads
  | .str s, _, _, hf => by
    have hlen := length_renderString s
    rw [render] at hf ⊢
    obtain ⟨fuel, rfl⟩ : ∃ n, fuel = n + 1 := ⟨fuel - 1, by omega⟩
    simp only [renderString, List.cons_append, List.append_assoc]
    rw [readValue, if_pos rfl, parseString_render s (by omega)]
    rfl
  | .arr [], hv, _, hf => by
    obtain ⟨fuel, rfl⟩ : ∃ n, fuel = n + 1 := ⟨fuel - 1, by simp [render] at hf; omega⟩
    have hd : depth ≠ 0 := by have := hv.1; omega
    simp [render, readValue, hd, skipSpace, isSpace]
  | .obj [], hv, _, hf => by
    obtain ⟨fuel, rfl⟩ : ∃ n, fuel = n + 1 := ⟨fuel - 1, by simp [render] at hf; omega⟩
    have hd : depth ≠ 0 := by have := hv.1; omega
    simp [render, readValue, hd, skipSpace, isSpace, hhook [] (by simp)]
  | .arr (x :: xs), hv, _, hf => by
    obtain ⟨hd, hxs⟩ := hv
    rw [render] at hf ⊢
    simp only [List.cons_append, List.append_assoc, List.length_cons, List.length_append,
      List.length_nil, List.nil_append] at hf ⊢
    obtain ⟨fuel, rfl⟩ : ∃ n, fuel = n + 1 := ⟨fuel - 1, by omega⟩
    obtain ⟨c, cs, hc, hspace, hend⟩ := render_head hxs.1 indent (level + 1)
    have hskip : skipSpace (newline indent (level + 1) ++ (renderItems indent (level + 1) (x :: xs) ++
        (newline indent level ++ ']' :: rest))) =
        renderItems indent (level + 1) (x :: xs) ++ (newline indent level ++ ']' :: rest) := by
      rw [skipSpace_newline, renderItems, List.append_assoc, skipSpace_render hxs.1]
    have hhead : (renderItems indent (level + 1) (x :: xs) ++
        (newline indent level ++ ']' :: rest)).head? ≠ some ']' := by
      simp [renderItems, hc, hend]
    rw [readValue, if_neg (by decide), if_neg (by decide), if_pos rfl, if_neg (by omega), hskip,
      if_neg hhead, readItems_render hhook indent (level + 1) level (x :: xs) (by simp) hxs (by omega)]
    rfl
  | .obj (m :: ms), hv, _, hf => by
    obtain ⟨hd, hkeys, hms⟩ := hv
    obtain ⟨k, v⟩ := m
    rw [render] at hf ⊢
    simp only [List.cons_append, List.append_assoc, List.length_cons, List.length_append,
      List.length_nil, List.nil_append] at hf ⊢
    obtain ⟨fuel, rfl⟩ : ∃ n, fuel = n + 1 := ⟨fuel - 1, by omega⟩
    have hhead : ∃ cs, renderMembers indent (level + 1) ((k, v) :: ms) = '"' :: cs :=
      ⟨_, by rw [renderMembers, renderString]; rfl⟩
    obtain ⟨cs, hcs⟩ := hhead
    have hskip : skipSpace (newline indent (level + 1) ++
        (renderMembers indent (level + 1) ((k, v) :: ms) ++ (newline indent level ++ '}' :: rest))) =
        renderMembers indent (level + 1) ((k, v) :: ms) ++ (newline indent level ++ '}' :: rest) := by
      rw [skipSpace_newline, hcs, List.cons_append, skipSpace_cons (by decide)]
    have hne : (renderMembers indent (level + 1) ((k, v) :: ms) ++
        (newline indent level ++ '}' :: rest)).head? ≠ some '}' := by
      simp [hcs]
    rw [readValue, if_neg (by decide), if_pos rfl, if_neg (by omega), hskip, if_neg hne,
      readMembers_render hhook indent (level + 1) level ((k, v) :: ms) (by simp) hms (by omega)]
    simp only [bind, Except.bind, hhook _ hkeys]
    rfl

theorem readItems_render (hhook : KeepsDistinct hook) (indent : Option ℕ) (level below : ℕ)
    {fuel depth : ℕ} {rest : Text} :
    ∀ (xs : List Json), xs ≠ [] → WrittenItems depth xs →
      (renderItems indent level xs).length < fuel →
      readItems hook fuel depth (renderItems indent level xs ++ (newline indent below ++ ']' :: rest)) =
        .ok (xs, rest)
  | [], hne, _, _ => absurd rfl hne
  | [x], _, hv, hf => by
    obtain ⟨fuel, rfl⟩ : ∃ n, fuel = n + 1 := ⟨fuel - 1, by omega⟩
    simp only [renderItems, if_true, List.append_nil] at hf ⊢
    rw [readItems, readValue_render hhook indent level x hv.1
      (endsNumber_newline indent below (endsNumber_bracket rest)) (by omega)]
    simp only [bind, Except.bind, skipSpace_newline, skipSpace_cons (c := ']') (by decide),
      List.head?_cons, if_true, List.tail_cons]
    rfl
  | x :: y :: xs, _, hv, hf => by
    obtain ⟨fuel, rfl⟩ : ∃ n, fuel = n + 1 := ⟨fuel - 1, by omega⟩
    rw [renderItems, if_neg (by simp)] at hf ⊢
    simp only [List.append_assoc, List.length_append] at hf ⊢
    obtain ⟨sep, hsep, hskip⟩ := exists_separator indent level
    have hnext : skipSpace (renderItems indent level (y :: xs) ++ (newline indent below ++ ']' :: rest)) =
        renderItems indent level (y :: xs) ++ (newline indent below ++ ']' :: rest) := by
      rw [renderItems, List.append_assoc, skipSpace_render hv.2.1]
    rw [hsep, List.length_cons] at hf
    rw [hsep, List.cons_append, readItems, readValue_render hhook indent level x hv.1
      (endsNumber_comma _) (by omega)]
    simp only [bind, Except.bind, skipSpace_cons (c := ',') (by decide), List.head?_cons,
      List.tail_cons, hskip, hnext]
    rw [if_neg (by decide), if_pos trivial,
      readItems_render hhook indent level below (y :: xs) (by simp) hv.2 (by omega)]
    rfl

theorem readMembers_render (hhook : KeepsDistinct hook) (indent : Option ℕ) (level below : ℕ)
    {fuel depth : ℕ} {rest : Text} :
    ∀ (ms : List (Text × Json)), ms ≠ [] → WrittenMembers depth ms →
      (renderMembers indent level ms).length < fuel →
      readMembers hook fuel depth
        (renderMembers indent level ms ++ (newline indent below ++ '}' :: rest)) = .ok (ms, rest)
  | [], hne, _, _ => absurd rfl hne
  | [(k, v)], _, hv, hf => by
    obtain ⟨fuel, rfl⟩ : ∃ n, fuel = n + 1 := ⟨fuel - 1, by omega⟩
    have hlen := length_renderString k
    simp only [renderMembers, if_true, List.append_nil, List.length_append, List.length_cons] at hf
    simp only [renderMembers, if_true, List.append_nil, List.append_assoc, List.cons_append]
    rw [readMembers_member (by omega) (skipSpace_render hv.1 _ _ _)
      (readValue_render hhook indent level v hv.1
        (endsNumber_newline indent below (endsNumber_brace rest)) (by omega)),
      skipSpace_newline, skipSpace_cons (by decide), if_pos List.head?_cons]
    rfl
  | (k, v) :: n :: ms, _, hv, hf => by
    obtain ⟨fuel, rfl⟩ : ∃ n, fuel = n + 1 := ⟨fuel - 1, by omega⟩
    obtain ⟨k', v'⟩ := n
    have hlen := length_renderString k
    obtain ⟨sep, hsep, hskip⟩ := exists_separator indent level
    have hhead : ∃ cs, renderMembers indent level ((k', v') :: ms) = '"' :: cs :=
      ⟨_, by rw [renderMembers, renderString]; rfl⟩
    obtain ⟨cs, hcs⟩ := hhead
    rw [renderMembers, if_neg (by simp), hsep] at hf ⊢
    simp only [List.append_assoc, List.cons_append, List.length_append, List.length_cons] at hf ⊢
    rw [readMembers_member (by omega) (skipSpace_render hv.1 _ _ _)
      (readValue_render hhook indent level v hv.1 (endsNumber_comma _) (by omega)),
      skipSpace_cons (by decide), if_neg (by simp), if_pos List.head?_cons, List.tail_cons, hskip, hcs,
      List.cons_append, skipSpace_cons (by decide), ← List.cons_append, ← hcs,
      readMembers_render hhook indent level below ((k', v') :: ms) (by simp) hv.2 (by omega)]
    rfl

end

end Hook

/-! ## Documents -/

mutual

theorem sevenBit_render (indent : Option ℕ) (level : ℕ) {depth : ℕ} :
    ∀ v, Written depth v → (render indent level v).all sevenBit
  | .null, _ => rfl
  | .bool b, _ => by cases b <;> rfl
  | .int n, _ => sevenBit_renderInt n
  | .float _, hv => Spelled.sevenBit hv
  | .str s, _ => sevenBit_renderString s
  | .arr [], _ => rfl
  | .obj [], _ => rfl
  | .arr (x :: xs), hv => by
    have hopen : sevenBit '[' := by decide
    have hclose : sevenBit ']' := by decide
    have hitems := sevenBit_renderItems indent (level + 1) (x :: xs) hv.2
    simp only [render, List.all_append, List.all_cons, List.all_nil, sevenBit_newline, hitems,
      hopen, hclose, Bool.and_self]
  | .obj (m :: ms), hv => by
    have hopen : sevenBit '{' := by decide
    have hclose : sevenBit '}' := by decide
    have hmembers := sevenBit_renderMembers indent (level + 1) (m :: ms) hv.2.2
    simp only [render, List.all_append, List.all_cons, List.all_nil, sevenBit_newline, hmembers,
      hopen, hclose, Bool.and_self]

theorem sevenBit_renderItems (indent : Option ℕ) (level : ℕ) {depth : ℕ} :
    ∀ xs, WrittenItems depth xs → (renderItems indent level xs).all sevenBit
  | [], _ => rfl
  | x :: xs, hv => by
    have hx := sevenBit_render indent level x hv.1
    have hxs := sevenBit_renderItems indent level xs hv.2
    rw [renderItems]
    split <;> simp only [List.all_append, hx, hxs, sevenBit_separator, List.all_nil, Bool.and_self]

theorem sevenBit_renderMembers (indent : Option ℕ) (level : ℕ) {depth : ℕ} :
    ∀ ms, WrittenMembers depth ms → (renderMembers indent level ms).all sevenBit
  | [], _ => rfl
  | (k, v) :: ms, hv => by
    have hcolon : sevenBit ':' := by decide
    have hspace : sevenBit ' ' := by decide
    have hx := sevenBit_render indent level v hv.1
    have hxs := sevenBit_renderMembers indent level ms hv.2
    rw [renderMembers]
    split <;> simp only [List.all_append, List.all_cons, hx, hxs, hcolon, hspace,
      sevenBit_renderString, sevenBit_separator, List.all_nil, Bool.and_self]

end

/-- Bytes without a NUL or an eighth bit are taken for UTF-8. -/
theorem decodeDetected_of_sevenBit {data : Bytes} (h : ∀ b ∈ data, b ≠ 0 ∧ b < 0x80) :
    decodeDetected data = Text.decodeUtf8 true data := by
  have hne : ∀ {b c : UInt8}, b < 0x80 → 0x80 ≤ c → (c == b) = false := by
    intro b c hb hc
    rw [beq_eq_false_iff_ne]
    rintro rfl
    exact absurd hb (UInt8.not_lt.mpr hc)
  unfold decodeDetected
  match data, h with
  | [], _ => rfl
  | [a], h =>
    obtain ⟨ha, hlt⟩ := h a (by simp)
    simp [List.isPrefixOf, hne hlt]
  | [a, b], h =>
    obtain ⟨ha, hlt⟩ := h a (by simp)
    obtain ⟨hb, -⟩ := h b (by simp)
    simp [List.isPrefixOf, hne hlt, ha, hb]
  | [a, b, c], h =>
    obtain ⟨ha, hlt⟩ := h a (by simp)
    simp [List.isPrefixOf, hne hlt]
  | a :: b :: c :: d :: rest, h =>
    obtain ⟨ha, hlt⟩ := h a (by simp)
    obtain ⟨hb, -⟩ := h b (by simp)
    simp [List.isPrefixOf, hne hlt, ha, hb, Ne.symm ha]

/-- Seven-bit text is decoded as UTF-8. -/
theorem decodeDetected_encode {cs : Text} (h : cs.all sevenBit) :
    decodeDetected (Text.encode cs) = some cs := by
  have hcs : ∀ c ∈ cs, 0 < c.toNat ∧ c.toNat < 0x80 := by
    intro c hc
    simpa [sevenBit] using List.all_eq_true.mp h c hc
  rw [decodeDetected_of_sevenBit, Text.decodeUtf8_encode]
  intro b hb
  obtain ⟨c, hc, hbc⟩ := List.mem_flatMap.mp hb
  obtain ⟨hpos, hlt⟩ := hcs c hc
  rw [Text.utf8EncodeChar_of_lt hlt, List.mem_singleton] at hbc
  have hbyte : b.toNat = c.toNat := by
    rw [hbc, UInt8.toNat_ofNat']
    exact Nat.mod_eq_of_lt (by omega)
  constructor
  · rintro rfl
    simp at hbyte
    omega
  · rw [UInt8.lt_iff_toNat_lt, hbyte]
    exact hlt

theorem sevenBit_document (indent : Option ℕ) {v : Json} (hv : Written recursionLimit v) :
    (render indent 0 v ++ ['\n']).all sevenBit := by
  have hbreak : sevenBit '\n' := by decide
  simp [List.all_append, sevenBit_render indent 0 v hv, hbreak]

section Hook
variable {hook : List (Text × Json) → Except Error Json} (hhook : KeepsDistinct hook)
include hhook

theorem readDocument_render (indent : Option ℕ) {v : Json} (hv : Written recursionLimit v) :
    readDocument hook (render indent 0 v ++ ['\n']) = .ok v := by
  have hends : EndsNumber ['\n'] := by intro c hc; cases hc; decide
  simp only [readDocument, skipSpace_render hv]
  rw [readValue_render hhook indent 0 v hv hends (by simp; omega)]
  rfl

/-- **A document reads back** from its bytes, with a line break at its end. -/
theorem loadsHook_render (indent : Option ℕ) {v : Json} (hv : Written recursionLimit v) :
    loadsHook hook (Text.encode (render indent 0 v ++ ['\n'])) = .ok v := by
  rw [loadsHook, decodeDetected_encode (sevenBit_document indent hv)]
  exact readDocument_render hhook indent hv

end Hook

theorem assign_of_nodup {acc ms : List (Text × Json)} (h : ((acc ++ ms).map Prod.fst).Nodup) :
    assign acc ms = acc ++ ms := by
  induction ms generalizing acc with
  | nil => simp [assign]
  | cons m ms ih =>
    have hfresh : m.1 ∉ acc.map Prod.fst := by
      rw [List.map_append, List.nodup_append] at h
      exact fun hmem => h.2.2 _ hmem m.1 (by simp) rfl
    rw [assign, List.foldl_cons, insert_of_not_mem hfresh]
    exact (ih (by simpa using h)).trans (by simp)

theorem keepsDistinct_lastWins : KeepsDistinct lastWins := by
  intro ms h
  rw [lastWins, @assign_of_nodup [] ms (by simpa using h), List.nil_append]

theorem keepsDistinct_uniqueKeys : KeepsDistinct uniqueKeys := fun _ h => if_pos h

theorem loads_render {indent : Option ℕ} {v : Json} (hv : Written recursionLimit v) :
    loads (Text.encode (render indent 0 v ++ ['\n'])) = .ok v := by
  rw [loads_eq_loadsHook]
  exact loadsHook_render keepsDistinct_lastWins indent hv

/-- A document reads back from its text. -/
theorem loadsText_render {indent : Option ℕ} {v : Json} (hv : Written recursionLimit v) :
    loadsText (render indent 0 v ++ ['\n']) = .ok v := by
  have hmark : (render indent 0 v ++ ['\n']).head? ≠ some '\uFEFF' := by
    intro h
    have hmem := List.mem_of_head? h
    have := List.all_eq_true.mp (sevenBit_document indent hv) _ hmem
    revert this
    decide
  rw [loadsText, if_neg hmark, parse_eq_readDocument]
  exact readDocument_render keepsDistinct_lastWins indent hv

/-! ## What is read can be written -/

theorem ofDigitChars_lt {cs : Text} (h : ∀ c ∈ cs, c.isDigit) :
    Nat.ofDigitChars 10 cs 0 < 10 ^ cs.length := by
  induction cs with
  | nil => simp
  | cons c cs ih =>
    have hc : c.toNat - '0'.toNat < 10 := by
      have hd := h c (by simp)
      simp only [Char.isDigit, Bool.and_eq_true, decide_eq_true_eq, ge_iff_le,
        UInt32.le_iff_toNat_le] at hd
      have hnine : c.toNat ≤ 57 := hd.2
      have hzero : '0'.toNat = 48 := rfl
      omega
    have htail := ih fun d hd => h d (List.mem_cons_of_mem c hd)
    rw [Nat.ofDigitChars_cons, Nat.ofDigitChars_eq_ofDigitChars_zero, List.length_cons, Nat.pow_succ,
      Nat.mul_zero, Nat.zero_add]
    calc 10 ^ cs.length * (c.toNat - '0'.toNat) + Nat.ofDigitChars 10 cs 0
        < 10 ^ cs.length * (c.toNat - '0'.toNat) + 10 ^ cs.length := by omega
      _ = 10 ^ cs.length * (c.toNat - '0'.toNat + 1) := (Nat.mul_succ _ _).symm
      _ ≤ 10 ^ cs.length * 10 := Nat.mul_le_mul_left _ hc

theorem written_of_parseNumber {cs rest : Text} {v : Json} (h : parseNumber cs = .ok (v, rest))
    (depth : ℕ) : Written depth v := by
  have hspelled := h
  unfold parseNumber at h
  dsimp only at h
  generalize (if cs.head? = some '-' then ['-'] else []) = minus at h
  generalize hwhole : (if (cs.drop minus.length).head? = some '0' then ['0']
    else (cs.drop minus.length).takeWhile Char.isDigit) = whole at h
  have hdigits : ∀ c ∈ whole, c.isDigit := by
    rw [← hwhole]
    split
    · simp
    · exact fun _ => List.mem_takeWhile_imp
  have hlt := ofDigitChars_lt hdigits
  have hbound (hlong : ¬maxDigits < whole.length) : Nat.ofDigitChars 10 whole 0 < 10 ^ maxDigits :=
    lt_of_lt_of_le hlt (Nat.pow_le_pow_right (by decide) (by omega))
  split_ifs at h with hnone hproper hlong
  · obtain rfl := (Prod.mk.inj (Except.ok.inj h)).1
    exact hbound hlong
  · obtain rfl := (Prod.mk.inj (Except.ok.inj h)).1
    rw [Written, Int.natAbs_neg]
    exact hbound hlong
  · obtain rfl := (Prod.mk.inj (Except.ok.inj h)).1
    exact spelled_of_parseNumber hspelled

theorem written_of_parseConstant {cs rest : Text} {v : Json}
    (h : parseConstant cs = some (v, rest)) (depth : ℕ) : Written depth v := by
  obtain ⟨p, hp, h⟩ := Option.map_eq_some_iff.mp h
  obtain rfl := (Prod.mk.inj h).1
  have hmem := List.mem_of_find?_eq_some hp
  simp only [constants, List.mem_cons, List.not_mem_nil, or_false] at hmem
  rcases hmem with rfl | rfl | rfl | rfl | rfl | rfl
  · trivial
  · trivial
  · trivial
  all_goals exact spelled_constants _ (by simp)

/-- The hook makes values that can be written of such members. -/
def KeepsWritten (hook : List (Text × Json) → Except Error Json) : Prop :=
  ∀ depth ms v, hook ms = .ok v → 0 < depth → WrittenMembers (depth - 1) ms → Written depth v

theorem read_written {hook : List (Text × Json) → Except Error Json} (hhook : KeepsWritten hook)
    (fuel : ℕ) :
    (∀ depth cs v rest, readValue hook fuel depth cs = .ok (v, rest) → Written depth v) ∧
    (∀ depth cs ms rest, readMembers hook fuel depth cs = .ok (ms, rest) → WrittenMembers depth ms) ∧
    ∀ depth cs xs rest, readItems hook fuel depth cs = .ok (xs, rest) → WrittenItems depth xs := by
  induction fuel with
  | zero => simp [readValue, readMembers, readItems]
  | succ fuel ih =>
    obtain ⟨ihValue, ihMembers, ihItems⟩ := ih
    refine ⟨fun depth cs v rest h => ?_, fun depth cs ms rest h => ?_, fun depth cs xs rest h => ?_⟩
    · cases cs with
      | nil => simp [readValue] at h
      | cons c cs =>
        rw [readValue] at h
        split_ifs at h with hquote hbrace hdepth hempty hbracket hdepth hempty
        · obtain ⟨_, -, h⟩ := Except.bind_eq_ok.mp h
          obtain ⟨rfl, -⟩ := Prod.mk.inj (Except.ok.inj h)
          trivial
        · obtain ⟨w, hw, h⟩ := Except.bind_eq_ok.mp h
          obtain ⟨rfl, -⟩ := Prod.mk.inj (Except.ok.inj h)
          exact hhook depth _ _ hw (by omega) trivial
        · obtain ⟨p, hp, h⟩ := Except.bind_eq_ok.mp h
          obtain ⟨w, hw, h⟩ := Except.bind_eq_ok.mp h
          obtain ⟨rfl, -⟩ := Prod.mk.inj (Except.ok.inj h)
          exact hhook depth _ _ hw (by omega) (ihMembers _ _ _ _ hp)
        · obtain ⟨rfl, -⟩ := Prod.mk.inj (Except.ok.inj h)
          exact ⟨by omega, trivial⟩
        · obtain ⟨p, hp, h⟩ := Except.bind_eq_ok.mp h
          obtain ⟨rfl, -⟩ := Prod.mk.inj (Except.ok.inj h)
          exact ⟨by omega, ihItems _ _ _ _ hp⟩
        · split at h
          · rename_i hc
            exact written_of_parseConstant (hc.trans (congrArg some (Except.ok.inj h))) depth
          · exact written_of_parseNumber h depth
    · cases cs with
      | nil => simp [readMembers] at h
      | cons c cs =>
        rw [readMembers] at h
        split_ifs at h
        obtain ⟨p, -, h⟩ := Except.bind_eq_ok.mp h
        dsimp only at h
        split_ifs at h
        obtain ⟨q, hq, h⟩ := Except.bind_eq_ok.mp h
        have hvalue := ihValue _ _ _ _ hq
        split_ifs at h
        · obtain ⟨rfl, -⟩ := Prod.mk.inj (Except.ok.inj h)
          exact ⟨hvalue, trivial⟩
        · obtain ⟨r, hr, h⟩ := Except.bind_eq_ok.mp h
          obtain ⟨rfl, -⟩ := Prod.mk.inj (Except.ok.inj h)
          exact ⟨hvalue, ihMembers _ _ _ _ hr⟩
    · rw [readItems] at h
      obtain ⟨q, hq, h⟩ := Except.bind_eq_ok.mp h
      have hvalue := ihValue _ _ _ _ hq
      dsimp only at h
      split_ifs at h
      · obtain ⟨rfl, -⟩ := Prod.mk.inj (Except.ok.inj h)
        exact ⟨hvalue, trivial⟩
      · obtain ⟨r, hr, h⟩ := Except.bind_eq_ok.mp h
        obtain ⟨rfl, -⟩ := Prod.mk.inj (Except.ok.inj h)
        exact ⟨hvalue, ihItems _ _ _ _ hr⟩

theorem writtenMembers_insert {depth : ℕ} {k : Text} {v : Json} {ms : List (Text × Json)}
    (hv : Written depth v) (hms : WrittenMembers depth ms) : WrittenMembers depth (insert k v ms) := by
  induction ms with
  | nil => exact ⟨hv, trivial⟩
  | cons m ms ih =>
    rw [insert]
    split
    · exact ⟨hv, hms.2⟩
    · exact ⟨hms.1, ih hms.2⟩

theorem keepsWritten_lastWins : KeepsWritten lastWins := by
  intro depth items v h hdepth hitems
  obtain rfl := Except.ok.inj h
  suffices hassign : ∀ acc, (acc.map Prod.fst).Nodup → WrittenMembers (depth - 1) acc →
      ((assign acc items).map Prod.fst).Nodup ∧ WrittenMembers (depth - 1) (assign acc items) from
    ⟨hdepth, hassign [] (by simp) trivial⟩
  clear h
  induction items with
  | nil => exact fun acc hkeys hacc => ⟨hkeys, hacc⟩
  | cons m items ih =>
    intro acc hkeys hacc
    exact ih hitems.2 _ (nodup_insert hkeys _ _) (writtenMembers_insert hitems.1 hacc)

/-- A document that is read from text can be written. -/
theorem written_of_loadsText {cs : Text} {v : Json} (h : loadsText cs = .ok v) :
    Written recursionLimit v := by
  unfold loadsText at h
  split at h
  · cases h
  · rw [parse_eq_readDocument] at h
    obtain ⟨⟨w, rest⟩, hw, h⟩ := Except.bind_eq_ok.mp h
    dsimp only at h
    split_ifs at h
    obtain rfl := Except.ok.inj h
    exact (read_written keepsWritten_lastWins _).1 _ _ _ _ hw

/-! ## Sorted keys -/

theorem insertSorted_perm (m : Text × Json) (ms : List (Text × Json)) :
    (insertSorted m ms).Perm (m :: ms) := by
  induction ms with
  | nil => rfl
  | cons n ns ih =>
    rw [insertSorted]
    split
    · rfl
    · exact (ih.cons n).trans (.swap m n ns)

theorem find_insertSorted {k : Text} {m : Text × Json} {ms : List (Text × Json)}
    (hm : m.1 ∉ ms.map Prod.fst) : find k (insertSorted m ms) = find k (m :: ms) := by
  induction ms with
  | nil => rfl
  | cons n ns ih =>
    obtain ⟨i, v⟩ := m
    obtain ⟨j, u⟩ := n
    simp only [List.map_cons, List.mem_cons, not_or] at hm
    rw [insertSorted]
    split
    · rfl
    · rw [find, ih hm.2, find, find, find]
      by_cases hik : i = k <;> by_cases hjk : j = k
      · exact absurd (hik.trans hjk.symm) hm.1
      all_goals simp [hik, hjk]

theorem keys_sortMembers (ms : List (Text × Json)) :
    ((sortMembers ms).map Prod.fst).Perm (ms.map Prod.fst) := by
  induction ms with
  | nil => rfl
  | cons m ms ih =>
    obtain ⟨k, v⟩ := m
    rw [sortMembers]
    exact ((insertSorted_perm _ _).map Prod.fst).trans (ih.cons k)

/-- **Sorting keeps the members**, with their own keys sorted. -/
theorem find_sortMembers {ms : List (Text × Json)} (h : (ms.map Prod.fst).Nodup) (k : Text) :
    find k (sortMembers ms) = (find k ms).map sortKeys := by
  induction ms with
  | nil => rfl
  | cons m ms ih =>
    obtain ⟨k', v⟩ := m
    rw [List.map_cons, List.nodup_cons] at h
    have hfresh : k' ∉ (sortMembers ms).map Prod.fst :=
      fun hmem => h.1 ((keys_sortMembers ms).mem_iff.mp hmem)
    rw [sortMembers, find_insertSorted hfresh, find, find, ih h.2]
    split <;> rfl

theorem plainMembers_insertSorted {depth : ℕ} {m : Text × Json} {ms : List (Text × Json)}
    (hm : Plain depth m.2) (hms : PlainMembers depth ms) : PlainMembers depth (insertSorted m ms) := by
  induction ms with
  | nil => exact ⟨hm, trivial⟩
  | cons n ns ih =>
    rw [insertSorted]
    split
    · exact ⟨hm, hms⟩
    · exact ⟨hms.1, ih hms.2⟩

theorem plainMembers_insert {depth : ℕ} {ms : List (Text × Json)} (h : PlainMembers depth ms) (k : Text)
    {v : Json} (hv : Plain depth v) : PlainMembers depth (insert k v ms) := by
  induction ms with
  | nil => exact ⟨hv, trivial⟩
  | cons m ms ih =>
    obtain ⟨k', v'⟩ := m
    rw [insert]
    split
    · exact ⟨hv, h.2⟩
    · exact ⟨h.1, ih h.2⟩

/-- A number of ten digits has a spelling that Python converts. -/
theorem plain_nat (depth : ℕ) {n : ℕ} (h : n < 10 ^ 10) : Plain depth (.int n) :=
  lt_of_lt_of_le h (Nat.pow_le_pow_right (by decide) (by decide))

theorem plain_uint32 (depth : ℕ) (n : UInt32) : Plain depth (.int n.toNat) :=
  plain_nat depth (lt_trans n.toNat_lt (by decide))

mutual

theorem plain_sortKeys {depth : ℕ} : ∀ v, Plain depth v → Plain depth v.sortKeys
  | .null, hv | .bool _, hv | .int _, hv | .str _, hv => hv
  | .float _, hv => hv.elim
  | .arr xs, hv => ⟨hv.1, plainItems_sortItems xs hv.2⟩
  | .obj ms, hv =>
    ⟨hv.1, (keys_sortMembers ms).nodup_iff.mpr hv.2.1, plainMembers_sortMembers ms hv.2.2⟩

theorem plainItems_sortItems {depth : ℕ} : ∀ xs, PlainItems depth xs → PlainItems depth (sortItems xs)
  | [], _ => trivial
  | x :: xs, hv => ⟨plain_sortKeys x hv.1, plainItems_sortItems xs hv.2⟩

theorem plainMembers_sortMembers {depth : ℕ} :
    ∀ ms, PlainMembers depth ms → PlainMembers depth (sortMembers ms)
  | [], _ => trivial
  | (_, v) :: ms, hv =>
    plainMembers_insertSorted (plain_sortKeys v hv.1) (plainMembers_sortMembers ms hv.2)

end

/-- **A plain record reads back** with its keys sorted. -/
theorem loads_dumpsSorted {v : Json} (hv : Plain recursionLimit v) (indent : ℕ) :
    loads (Text.encode (dumpsSorted indent v ++ ['\n'])) = .ok v.sortKeys :=
  loads_render (plain_sortKeys v hv).written

/-! ## Dictionaries of strings -/

def dumpsEntries : List (Text × Text) → List Char
  | [] => []
  | (k, s) :: ms => renderString k ++ ':' :: renderString s ++
    (if ms = [] then [] else ',' :: dumpsEntries ms)

/-- `json.dumps(value, separators=(',', ':'))` of a dictionary of strings. -/
def dumpsStrings (ms : List (Text × Text)) : List Char := '{' :: dumpsEntries ms ++ ['}']

/-- The value of a dictionary of strings. -/
def ofStrings (ms : List (Text × Text)) : List (Text × Json) := ms.map fun m => (m.1, .str m.2)

theorem readMembers_dumpsEntries {hook : List (Text × Json) → Except Error Json} {fuel depth : ℕ}
    {rest : List Char} {ms : List (Text × Text)} (hne : ms ≠ [])
    (hf : (dumpsEntries ms).length < fuel) :
    readMembers hook fuel depth (dumpsEntries ms ++ '}' :: rest) = .ok (ofStrings ms, rest) := by
  induction ms generalizing fuel with
  | nil => contradiction
  | cons m ms ih =>
    obtain ⟨k, s⟩ := m
    have hk := length_renderString k
    have hs := length_renderString s
    simp only [dumpsEntries, List.length_append, List.length_cons] at hf
    obtain ⟨fuel, rfl⟩ : ∃ n, fuel = n + 1 + 1 := ⟨fuel - 2, by omega⟩
    have hvalue (tail : List Char) : readValue hook (fuel + 1) depth (renderString s ++ tail) =
        .ok (.str s, tail) := by
      simp only [renderString, List.cons_append, List.append_assoc, List.nil_append]
      rw [readValue, if_pos rfl, parseString_render s (by omega)]
      rfl
    have hskip (tail : List Char) : skipSpace (renderString s ++ tail) = renderString s ++ tail :=
      skipSpace_cons (by decide) _
    rw [dumpsEntries, renderString]
    simp only [List.cons_append, List.append_assoc, List.nil_append]
    rw [readMembers, if_pos rfl, parseString_render k (by omega)]
    simp only [bind, Except.bind, skipSpace_cons (c := ':') (by decide), List.head?_cons, if_true,
      List.tail_cons, hskip, hvalue]
    cases ms with
    | nil =>
      simp only [if_true, List.nil_append, skipSpace_cons (c := '}') (by decide), List.head?_cons,
        List.tail_cons, ofStrings, List.map_cons, List.map_nil]
      rfl
    | cons m' ms =>
      have hrest : skipSpace (dumpsEntries (m' :: ms) ++ '}' :: rest) =
          dumpsEntries (m' :: ms) ++ '}' :: rest := by
        rw [dumpsEntries, renderString]
        exact skipSpace_cons (by decide) _
      simp only [reduceCtorEq, if_false, List.cons_append, skipSpace_cons (c := ',') (by decide),
        List.head?_cons, List.tail_cons, Option.some.injEq, Char.reduceEq, if_true, hrest]
      simp only [reduceCtorEq, if_false, List.length_cons] at hf
      rw [ih (by simp) (by omega)]
      rfl

theorem sevenBit_dumpsEntries (ms : List (Text × Text)) : (dumpsEntries ms).all sevenBit := by
  have hcolon : sevenBit ':' := by decide
  have hcomma : sevenBit ',' := by decide
  induction ms with
  | nil => rfl
  | cons m ms ih =>
    obtain ⟨k, s⟩ := m
    rw [dumpsEntries]
    split <;> simp [List.all_append, sevenBit_renderString, hcolon, hcomma, ih]

/-- **A dictionary of strings reads back** through the hook. -/
theorem loadsHook_dumpsStrings {hook : List (Text × Json) → Except Error Json}
    {ms : List (Text × Text)} (hne : ms ≠ []) :
    loadsHook hook (Text.encode (dumpsStrings ms)) = hook (ofStrings ms) := by
  have hbits : (dumpsStrings ms).all sevenBit := by
    have hopen : sevenBit '{' := by decide
    have hclose : sevenBit '}' := by decide
    simp [dumpsStrings, List.all_append, sevenBit_dumpsEntries, hopen, hclose]
  obtain ⟨⟨k, s⟩, ms', rfl⟩ := List.exists_cons_of_ne_nil hne
  have hhead : ∃ cs, dumpsEntries ((k, s) :: ms') = '"' :: cs := ⟨_, rfl⟩
  have hskip (tail : List Char) : skipSpace (dumpsEntries ((k, s) :: ms') ++ tail) =
      dumpsEntries ((k, s) :: ms') ++ tail := by
    obtain ⟨cs, hcs⟩ := hhead
    rw [hcs]
    exact skipSpace_cons (by decide) _
  rw [loadsHook, decodeDetected_encode hbits]
  simp only [readDocument, dumpsStrings, List.cons_append, skipSpace_cons (c := '{') (by decide)]
  rw [readValue, if_neg (by decide), if_pos rfl, if_neg (by decide), hskip, if_neg ?_,
    readMembers_dumpsEntries hne ?_]
  · cases h : hook (ofStrings ((k, s) :: ms')) with
    | error e => simp [bind, Except.bind, h]
    | ok v =>
      simp only [bind, Except.bind, h]
      rfl
  · rw [List.length_cons, List.length_append]
    omega
  · obtain ⟨cs, hcs⟩ := hhead
    simp [hcs]

end Json
