import Mathlib

/-!
# Bytes and text

Byte strings, and the decoders that a reader of byte strings needs: UTF-8 as a
machine that owes a number of continuation bytes, UTF-16 and UTF-32 in both byte
orders.  A `Char` is a Unicode scalar value, so a surrogate code point that a
lenient decoder lets through becomes U+FFFD.
-/

/-- A byte string. -/
abbrev Bytes := List UInt8

/-- A text, as the list of its characters. -/
abbrev Text := List Char

instance Text.instLawfulBEq : LawfulBEq Text := inferInstance

theorem Except.bind_eq_ok {ε α β : Type} {x : Except ε α} {f : α → Except ε β} {b : β} :
    x >>= f = .ok b ↔ ∃ a, x = .ok a ∧ f a = .ok b := by
  cases x <;> simp [bind, Except.bind]

theorem Except.exists_of_mem_mapM {ε α β : Type} {f : α → Except ε β} {xs : List α} {ys : List β}
    (h : xs.mapM f = .ok ys) {y : β} (hy : y ∈ ys) : ∃ x ∈ xs, f x = .ok y := by
  induction xs generalizing ys with
  | nil =>
    obtain rfl : [] = ys := Except.ok.inj h
    cases hy
  | cons x xs ih =>
    rw [List.mapM_cons, Except.bind_eq_ok] at h
    obtain ⟨z, hz, h⟩ := h
    obtain ⟨zs, hzs, h⟩ := Except.bind_eq_ok.mp h
    obtain rfl : z :: zs = ys := Except.ok.inj h
    rcases List.mem_cons.mp hy with rfl | hy
    · exact ⟨x, List.mem_cons_self .., hz⟩
    · obtain ⟨x', hx', hf⟩ := ih hzs hy
      exact ⟨x', List.mem_cons_of_mem _ hx', hf⟩

theorem Except.forM_eq_ok {ε α : Type} {f : α → Except ε Unit} {xs : List α} {u : Unit} :
    forM xs f = .ok u ↔ ∀ x ∈ xs, f x = .ok () := by
  induction xs with
  | nil => simp [pure, Except.pure]
  | cons x xs ih =>
    simp only [List.forM_cons, Except.bind_eq_ok, List.forall_mem_cons, ih]
    exact ⟨fun ⟨_, hx, hxs⟩ => ⟨hx, hxs⟩, fun ⟨hx, hxs⟩ => ⟨(), hx, hxs⟩⟩

namespace Text

/-- Whether a number is a surrogate code point. -/
def isSurrogate (n : ℕ) : Bool := 0xD800 ≤ n && n < 0xE000

/-- The character of a decoded code point; `lone` admits a surrogate. -/
def scalar (lone : Bool) (n : ℕ) : Option Char :=
  if isSurrogate n then if lone then some '\uFFFD' else none
  else if n < 0x110000 then some (Char.ofNat n) else none

/-- UTF-8, byte by byte: `need` continuation bytes are owed, `acc` holds the bits
read so far, and a code point below `low` is an overlong spelling. -/
def decodeUtf8From (lone : Bool) (need acc low : ℕ) : Bytes → Option (List Char)
  | [] => if need = 0 then some [] else none
  | b :: bs =>
    let n := b.toNat
    if need = 0 then
      if n < 0x80 then (decodeUtf8From lone 0 0 0 bs).map (Char.ofNat n :: ·)
      else if 0xC2 ≤ n ∧ n < 0xE0 then decodeUtf8From lone 1 (n - 0xC0) 0x80 bs
      else if 0xE0 ≤ n ∧ n < 0xF0 then decodeUtf8From lone 2 (n - 0xE0) 0x800 bs
      else if 0xF0 ≤ n ∧ n < 0xF5 then decodeUtf8From lone 3 (n - 0xF0) 0x10000 bs
      else none
    else if 0x80 ≤ n ∧ n < 0xC0 then
      let acc := acc * 64 + (n - 0x80)
      if need = 1 then
        if acc < low then none
        else (scalar lone acc).bind fun c => (decodeUtf8From lone 0 0 0 bs).map (c :: ·)
      else decodeUtf8From lone (need - 1) acc low bs
    else none

/-- Decode UTF-8; `lone` admits surrogates, as the `surrogatepass` handler does. -/
def decodeUtf8 (lone : Bool) (data : Bytes) : Option (List Char) :=
  decodeUtf8From lone 0 0 0 data

/-- Pair up bytes into 16-bit units. -/
def units16 (big : Bool) : Bytes → Option (List ℕ)
  | [] => some []
  | [_] => none
  | a :: b :: rest => (units16 big rest).map fun us =>
      (if big then a.toNat * 256 + b.toNat else b.toNat * 256 + a.toNat) :: us

/-- UTF-16 units to characters; a lone surrogate is let through. -/
def decodeUnits16 : List ℕ → List Char
  | [] => []
  | [u] => (scalar true u).toList
  | u :: v :: rest =>
    if 0xD800 ≤ u ∧ u < 0xDC00 ∧ 0xDC00 ≤ v ∧ v < 0xE000 then
      Char.ofNat (0x10000 + (u - 0xD800) * 1024 + (v - 0xDC00)) :: decodeUnits16 rest
    else (scalar true u).toList ++ decodeUnits16 (v :: rest)

def decodeUtf16 (big : Bool) (data : Bytes) : Option (List Char) :=
  (units16 big data).map decodeUnits16

/-- UTF-32, four bytes at a time. -/
def decodeUtf32 (big : Bool) : Bytes → Option (List Char)
  | [] => some []
  | a :: b :: c :: d :: rest =>
    let n := if big then ((a.toNat * 256 + b.toNat) * 256 + c.toNat) * 256 + d.toNat
      else ((d.toNat * 256 + c.toNat) * 256 + b.toNat) * 256 + a.toNat
    (scalar true n).bind fun x => (decodeUtf32 big rest).map (x :: ·)
  | _ => none

/-- Encode as UTF-8. -/
def encode (cs : List Char) : Bytes := cs.flatMap String.utf8EncodeChar

theorem utf8EncodeChar_of_lt {c : Char} (hc : c.toNat < 0x80) :
    String.utf8EncodeChar c = [UInt8.ofNat c.toNat] := by
  refine String.utf8EncodeChar_eq_singleton ?_
  have : c.val ≤ 0x7F := by
    rw [UInt32.le_iff_toNat_le]
    exact Nat.lt_succ_iff.mp hc
  simp [Char.utf8Size, this]

/-- A continuation byte carries six bits. -/
theorem decodeUtf8From_continuation {lone : Bool} {need acc low n : ℕ} {bs : Bytes}
    (hneed : need ≠ 0) (hn : n < 64) :
    decodeUtf8From lone need acc low (UInt8.ofNat (n + 0x80) :: bs) =
      if need = 1 then
        if acc * 64 + n < low then none
        else (scalar lone (acc * 64 + n)).bind fun c =>
          (decodeUtf8From lone 0 0 0 bs).map (c :: ·)
      else decodeUtf8From lone (need - 1) (acc * 64 + n) low bs := by
  have hbyte : (UInt8.ofNat (n + 0x80)).toNat = n + 0x80 := by
    rw [UInt8.toNat_ofNat']
    omega
  rw [decodeUtf8From]
  simp only [hbyte, if_neg hneed, Nat.add_sub_cancel]
  rw [if_pos (by omega)]

/-- A character is the scalar value of its number. -/
theorem scalar_toNat (lone : Bool) (c : Char) : scalar lone c.toNat = some c := by
  have hvalid : c.toNat < 0xD800 ∨ 0xDFFF < c.toNat ∧ c.toNat < 0x110000 := c.valid
  have hsurrogate : isSurrogate c.toNat = false := by
    simp only [isSurrogate, Bool.and_eq_false_iff, decide_eq_false_iff_not]
    omega
  rw [scalar, hsurrogate, if_neg (by simp), if_pos (by omega), Char.ofNat_toNat]

theorem decodeUtf8From_encodeChar (lone : Bool) (c : Char) (bs : Bytes) :
    decodeUtf8From lone 0 0 0 (String.utf8EncodeChar c ++ bs) =
      (decodeUtf8From lone 0 0 0 bs).map (c :: ·) := by
  have hscalar := scalar_toNat lone c
  have hlt : c.toNat < 0x110000 := by
    have : c.toNat < 0xD800 ∨ 0xDFFF < c.toNat ∧ c.toNat < 0x110000 := c.valid
    omega
  have hval : c.val.toNat = c.toNat := rfl
  simp only [String.utf8EncodeChar, hval]
  split_ifs with h1 h2 h3
  · have hbyte : (UInt8.ofNat c.toNat).toNat = c.toNat := by
      rw [UInt8.toNat_ofNat']
      omega
    rw [List.singleton_append, decodeUtf8From]
    simp only [hbyte, if_pos, Char.ofNat_toNat]
    rw [if_pos (by omega)]
  · have hbyte : (UInt8.ofNat (c.toNat / 64 % 32 + 0xC0)).toNat = c.toNat / 64 + 0xC0 := by
      rw [UInt8.toNat_ofNat']
      omega
    have hacc : c.toNat / 64 * 64 + c.toNat % 64 = c.toNat := by omega
    rw [List.cons_append, decodeUtf8From]
    simp only [hbyte, if_pos]
    rw [if_neg (by omega), if_pos (by omega), Nat.add_sub_cancel, List.cons_append,
      decodeUtf8From_continuation (by omega) (by omega), if_pos rfl, hacc, if_neg (by omega),
      hscalar]
    rfl
  · have hbyte : (UInt8.ofNat (c.toNat / 4096 % 16 + 0xE0)).toNat = c.toNat / 4096 + 0xE0 := by
      rw [UInt8.toNat_ofNat']
      omega
    have hacc : (c.toNat / 4096 * 64 + c.toNat / 64 % 64) * 64 + c.toNat % 64 = c.toNat := by omega
    rw [List.cons_append, decodeUtf8From]
    simp only [hbyte, if_pos]
    rw [if_neg (by omega), if_neg (by omega), if_pos (by omega), Nat.add_sub_cancel,
      List.cons_append, decodeUtf8From_continuation (by omega) (by omega), if_neg (by omega),
      List.cons_append, decodeUtf8From_continuation (by omega) (by omega), if_pos rfl, hacc,
      if_neg (by omega), hscalar]
    rfl
  · have hbyte : (UInt8.ofNat (c.toNat / 262144 % 8 + 0xF0)).toNat = c.toNat / 262144 + 0xF0 := by
      rw [UInt8.toNat_ofNat']
      omega
    have hacc : ((c.toNat / 262144 * 64 + c.toNat / 4096 % 64) * 64 + c.toNat / 64 % 64) * 64 +
        c.toNat % 64 = c.toNat := by omega
    rw [List.cons_append, decodeUtf8From]
    simp only [hbyte, if_pos]
    rw [if_neg (by omega), if_neg (by omega), if_neg (by omega), if_pos (by omega),
      Nat.add_sub_cancel, List.cons_append, decodeUtf8From_continuation (by omega) (by omega),
      if_neg (by omega), List.cons_append, decodeUtf8From_continuation (by omega) (by omega),
      if_neg (by omega), List.cons_append, decodeUtf8From_continuation (by omega) (by omega),
      if_pos rfl, hacc, if_neg (by omega), hscalar]
    rfl

/-- Every text reads back from its bytes. -/
theorem decodeUtf8_encode (lone : Bool) (cs : Text) : decodeUtf8 lone (encode cs) = some cs := by
  induction cs with
  | nil => rfl
  | cons c cs ih =>
    rw [decodeUtf8] at ih ⊢
    rw [encode, List.flatMap_cons, decodeUtf8From_encodeChar]
    rw [encode] at ih
    rw [ih, Option.map_some]

theorem encode_injective : Function.Injective encode := by
  intro cs cs' h
  have hdecode := congrArg (decodeUtf8 false) h
  rw [decodeUtf8_encode, decodeUtf8_encode] at hdecode
  exact Option.some.inj hdecode

end Text
