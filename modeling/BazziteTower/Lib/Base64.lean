import BazziteTower.Lib.Text

/-!
# Base64

The standard alphabet with padding, and the strict decoder: it accepts only groups
of four, the last of which may end in one or two padding characters.

## Main results

* `Base64.decode_encode` — what the encoder writes reads back.
-/

namespace Base64

/-- The 64 digits in order. -/
def alphabet : List Char :=
  "ABCDEFGHIJKLMNOPQRSTUVWXYZabcdefghijklmnopqrstuvwxyz0123456789+/".toList

def digit (n : ℕ) : Char := alphabet.getD n '='

def value (c : Char) : Option ℕ := alphabet.idxOf? c

/-- Encode three bytes at a time; a shorter last group is padded. -/
def encode : Bytes → List Char
  | [] => []
  | [a] => [digit (a.toNat / 4), digit (a.toNat % 4 * 16), '=', '=']
  | [a, b] =>
    [digit (a.toNat / 4), digit (a.toNat % 4 * 16 + b.toNat / 16), digit (b.toNat % 16 * 4), '=']
  | a :: b :: c :: rest =>
    digit (a.toNat / 4) :: digit (a.toNat % 4 * 16 + b.toNat / 16) ::
      digit (b.toNat % 16 * 4 + c.toNat / 64) :: digit (c.toNat % 64) :: encode rest

/-- Decode strictly: nothing outside the alphabet, and padding only at the end. -/
def decode : List Char → Option Bytes
  | [] => some []
  | a :: b :: c :: d :: rest =>
    match value a, value b, value c, value d with
    | some x, some y, some z, some t =>
      (decode rest).map fun bytes => UInt8.ofNat (x * 4 + y / 16) ::
        UInt8.ofNat (y % 16 * 16 + z / 4) :: UInt8.ofNat (z % 4 * 64 + t) :: bytes
    | some x, some y, some z, none =>
      if d = '=' ∧ rest = [] then
        some [UInt8.ofNat (x * 4 + y / 16), UInt8.ofNat (y % 16 * 16 + z / 4)]
      else none
    | some x, some y, none, _ =>
      if c = '=' ∧ d = '=' ∧ rest = [] then some [UInt8.ofNat (x * 4 + y / 16)] else none
    | _, _, _, _ => none
  | _ => none

theorem value_digit {n : ℕ} (hn : n < 64) : value (digit n) = some n := by
  have h : ∀ m : Fin 64, value (digit m) = some m.val := by decide +kernel
  exact h ⟨n, hn⟩

@[simp] theorem value_pad : value '=' = none := by decide

private theorem ofNat_eq {n : ℕ} {a : UInt8} (h : n = a.toNat) : UInt8.ofNat n = a := by
  subst h
  exact UInt8.ofNat_toNat

/-- **Base64 reads back.** -/
theorem decode_encode (data : Bytes) : decode (encode data) = some data := by
  induction data using encode.induct with
  | case1 => rfl
  | case2 a =>
    have ha := a.toNat_lt
    simp only [encode, decode, value_digit (show a.toNat / 4 < 64 by omega),
      value_digit (show a.toNat % 4 * 16 < 64 by omega), value_pad]
    simp only [and_self, if_true, Option.some.injEq, List.cons.injEq, and_true]
    exact ofNat_eq (by omega)
  | case3 a b =>
    have ha := a.toNat_lt
    have hb := b.toNat_lt
    simp only [encode, decode, value_digit (show a.toNat / 4 < 64 by omega),
      value_digit (show a.toNat % 4 * 16 + b.toNat / 16 < 64 by omega),
      value_digit (show b.toNat % 16 * 4 < 64 by omega), value_pad]
    simp only [and_self, if_true, Option.some.injEq, List.cons.injEq, and_true]
    exact ⟨ofNat_eq (by omega), ofNat_eq (by omega)⟩
  | case4 a b c rest ih =>
    have ha := a.toNat_lt
    have hb := b.toNat_lt
    have hc := c.toNat_lt
    simp only [encode, decode, value_digit (show a.toNat / 4 < 64 by omega),
      value_digit (show a.toNat % 4 * 16 + b.toNat / 16 < 64 by omega),
      value_digit (show b.toNat % 16 * 4 + c.toNat / 64 < 64 by omega),
      value_digit (show c.toNat % 64 < 64 by omega), ih, Option.map_some, Option.some.injEq,
      List.cons.injEq, and_true]
    exact ⟨ofNat_eq (by omega), ofNat_eq (by omega), ofNat_eq (by omega)⟩

end Base64
