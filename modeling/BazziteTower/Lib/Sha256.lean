import BazziteTower.Lib.Text

/-!
# SHA-256

The hash as a function on byte strings, with its digest in lower-case
hexadecimal.  Nothing is proved about its values: a result that needs two byte strings to
have different digests says so for these byte strings.
-/

namespace Sha256

/-- The round constants. -/
def constants : List ℕ :=
  [0x428a2f98, 0x71374491, 0xb5c0fbcf, 0xe9b5dba5, 0x3956c25b, 0x59f111f1, 0x923f82a4, 0xab1c5ed5,
   0xd807aa98, 0x12835b01, 0x243185be, 0x550c7dc3, 0x72be5d74, 0x80deb1fe, 0x9bdc06a7, 0xc19bf174,
   0xe49b69c1, 0xefbe4786, 0x0fc19dc6, 0x240ca1cc, 0x2de92c6f, 0x4a7484aa, 0x5cb0a9dc, 0x76f988da,
   0x983e5152, 0xa831c66d, 0xb00327c8, 0xbf597fc7, 0xc6e00bf3, 0xd5a79147, 0x06ca6351, 0x14292967,
   0x27b70a85, 0x2e1b2138, 0x4d2c6dfc, 0x53380d13, 0x650a7354, 0x766a0abb, 0x81c2c92e, 0x92722c85,
   0xa2bfe8a1, 0xa81a664b, 0xc24b8b70, 0xc76c51a3, 0xd192e819, 0xd6990624, 0xf40e3585, 0x106aa070,
   0x19a4c116, 0x1e376c08, 0x2748774c, 0x34b0bcb5, 0x391c0cb3, 0x4ed8aa4a, 0x5b9cca4f, 0x682e6ff3,
   0x748f82ee, 0x78a5636f, 0x84c87814, 0x8cc70208, 0x90befffa, 0xa4506ceb, 0xbef9a3f7, 0xc67178f2]

/-- The initial chaining value. -/
def initial : List ℕ :=
  [0x6a09e667, 0xbb67ae85, 0x3c6ef372, 0xa54ff53a, 0x510e527f, 0x9b05688c, 0x1f83d9ab, 0x5be0cd19]

/-- Rotation of a 32-bit word to the right. -/
def rotr (x n : ℕ) : ℕ := (x >>> n ||| x <<< (32 - n)) % 2 ^ 32

/-- The first `k` pieces of length `n`. -/
def pieces (n : ℕ) : ℕ → Bytes → List Bytes
  | 0, _ => []
  | k + 1, data => data.take n :: pieces n k (data.drop n)

/-- A big-endian number. -/
def number (data : Bytes) : ℕ := data.foldl (fun acc b => acc * 256 + b.toNat) 0

/-- The message, a one bit, zeros, and the length in bits. -/
def pad (data : Bytes) : Bytes :=
  data ++ ((0x80 : UInt8) :: List.replicate ((119 - data.length % 64) % 64) 0) ++
    (List.range 8).map fun i => UInt8.ofNat ((8 * data.length) >>> (8 * (7 - i)))

/-- Extend the message schedule; the latest word stands first. -/
def extend : ℕ → List ℕ → List ℕ
  | 0, words => words
  | k + 1, words =>
    let a := words.getD 14 0
    let b := words.getD 1 0
    let s0 := rotr a 7 ^^^ rotr a 18 ^^^ (a >>> 3)
    let s1 := rotr b 17 ^^^ rotr b 19 ^^^ (b >>> 10)
    extend k ((words.getD 15 0 + s0 + words.getD 6 0 + s1) % 2 ^ 32 :: words)

def schedule (block : Bytes) : List ℕ :=
  (extend 48 ((pieces 4 16 block).map number).reverse).reverse

/-- One round on the eight working variables. -/
def round (vars : List ℕ) (constant : ℕ × ℕ) : List ℕ :=
  match vars with
  | [a, b, c, d, e, f, g, h] =>
    let s1 := rotr e 6 ^^^ rotr e 11 ^^^ rotr e 25
    let ch := (e &&& f) ^^^ ((2 ^ 32 - 1 - e) &&& g)
    let t := h + s1 + ch + constant.1 + constant.2
    let s0 := rotr a 2 ^^^ rotr a 13 ^^^ rotr a 22
    let maj := (a &&& b) ^^^ (a &&& c) ^^^ (b &&& c)
    [(t + s0 + maj) % 2 ^ 32, a, b, c, (d + t) % 2 ^ 32, e, f, g]
  | _ => vars

def compress (vars : List ℕ) (block : Bytes) : List ℕ :=
  (vars.zip ((constants.zip (schedule block)).foldl round vars)).map
    fun p => (p.1 + p.2) % 2 ^ 32

/-- Eight hexadecimal digits. -/
def hexWord (x : ℕ) : List Char :=
  (List.range 8).map fun i => Nat.digitChar (x >>> (4 * (7 - i)) % 16)

end Sha256

/-- The SHA-256 digest of a byte string, as `hexdigest` spells it. -/
def sha256 (data : Bytes) : Text :=
  let padded := Sha256.pad data
  ((Sha256.pieces 64 (padded.length / 64) padded).foldl Sha256.compress
    Sha256.initial).flatMap Sha256.hexWord

example : sha256 [97, 98, 99] =
    "ba7816bf8f01cfea414140de5dae2223b00361a396177a9cb410ff61f20015ad".toList := by
  decide +kernel

/-- A digest is spelled in lowercase hexadecimal digits. -/
theorem mem_of_mem_sha256 {data : Bytes} {c : Char} (h : c ∈ sha256 data) :
    c ∈ (List.range 16).map Nat.digitChar := by
  obtain ⟨x, -, hx⟩ := List.mem_flatMap.mp h
  obtain ⟨i, -, rfl⟩ := List.mem_map.mp hx
  exact List.mem_map_of_mem (List.mem_range.mpr (Nat.mod_lt _ (by decide)))
