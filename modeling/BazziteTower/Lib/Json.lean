import BazziteTower.Lib.Text
import Mathlib.Data.Int.Basic

/-!
# JSON as Python reads and writes it

`Json` is the value a Python program sees after `json.loads`: an object keeps its
keys in insertion order and the last of equal keys wins, integers and floats are
different, and a float is kept as it was spelled.  `loads` is the decoder for
byte strings, which detects the encoding and bounds the nesting; `render` is the
encoder `dumps`, with an indentation or on one line.

## Main definitions

* `Json`, `Json.pyEq` — values, and Python's `==` on them.
* `Json.parse`, `Json.loads`, `Json.loadsText` — decoding.
* `Json.render`, `Json.sortKeys`, `Json.dumps` — encoding.
-/

/-- A value that Python's `json` module reads or writes. -/
inductive Json
  | null
  | bool (b : Bool)
  | int (n : ℤ)
  /-- A number with a fraction or an exponent, or a constant such as `NaN`, as spelled. -/
  | float (spelling : Text)
  | str (s : Text)
  | arr (items : List Json)
  | obj (members : List (Text × Json))
  deriving Inhabited

namespace Json

/-- How decoding fails: `ValueError`, or `RecursionError` on too deep a nesting. -/
inductive Error
  | value
  | recursion
  deriving DecidableEq, Repr

/-! ## Objects -/

/-- The value of a key. -/
def find (key : Text) : List (Text × Json) → Option Json
  | [] => none
  | (k, v) :: rest => if k = key then some v else find key rest

/-- Assign to a key: in place if it is there, at the end otherwise. -/
def insert (key : Text) (value : Json) : List (Text × Json) → List (Text × Json)
  | [] => [(key, value)]
  | (k, v) :: rest => if k = key then (k, value) :: rest else (k, v) :: insert key value rest

@[simp] theorem find_insert_self (key : Text) (value : Json) (ms : List (Text × Json)) :
    find key (insert key value ms) = some value := by
  induction ms with
  | nil => simp [insert, find]
  | cons m ms ih =>
    obtain ⟨k, v⟩ := m
    by_cases h : k = key <;> simp [insert, find, h, ih]

@[simp] theorem find_insert_ne {key key' : Text} (h : key' ≠ key) (value : Json)
    (ms : List (Text × Json)) : find key' (insert key value ms) = find key' ms := by
  induction ms with
  | nil => simp [insert, find, Ne.symm h]
  | cons m ms ih =>
    obtain ⟨k, v⟩ := m
    by_cases hk : k = key
    · simp [insert, find, hk, Ne.symm h]
    · simp [insert, find, hk, ih]

theorem keys_insert (k : Text) (v : Json) (ms : List (Text × Json)) :
    (insert k v ms).map Prod.fst =
      if k ∈ ms.map Prod.fst then ms.map Prod.fst else ms.map Prod.fst ++ [k] := by
  induction ms with
  | nil => rfl
  | cons m ms ih =>
    obtain ⟨k', v'⟩ := m
    by_cases h : k' = k
    · simp [insert, h]
    · rw [insert, if_neg h, List.map_cons, ih]
      by_cases hk : k ∈ ms.map Prod.fst
      · simp only [List.map_cons, List.mem_cons, hk, or_true, if_true]
      · simp only [List.map_cons, List.mem_cons, hk, or_false, Ne.symm h, if_false,
          List.cons_append]

theorem insert_of_not_mem {k : Text} {ms : List (Text × Json)} (h : k ∉ ms.map Prod.fst) (v : Json) :
    insert k v ms = ms ++ [(k, v)] := by
  induction ms with
  | nil => rfl
  | cons m ms ih =>
    obtain ⟨k', v'⟩ := m
    simp only [List.map_cons, List.mem_cons, not_or] at h
    rw [insert, if_neg (Ne.symm h.1), ih h.2, List.cons_append]

theorem nodup_insert {ms : List (Text × Json)} (h : (ms.map Prod.fst).Nodup) (k : Text) (v : Json) :
    ((insert k v ms).map Prod.fst).Nodup := by
  rw [keys_insert]
  split
  · exact h
  · rename_i hk
    refine List.nodup_append.mpr ⟨h, by simp, fun a ha b hb => ?_⟩
    rw [List.mem_singleton.mp hb]
    rintro rfl
    exact hk ha

theorem find_eq_some_of_mem {ms : List (Text × Json)} (hms : (ms.map Prod.fst).Nodup) {m : Text × Json}
    (hm : m ∈ ms) : find m.1 ms = some m.2 := by
  induction ms with
  | nil => cases hm
  | cons n ms ih =>
    rw [List.map_cons, List.nodup_cons] at hms
    rcases List.mem_cons.mp hm with rfl | hm
    · simp [find]
    · have hne : n.1 ≠ m.1 := fun he => hms.1 (he ▸ List.mem_map_of_mem hm)
      rw [find, if_neg hne, ih hms.2 hm]

theorem mem_of_find {ms : List (Text × Json)} {k : Text} {v : Json} (h : find k ms = some v) :
    (k, v) ∈ ms := by
  induction ms with
  | nil => cases h
  | cons m ms ih =>
    rw [find] at h
    split at h
    · rename_i hk
      obtain rfl := Option.some.inj h
      exact hk ▸ List.mem_cons_self ..
    · exact List.mem_cons_of_mem _ (ih h)

/-! ## Equality -/

/-- The value of a number: exactly a decimal, an infinity, or not a number. -/
inductive Number
  | decimal (mantissa exponent : ℤ)
  | infinity (negative : Bool)
  | nan

/-- The value of the spelling of a float. -/
def floatNumber (spelling : List Char) : Number :=
  if spelling = "NaN".toList then .nan
  else if spelling = "Infinity".toList then .infinity false
  else if spelling = "-Infinity".toList then .infinity true
  else
    let negative := spelling.head? = some '-'
    let body := if negative then spelling.tail else spelling
    let whole := body.takeWhile Char.isDigit
    let rest := body.drop whole.length
    let fraction := if rest.head? = some '.' then rest.tail.takeWhile Char.isDigit else []
    let tail := if rest.head? = some '.' then rest.drop (fraction.length + 1) else rest
    let sign := tail.tail.head? = some '-'
    let exponent : ℤ := Nat.ofDigitChars 10 (tail.tail.filter Char.isDigit) 0
    let mantissa : ℤ := Nat.ofDigitChars 10 (whole ++ fraction) 0
    .decimal (if negative then -mantissa else mantissa)
      ((if sign then -exponent else exponent) - fraction.length)

/-- The number a value stands for in a comparison; `True` is 1 and `False` is 0. -/
def number : Json → Option Number
  | .bool b => some (.decimal (if b then 1 else 0) 0)
  | .int n => some (.decimal n 0)
  | .float s => some (floatNumber s)
  | _ => none

/-- Equality of numbers by value; `NaN` equals nothing. -/
def Number.eq : Number → Number → Bool
  | .decimal m e, .decimal m' e' =>
    m * 10 ^ (e - min e e').toNat == m' * 10 ^ (e' - min e e').toNat
  | .infinity b, .infinity b' => b == b'
  | _, _ => false

/-- `NaN`, which the decoder makes the same object wherever it stands. -/
def isNan : Json → Bool
  | .float s => s = "NaN".toList
  | _ => false

mutual

/-- Python's `==`: numbers by value, objects as unordered maps.  What containers hold is
compared by identity first. -/
def pyEq : Json → Json → Bool
  | .null, .null => true
  | .str s, .str s' => s == s'
  | .arr xs, .arr ys => pyEqItems xs ys
  | .obj ms, .obj ns => ms.length == ns.length && pyEqMembers ms ns
  | x, y =>
    match number x, number y with
    | some a, some b => a.eq b
    | _, _ => false

def pyEqItems : List Json → List Json → Bool
  | [], [] => true
  | x :: xs, y :: ys => (isNan x && isNan y || pyEq x y) && pyEqItems xs ys
  | _, _ => false

/-- Every member of the first object is a member of the second. -/
def pyEqMembers : List (Text × Json) → List (Text × Json) → Bool
  | [], _ => true
  | (k, v) :: ms, ns =>
    (match find k ns with
    | some v' => isNan v && isNan v' || pyEq v v'
    | none => false) && pyEqMembers ms ns

end

/-- Equality of what two containers hold. -/
def pySame (v w : Json) : Bool := isNan v && isNan w || pyEq v w

/-! ## Equality of decoded values -/

theorem pyEqMembers_find {ms ns : List (Text × Json)} (h : pyEqMembers ms ns) {k : Text} {v : Json}
    (hk : find k ms = some v) : ∃ v', find k ns = some v' ∧ v.pySame v' := by
  induction ms with
  | nil => simp [find] at hk
  | cons m ms ih =>
    obtain ⟨k', v'⟩ := m
    simp only [pyEqMembers, Bool.and_eq_true] at h
    by_cases hkk : k' = k
    · subst hkk
      simp only [find, if_true, Option.some.injEq] at hk
      subst hk
      cases hns : find k' ns with
      | none => simp [hns] at h
      | some v'' => exact ⟨v'', rfl, by simpa [hns, pySame] using h.1⟩
    · exact ih h.2 (by simpa [find, hkk] using hk)

theorem pyEq_str {s : Text} {v : Json} : (Json.str s).pyEq v ↔ v = .str s := by
  cases v with
  | str s' =>
    rw [pyEq, beq_iff_eq, str.injEq]
    exact eq_comm
  | _ => simp [pyEq, number]

theorem pyEq_of_str {s : Text} {v : Json} : v.pyEq (.str s) ↔ v = .str s := by
  cases v with
  | str s' => rw [pyEq, beq_iff_eq, str.injEq]
  | _ => simp [pyEq, number]

@[simp] theorem str_pySame {s : Text} {v : Json} : (Json.str s).pySame v = (Json.str s).pyEq v := by
  simp [pySame, isNan]

@[simp] theorem pySame_str {s : Text} {v : Json} : v.pySame (.str s) = v.pyEq (.str s) := by
  simp [pySame, isNan]

@[simp] theorem pySame_obj {v : Json} {ns : List (Text × Json)} : v.pySame (.obj ns) = v.pyEq (.obj ns) := by
  simp [pySame, isNan]

theorem pyEq_obj {ms : List (Text × Json)} {v : Json} (h : (Json.obj ms).pyEq v) :
    ∃ ns, v = .obj ns ∧ pyEqMembers ms ns := by
  cases v with
  | obj ns =>
    rw [pyEq, Bool.and_eq_true] at h
    exact ⟨ns, rfl, h.2⟩
  | _ => simp [pyEq, number] at h

/-- A value of strings, arrays and objects. -/
inductive Textual : Json → Prop
  | str (s : Text) : Textual (.str s)
  | arr {xs : List Json} (h : ∀ x ∈ xs, Textual x) : Textual (.arr xs)
  | obj {ms : List (Text × Json)} (h : ∀ m ∈ ms, Textual m.2) : Textual (.obj ms)

theorem pySame_textual {v w : Json} (hw : Textual w) : v.pySame w = v.pyEq w := by
  cases hw <;> simp [pySame, isNan]

theorem pyEq_arr {v : Json} {ys : List Json} (h : v.pyEq (.arr ys)) :
    ∃ xs, v = .arr xs ∧ pyEqItems xs ys := by
  cases v with
  | arr xs => exact ⟨xs, rfl, by rwa [pyEq] at h⟩
  | _ => simp [pyEq, number] at h

theorem pyEq_obj_right {v : Json} {ns : List (Text × Json)} (h : v.pyEq (.obj ns)) :
    ∃ ms, v = .obj ms ∧ ms.length = ns.length ∧ pyEqMembers ms ns := by
  cases v with
  | obj ms =>
    rw [pyEq, Bool.and_eq_true, beq_iff_eq] at h
    exact ⟨ms, rfl, h⟩
  | _ => simp [pyEq, number] at h

theorem pyEqMembers_iff {ms ns : List (Text × Json)} :
    pyEqMembers ms ns ↔ ∀ m ∈ ms, ∃ w, find m.1 ns = some w ∧ m.2.pySame w := by
  induction ms with
  | nil => simp [pyEqMembers]
  | cons m ms ih =>
    obtain ⟨k, v⟩ := m
    rw [pyEqMembers, Bool.and_eq_true, ih, List.forall_mem_cons]
    refine and_congr_left fun _ => ?_
    cases find k ns with
    | none => simp
    | some w => simp [pySame]

/-- What is the same as something that equals a value of strings equals it. -/
theorem Textual.pyEq_of_pySame {a b c : Json} (hc : Textual c) (hbc : b.pyEq c)
    (hab : a.pySame b) : a.pyEq b := by
  have hb : isNan b = false := by
    cases hc with
    | str s => rw [pyEq_of_str.mp hbc]; rfl
    | arr _ => obtain ⟨ys, rfl, -⟩ := pyEq_arr hbc; rfl
    | obj _ => obtain ⟨ms, rfl, -⟩ := pyEq_obj_right hbc; rfl
  simpa [pySame, hb] using hab

/-- What equals something equal to a value of strings equals that value. -/
theorem Textual.pyEq_trans {c : Json} (hc : Textual c) :
    ∀ {a b : Json}, a.pyEq b → b.pyEq c → a.pyEq c := by
  induction hc with
  | str s =>
    intro a b hab hbc
    rwa [pyEq_of_str.mp hbc] at hab
  | @arr zs hzs ih =>
    intro a b hab hbc
    obtain ⟨ys, rfl, hys⟩ := pyEq_arr hbc
    obtain ⟨xs, rfl, hxs⟩ := pyEq_arr hab
    clear hab hbc
    rw [pyEq]
    induction zs generalizing xs ys with
    | nil =>
      cases ys with
      | nil => exact hxs
      | cons y ys => simp [pyEqItems] at hys
    | cons z zs ihzs =>
      cases ys with
      | nil => simp [pyEqItems] at hys
      | cons y ys =>
        cases xs with
        | nil => simp [pyEqItems] at hxs
        | cons x xs =>
          have hz := hzs z (by simp)
          rw [pyEqItems, Bool.and_eq_true] at hxs hys ⊢
          have hyz : y.pyEq z := by
            rw [← pySame_textual hz]
            exact hys.1
          have hxz : x.pyEq z := ih z (by simp) (hz.pyEq_of_pySame hyz hxs.1) hyz
          refine ⟨by rw [hxz, Bool.or_true], ?_⟩
          exact ihzs (fun w hw => hzs w (List.mem_cons_of_mem z hw))
            (fun w hw => ih w (List.mem_cons_of_mem z hw)) ys hys.2 xs hxs.2
  | @obj ns hns ih =>
    intro a b hab hbc
    obtain ⟨ms, rfl, hlength, hbc⟩ := pyEq_obj_right hbc
    obtain ⟨ls, rfl, hlength', hab⟩ := pyEq_obj_right hab
    rw [pyEqMembers_iff] at hab hbc
    rw [pyEq, Bool.and_eq_true, beq_iff_eq, pyEqMembers_iff]
    refine ⟨hlength'.trans hlength, fun m hm => ?_⟩
    obtain ⟨w, hw, hmw⟩ := hab m hm
    obtain ⟨x, hx, hwx⟩ := hbc _ (mem_of_find hw)
    have htextual := hns _ (mem_of_find hx)
    rw [pySame_textual htextual] at hwx
    refine ⟨x, hx, ?_⟩
    rw [pySame_textual htextual]
    exact ih _ (mem_of_find hx) (htextual.pyEq_of_pySame hwx hmw) hwx

/-! ## Decoding -/

def isSpace (c : Char) : Bool := c = ' ' || c = '\t' || c = '\n' || c = '\r'

def skipSpace (cs : List Char) : List Char := cs.dropWhile isSpace

def hexValue (c : Char) : Option ℕ :=
  if '0' ≤ c ∧ c ≤ '9' then some (c.toNat - 48)
  else if 'a' ≤ c ∧ c ≤ 'f' then some (c.toNat - 87)
  else if 'A' ≤ c ∧ c ≤ 'F' then some (c.toNat - 55)
  else none

/-- Four hexadecimal digits and what follows them. -/
def readHex4 : List Char → Option (ℕ × List Char)
  | a :: b :: c :: d :: rest =>
    match hexValue a, hexValue b, hexValue c, hexValue d with
    | some x, some y, some z, some t => some (((x * 16 + y) * 16 + z) * 16 + t, rest)
    | _, _, _, _ => none
  | _ => none

/-- The character that a decoded code unit stands for by itself. -/
def unitChar (n : ℕ) : Char := (Text.scalar true n).getD '\uFFFD'

/-- A `\u` escape after the `u`; a high surrogate is joined with the low surrogate
of an escape right behind it. -/
def readUnicode (cs : List Char) : Except Error (Char × List Char) :=
  match readHex4 cs with
  | none => .error .value
  | some (n, rest) =>
    if 0xD800 ≤ n ∧ n < 0xDC00 ∧ rest.take 2 = ['\\', 'u'] then
      match readHex4 (rest.drop 2) with
      | none => .error .value
      | some (m, rest') =>
        if 0xDC00 ≤ m ∧ m < 0xE000 then
          .ok (Char.ofNat (0x10000 + (n - 0xD800) * 1024 + (m - 0xDC00)), rest')
        else .ok (unitChar n, rest)
    else .ok (unitChar n, rest)

/-- The escape after a backslash. -/
def readEscape : List Char → Except Error (Char × List Char)
  | [] => .error .value
  | c :: cs =>
    if c = 'u' then readUnicode cs
    else if c = '"' ∨ c = '\\' ∨ c = '/' then .ok (c, cs)
    else if c = 'b' then .ok ('\x08', cs)
    else if c = 'f' then .ok ('\x0c', cs)
    else if c = 'n' then .ok ('\n', cs)
    else if c = 'r' then .ok ('\r', cs)
    else if c = 't' then .ok ('\t', cs)
    else .error .value

/-- A string after its opening quote; a bare control character is refused. -/
def parseString : ℕ → List Char → Except Error (List Char × List Char)
  | 0, _ => .error .value
  | _ + 1, [] => .error .value
  | fuel + 1, c :: cs =>
    if c = '"' then .ok ([], cs)
    else if c = '\\' then do
      let (x, cs) ← readEscape cs
      let (s, cs) ← parseString fuel cs
      return (x :: s, cs)
    else if c.toNat < 0x20 then .error .value
    else do
      let (s, cs) ← parseString fuel cs
      return (c :: s, cs)

/-- A decimal point and at least one digit, or nothing. -/
def readFraction (cs : List Char) : List Char :=
  if cs.head? = some '.' ∧ cs.tail.takeWhile Char.isDigit ≠ [] then
    '.' :: cs.tail.takeWhile Char.isDigit
  else []

/-- An exponent with at least one digit, or nothing. -/
def readExponent (cs : List Char) : List Char :=
  if cs.head? = some 'e' ∨ cs.head? = some 'E' then
    let sign := if cs.tail.head? = some '+' ∨ cs.tail.head? = some '-' then cs.tail.take 1 else []
    let digits := (cs.tail.drop sign.length).takeWhile Char.isDigit
    if digits = [] then [] else cs.take 1 ++ sign ++ digits
  else []

/-- How many digits Python converts to an integer at most. -/
def maxDigits : ℕ := 4300

def parseNumber (cs : List Char) : Except Error (Json × List Char) :=
  let minus := if cs.head? = some '-' then ['-'] else []
  let cs := cs.drop minus.length
  let whole := if cs.head? = some '0' then ['0'] else cs.takeWhile Char.isDigit
  let cs := cs.drop whole.length
  let fraction := readFraction cs
  let cs := cs.drop fraction.length
  let exponent := readExponent cs
  let cs := cs.drop exponent.length
  if whole = [] then .error .value
  else if fraction = [] ∧ exponent = [] then
    if maxDigits < whole.length then .error .value
    else
      let n : ℤ := Nat.ofDigitChars 10 whole 0
      .ok (.int (if minus = [] then n else -n), cs)
  else .ok (.float (minus ++ whole ++ fraction ++ exponent), cs)

/-- The constants, tried in this order. -/
def constants : List (List Char × Json) :=
  [("null".toList, .null), ("true".toList, .bool true), ("false".toList, .bool false),
   ("NaN".toList, .float "NaN".toList), ("Infinity".toList, .float "Infinity".toList),
   ("-Infinity".toList, .float "-Infinity".toList)]

def parseConstant (cs : List Char) : Option (Json × List Char) :=
  (constants.find? fun p => p.1.isPrefixOf cs).map fun p => (p.2, cs.drop p.1.length)

/-- The scalars: constants and numbers. -/
def readScalar (cs : Text) : Except Error (Json × Text) :=
  match parseConstant cs with
  | some r => .ok r
  | none => parseNumber cs

mutual

/-- One value; `depth` is how much deeper containers may nest. -/
def parseValue : ℕ → ℕ → List Char → Except Error (Json × List Char)
  | 0, _, _ => .error .value
  | _ + 1, _, [] => .error .value
  | fuel + 1, depth, c :: cs =>
    if c = '"' then do
      let (s, cs) ← parseString fuel cs
      return (.str s, cs)
    else if c = '{' then
      if depth = 0 then .error .recursion
      else if (skipSpace cs).head? = some '}' then .ok (.obj [], (skipSpace cs).tail)
      else do
        let (ms, cs) ← parseMembers fuel (depth - 1) [] (skipSpace cs)
        return (.obj ms, cs)
    else if c = '[' then
      if depth = 0 then .error .recursion
      else if (skipSpace cs).head? = some ']' then .ok (.arr [], (skipSpace cs).tail)
      else do
        let (xs, cs) ← parseItems fuel (depth - 1) (skipSpace cs)
        return (.arr xs, cs)
    else
      match parseConstant (c :: cs) with
      | some r => .ok r
      | none => parseNumber (c :: cs)

/-- The members of an object, from a key on; equal keys keep the last value. -/
def parseMembers : ℕ → ℕ → List (Text × Json) → List Char →
    Except Error (List (Text × Json) × List Char)
  | 0, _, _, _ => .error .value
  | _ + 1, _, _, [] => .error .value
  | fuel + 1, depth, acc, c :: cs =>
    if c = '"' then do
      let (key, cs) ← parseString fuel cs
      if (skipSpace cs).head? = some ':' then
        let (v, cs) ← parseValue fuel depth (skipSpace (skipSpace cs).tail)
        let acc := insert key v acc
        if (skipSpace cs).head? = some '}' then
          return (acc, (skipSpace cs).tail)
        else if (skipSpace cs).head? = some ',' then
          parseMembers fuel depth acc (skipSpace (skipSpace cs).tail)
        else .error .value
      else .error .value
    else .error .value

/-- The items of an array, from the first one on. -/
def parseItems : ℕ → ℕ → List Char → Except Error (List Json × List Char)
  | 0, _, _ => .error .value
  | fuel + 1, depth, cs => do
    let (x, cs) ← parseValue fuel depth cs
    if (skipSpace cs).head? = some ']' then
      return ([x], (skipSpace cs).tail)
    else if (skipSpace cs).head? = some ',' then
      let (xs, cs) ← parseItems fuel depth (skipSpace (skipSpace cs).tail)
      return (x :: xs, cs)
    else .error .value

end

/-- How deep containers may nest before the interpreter raises `RecursionError`. -/
def recursionLimit : ℕ := 10000

/-- A document: one value with space around it.  Every recursive call consumes a
character, so the fuel does not run out. -/
def parse (cs : List Char) : Except Error Json := do
  let (v, rest) ← parseValue (cs.length + 1) recursionLimit (skipSpace cs)
  if skipSpace rest = [] then return v else .error .value

/-- `json.loads` on a string; a byte order mark is refused. -/
def loadsText (cs : List Char) : Except Error Json :=
  if cs.head? = some '\uFEFF' then .error .value else parse cs

/-- `json.detect_encoding`, and the decoding that follows it. -/
def decodeDetected (data : Bytes) : Option (List Char) :=
  if [0, 0, 0xFE, 0xFF].isPrefixOf data then Text.decodeUtf32 true (data.drop 4)
  else if [0xFF, 0xFE, 0, 0].isPrefixOf data then Text.decodeUtf32 false (data.drop 4)
  else if [0xFE, 0xFF].isPrefixOf data then Text.decodeUtf16 true (data.drop 2)
  else if [0xFF, 0xFE].isPrefixOf data then Text.decodeUtf16 false (data.drop 2)
  else if [0xEF, 0xBB, 0xBF].isPrefixOf data then Text.decodeUtf8 true (data.drop 3)
  else
    match data with
    | a :: b :: c :: d :: _ =>
      if a = 0 then
        if b = 0 then Text.decodeUtf32 true data else Text.decodeUtf16 true data
      else if b = 0 then
        if c = 0 ∧ d = 0 then Text.decodeUtf32 false data else Text.decodeUtf16 false data
      else Text.decodeUtf8 true data
    | [a, b] =>
      if a = 0 then Text.decodeUtf16 true data
      else if b = 0 then Text.decodeUtf16 false data
      else Text.decodeUtf8 true data
    | _ => Text.decodeUtf8 true data

/-- `json.loads` on a byte string. -/
def loads (data : Bytes) : Except Error Json :=
  match decodeDetected data with
  | none => .error .value
  | some cs => parse cs

/-! ## Encoding -/

/-- Four lower-case hexadecimal digits. -/
def hex4 (n : ℕ) : List Char :=
  [Nat.digitChar (n / 4096 % 16), Nat.digitChar (n / 256 % 16), Nat.digitChar (n / 16 % 16),
    Nat.digitChar (n % 16)]

def unicodeEscape (n : ℕ) : List Char := '\\' :: 'u' :: hex4 n

/-- One character inside a string, in ASCII. -/
def escapeChar (c : Char) : List Char :=
  if c = '"' then ['\\', '"']
  else if c = '\\' then ['\\', '\\']
  else if c = '\n' then ['\\', 'n']
  else if c = '\r' then ['\\', 'r']
  else if c = '\t' then ['\\', 't']
  else if c = '\x08' then ['\\', 'b']
  else if c = '\x0c' then ['\\', 'f']
  else if 0x20 ≤ c.toNat ∧ c.toNat < 0x7F then [c]
  else if c.toNat < 0x10000 then unicodeEscape c.toNat
  else unicodeEscape (0xD800 + (c.toNat - 0x10000) / 1024) ++
    unicodeEscape (0xDC00 + (c.toNat - 0x10000) % 1024)

def renderString (s : List Char) : List Char := '"' :: s.flatMap escapeChar ++ ['"']

def renderInt (n : ℤ) : List Char :=
  if n < 0 then '-' :: Nat.toDigits 10 n.natAbs else Nat.toDigits 10 n.natAbs

/-- The line break before an item of a container at this level; none on one line. -/
def newline : Option ℕ → ℕ → List Char
  | none, _ => []
  | some width, level => '\n' :: List.replicate (width * level) ' '

/-- What stands between two items. -/
def separator : Option ℕ → ℕ → List Char
  | none, _ => [',', ' ']
  | some width, level => ',' :: newline (some width) level

mutual

/-- `json.dumps` of a value whose keys are written in their order. -/
def render (indent : Option ℕ) (level : ℕ) : Json → List Char
  | .null => "null".toList
  | .bool true => "true".toList
  | .bool false => "false".toList
  | .int n => renderInt n
  | .float s => s
  | .str s => renderString s
  | .arr [] => ['[', ']']
  | .arr (x :: xs) =>
    '[' :: newline indent (level + 1) ++ renderItems indent (level + 1) (x :: xs) ++
      newline indent level ++ [']']
  | .obj [] => ['{', '}']
  | .obj (m :: ms) =>
    '{' :: newline indent (level + 1) ++ renderMembers indent (level + 1) (m :: ms) ++
      newline indent level ++ ['}']

def renderItems (indent : Option ℕ) (level : ℕ) : List Json → List Char
  | [] => []
  | x :: xs => render indent level x ++
    (if xs = [] then [] else separator indent level ++ renderItems indent level xs)

def renderMembers (indent : Option ℕ) (level : ℕ) : List (Text × Json) → List Char
  | [] => []
  | (k, v) :: ms => renderString k ++ ':' :: ' ' :: render indent level v ++
    (if ms = [] then [] else separator indent level ++ renderMembers indent level ms)

end

/-- Insert a member before the first larger key. -/
def insertSorted (m : Text × Json) : List (Text × Json) → List (Text × Json)
  | [] => [m]
  | n :: ns => if m.1 < n.1 then m :: n :: ns else n :: insertSorted m ns

mutual

/-- Sort the keys of every object. -/
def sortKeys : Json → Json
  | .arr xs => .arr (sortItems xs)
  | .obj ms => .obj (sortMembers ms)
  | v => v

def sortItems : List Json → List Json
  | [] => []
  | x :: xs => sortKeys x :: sortItems xs

def sortMembers : List (Text × Json) → List (Text × Json)
  | [] => []
  | (k, v) :: ms => insertSorted (k, sortKeys v) (sortMembers ms)

end

/-- `json.dumps(value, indent=indent, sort_keys=True)`. -/
def dumpsSorted (indent : ℕ) (value : Json) : List Char := render (some indent) 0 value.sortKeys

end Json
