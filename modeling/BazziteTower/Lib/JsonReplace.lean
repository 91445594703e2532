import BazziteTower.Lib.FindAll
import BazziteTower.Lib.Json
import Mathlib.Data.List.Forall2

/-!
# Replacing a string in the text of a document

Two texts differ in one place only: a colon, white space, and a quoted word.  If the
decoder reads both of them, then it reads the same document twice, except that one value
may be the one word here and the other word there.

## Main definitions

* `slot` — the colon, the white space and the word, with the text behind them.
* `Aligned` — two texts that have the two words in the same slot, or that are behind it.
* `Near` — what the two readings of a value have in common.

## Main results

* `members_near_of_parse` — two readings of an object have the same keys and near values.
-/

namespace Json

/-! ## Reading up to a colon -/

/-- What a reader takes from a text does not depend on what stands behind a colon that it
does not reach. -/
def Local {α : Type} (read : Text → Except Error (α × Text)) : Prop :=
  ∀ cs rest, read (cs ++ ':' :: rest) = (read cs).map fun r => (r.1, r.2 ++ ':' :: rest)

theorem hexValue_colon : hexValue ':' = none := by decide

theorem readHex4_append (cs rest : Text) :
    readHex4 (cs ++ ':' :: rest) = (readHex4 cs).map fun r => (r.1, r.2 ++ ':' :: rest) := by
  match cs with
  | [] => cases rest with
    | nil => rfl
    | cons b rest => cases rest with
      | nil => rfl
      | cons c rest => cases rest with
        | nil => rfl
        | cons d rest => simp [readHex4, hexValue_colon]
  | [a] => cases rest with
    | nil => rfl
    | cons c rest => cases rest with
      | nil => rfl
      | cons d rest =>
        simp only [List.cons_append, List.nil_append, readHex4, hexValue_colon]
        split <;> simp_all
  | [a, b] => cases rest with
    | nil => rfl
    | cons d rest =>
      simp only [List.cons_append, List.nil_append, readHex4, hexValue_colon]
      split <;> simp_all
  | [a, b, c] =>
    simp only [List.cons_append, List.nil_append, readHex4, hexValue_colon]
    split <;> simp_all
  | a :: b :: c :: d :: cs =>
    simp only [List.cons_append, readHex4]
    split <;> rfl

theorem local_readUnicode : Local readUnicode := by
  intro cs rest
  rw [readUnicode, readUnicode, readHex4_append]
  cases hfour : readHex4 cs with
  | none => rfl
  | some r =>
    obtain ⟨n, cs⟩ := r
    simp only [Option.map_some]
    have htake : (cs ++ ':' :: rest).take 2 = ['\\', 'u'] ↔ cs.take 2 = ['\\', 'u'] := by
      match cs with
      | [] => simp
      | [a] => simp
      | a :: b :: cs => simp
    simp only [htake]
    split
    · rename_i hlow
      have hdrop : (cs ++ ':' :: rest).drop 2 = cs.drop 2 ++ ':' :: rest := by
        match cs with
        | [] => simp at hlow
        | [a] => simp at hlow
        | a :: b :: cs => rfl
      rw [hdrop, readHex4_append]
      cases readHex4 (cs.drop 2) with
      | none => rfl
      | some r =>
        obtain ⟨m, cs'⟩ := r
        simp only [Option.map_some]
        split <;> simp only [Except.map]
    · simp only [Except.map]

theorem local_readEscape : Local readEscape := by
  intro cs rest
  cases cs with
  | nil => rfl
  | cons c cs =>
    have hunicode := local_readUnicode cs rest
    rw [List.cons_append]
    simp only [readEscape]
    split_ifs
    · exact hunicode
    all_goals rfl

theorem takeWhile_digits_append (cs rest : Text) :
    (cs ++ ':' :: rest).takeWhile Char.isDigit = cs.takeWhile Char.isDigit :=
  Text.takeWhile_append_cons (by decide) cs rest

theorem readFraction_append (cs rest : Text) : readFraction (cs ++ ':' :: rest) = readFraction cs := by
  cases cs with
  | nil => rfl
  | cons c cs => simp [readFraction, takeWhile_digits_append]

theorem readExponent_append (cs rest : Text) : readExponent (cs ++ ':' :: rest) = readExponent cs := by
  match cs with
  | [] => rfl
  | [c] => simp [readExponent]
  | c :: d :: cs =>
    have hdigits := takeWhile_digits_append (d :: cs) rest
    rw [List.cons_append] at hdigits
    by_cases hsign : d = '+' ∨ d = '-'
    · simp [readExponent, hsign, takeWhile_digits_append]
    · simp [readExponent, hsign, hdigits]

/-- A reader that takes from a text what does not depend on what stands behind a colon. -/
def Takes (take : Text → Text) : Prop :=
  ∀ cs rest, take (cs ++ ':' :: rest) = take cs ∧ (take cs).length ≤ cs.length

theorem Takes.drop {take : Text → Text} (h : Takes take) (cs rest : Text) :
    (cs ++ ':' :: rest).drop (take cs).length = cs.drop (take cs).length ++ ':' :: rest :=
  List.drop_append_of_le_length (h cs rest).2

def readMinus (cs : Text) : Text := if cs.head? = some '-' then ['-'] else []

def readWhole (cs : Text) : Text :=
  if cs.head? = some '0' then ['0'] else cs.takeWhile Char.isDigit

theorem takes_readMinus : Takes readMinus := by
  intro cs rest
  cases cs with
  | nil => exact ⟨rfl, by simp [readMinus]⟩
  | cons c cs =>
    constructor
    · rfl
    · unfold readMinus
      split <;> simp

theorem takes_readWhole : Takes readWhole := by
  intro cs rest
  constructor
  · cases cs with
    | nil => rfl
    | cons c cs =>
      have hdigits := takeWhile_digits_append (c :: cs) rest
      rw [List.cons_append] at hdigits
      simp [readWhole, hdigits]
  · unfold readWhole
    split
    · rename_i hzero
      cases cs with
      | nil => cases hzero
      | cons c cs => simp
    · exact (List.takeWhile_prefix _).length_le

theorem takes_readFraction : Takes readFraction := by
  intro cs rest
  refine ⟨readFraction_append cs rest, ?_⟩
  cases cs with
  | nil => simp [readFraction]
  | cons c cs =>
    have hlength := (List.takeWhile_prefix (p := Char.isDigit) (l := cs)).length_le
    unfold readFraction
    split
    · simpa using hlength
    · simp

theorem takes_readExponent : Takes readExponent := by
  intro cs rest
  refine ⟨readExponent_append cs rest, ?_⟩
  match cs with
  | [] => simp [readExponent]
  | [c] => simp [readExponent]
  | c :: d :: cs =>
    have hlength := (List.takeWhile_prefix (p := Char.isDigit) (l := d :: cs)).length_le
    have hlength' := (List.takeWhile_prefix (p := Char.isDigit) (l := cs)).length_le
    by_cases hsign : d = '+' ∨ d = '-'
    · simp [readExponent, hsign]
      split_ifs <;> simp
      omega
    · simp [readExponent, hsign]
      split_ifs <;> simp
      simpa using hlength

theorem parseNumber_eq (cs : Text) : parseNumber cs =
    (let minus := readMinus cs
    let cs := cs.drop minus.length
    let whole := readWhole cs
    let cs := cs.drop whole.length
    let fraction := readFraction cs
    let cs := cs.drop fraction.length
    let exponent := readExponent cs
    let cs := cs.drop exponent.length
    if whole = [] then .error .value
    else if fraction = [] ∧ exponent = [] then
      if maxDigits < whole.length then .error .value
      else
        let n : ℤ := Nat.ofDigitChars 10 whole 0
        .ok (.int (if minus = [] then n else -n), cs)
    else .ok (.float (minus ++ whole ++ fraction ++ exponent), cs)) := rfl

theorem local_parseNumber : Local parseNumber := by
  intro cs rest
  rw [parseNumber_eq, parseNumber_eq]
  simp only [takes_readMinus.drop, takes_readWhole.drop, takes_readFraction.drop,
    takes_readExponent.drop, (takes_readMinus _ _).1, (takes_readWhole _ _).1,
    (takes_readFraction _ _).1, (takes_readExponent _ _).1]
  split_ifs <;> rfl

theorem parseConstant_append (cs rest : Text) :
    parseConstant (cs ++ ':' :: rest) = (parseConstant cs).map fun r => (r.1, r.2 ++ ':' :: rest) := by
  have hfind : constants.find? (fun p => p.1.isPrefixOf (cs ++ ':' :: rest))
      = constants.find? (fun p => p.1.isPrefixOf cs) := by
    simp only [constants, List.find?]
    simp (disch := decide) only [Text.isPrefixOf_append_cons]
  rw [parseConstant, parseConstant, hfind]
  cases hconstant : constants.find? (fun p => p.1.isPrefixOf cs) with
  | none => rfl
  | some p =>
    have hprefix := List.find?_some hconstant
    have hlength := (List.isPrefixOf_iff_prefix.mp hprefix).length_le
    simp [List.drop_append_of_le_length hlength]

/-! ## Two texts -/

/-- A colon, white space and a word in quotes, with the text behind them. -/
def slot (spaces word behind : Text) : Text := ':' :: (spaces ++ '"' :: (word ++ '"' :: behind))

/-- Texts that have the two words in the same slot, or that are both behind it. -/
inductive Aligned (spaces word word' behind : Text) : Text → Text → Prop
  | before (cs : Text) :
    Aligned spaces word word' behind (cs ++ slot spaces word behind) (cs ++ slot spaces word' behind)
  | same (cs : Text) : Aligned spaces word word' behind cs cs

/-- White space as far as a reader of bytes takes it for that. -/
def IsBlank (c : Char) : Prop := c = ' ' ∨ (9 ≤ c.toNat ∧ c.toNat ≤ 13)

instance (c : Char) : Decidable (IsBlank c) := inferInstanceAs (Decidable (_ ∨ _))

/-- A word of lower-case letters. -/
def IsWord (word : Text) : Prop := word ≠ [] ∧ ∀ c ∈ word, c.isLower

instance (word : Text) : Decidable (IsWord word) := @instDecidableAnd _ _ _ (List.decidableBAll _ word)

theorem isWord_singleton {c : Char} (h : c.isLower) : IsWord [c] :=
  ⟨List.cons_ne_nil _ _, by simpa using h⟩

/-- A text in which a reader has run into the word. -/
def Stuck (cs : Text) : Prop := ∃ c rest, cs = c :: rest ∧ c.isLower

theorem skipSpace_append (cs rest : Text) :
    skipSpace (cs ++ ':' :: rest) = skipSpace cs ++ ':' :: rest := by
  induction cs with
  | nil => rfl
  | cons c cs ih =>
    by_cases hc : isSpace c
    · simpa [skipSpace, hc] using ih
    · simp [skipSpace, hc]

theorem not_isSpace_of_isLower {c : Char} (h : c.isLower) : isSpace c = false := by
  by_contra hspace
  simp only [isSpace, Bool.not_eq_false, Bool.or_eq_true, decide_eq_true_eq] at hspace
  rcases hspace with ((rfl | rfl) | rfl) | rfl <;> exact absurd h (by decide)

/-- Only a letter comes next in a text that is stuck. -/
theorem Stuck.head_skipSpace {cs : Text} (h : Stuck cs) {c : Char} (hc : c.isLower = false) :
    (skipSpace cs).head? ≠ some c := by
  obtain ⟨d, rest, rfl, hd⟩ := h
  have hskip : skipSpace (d :: rest) = d :: rest := by
    simp [skipSpace, not_isSpace_of_isLower hd]
  rw [hskip]
  rintro heq
  obtain rfl := Option.some.inj heq
  rw [hd] at hc
  cases hc

/-! ## Two readings -/

/-- What two readings of a value have in common: they are equal, or they are the two words,
or they are visibly different containers. -/
def Near (word word' : Text) (v v' : Json) : Prop :=
  v = v' ∨ (v = .str word ∧ v' = .str word') ∨ (v.pySame v' = false ∧ ∀ s, v' ≠ .str s)

/-- The same keys, and values that are near. -/
def MembersNear (word word' : Text) (ms ms' : List (Text × Json)) : Prop :=
  List.Forall₂ (fun m m' => m.1 = m'.1 ∧ Near word word' m.2 m'.2) ms ms'

theorem str_pySame_str {s s' : Text} : (Json.str s).pySame (.str s') = (s == s') := by
  simp [pySame, isNan, pyEq]

/-- Near values that compare equal are the same. -/
theorem Near.eq_of_pySame {word word' : Text} (hne : word ≠ word') {v v' : Json}
    (h : Near word word' v v') (hsame : v.pySame v') : v = v' := by
  rcases h with h | ⟨rfl, rfl⟩ | ⟨h, -⟩
  · exact h
  · rw [str_pySame_str, beq_iff_eq] at hsame
    exact absurd hsame hne
  · rw [h] at hsame
    cases hsame

theorem items_eq_of_pyEq {word word' : Text} (hne : word ≠ word') {xs ys : List Json}
    (h : List.Forall₂ (Near word word') xs ys) (heq : pyEqItems xs ys) : xs = ys := by
  induction h with
  | nil => rfl
  | cons hhead _ ih =>
    rw [pyEqItems, Bool.and_eq_true] at heq
    rw [hhead.eq_of_pySame hne heq.1, ih heq.2]

theorem MembersNear.keys {word word' : Text} {ms ms' : List (Text × Json)}
    (h : MembersNear word word' ms ms') : ms.map Prod.fst = ms'.map Prod.fst := by
  induction h with
  | nil => rfl
  | cons hhead _ ih => rw [List.map_cons, List.map_cons, hhead.1, ih]

theorem MembersNear.insert {word word' : Text} {ms ms' : List (Text × Json)}
    (h : MembersNear word word' ms ms') (key : Text) {v v' : Json} (hv : Near word word' v v') :
    MembersNear word word' (insert key v ms) (insert key v' ms') := by
  induction h with
  | nil => exact .cons ⟨rfl, hv⟩ .nil
  | @cons m m' ms ms' hhead htail ih =>
    obtain ⟨k, u⟩ := m
    obtain ⟨k', u'⟩ := m'
    obtain ⟨rfl, hu⟩ := hhead
    by_cases hk : k = key
    · simp only [Json.insert, if_pos hk]
      exact .cons ⟨rfl, hv⟩ htail
    · simp only [Json.insert, if_neg hk]
      exact .cons ⟨rfl, hu⟩ ih

/-- A member is found in a list with the same keys at its own place. -/
theorem MembersNear.find {word word' : Text} {ms ms' : List (Text × Json)}
    (h : MembersNear word word' ms ms') (key : Text) :
    (Json.find key ms = none ∧ Json.find key ms' = none)
      ∨ ∃ v v', Json.find key ms = some v ∧ Json.find key ms' = some v' ∧ Near word word' v v' := by
  induction h with
  | nil => exact .inl ⟨rfl, rfl⟩
  | @cons m m' ms ms' hhead _ ih =>
    obtain ⟨k, u⟩ := m
    obtain ⟨k', u'⟩ := m'
    obtain ⟨rfl, hu⟩ := hhead
    by_cases hk : k = key
    · simp only [Json.find, if_pos hk]
      exact .inr ⟨u, u', rfl, rfl, hu⟩
    · simpa only [Json.find, if_neg hk] using ih

theorem find_eq_none {key : Text} {ms : List (Text × Json)} :
    Json.find key ms = none ↔ key ∉ ms.map Prod.fst := by
  induction ms with
  | nil => simp [Json.find]
  | cons m ms ih =>
    obtain ⟨k, u⟩ := m
    by_cases hk : k = key
    · simp [Json.find, hk]
    · rw [Json.find, if_neg hk, ih, List.map_cons, List.mem_cons]
      tauto

/-- Two lists with the same keys, each key once, are equal if the same is found in both. -/
theorem eq_of_find {ms ns : List (Text × Json)} (hkeys : ms.map Prod.fst = ns.map Prod.fst)
    (hnodup : (ms.map Prod.fst).Nodup) (h : ∀ key, Json.find key ms = Json.find key ns) : ms = ns := by
  have hnodup' : (ns.map Prod.fst).Nodup := hkeys ▸ hnodup
  have hlength : ms.length = ns.length := by simpa using congrArg List.length hkeys
  apply List.ext_getElem hlength
  intro i hi hi'
  have hkey : ms[i].1 = ns[i].1 := by
    have := congrArg (fun ks => ks[i]?) hkeys
    simpa [hi, hi'] using this
  have hms := find_eq_some_of_mem hnodup (List.getElem_mem hi)
  have hns := find_eq_some_of_mem hnodup' (List.getElem_mem hi')
  rw [h, hkey, hns] at hms
  exact Prod.ext hkey (Option.some.inj hms).symm

theorem members_eq_of_pyEq {word word' : Text} (hne : word ≠ word') {ms ms' : List (Text × Json)}
    (h : MembersNear word word' ms ms') (hnodup : (ms.map Prod.fst).Nodup)
    (heq : pyEqMembers ms ms') : ms = ms' := by
  apply eq_of_find h.keys hnodup
  intro key
  rcases h.find key with ⟨hv, hv'⟩ | ⟨v, v', hv, hv', hnear⟩
  · rw [hv, hv']
  · obtain ⟨u, hu, hsame⟩ := pyEqMembers_find heq hv
    obtain rfl := Option.some.inj (hv'.symm.trans hu)
    rw [hv, hv', hnear.eq_of_pySame hne hsame]

theorem near_arr {word word' : Text} (hne : word ≠ word') {xs ys : List Json}
    (h : List.Forall₂ (Near word word') xs ys) : Near word word' (.arr xs) (.arr ys) := by
  by_cases heq : pyEqItems xs ys
  · exact .inl (congrArg _ (items_eq_of_pyEq hne h heq))
  · exact .inr (.inr ⟨by simpa [pySame, isNan, pyEq] using heq, by simp⟩)

theorem near_obj {word word' : Text} (hne : word ≠ word') {ms ms' : List (Text × Json)}
    (h : MembersNear word word' ms ms') (hnodup : (ms.map Prod.fst).Nodup) :
    Near word word' (.obj ms) (.obj ms') := by
  by_cases heq : pyEqMembers ms ms'
  · exact .inl (congrArg _ (members_eq_of_pyEq hne h hnodup heq))
  · exact .inr (.inr ⟨by simp [pySame, isNan, pyEq, heq], by simp⟩)

/-- What a key already has changes nothing. -/
theorem insert_self {key : Text} {v : Json} {ms : List (Text × Json)}
    (h : Json.find key ms = some v) : insert key v ms = ms := by
  induction ms with
  | nil => cases h
  | cons m ms ih =>
    obtain ⟨k, u⟩ := m
    by_cases hk : k = key
    · rw [Json.find, if_pos hk] at h
      obtain rfl := Option.some.inj h
      rw [insert, if_pos hk]
    · rw [Json.find, if_neg hk] at h
      rw [insert, if_neg hk, ih h]

/-- The last assignment counts. -/
theorem insert_insert {key : Text} {v w : Json} {ms : List (Text × Json)} :
    insert key v (insert key w ms) = insert key v ms := by
  induction ms with
  | nil => simp [insert]
  | cons m ms ih =>
    obtain ⟨k, u⟩ := m
    by_cases hk : k = key
    · simp [insert, hk]
    · simp only [insert, if_neg hk, ih]

/-- Near members that compare equal once a key has the second word differ in that key at
most, and there by the words. -/
theorem eq_insert_of_near {word word' key : Text} (hne : word ≠ word') {ms ns : List (Text × Json)}
    (h : MembersNear word word' ms ns) (hnodup : (ms.map Prod.fst).Nodup)
    (heq : (Json.obj (insert key (.str word') ms)).pyEq (.obj ns)) :
    ns = insert key (.str word') ms
      ∧ (Json.find key ms = some (.str word) ∨ Json.find key ms = some (.str word')) := by
  rw [pyEq, Bool.and_eq_true, beq_iff_eq] at heq
  obtain ⟨hlength, hmembers⟩ := heq
  have hmem : key ∈ ms.map Prod.fst := by
    by_contra hmem
    have hkeys := keys_insert key (.str word') ms
    rw [if_neg hmem] at hkeys
    have hinsert := congrArg List.length hkeys
    have hns := congrArg List.length h.keys
    simp only [List.length_map, List.length_append, List.length_singleton] at hinsert hns
    omega
  have hkeys := keys_insert key (.str word') ms
  rw [if_pos hmem] at hkeys
  have hvalue : Json.find key ns = some (.str word') := by
    obtain ⟨u, hu, hsame⟩ := pyEqMembers_find hmembers (find_insert_self key (.str word') ms)
    rw [str_pySame, pyEq_str] at hsame
    rw [hu, hsame]
  constructor
  · symm
    apply eq_of_find (hkeys.trans h.keys) (hkeys ▸ hnodup)
    intro k
    by_cases hk : k = key
    · rw [hk, find_insert_self, hvalue]
    · rw [find_insert_ne hk]
      rcases h.find k with ⟨hnone, hnone'⟩ | ⟨v, v', hv, hv', hnear⟩
      · rw [hnone, hnone']
      · have hinsert := (find_insert_ne hk (.str word') ms).trans hv
        obtain ⟨u, hu, hsame⟩ := pyEqMembers_find hmembers hinsert
        obtain rfl := Option.some.inj (hv'.symm.trans hu)
        rw [hv, hv', hnear.eq_of_pySame hne hsame]
  · rcases h.find key with ⟨hnone, -⟩ | ⟨v, v', hv, hv', hnear⟩
    · exact absurd hmem (find_eq_none.mp hnone)
    · obtain rfl := Option.some.inj (hv'.symm.trans hvalue)
      rcases hnear with rfl | ⟨rfl, -⟩ | ⟨-, hstr⟩
      · exact .inr hv
      · exact .inl hv
      · exact absurd rfl (hstr word')

/-! ## Aligned readings -/

section Replace
variable {spaces word word' behind : Text}

theorem Aligned.skipSpace {a b : Text} (h : Aligned spaces word word' behind a b) :
    Aligned spaces word word' behind (skipSpace a) (skipSpace b) := by
  cases h with
  | before cs =>
    rw [slot, slot, skipSpace_append, skipSpace_append]
    exact .before _
  | same => exact .same _

theorem Aligned.head {a b : Text} (h : Aligned spaces word word' behind a b) :
    a.head? = b.head? := by
  cases h with
  | before cs => cases cs <;> rfl
  | same => rfl

/-- Behind any character but the colon of the slot the texts are aligned again. -/
theorem Aligned.tail {a b : Text} (h : Aligned spaces word word' behind a b) (hcolon : a.head? ≠ some ':') :
    Aligned spaces word word' behind a.tail b.tail := by
  cases h with
  | before cs =>
    cases cs with
    | nil => exact absurd rfl hcolon
    | cons c cs => exact .before cs
  | same => exact .same _

theorem Aligned.of_local {α : Type} {read : Text → Except Error (α × Text)} (hread : Local read)
    {a b ra rb : Text} {x y : α} (h : Aligned spaces word word' behind a b)
    (ha : read a = .ok (x, ra)) (hb : read b = .ok (y, rb)) :
    x = y ∧ Aligned spaces word word' behind ra rb := by
  cases h with
  | before cs =>
    rw [slot, hread] at ha hb
    cases hcs : read cs with
    | error e =>
      rw [hcs] at ha
      cases ha
    | ok r =>
      rw [hcs] at ha hb
      cases ha
      cases hb
      exact ⟨rfl, .before r.2⟩
  | same =>
    rw [ha] at hb
    cases hb
    exact ⟨rfl, .same _⟩

/-- A string without escapes ends at the next quote. -/
theorem parseString_plain {fuel : ℕ} {cs s rest ra : Text} (hcs : ∀ c ∈ cs, c ≠ '"' ∧ c ≠ '\\')
    (h : parseString fuel (cs ++ '"' :: rest) = .ok (s, ra)) : s = cs ∧ ra = rest := by
  induction cs generalizing fuel s with
  | nil =>
    cases fuel with
    | zero => cases h
    | succ fuel =>
      rw [List.nil_append, parseString, if_pos rfl] at h
      cases h
      exact ⟨rfl, rfl⟩
  | cons c cs ih =>
    cases fuel with
    | zero => cases h
    | succ fuel =>
      obtain ⟨hquote, hslash⟩ := hcs c (by simp)
      rw [List.cons_append, parseString, if_neg hquote, if_neg hslash] at h
      split at h
      · cases h
      · obtain ⟨⟨t, rt⟩, ht, heq⟩ := Except.bind_eq_ok.mp h
        cases heq
        obtain ⟨rfl, rfl⟩ := ih (fun d hd => hcs d (List.mem_cons_of_mem c hd)) ht
        exact ⟨rfl, rfl⟩

theorem IsBlank.plain {c : Char} (h : IsBlank c) : c ≠ '"' ∧ c ≠ '\\' := by
  constructor
  · rintro rfl
    exact absurd h (by decide)
  · rintro rfl
    exact absurd h (by decide)

theorem IsWord.plain {word : Text} (h : IsWord word) : ∀ c ∈ word, c ≠ '"' ∧ c ≠ '\\' := by
  intro c hc
  constructor
  · rintro rfl
    exact absurd (h.2 _ hc) (by decide)
  · rintro rfl
    exact absurd (h.2 _ hc) (by decide)

/-- The white space that only a reader of bytes knows begins no value. -/
theorem parseValue_blank {fuel depth : ℕ} {c : Char} {cs : Text} {r : Json × Text} (hc : IsBlank c)
    (hspace : isSpace c = false) : parseValue fuel depth (c :: cs) ≠ .ok r := by
  have hcode : c = '\x0b' ∨ c = '\x0c' := by
    rcases hc with rfl | ⟨hlow, hhigh⟩
    · exact absurd hspace (by decide)
    · have hcases : c.toNat = 9 ∨ c.toNat = 10 ∨ c.toNat = 11 ∨ c.toNat = 12 ∨ c.toNat = 13 := by
        omega
      rw [← Char.ofNat_toNat c] at hspace ⊢
      rcases hcases with h | h | h | h | h <;> rw [h] at hspace ⊢ <;> revert hspace <;> decide
  have hconstant : parseConstant (c :: cs) = none := by
    rcases hcode with rfl | rfl <;> simp [parseConstant, constants]
  have hnumber : parseNumber (c :: cs) = .error .value := by
    rcases hcode with rfl | rfl <;> rfl
  cases fuel with
  | zero => rintro ⟨⟩
  | succ fuel =>
    have hne : c ≠ '"' ∧ c ≠ '{' ∧ c ≠ '[' := by
      rcases hcode with rfl | rfl <;> decide
    rw [parseValue, if_neg hne.1, if_neg hne.2.1, if_neg hne.2.2, hconstant]
    rw [hnumber]
    rintro ⟨⟩

/-- What is read behind the colon of the slot is the word. -/
theorem parseValue_slot {fuel depth : ℕ} {v : Json} {ra : Text} (hspaces : ∀ c ∈ spaces, IsBlank c)
    (hword : IsWord word)
    (h : parseValue fuel depth (Json.skipSpace (spaces ++ '"' :: (word ++ '"' :: behind))) = .ok (v, ra)) :
    v = .str word ∧ ra = behind := by
  induction spaces with
  | nil =>
    cases fuel with
    | zero => cases h
    | succ fuel =>
      have hskip : Json.skipSpace ('"' :: (word ++ '"' :: behind)) = '"' :: (word ++ '"' :: behind) := rfl
      rw [List.nil_append, hskip, parseValue, if_pos rfl] at h
      obtain ⟨⟨t, rt⟩, ht, heq⟩ := Except.bind_eq_ok.mp h
      cases heq
      obtain ⟨rfl, rfl⟩ := parseString_plain hword.plain ht
      exact ⟨rfl, rfl⟩
  | cons c spaces ih =>
    by_cases hc : isSpace c
    · rw [List.cons_append, Json.skipSpace, List.dropWhile_cons_of_pos hc] at h
      exact ih (fun d hd => hspaces d (List.mem_cons_of_mem c hd)) h
    · rw [List.cons_append, Json.skipSpace, List.dropWhile_cons_of_neg hc] at h
      exact absurd h (parseValue_blank (hspaces c (by simp)) (by simpa using hc))

/-- Aligned texts begin with the slot, or with the same character. -/
theorem Aligned.cases_head {a b : Text} (h : Aligned spaces word word' behind a b) :
    (a = slot spaces word behind ∧ b = slot spaces word' behind)
      ∨ (a = [] ∧ b = [])
      ∨ ∃ c ta tb, a = c :: ta ∧ b = c :: tb ∧ Aligned spaces word word' behind ta tb := by
  cases h with
  | before cs =>
    cases cs with
    | nil => exact .inl ⟨rfl, rfl⟩
    | cons c cs => exact .inr (.inr ⟨c, _, _, rfl, rfl, .before cs⟩)
  | same =>
    cases a with
    | nil => exact .inr (.inl ⟨rfl, rfl⟩)
    | cons c cs => exact .inr (.inr ⟨c, _, _, rfl, rfl, .same cs⟩)

theorem stuck_word (hword : IsWord word) (rest : Text) : Stuck (word ++ rest) := by
  obtain ⟨c, cs, rfl⟩ := List.exists_cons_of_ne_nil hword.1
  exact ⟨c, cs ++ rest, rfl, hword.2 c (by simp)⟩

variable (hspaces : ∀ c ∈ spaces, IsBlank c) (hword : IsWord word) (hword' : IsWord word')

include hspaces hword in
theorem parseString_aligned {fuel fuel' : ℕ} {a b s s' ra rb : Text}
    (h : Aligned spaces word word' behind a b) (ha : parseString fuel a = .ok (s, ra))
    (hb : parseString fuel' b = .ok (s', rb)) :
    s = s' ∧ (Aligned spaces word word' behind ra rb ∨ Stuck ra) := by
  induction fuel generalizing fuel' a b s s' with
  | zero => cases ha
  | succ fuel ih =>
    cases fuel' with
    | zero => cases hb
    | succ fuel' =>
      rcases h.cases_head with ⟨rfl, rfl⟩ | ⟨rfl, rfl⟩ | ⟨c, ta, tb, rfl, rfl, htail⟩
      · have hplain : ∀ c ∈ ':' :: spaces, c ≠ '"' ∧ c ≠ '\\' := by
          intro c hc
          rcases List.mem_cons.mp hc with rfl | hc
          · decide
          · exact (hspaces c hc).plain
        obtain ⟨rfl, rfl⟩ := @parseString_plain _ (':' :: spaces) _ _ _ hplain ha
        obtain ⟨rfl, -⟩ := @parseString_plain _ (':' :: spaces) _ _ _ hplain hb
        exact ⟨rfl, .inr (stuck_word hword _)⟩
      · cases ha
      · rw [parseString] at ha hb
        by_cases hquote : c = '"'
        · rw [if_pos hquote] at ha hb
          cases ha
          cases hb
          exact ⟨rfl, .inl htail⟩
        rw [if_neg hquote] at ha hb
        by_cases hslash : c = '\\'
        · rw [if_pos hslash, Except.bind_eq_ok] at ha hb
          obtain ⟨⟨x, ca⟩, hx, ha⟩ := ha
          obtain ⟨⟨x', cb⟩, hx', hb⟩ := hb
          obtain ⟨rfl, hnext⟩ := htail.of_local local_readEscape hx hx'
          obtain ⟨⟨t, rt⟩, ht, heq⟩ := Except.bind_eq_ok.mp ha
          obtain ⟨⟨t', rt'⟩, ht', heq'⟩ := Except.bind_eq_ok.mp hb
          cases heq
          cases heq'
          obtain ⟨rfl, hrest⟩ := ih hnext ht ht'
          exact ⟨rfl, hrest⟩
        rw [if_neg hslash] at ha hb
        split at ha
        · cases ha
        · rename_i hcontrol
          rw [if_neg hcontrol] at hb
          obtain ⟨⟨t, rt⟩, ht, heq⟩ := Except.bind_eq_ok.mp ha
          obtain ⟨⟨t', rt'⟩, ht', heq'⟩ := Except.bind_eq_ok.mp hb
          cases heq
          cases heq'
          obtain ⟨rfl, hrest⟩ := ih htail ht ht'
          exact ⟨rfl, hrest⟩

theorem local_readScalar : Local readScalar := by
  intro cs rest
  rw [readScalar, readScalar, parseConstant_append, local_parseNumber]
  cases parseConstant cs <;> rfl

theorem parseConstant_ne_obj {cs rest : List Char} {ms : List (Text × Json)} :
    parseConstant cs ≠ some (.obj ms, rest) := by
  intro h
  obtain ⟨p, hp, h⟩ := Option.map_eq_some_iff.mp h
  have hmem := List.mem_of_find?_eq_some hp
  simp only [constants, List.mem_cons, List.not_mem_nil, or_false] at hmem
  rcases hmem with rfl | rfl | rfl | rfl | rfl | rfl <;> simp at h

theorem parseNumber_ne_obj {cs rest : List Char} {ms : List (Text × Json)} :
    parseNumber cs ≠ .ok (.obj ms, rest) := by
  intro h
  unfold parseNumber at h
  extract_lets minus cs₁ whole cs₂ fraction cs₃ exponent cs₄ at h
  split_ifs at h <;> cases h

theorem readScalar_ne_obj {cs rest : Text} {ms : List (Text × Json)} :
    readScalar cs ≠ .ok (.obj ms, rest) := by
  intro h
  unfold readScalar at h
  split at h
  · rename_i r hr
    rw [Except.ok.inj h] at hr
    exact parseConstant_ne_obj hr
  · exact parseNumber_ne_obj h

/-- What two readings have in common, down to the members of an object. -/
structure Matches (word word' : Text) (v v' : Json) : Prop where
  near : Near word word' v v'
  members : ∀ ms ms', v = .obj ms → v' = .obj ms' →
    MembersNear word word' ms ms' ∧ (ms.map Prod.fst).Nodup

theorem Matches.of_eq {v : Json} (hv : ∀ ms, v ≠ .obj ms) : Matches word word' v v :=
  ⟨.inl rfl, fun ms _ h => absurd h (hv ms)⟩

/-- Readings of values with this much fuel match. -/
def ValuesMatch (spaces word word' behind : Text) (fuel : ℕ) : Prop :=
  ∀ fuel' depth a b v v' ra rb, Aligned spaces word word' behind a b →
    parseValue fuel depth a = .ok (v, ra) → parseValue fuel' depth b = .ok (v', rb) →
    Matches word word' v v' ∧ (Aligned spaces word word' behind ra rb ∨ Stuck ra)

def MembersMatch (spaces word word' behind : Text) (fuel : ℕ) : Prop :=
  ∀ fuel' depth acc acc' a b ms ms' ra rb, MembersNear word word' acc acc' →
    (acc.map Prod.fst).Nodup → Aligned spaces word word' behind a b →
    parseMembers fuel depth acc a = .ok (ms, ra) → parseMembers fuel' depth acc' b = .ok (ms', rb) →
    MembersNear word word' ms ms' ∧ (ms.map Prod.fst).Nodup ∧ Aligned spaces word word' behind ra rb

def ItemsMatch (spaces word word' behind : Text) (fuel : ℕ) : Prop :=
  ∀ fuel' depth a b xs ys ra rb, Aligned spaces word word' behind a b →
    parseItems fuel depth a = .ok (xs, ra) → parseItems fuel' depth b = .ok (ys, rb) →
    List.Forall₂ (Near word word') xs ys ∧ Aligned spaces word word' behind ra rb

include hspaces hword in
theorem valuesMatch_succ (hne : word ≠ word') {fuel : ℕ}
    (hmembers : MembersMatch spaces word word' behind fuel)
    (hitems : ItemsMatch spaces word word' behind fuel) :
    ValuesMatch spaces word word' behind (fuel + 1) := by
  intro fuel' depth a b v v' ra rb h ha hb
  cases fuel' with
  | zero => cases hb
  | succ fuel' =>
  cases a with
  | nil => cases ha
  | cons c ta =>
  have hhead := h.head
  cases b with
  | nil => cases hb
  | cons c' tb =>
  obtain rfl : c = c' := Option.some.inj hhead
  rw [parseValue] at ha hb
  by_cases hquote : c = '"'
  · rw [if_pos hquote, Except.bind_eq_ok] at ha hb
    obtain ⟨⟨s, sa⟩, hs, ha⟩ := ha
    obtain ⟨⟨s', sb⟩, hs', hb⟩ := hb
    cases ha
    cases hb
    obtain ⟨rfl, hrest⟩ := parseString_aligned hspaces hword
      (h.tail (by simp [hquote])) hs hs'
    exact ⟨.of_eq (by simp), hrest⟩
  rw [if_neg hquote] at ha hb
  by_cases hbrace : c = '{'
  · have htail := (h.tail (by simp [hbrace])).skipSpace
    rw [if_pos hbrace] at ha hb
    split at ha
    · cases ha
    · rename_i hdepth
      rw [if_neg hdepth] at hb
      have hclose := htail.head
      rw [List.tail_cons, List.tail_cons] at htail hclose
      rw [← hclose] at hb
      split at ha
      · rename_i hend
        rw [if_pos hend] at hb
        cases ha
        cases hb
        refine ⟨⟨.inl rfl, ?_⟩, .inl (htail.tail (by simp [hend]))⟩
        rintro _ _ ⟨⟩ ⟨⟩
        exact ⟨.nil, by simp⟩
      · rename_i hend
        rw [if_neg hend] at hb
        obtain ⟨⟨ms, ma⟩, hms, ha⟩ := Except.bind_eq_ok.mp ha
        obtain ⟨⟨ms', mb⟩, hms', hb⟩ := Except.bind_eq_ok.mp hb
        cases ha
        cases hb
        obtain ⟨hnear, hnodup, hrest⟩ :=
          hmembers _ _ [] [] _ _ _ _ _ _ .nil (by simp) htail hms hms'
        refine ⟨⟨near_obj hne hnear hnodup, ?_⟩, .inl hrest⟩
        rintro _ _ ⟨⟩ ⟨⟩
        exact ⟨hnear, hnodup⟩
  rw [if_neg hbrace] at ha hb
  by_cases hbracket : c = '['
  · have htail := (h.tail (by simp [hbracket])).skipSpace
    rw [if_pos hbracket] at ha hb
    split at ha
    · cases ha
    · rename_i hdepth
      rw [if_neg hdepth] at hb
      have hclose := htail.head
      rw [List.tail_cons, List.tail_cons] at htail hclose
      rw [← hclose] at hb
      split at ha
      · rename_i hend
        rw [if_pos hend] at hb
        cases ha
        cases hb
        exact ⟨.of_eq (by simp), .inl (htail.tail (by simp [hend]))⟩
      · rename_i hend
        rw [if_neg hend] at hb
        obtain ⟨⟨xs, xa⟩, hxs, ha⟩ := Except.bind_eq_ok.mp ha
        obtain ⟨⟨ys, xb⟩, hys, hb⟩ := Except.bind_eq_ok.mp hb
        cases ha
        cases hb
        obtain ⟨hnear, hrest⟩ := hitems _ _ _ _ _ _ _ _ htail hxs hys
        exact ⟨⟨near_arr hne hnear, by simp⟩, .inl hrest⟩
  rw [if_neg hbracket] at ha hb
  obtain ⟨rfl, hrest⟩ := h.of_local local_readScalar ha hb
  refine ⟨.of_eq ?_, .inl hrest⟩
  rintro ms rfl
  exact readScalar_ne_obj ha

include hspaces hword hword' in
/-- The value behind a colon: that of the slot, or one behind the same colon. -/
theorem valuesMatch_colon {fuel fuel' depth : ℕ} {a b ra rb : Text} {v v' : Json}
    (hvalues : ValuesMatch spaces word word' behind fuel)
    (h : Aligned spaces word word' behind a b) (hcolon : a.head? = some ':')
    (ha : parseValue fuel depth (Json.skipSpace a.tail) = .ok (v, ra))
    (hb : parseValue fuel' depth (Json.skipSpace b.tail) = .ok (v', rb)) :
    Matches word word' v v' ∧ (Aligned spaces word word' behind ra rb ∨ Stuck ra) := by
  rcases h.cases_head with ⟨rfl, rfl⟩ | ⟨rfl, rfl⟩ | ⟨c, ta, tb, rfl, rfl, htail⟩
  · obtain ⟨rfl, rfl⟩ := parseValue_slot hspaces hword ha
    obtain ⟨rfl, rfl⟩ := parseValue_slot hspaces hword' hb
    exact ⟨⟨.inr (.inl ⟨rfl, rfl⟩), by simp⟩, .inl (.same _)⟩
  · cases hcolon
  · exact hvalues _ _ _ _ _ _ _ _ htail.skipSpace ha hb

include hspaces hword hword' in
theorem membersMatch_succ {fuel : ℕ} (hvalues : ValuesMatch spaces word word' behind fuel)
    (hmembers : MembersMatch spaces word word' behind fuel) :
    MembersMatch spaces word word' behind (fuel + 1) := by
  intro fuel' depth acc acc' a b ms ms' ra rb hacc hnodup h ha hb
  cases fuel' with
  | zero => cases hb
  | succ fuel' =>
  cases a with
  | nil => cases ha
  | cons c ta =>
  have hhead := h.head
  cases b with
  | nil => cases hb
  | cons c' tb =>
  obtain rfl : c = c' := Option.some.inj hhead
  rw [parseMembers] at ha hb
  split at ha
  · rename_i hquote
    rw [if_pos hquote] at hb
    obtain ⟨⟨key, ka⟩, hkey, ha⟩ := Except.bind_eq_ok.mp ha
    obtain ⟨⟨key', kb⟩, hkey', hb⟩ := Except.bind_eq_ok.mp hb
    obtain ⟨rfl, hrest⟩ := parseString_aligned hspaces hword (h.tail (by simp [hquote])) hkey hkey'
    simp only at ha hb
    split at ha
    · rename_i hcolon
      have hka : Aligned spaces word word' behind (Json.skipSpace ka) (Json.skipSpace kb) := by
        rcases hrest with hrest | hstuck
        · exact hrest.skipSpace
        · exact absurd hcolon (hstuck.head_skipSpace (by decide))
      rw [← hka.head, if_pos hcolon] at hb
      obtain ⟨⟨v, va⟩, hv, ha⟩ := Except.bind_eq_ok.mp ha
      obtain ⟨⟨v', vb⟩, hv', hb⟩ := Except.bind_eq_ok.mp hb
      obtain ⟨hmatch, hnext⟩ := valuesMatch_colon hspaces hword hword' hvalues hka hcolon hv hv'
      have hacc' := hacc.insert key hmatch.near
      have hnodup' := nodup_insert hnodup key v
      simp only at ha hb
      rcases hnext with hnext | hstuck
      · have hskip := hnext.skipSpace
        rw [← hskip.head] at hb
        split at ha
        · rename_i hend
          rw [if_pos hend] at hb
          cases ha
          cases hb
          exact ⟨hacc', hnodup', hskip.tail (by simp [hend])⟩
        · rename_i hend
          rw [if_neg hend] at hb
          split at ha
          · rename_i hcomma
            rw [if_pos hcomma] at hb
            exact hmembers _ _ _ _ _ _ _ _ _ _ hacc' hnodup'
              (hskip.tail (by simp [hcomma])).skipSpace ha hb
          · cases ha
      · rw [if_neg (hstuck.head_skipSpace (by decide)),
          if_neg (hstuck.head_skipSpace (by decide))] at ha
        cases ha
    · cases ha
  · cases ha

theorem itemsMatch_succ {fuel : ℕ} (hvalues : ValuesMatch spaces word word' behind fuel)
    (hitems : ItemsMatch spaces word word' behind fuel) :
    ItemsMatch spaces word word' behind (fuel + 1) := by
  intro fuel' depth a b xs ys ra rb h ha hb
  cases fuel' with
  | zero => cases hb
  | succ fuel' =>
  rw [parseItems, Except.bind_eq_ok] at ha hb
  obtain ⟨⟨x, xa⟩, hx, ha⟩ := ha
  obtain ⟨⟨y, yb⟩, hy, hb⟩ := hb
  obtain ⟨hmatch, hnext⟩ := hvalues _ _ _ _ _ _ _ _ h hx hy
  simp only at ha hb
  rcases hnext with hnext | hstuck
  · have hskip := hnext.skipSpace
    rw [← hskip.head] at hb
    split at ha
    · rename_i hend
      rw [if_pos hend] at hb
      cases ha
      cases hb
      exact ⟨.cons hmatch.near .nil, hskip.tail (by simp [hend])⟩
    · rename_i hend
      rw [if_neg hend] at hb
      split at ha
      · rename_i hcomma
        rw [if_pos hcomma] at hb
        obtain ⟨⟨xs', ca⟩, hxs, ha⟩ := Except.bind_eq_ok.mp ha
        obtain ⟨⟨ys', cb⟩, hys, hb⟩ := Except.bind_eq_ok.mp hb
        cases ha
        cases hb
        obtain ⟨hnear, hrest⟩ := hitems _ _ _ _ _ _ _ _
          (hskip.tail (by simp [hcomma])).skipSpace hxs hys
        exact ⟨.cons hmatch.near hnear, hrest⟩
      · cases ha
  · rw [if_neg (hstuck.head_skipSpace (by decide)),
      if_neg (hstuck.head_skipSpace (by decide))] at ha
    cases ha

include hspaces hword hword' in
theorem readings_match (hne : word ≠ word') (fuel : ℕ) :
    ValuesMatch spaces word word' behind fuel ∧ MembersMatch spaces word word' behind fuel
      ∧ ItemsMatch spaces word word' behind fuel := by
  induction fuel with
  | zero =>
    refine ⟨?_, ?_, ?_⟩
    · intro _ _ _ _ _ _ _ _ _ ha
      cases ha
    · intro _ _ _ _ _ _ _ _ _ _ _ _ _ ha
      cases ha
    · intro _ _ _ _ _ _ _ _ _ ha
      cases ha
  | succ fuel ih =>
    obtain ⟨hvalues, hmembers, hitems⟩ := ih
    exact ⟨valuesMatch_succ hspaces hword hne hmembers hitems,
      membersMatch_succ hspaces hword hword' hvalues hmembers, itemsMatch_succ hvalues hitems⟩

include hspaces hword hword' in
/-- **Two readings of an object** with one word or the other in a slot have the same keys,
each key once, and near values. -/
theorem members_near_of_parse (hne : word ≠ word') {before : Text} {ms ms' : List (Text × Json)}
    (ha : parse (before ++ slot spaces word behind) = .ok (.obj ms))
    (hb : parse (before ++ slot spaces word' behind) = .ok (.obj ms')) :
    MembersNear word word' ms ms' ∧ (ms.map Prod.fst).Nodup := by
  rw [parse, Except.bind_eq_ok] at ha hb
  obtain ⟨⟨v, ra⟩, hv, ha⟩ := ha
  obtain ⟨⟨v', rb⟩, hv', hb⟩ := hb
  simp only at ha hb
  split at ha
  · split at hb
    · cases ha
      cases hb
      have hmatch := (readings_match hspaces hword hword' hne _).1 _ _ _ _ _ _ _ _
        (Aligned.before before).skipSpace hv hv'
      exact hmatch.1.members _ _ rfl rfl
    · cases hb
  · cases ha

end Replace

/-- An object is read with each key once. -/
theorem nodup_of_parse {cs : Text} {ms : List (Text × Json)} (h : parse cs = .ok (.obj ms)) :
    (ms.map Prod.fst).Nodup := by
  obtain ⟨⟨v, rest⟩, hv, h⟩ := Except.bind_eq_ok.mp h
  simp only at h
  split at h
  · cases h
    have hmatch := (@readings_match [] ['a'] ['b'] []
      (by simp) (isWord_singleton rfl) (isWord_singleton rfl) (by simp) _).1 _ _ _ _ _ _ _ _ (.same _) hv hv
    exact (hmatch.1.members ms ms rfl rfl).2
  · cases h

theorem nodup_of_loads {data : Bytes} {ms : List (Text × Json)} (h : loads data = .ok (.obj ms)) :
    (ms.map Prod.fst).Nodup := by
  unfold loads at h
  split at h
  · cases h
  · exact nodup_of_parse h

/-! ## From bytes -/

def charOf (b : UInt8) : Char := Char.ofNat b.toNat

/-- A byte below 128 begins a character of its own. -/
theorem decodeUtf8From_append {lone : Bool} {need acc low : ℕ} {b : UInt8} (hb : b.toNat < 0x80)
    (before rest : Bytes) :
    Text.decodeUtf8From lone need acc low (before ++ b :: rest)
      = (Text.decodeUtf8From lone need acc low before).bind fun cs =>
          (Text.decodeUtf8 lone (b :: rest)).map (cs ++ ·) := by
  induction before generalizing need acc low with
  | nil =>
    by_cases hneed : need = 0
    · subst hneed
      have hnil : Text.decodeUtf8From lone 0 acc low [] = some [] := rfl
      have hcons : Text.decodeUtf8From lone 0 acc low (b :: rest) = Text.decodeUtf8 lone (b :: rest) := by
        simp only [Text.decodeUtf8, Text.decodeUtf8From, if_true]
      rw [hnil, Option.bind_some, List.nil_append, hcons]
      simp only [List.nil_append, Option.map_id']
    · have hcontinued : ¬ (0x80 ≤ b.toNat ∧ b.toNat < 0xC0) := by omega
      have hcons : Text.decodeUtf8From lone need acc low (b :: rest) = none := by
        rw [Text.decodeUtf8From, if_neg hneed, if_neg hcontinued]
      have hnil : Text.decodeUtf8From lone need acc low [] = none := by
        rw [Text.decodeUtf8From, if_neg hneed]
      rw [List.nil_append, hcons, hnil]
      rfl
  | cons a before ih =>
    have hmap (c : Char) : (Text.decodeUtf8From lone 0 0 0 (before ++ b :: rest)).map (c :: ·)
        = ((Text.decodeUtf8From lone 0 0 0 before).map (c :: ·)).bind fun cs =>
            (Text.decodeUtf8 lone (b :: rest)).map (cs ++ ·) := by
      rw [ih]
      cases Text.decodeUtf8From lone 0 0 0 before with
      | none => rfl
      | some cs => cases Text.decodeUtf8 lone (b :: rest) <;> rfl
    rw [List.cons_append]
    simp only [Text.decodeUtf8From]
    split_ifs
    · exact hmap _
    · exact ih
    · exact ih
    · exact ih
    · rfl
    · rfl
    · cases Text.scalar lone (acc * 64 + (a.toNat - 0x80)) with
      | none => rfl
      | some c => exact hmap c
    · exact ih
    · rfl

/-- Bytes below 128 are their own characters. -/
theorem decodeUtf8_append {lone : Bool} {bs : Bytes} (h : ∀ b ∈ bs, b.toNat < 0x80) (rest : Bytes) :
    Text.decodeUtf8 lone (bs ++ rest) = (Text.decodeUtf8 lone rest).map (bs.map charOf ++ ·) := by
  induction bs with
  | nil => simp
  | cons b bs ih =>
    have htail := ih fun a ha => h a (List.mem_cons_of_mem b ha)
    rw [Text.decodeUtf8] at htail
    rw [List.cons_append, Text.decodeUtf8, Text.decodeUtf8From, if_pos rfl, if_pos (h b (by simp)),
      htail, Option.map_map]
    rfl

theorem even_of_units16 {big : Bool} : ∀ {bs : Bytes} {us : List ℕ},
    Text.units16 big bs = some us → bs.length % 2 = 0
  | [], _, _ => rfl
  | [_], _, h => by cases h
  | _ :: _ :: rest, _, h => by
    obtain ⟨us, hus, -⟩ := Option.map_eq_some_iff.mp h
    have := even_of_units16 hus
    simp only [List.length_cons]
    omega

theorem even_of_decodeUtf16 {big : Bool} {bs : Bytes} {cs : Text}
    (h : Text.decodeUtf16 big bs = some cs) : bs.length % 2 = 0 := by
  obtain ⟨us, hus, -⟩ := Option.map_eq_some_iff.mp h
  exact even_of_units16 hus

theorem even_of_decodeUtf32 {big : Bool} : ∀ {bs : Bytes} {cs : Text},
    Text.decodeUtf32 big bs = some cs → bs.length % 2 = 0
  | [], _, _ => rfl
  | [_], _, h => by cases h
  | [_, _], _, _ => by simp
  | [_, _, _], _, h => by cases h
  | _ :: _ :: _ :: _ :: rest, _, h => by
    obtain ⟨c, -, h⟩ := Option.bind_eq_some_iff.mp h
    obtain ⟨cs, hcs, -⟩ := Option.map_eq_some_iff.mp h
    have := even_of_decodeUtf32 hcs
    simp only [List.length_cons]
    omega

theorem isPrefixOf_append {literal before : Bytes} (h : literal.length ≤ before.length) (rest : Bytes) :
    literal.isPrefixOf (before ++ rest) = literal.isPrefixOf before := by
  rw [Bool.eq_iff_iff, List.isPrefixOf_iff_prefix, List.isPrefixOf_iff_prefix]
  exact ⟨fun hprefix => List.prefix_of_prefix_length_le hprefix (List.prefix_append _ _) h,
    fun hprefix => hprefix.trans (List.prefix_append _ _)⟩

/-- Four bytes decide how a byte string is decoded: as UTF-8, or two or four bytes at a
time. -/
theorem decodeDetected_append {before : Bytes} (h : 4 ≤ before.length) :
    ∃ n ≤ 4, (∀ rest, decodeDetected (before ++ rest) = Text.decodeUtf8 true ((before ++ rest).drop n))
      ∨ ∀ rest cs, decodeDetected (before ++ rest) = some cs →
          ((before ++ rest).drop n).length % 2 = 0 := by
  match before with
  | a :: b :: c :: d :: before =>
    have hprefix (literal : Bytes) (hlength : literal.length ≤ 4) (rest : Bytes) :
        literal.isPrefixOf (a :: b :: c :: d :: (before ++ rest)) = literal.isPrefixOf [a, b, c, d] :=
      @isPrefixOf_append _ [a, b, c, d] hlength (before ++ rest)
    have h₁ := hprefix [0, 0, 0xFE, 0xFF] (by simp)
    have h₂ := hprefix [0xFF, 0xFE, 0, 0] (by simp)
    have h₃ := hprefix [0xFE, 0xFF] (by simp)
    have h₄ := hprefix [0xFF, 0xFE] (by simp)
    have h₅ := hprefix [0xEF, 0xBB, 0xBF] (by simp)
    simp only [List.cons_append, decodeDetected, h₁, h₂, h₃, h₄, h₅]
    split_ifs
    · exact ⟨4, le_rfl, .inr fun _ _ => even_of_decodeUtf32⟩
    · exact ⟨4, le_rfl, .inr fun _ _ => even_of_decodeUtf32⟩
    · exact ⟨2, by omega, .inr fun _ _ => even_of_decodeUtf16⟩
    · exact ⟨2, by omega, .inr fun _ _ => even_of_decodeUtf16⟩
    · exact ⟨3, by omega, .inl fun _ => rfl⟩
    · exact ⟨0, by omega, .inr fun _ _ => even_of_decodeUtf32⟩
    · exact ⟨0, by omega, .inr fun _ _ => even_of_decodeUtf16⟩
    · exact ⟨0, by omega, .inr fun _ _ => even_of_decodeUtf32⟩
    · exact ⟨0, by omega, .inr fun _ _ => even_of_decodeUtf16⟩
    · exact ⟨0, by omega, .inl fun _ => rfl⟩

/-- The characters of the bytes around a slot. -/
theorem decodeUtf8_slot {spaces word : Bytes} (hspaces : ∀ b ∈ spaces, b.toNat < 0x80)
    (hword : ∀ b ∈ word, b.toNat < 0x80) (before rest : Bytes) :
    Text.decodeUtf8 true (before ++ 58 :: (spaces ++ 34 :: (word ++ 34 :: rest)))
      = (Text.decodeUtf8 true before).bind fun p => (Text.decodeUtf8 true rest).map fun q =>
          p ++ slot (spaces.map charOf) (word.map charOf) q := by
  have hascii : ∀ b ∈ 58 :: (spaces ++ 34 :: (word ++ [34])), b.toNat < 0x80 := by
    simp only [List.mem_cons, List.mem_append, List.not_mem_nil, or_false]
    rintro b (rfl | hb | rfl | hb | rfl)
    · decide
    · exact hspaces b hb
    · decide
    · exact hword b hb
    · decide
  have hsplit : 58 :: (spaces ++ 34 :: (word ++ 34 :: rest))
      = 58 :: (spaces ++ 34 :: (word ++ [34])) ++ rest := by simp
  have hchars : (58 :: (spaces ++ 34 :: (word ++ [34]))).map charOf
      = ':' :: (spaces.map charOf ++ '"' :: (word.map charOf ++ ['"'])) := by
    have hcolon : charOf 58 = ':' := by decide
    have hquote : charOf 34 = '"' := by decide
    simp [hcolon, hquote]
  have hcut (rest : Bytes) : Text.decodeUtf8 true (before ++ 58 :: rest)
      = (Text.decodeUtf8 true before).bind fun p => (Text.decodeUtf8 true (58 :: rest)).map (p ++ ·) :=
    decodeUtf8From_append (by decide) before rest
  rw [hcut, hsplit, decodeUtf8_append hascii, hchars]
  cases Text.decodeUtf8 true before with
  | none => rfl
  | some p => cases Text.decodeUtf8 true rest <;> simp [slot]

/-- **Two byte strings** that differ in the word of a slot, when their lengths do not have
the same parity: whatever the encoding of the rest, two objects that are read from them
are near. -/
theorem members_near_of_loads {before spaces word word' rest : Bytes} {ms ms' : List (Text × Json)}
    (hbefore : 4 ≤ before.length)
    (hspaces : ∀ b ∈ spaces, b.toNat < 0x80 ∧ IsBlank (charOf b))
    (hword : ∀ b ∈ word, b.toNat < 0x80 ∧ (charOf b).isLower)
    (hword' : ∀ b ∈ word', b.toNat < 0x80 ∧ (charOf b).isLower)
    (hne : word ≠ []) (hne' : word' ≠ []) (hparity : (word.length + word'.length) % 2 = 1)
    (h : loads (before ++ 58 :: (spaces ++ 34 :: (word ++ 34 :: rest))) = .ok (.obj ms))
    (h' : loads (before ++ 58 :: (spaces ++ 34 :: (word' ++ 34 :: rest))) = .ok (.obj ms')) :
    MembersNear (word.map charOf) (word'.map charOf) ms ms' ∧ (ms.map Prod.fst).Nodup := by
  have hdiffer : word.map charOf ≠ word'.map charOf := by
    intro heq
    have := congrArg List.length heq
    simp only [List.length_map] at this
    omega
  obtain ⟨n, hn, hutf8 | hwide⟩ := decodeDetected_append hbefore
  · have hdrop (rest : Bytes) : (before ++ rest).drop n = before.drop n ++ rest :=
      List.drop_append_of_le_length (by omega)
    rw [loads, hutf8, hdrop, decodeUtf8_slot (fun b hb => (hspaces b hb).1) fun b hb => (hword b hb).1] at h
    rw [loads, hutf8, hdrop, decodeUtf8_slot (fun b hb => (hspaces b hb).1) fun b hb => (hword' b hb).1] at h'
    cases hp : Text.decodeUtf8 true (before.drop n) with
    | none =>
      rw [hp] at h
      cases h
    | some p =>
      cases hq : Text.decodeUtf8 true rest with
      | none =>
        rw [hp, hq] at h
        cases h
      | some q =>
        rw [hp, hq] at h h'
        refine members_near_of_parse ?_ ⟨by simpa using hne, ?_⟩ ⟨by simpa using hne', ?_⟩ hdiffer h h'
        · intro c hc
          obtain ⟨b, hb, rfl⟩ := List.mem_map.mp hc
          exact (hspaces b hb).2
        · intro c hc
          obtain ⟨b, hb, rfl⟩ := List.mem_map.mp hc
          exact (hword b hb).2
        · intro c hc
          obtain ⟨b, hb, rfl⟩ := List.mem_map.mp hc
          exact (hword' b hb).2
  · have hsome {data : Bytes} {v : Json} (hv : loads data = .ok v) : ∃ cs, decodeDetected data = some cs := by
      cases hcs : decodeDetected data with
      | none =>
        rw [loads, hcs] at hv
        cases hv
      | some cs => exact ⟨cs, rfl⟩
    obtain ⟨cs, hcs⟩ := hsome h
    obtain ⟨cs', hcs'⟩ := hsome h'
    have heven := hwide _ _ hcs
    have heven' := hwide _ _ hcs'
    simp only [List.length_drop, List.length_append, List.length_cons] at heven heven'
    omega

end Json
