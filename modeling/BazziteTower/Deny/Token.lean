import BazziteTower.Deny.Edit
import BazziteTower.Lib.JsonHook
import BazziteTower.Lib.JsonReplace

/-!
# The edited token

The edit of DefaultAction works on bytes, and checks itself by decoding what it made.
What it accepts, and what the result is, can be said for every byte string.

## Main definitions

* `groupOf`, `IsAction` — the bytes in front of the value of the key, and the value.
* `ValueEdited` — the effect of an edit.
* `takesEffect` — the edited document is the old one with the key assigned.
* `Unfit` — the documents in which there would be another effect.
* `Duplicated` — the documents that hold the key twice.

## Main results

* `setAction_exact` — the edit replaces the value bytes, the document changes in that
  key only, and which documents are edited.
-/

namespace Deny

/-! ## The pattern -/

/-- The words that the pattern admits. -/
def IsAction (word : Bytes) : Prop := word = ascii "allow" ∨ word = ascii "deny"

/-- The first group of a match: the key and the opening quote of its value. -/
def groupOf (spaces spaces' : Bytes) : Bytes := key ++ spaces ++ 58 :: spaces' ++ [34]

theorem drop_takeWhile (p : UInt8 → Bool) (bs : Bytes) :
    bs.drop (bs.takeWhile p).length = bs.dropWhile p := by
  conv_lhs => rw [← List.takeWhile_append_dropWhile (p := p) (l := bs)]
  induction bs with
  | nil => rfl
  | cons b bs ih =>
    by_cases hb : p b
    · simpa [hb] using ih
    · simp [hb]

/-- The pattern, with the white space dropped. -/
theorem matchAction_eq (bs : Bytes) : matchAction bs =
    if key.isPrefixOf bs then
      let tail := (bs.drop key.length).dropWhile isSpaceByte
      if tail.head? = some 58 then
        let value := tail.tail.dropWhile isSpaceByte
        let head := groupOf ((bs.drop key.length).takeWhile isSpaceByte) (tail.tail.takeWhile isSpaceByte)
        if (ascii "\"allow\"").isPrefixOf value then some (head, ascii "allow")
        else if (ascii "\"deny\"").isPrefixOf value then some (head, ascii "deny")
        else none
      else none
    else none := by
  simp only [matchAction, drop_takeWhile, groupOf]

/-- What `ACTION` matches at the head of the bytes. -/
theorem matchAction_cases {bs head old : Bytes} (h : matchAction bs = some (head, old)) :
    ∃ spaces spaces' rest, (∀ b ∈ spaces, isSpaceByte b) ∧ (∀ b ∈ spaces', isSpaceByte b) ∧
      head = groupOf spaces spaces' ∧ IsAction old ∧ bs = head ++ old ++ 34 :: rest := by
  rw [matchAction_eq] at h
  split at h
  · rename_i hkey
    obtain ⟨tail, rfl⟩ := List.isPrefixOf_iff_prefix.mp hkey
    simp only [List.drop_left] at h
    split at h
    · rename_i hcolon
      obtain ⟨value, hvalue⟩ := List.head?_eq_some_iff.mp hcolon
      have hbefore := List.takeWhile_append_dropWhile (p := isSpaceByte) (l := tail)
      have hafter := List.takeWhile_append_dropWhile (p := isSpaceByte) (l := value)
      rw [hvalue] at hbefore
      rw [hvalue, List.tail_cons] at h
      have hspaces (bs : Bytes) : ∀ b ∈ bs.takeWhile isSpaceByte, isSpaceByte b :=
        fun b hb => List.all_eq_true.mp List.all_takeWhile b hb
      have hbytes {word rest : Bytes} (hrest : 34 :: word ++ [34] ++ rest = value.dropWhile isSpaceByte) :
          key ++ tail = groupOf (tail.takeWhile isSpaceByte) (value.takeWhile isSpaceByte)
            ++ word ++ 34 :: rest := by
        conv_lhs => rw [← hbefore, ← hafter, ← hrest]
        simp [groupOf]
      split at h
      · rename_i hword
        obtain ⟨rest, hrest⟩ := List.isPrefixOf_iff_prefix.mp hword
        cases h
        exact ⟨_, _, rest, hspaces _, hspaces _, rfl, .inl rfl, hbytes hrest⟩
      · split at h
        · rename_i hword
          obtain ⟨rest, hrest⟩ := List.isPrefixOf_iff_prefix.mp hword
          cases h
          exact ⟨_, _, rest, hspaces _, hspaces _, rfl, .inr rfl, hbytes hrest⟩
        · cases h
    · cases h
  · cases h

theorem takeWhile_spaces {spaces rest : Bytes} {b : UInt8} (h : ∀ b ∈ spaces, isSpaceByte b)
    (hb : isSpaceByte b = false) :
    (spaces ++ b :: rest).takeWhile isSpaceByte = spaces
      ∧ (spaces ++ b :: rest).dropWhile isSpaceByte = b :: rest := by
  rw [List.takeWhile_append_of_pos h, List.dropWhile_append_of_pos h]
  simp [hb]

/-- The pattern matches each of its words behind its first group. -/
theorem matchAction_groupOf {spaces spaces' word rest : Bytes} (h : ∀ b ∈ spaces, isSpaceByte b)
    (h' : ∀ b ∈ spaces', isSpaceByte b) (hword : IsAction word) :
    matchAction (groupOf spaces spaces' ++ word ++ 34 :: rest) = some (groupOf spaces spaces', word) := by
  have hkey : key.isPrefixOf (groupOf spaces spaces' ++ word ++ 34 :: rest) := by
    rw [List.isPrefixOf_iff_prefix]
    exact ⟨spaces ++ 58 :: (spaces' ++ 34 :: (word ++ 34 :: rest)), by simp [groupOf]⟩
  have htail : (groupOf spaces spaces' ++ word ++ 34 :: rest).drop key.length
      = spaces ++ 58 :: (spaces' ++ 34 :: (word ++ 34 :: rest)) := by
    simp [groupOf]
  rw [matchAction_eq, if_pos hkey]
  simp only [htail]
  obtain ⟨htake, hdrop⟩ := @takeWhile_spaces _ (spaces' ++ 34 :: (word ++ 34 :: rest)) _ h
    (show isSpaceByte 58 = false by decide)
  obtain ⟨htake', hdrop'⟩ := @takeWhile_spaces _ (word ++ 34 :: rest) _ h'
    (show isSpaceByte 34 = false by decide)
  rw [htake, hdrop]
  simp only [List.head?_cons, List.tail_cons, if_true, htake', hdrop']
  rcases hword with rfl | rfl
  · rfl
  · rfl

/-! ## The substitution -/

theorem subAction_skip (value : Bytes) (skip : ℕ) (bs : Bytes) :
    subAction value skip bs = subAction value 0 (bs.drop skip) := by
  induction bs generalizing skip with
  | nil => cases skip <;> rfl
  | cons b bs ih =>
    cases skip with
    | zero => rfl
    | succ skip => exact ih skip

/-- No match begins in the first part of the bytes. -/
def NoMatch (before rest : Bytes) : Prop :=
  ∀ s, s <:+ before → s ≠ [] → matchAction (s ++ rest) = none

theorem NoMatch.tail {b : UInt8} {before rest : Bytes} (h : NoMatch (b :: before) rest) :
    NoMatch before rest :=
  fun s hs => h s (hs.trans (List.suffix_cons b before))

/-- Up to the first match everything is copied. -/
theorem subAction_append {value before rest : Bytes} (h : NoMatch before rest) :
    subAction value 0 (before ++ rest)
      = (before ++ (subAction value 0 rest).1, (subAction value 0 rest).2) := by
  induction before with
  | nil => rfl
  | cons b before ih =>
    have hnone := h (b :: before) (List.suffix_refl _) (by simp)
    rw [List.cons_append] at hnone ⊢
    rw [subAction, hnone]
    simp only [ih h.tail, List.cons_append]

/-- One match, and the scan goes on behind it. -/
theorem subAction_match {value head old rest : Bytes} (hne : head ≠ [])
    (h : matchAction (head ++ old ++ 34 :: rest) = some (head, old)) :
    subAction value 0 (head ++ old ++ 34 :: rest)
      = (head ++ value ++ 34 :: (subAction value 0 rest).1, (subAction value 0 rest).2 + 1) := by
  obtain ⟨b, head, rfl⟩ := List.exists_cons_of_ne_nil hne
  have hdrop : (head ++ old ++ 34 :: rest).drop ((b :: head).length + old.length) = rest := by
    have hsplit : head ++ old ++ 34 :: rest = (head ++ old ++ [34]) ++ rest := by simp
    rw [hsplit]
    apply List.drop_left'
    simp only [List.length_append, List.length_cons, List.length_nil]
    omega
  rw [List.cons_append, List.cons_append] at h ⊢
  rw [subAction, h]
  simp only [subAction_skip _ ((b :: head).length + old.length), hdrop]

/-- Without a match nothing changes, whatever the value is. -/
theorem subAction_none {value value' bs : Bytes} (h : (subAction value 0 bs).2 = 0) :
    subAction value' 0 bs = (bs, 0) := by
  induction bs with
  | nil => rfl
  | cons b bs ih =>
    rw [subAction] at h ⊢
    cases hmatch : matchAction (b :: bs) with
    | some m =>
      rw [hmatch] at h
      cases h
    | none =>
      rw [hmatch] at h
      simp only [ih h]

/-- Exactly one match: what stands before it, and what behind. -/
theorem subAction_one {value bs : Bytes} (h : (subAction value 0 bs).2 = 1) :
    ∃ before head old rest, bs = before ++ (head ++ old ++ 34 :: rest) ∧
      matchAction (head ++ old ++ 34 :: rest) = some (head, old) ∧
      NoMatch before (head ++ old ++ 34 :: rest) ∧ (subAction value 0 rest).2 = 0 := by
  induction bs with
  | nil => cases h
  | cons b bs ih =>
    cases hmatch : matchAction (b :: bs) with
    | some m =>
      obtain ⟨head, old⟩ := m
      obtain ⟨spaces, spaces', rest, -, -, rfl, -, hbs⟩ := matchAction_cases hmatch
      rw [hbs] at h hmatch
      rw [subAction_match (by simp [groupOf]) hmatch] at h
      refine ⟨[], _, _, rest, hbs, hmatch, ?_, by simpa using h⟩
      intro s hs hne
      exact absurd (List.suffix_nil.mp hs) hne
    | none =>
      rw [subAction, hmatch] at h
      obtain ⟨before, head, old, rest, rfl, hhead, hbefore, hrest⟩ := ih h
      refine ⟨b :: before, head, old, rest, rfl, hhead, ?_, hrest⟩
      intro s hs hne
      rcases List.suffix_cons_iff.mp hs with rfl | hs
      · exact hmatch
      · exact hbefore s hs hne

/-! ## What the value bytes do not reach -/

/-- A literal in which a quote can only be the first or the last byte. -/
def Quoted (literal : Bytes) : Prop :=
  ∀ n < literal.length, 0 < n → literal.drop n = [34] ∨ (literal.drop n).head? ≠ some 34

theorem Quoted.tail {b : UInt8} {literal : Bytes} (h : Quoted (b :: literal)) : Quoted literal :=
  fun n hlength _ => h (n + 1) (by simpa using hlength) (by omega)

/-- A literal that begins earlier ends at a quote at the latest. -/
theorem isPrefixOf_quote {literal s rest : Bytes} (hs : s ≠ []) (h : Quoted literal) :
    literal.isPrefixOf (s ++ 34 :: rest) = literal.isPrefixOf (s ++ [34]) := by
  induction s generalizing literal with
  | nil => exact absurd rfl hs
  | cons b s ih =>
    cases literal with
    | nil => rfl
    | cons l literal =>
      rw [List.cons_append, List.cons_append, List.isPrefixOf, List.isPrefixOf]
      by_cases hnil : s = []
      · subst hnil
        cases literal with
        | nil => rfl
        | cons l' literal =>
          have hone := h 1 (by simp) (by omega)
          rw [List.drop_one, List.tail_cons, List.head?_cons] at hone
          rcases hone with hone | hone
          · obtain ⟨rfl, rfl⟩ := List.cons.inj hone
            rfl
          · have hne : (l' == 34) = false := by simpa using hone
            simp only [List.nil_append, List.isPrefixOf, hne, Bool.false_and]
      · rw [ih hnil h.tail]

theorem dropWhile_append_stop {p : UInt8 → Bool} {b : UInt8} (hb : p b = false) (s rest : Bytes) :
    (s ++ b :: rest).dropWhile p = s.dropWhile p ++ b :: rest
      ∧ (s ++ b :: rest).takeWhile p = s.takeWhile p := by
  induction s with
  | nil => simp [hb]
  | cons c s ih =>
    by_cases hc : p c
    · simpa [hc] using ih
    · simp [hc]

/-- The bytes of the key and of the two words. -/
theorem ascii_bytes :
    ascii "DefaultAction" = [68, 101, 102, 97, 117, 108, 116, 65, 99, 116, 105, 111, 110]
      ∧ key = 34 :: (ascii "DefaultAction" ++ [34])
      ∧ ascii "allow" = [97, 108, 108, 111, 119] ∧ ascii "deny" = [100, 101, 110, 121]
      ∧ ascii "\"allow\"" = 34 :: (ascii "allow" ++ [34])
      ∧ ascii "\"deny\"" = 34 :: (ascii "deny" ++ [34]) := by
  decide +kernel

theorem key_eq : key = 34 :: (ascii "DefaultAction" ++ [34]) := ascii_bytes.2.1

theorem length_key : key.length = 15 := by
  rw [key_eq, ascii_bytes.1]
  rfl

theorem allow_eq : ascii "allow" = [97, 108, 108, 111, 119] := ascii_bytes.2.2.1

theorem deny_eq : ascii "deny" = [100, 101, 110, 121] := ascii_bytes.2.2.2.1

theorem quoted_key : Quoted key := by
  unfold Quoted
  rw [key_eq, ascii_bytes.1]
  decide

theorem quoted_allow : Quoted (ascii "\"allow\"") := by
  unfold Quoted
  rw [ascii_bytes.2.2.2.2.1, allow_eq]
  decide

theorem quoted_deny : Quoted (ascii "\"deny\"") := by
  unfold Quoted
  rw [ascii_bytes.2.2.2.2.2, deny_eq]
  decide

/-- A match that begins before a quote and a `D` does not depend on what follows these. -/
theorem matchAction_quote {s : Bytes} (hs : s ≠ []) (rest rest' : Bytes) :
    matchAction (s ++ 34 :: 68 :: rest) = matchAction (s ++ 34 :: 68 :: rest') := by
  have hprefix (rest : Bytes) : key.isPrefixOf (s ++ 34 :: 68 :: rest) = key.isPrefixOf (s ++ [34]) :=
    isPrefixOf_quote hs quoted_key
  rw [matchAction_eq, matchAction_eq, hprefix, hprefix]
  by_cases hkey : key.isPrefixOf (s ++ [34])
  · rw [if_pos hkey, if_pos hkey, length_key]
    have hlength := (List.isPrefixOf_iff_prefix.mp hkey).length_le
    rw [length_key, List.length_append, List.length_singleton] at hlength
    by_cases hshort : s.length = 14
    · have hdrop (rest : Bytes) : (s ++ 34 :: 68 :: rest).drop 15 = 68 :: rest := by
        have hsplit : s ++ 34 :: 68 :: rest = (s ++ [34]) ++ 68 :: rest := by simp
        rw [hsplit]
        exact List.drop_left' (by simp [hshort])
      have hD : isSpaceByte 68 = false := by decide
      simp [hdrop, hD]
    · have hdrop (rest : Bytes) : (s ++ 34 :: 68 :: rest).drop 15 = s.drop 15 ++ 34 :: 68 :: rest :=
        List.drop_append_of_le_length (by omega)
      have hspace : isSpaceByte 34 = false := by decide
      simp only [hdrop, (dropWhile_append_stop hspace _ _).1, (dropWhile_append_stop hspace _ _).2]
      cases hvalue : (s.drop 15).dropWhile isSpaceByte with
      | nil => rfl
      | cons c value =>
        simp only [List.cons_append, List.head?_cons, List.tail_cons,
          (dropWhile_append_stop hspace _ _).1, (dropWhile_append_stop hspace _ _).2]
        by_cases hempty : value.dropWhile isSpaceByte = []
        · rw [hempty]
          rfl
        · simp only [isPrefixOf_quote hempty quoted_allow, isPrefixOf_quote hempty quoted_deny]
  · rw [if_neg hkey, if_neg hkey]

theorem groupOf_eq (spaces spaces' : Bytes) :
    ∃ rest, groupOf spaces spaces' = 34 :: 68 :: rest := ⟨_, rfl⟩

/-- Where no match begins, none begins with another word behind. -/
theorem NoMatch.word {before spaces spaces' word word' rest : Bytes}
    (h : NoMatch before (groupOf spaces spaces' ++ word ++ 34 :: rest)) :
    NoMatch before (groupOf spaces spaces' ++ word' ++ 34 :: rest) := by
  intro s hs hne
  have hnone := h s hs hne
  obtain ⟨tail, htail⟩ := groupOf_eq spaces spaces'
  rw [htail] at hnone ⊢
  rw [← hnone]
  exact matchAction_quote hne _ _

/-! ## The count -/

theorem countKey_skip (skip : ℕ) (bs : Bytes) : countKey skip bs = countKey 0 (bs.drop skip) := by
  induction bs generalizing skip with
  | nil => cases skip <;> rfl
  | cons b bs ih =>
    cases skip with
    | zero => rfl
    | succ skip => exact ih skip

theorem countKey_of_ne {a b : UInt8} {bs : Bytes} (h : a ≠ 34 ∨ b ≠ 68) :
    countKey 0 (a :: b :: bs) = countKey 0 (b :: bs) := by
  have hkey : key.isPrefixOf (a :: b :: bs) = false := by
    have hcons : key = 34 :: 68 :: key.drop 2 := by rw [key_eq, ascii_bytes.1]; rfl
    rw [hcons]
    rcases h with h | h
    · have ha : ((34 : UInt8) == a) = false := by simpa using Ne.symm h
      simp only [List.isPrefixOf, ha, Bool.false_and]
    · have hb : ((68 : UInt8) == b) = false := by simpa using Ne.symm h
      simp only [List.isPrefixOf, hb, Bool.false_and, Bool.and_false]
  rw [countKey, hkey]
  rfl

theorem countKey_append_of_ne {as : Bytes} {b : UInt8} {bs : Bytes} (h : ∀ a ∈ as, a ≠ 34) :
    countKey 0 (as ++ b :: bs) = countKey 0 (b :: bs) := by
  induction as with
  | nil => rfl
  | cons a as ih =>
    have htail := ih fun x hx => h x (List.mem_cons_of_mem a hx)
    cases as with
    | nil => exact countKey_of_ne (.inl (h a (by simp)))
    | cons a' as => exact (countKey_of_ne (.inl (h a (by simp)))).trans htail

theorem isAction_head {word : Bytes} (h : IsAction word) :
    ∃ b bs, word = b :: bs ∧ b ≠ 68 ∧ ∀ a ∈ word, a ≠ 34 := by
  rcases h with rfl | rfl
  · exact ⟨_, _, allow_eq, by decide, by simp [allow_eq]⟩
  · exact ⟨_, _, deny_eq, by decide, by simp [deny_eq]⟩

theorem ne_quote_of_isSpaceByte {spaces : Bytes} (h : ∀ b ∈ spaces, isSpaceByte b) :
    ∀ b ∈ spaces, b ≠ 34 := by
  rintro b hb rfl
  exact absurd (h _ hb) (by decide)

/-- Between the key and the closing quote of its value no key begins. -/
theorem countKey_behind {spaces spaces' word rest : Bytes} (h : ∀ b ∈ spaces, isSpaceByte b)
    (h' : ∀ b ∈ spaces', isSpaceByte b) (hword : IsAction word) :
    countKey 0 (spaces ++ 58 :: (spaces' ++ 34 :: (word ++ 34 :: rest))) = countKey 0 (34 :: rest) := by
  obtain ⟨b, bs, hcons, hb, hne⟩ := isAction_head hword
  have hquote : countKey 0 (34 :: (word ++ 34 :: rest)) = countKey 0 (word ++ 34 :: rest) := by
    rw [hcons]
    exact countKey_of_ne (.inr hb)
  have hspaces : ∀ a ∈ spaces ++ 58 :: spaces', a ≠ 34 := by
    intro a ha
    rcases List.mem_append.mp ha with ha | ha
    · exact ne_quote_of_isSpaceByte h a ha
    · rcases List.mem_cons.mp ha with rfl | ha
      · decide
      · exact ne_quote_of_isSpaceByte h' a ha
  have hsplit : spaces ++ 58 :: (spaces' ++ 34 :: (word ++ 34 :: rest))
      = (spaces ++ 58 :: spaces') ++ 34 :: (word ++ 34 :: rest) := by simp
  rw [hsplit, countKey_append_of_ne hspaces, hquote, countKey_append_of_ne hne]

theorem countKey_groupOf {spaces spaces' word rest : Bytes} (h : ∀ b ∈ spaces, isSpaceByte b)
    (h' : ∀ b ∈ spaces', isSpaceByte b) (hword : IsAction word) :
    countKey 0 (groupOf spaces spaces' ++ word ++ 34 :: rest) = countKey 0 (34 :: rest) + 1
      ∧ countKey 1 (groupOf spaces spaces' ++ word ++ 34 :: rest) = countKey 0 (34 :: rest) := by
  have hbehind := @countKey_behind _ _ _ rest h h' hword
  obtain ⟨behind, hZ⟩ : ∃ Z, Z = spaces ++ 58 :: (spaces' ++ 34 :: (word ++ 34 :: rest)) := ⟨_, rfl⟩
  obtain ⟨c, cs, hcons, hc⟩ : ∃ c cs, behind = c :: cs ∧ c ≠ 68 := by
    cases spaces with
    | nil => exact ⟨58, _, hZ, by decide⟩
    | cons c spaces =>
      refine ⟨c, _, hZ, ?_⟩
      rintro rfl
      exact absurd (h 68 (by simp)) (by decide)
  have hgroup : groupOf spaces spaces' ++ word ++ 34 :: rest
      = 34 :: (ascii "DefaultAction" ++ 34 :: behind) := by
    simp [groupOf, key_eq, hZ]
  rw [← hZ] at hbehind
  constructor
  · have hprefix : key.isPrefixOf (34 :: (ascii "DefaultAction" ++ 34 :: behind)) := by
      rw [List.isPrefixOf_iff_prefix, key_eq]
      exact ⟨behind, by simp⟩
    have hlength : key.length - 1 = (ascii "DefaultAction" ++ [34]).length := by
      rw [key_eq, List.length_cons, Nat.add_sub_cancel]
    have hdrop : (ascii "DefaultAction" ++ 34 :: behind).drop (key.length - 1) = behind := by
      have hsplit : ascii "DefaultAction" ++ 34 :: behind = (ascii "DefaultAction" ++ [34]) ++ behind := by
        simp
      rw [hlength, hsplit, List.drop_left]
    rw [hgroup, countKey, if_pos hprefix, countKey_skip, hdrop, hbehind]
  · rw [hgroup, countKey, countKey_append_of_ne (by simp [ascii_bytes.1]), hcons, countKey_of_ne (.inr hc),
      ← hcons, hbehind]

/-- The number of keys does not depend on the word. -/
theorem countKey_word {spaces spaces' word word' rest s : Bytes} {skip : ℕ}
    (h : ∀ b ∈ spaces, isSpaceByte b) (h' : ∀ b ∈ spaces', isSpaceByte b) (hword : IsAction word)
    (hword' : IsAction word') (hskip : skip ≤ s.length + 1) :
    countKey skip (s ++ (groupOf spaces spaces' ++ word ++ 34 :: rest))
      = countKey skip (s ++ (groupOf spaces spaces' ++ word' ++ 34 :: rest)) := by
  induction s generalizing skip with
  | nil =>
    obtain ⟨hzero, hone⟩ := @countKey_groupOf _ _ _ rest h h' hword
    obtain ⟨hzero', hone'⟩ := @countKey_groupOf _ _ _ rest h h' hword'
    rw [List.nil_append, List.nil_append]
    rw [List.length_nil] at hskip
    obtain rfl | rfl : skip = 0 ∨ skip = 1 := by omega
    · rw [hzero, hzero']
    · rw [hone, hone']
  | cons b s ih =>
    cases skip with
    | succ skip => exact ih (by simpa using hskip)
    | zero =>
      obtain ⟨tail, htail⟩ := groupOf_eq spaces spaces'
      have hprefix (word : Bytes) :
          key.isPrefixOf (b :: s ++ (groupOf spaces spaces' ++ word ++ 34 :: rest))
            = key.isPrefixOf (b :: s ++ [34]) := by
        rw [htail]
        exact isPrefixOf_quote (by simp) quoted_key
      have hprefix₁ := hprefix word
      have hprefix₂ := hprefix word'
      rw [List.cons_append] at hprefix₁ hprefix₂
      rw [List.cons_append, List.cons_append, countKey, countKey, hprefix₁, hprefix₂]
      split
      · rename_i hkey
        have hlength := (List.isPrefixOf_iff_prefix.mp hkey).length_le
        rw [length_key, List.length_append, List.length_cons, List.length_singleton] at hlength
        rw [ih (by rw [length_key]; omega)]
      · exact ih (Nat.zero_le _)

/-! ## The edit -/

/-- What an edit does: in the bytes it replaces the value of the one key, and in the
document it assigns to that key. -/
structure ValueEdited (data result : Bytes) (action : Action) : Prop where
  token : ∃ before spaces spaces' old rest,
    (∀ b ∈ spaces, isSpaceByte b) ∧ (∀ b ∈ spaces', isSpaceByte b) ∧ IsAction old ∧
      data = before ++ (groupOf spaces spaces' ++ old ++ 34 :: rest) ∧
      result = before ++ (groupOf spaces spaces' ++ ascii action.word ++ 34 :: rest)
  single : countKey 0 data = 1
  document : ∃ ms, Json.loads data = .ok (.obj ms) ∧
    Json.loads result
      = .ok (.obj (Json.insert "DefaultAction".toList (.str action.word.toList) ms)) ∧
    (Json.find "DefaultAction".toList ms = some (.str "allow".toList)
      ∨ Json.find "DefaultAction".toList ms = some (.str "deny".toList))

theorem isAction_word {action : Action} (h : action = .allow ∨ action = .deny) :
    IsAction (ascii action.word) := by
  rcases h with rfl | rfl
  · exact .inl rfl
  · exact .inr rfl

theorem ascii_lower : (∀ b ∈ ascii "allow", b.toNat < 0x80 ∧ (Json.charOf b).isLower)
    ∧ ∀ b ∈ ascii "deny", b.toNat < 0x80 ∧ (Json.charOf b).isLower := by
  rw [allow_eq, deny_eq]
  simp only [List.forall_mem_cons, List.not_mem_nil, false_implies, implies_true, and_true]
  decide

theorem isAction_lower {word : Bytes} (h : IsAction word) :
    word ≠ [] ∧ ∀ b ∈ word, b.toNat < 0x80 ∧ (Json.charOf b).isLower := by
  rcases h with rfl | rfl
  · exact ⟨by simp [allow_eq], ascii_lower.1⟩
  · exact ⟨by simp [deny_eq], ascii_lower.2⟩

theorem isBlank_of_isSpaceByte {b : UInt8} (h : isSpaceByte b) :
    b.toNat < 0x80 ∧ Json.IsBlank (Json.charOf b) := by
  simp only [isSpaceByte, Bool.or_eq_true, Bool.and_eq_true, decide_eq_true_eq] at h
  rcases h with rfl | ⟨hlow, hhigh⟩
  · decide
  · have hlow := UInt8.le_iff_toNat_le.mp hlow
    have hhigh := UInt8.le_iff_toNat_le.mp hhigh
    have hcases : b.toNat = 9 ∨ b.toNat = 10 ∨ b.toNat = 11 ∨ b.toNat = 12 ∨ b.toNat = 13 := by
      have h9 : (9 : UInt8).toNat = 9 := rfl
      have h13 : (13 : UInt8).toNat = 13 := rfl
      omega
    rw [Json.charOf]
    rcases hcases with h | h | h | h | h <;> rw [h] <;> decide

/-- Two words of the pattern are the same, or their lengths differ by one. -/
theorem isAction_parity {word word' : Bytes} (h : IsAction word) (h' : IsAction word') :
    word = word' ∨ (word.length + word'.length) % 2 = 1 := by
  rcases h with rfl | rfl <;> rcases h' with rfl | rfl <;> simp [allow_eq, deny_eq]

/-- The texts of the words. -/
theorem ascii_chars : (ascii "allow").map Json.charOf = "allow".toList
    ∧ (ascii "deny").map Json.charOf = "deny".toList := by
  decide +kernel

theorem isAction_chars {word : Bytes} (h : IsAction word) :
    word.map Json.charOf = "allow".toList ∨ word.map Json.charOf = "deny".toList := by
  rcases h with rfl | rfl
  · exact .inl ascii_chars.1
  · exact .inr ascii_chars.2

theorem map_charOf_word {action : Action} (h : action = .allow ∨ action = .deny) :
    (ascii action.word).map Json.charOf = action.word.toList := by
  rcases h with rfl | rfl
  · exact ascii_chars.1
  · exact ascii_chars.2

/-- The bytes around the one match, and the bytes of the result. -/
theorem setAction_bytes {data result : Bytes} {action : Action}
    (h : setAction data action = .ok result) :
    ∃ before spaces spaces' old rest,
      (∀ b ∈ spaces, isSpaceByte b) ∧ (∀ b ∈ spaces', isSpaceByte b) ∧ IsAction old ∧
        data = before ++ (groupOf spaces spaces' ++ old ++ 34 :: rest) ∧
        result = before ++ (groupOf spaces spaces' ++ ascii action.word ++ 34 :: rest) ∧
        NoMatch before (groupOf spaces spaces' ++ old ++ 34 :: rest) ∧
        (subAction (ascii action.word) 0 rest).2 = 0 := by
  obtain ⟨hsub, -⟩ := setAction_eq_ok.mp h
  obtain ⟨before, head, old, rest, hbytes, hmatch, hbefore, hrest⟩ :=
    subAction_one (congrArg Prod.snd hsub)
  obtain ⟨spaces, spaces', _, hspaces, hspaces', rfl, hold, -⟩ := matchAction_cases hmatch
  refine ⟨before, spaces, spaces', old, rest, hspaces, hspaces', hold, hbytes, ?_, hbefore, hrest⟩
  rw [hbytes, subAction_append hbefore, subAction_match (by simp [groupOf]) hmatch,
    subAction_none hrest] at hsub
  exact (congrArg Prod.fst hsub).symm

/-- **What the edit does** to every byte string that it accepts. -/
theorem valueEdited_of_setAction {data result : Bytes} {action : Action}
    (haction : action = .allow ∨ action = .deny) (h : setAction data action = .ok result) :
    ValueEdited data result action := by
  obtain ⟨-, hcount, ms, after, hdata, hresult, heq⟩ := setAction_eq_ok.mp h
  obtain ⟨before, spaces, spaces', old, rest, hspaces, hspaces', hold, hbytes, hvalue, -, -⟩ :=
    setAction_bytes h
  refine ⟨⟨before, spaces, spaces', old, rest, hspaces, hspaces', hold, hbytes, hvalue⟩, hcount, ?_⟩
  obtain ⟨ns, rfl, hns⟩ := Json.pyEq_obj heq
  have hword := isAction_word haction
  rcases isAction_parity hold hword with rfl | hparity
  · obtain rfl : result = data := hvalue.trans hbytes.symm
    obtain rfl : ms = ns := Json.obj.inj (Except.ok.inj (hdata.symm.trans hresult))
    obtain ⟨v, hv, hsame⟩ := Json.pyEqMembers_find hns (Json.find_insert_self _ _ _)
    rw [Json.str_pySame, Json.pyEq_str] at hsame
    subst hsame
    refine ⟨ms, hdata, ?_, ?_⟩
    · rw [Json.insert_self hv, hdata]
    · rcases haction with rfl | rfl
      · exact .inl hv
      · exact .inr hv
  · have hsplit (word : Bytes) : before ++ (groupOf spaces spaces' ++ word ++ 34 :: rest)
        = (before ++ key ++ spaces) ++ 58 :: (spaces' ++ 34 :: (word ++ 34 :: rest)) := by
      simp [groupOf]
    rw [hbytes, hsplit] at hdata
    rw [hvalue, hsplit] at hresult
    have hlength : 4 ≤ (before ++ key ++ spaces).length := by
      simp only [List.length_append, length_key]
      omega
    obtain ⟨hnear, hnodup⟩ := Json.members_near_of_loads hlength
      (fun b hb => isBlank_of_isSpaceByte (hspaces' b hb)) (isAction_lower hold).2
      (isAction_lower hword).2 (isAction_lower hold).1 (isAction_lower hword).1 hparity hdata hresult
    have hdiffer : old.map Json.charOf ≠ (ascii action.word).map Json.charOf := by
      intro hchars
      have := congrArg List.length hchars
      simp only [List.length_map] at this
      omega
    rw [map_charOf_word haction] at hnear hdiffer
    obtain ⟨rfl, hfind⟩ := Json.eq_insert_of_near hdiffer hnear hnodup heq
    refine ⟨ms, by rw [hbytes, hsplit, hdata], by rw [hvalue, hsplit, hresult], ?_⟩
    rcases hfind with hfind | hfind
    · rcases isAction_chars hold with hchars | hchars
      · exact .inl (hchars ▸ hfind)
      · exact .inr (hchars ▸ hfind)
    · rcases haction with rfl | rfl
      · exact .inl hfind
      · exact .inr hfind

/-! ## The way back -/

/-- Members that compare equal once a key has a string compare equal without that too. -/
theorem pyEq_self_of_insert {key s t : Text} {ms : Fields} (hnodup : (ms.map Prod.fst).Nodup)
    (hfind : Json.find key ms = some (.str s))
    (h : Json.pyEqMembers (Json.insert key (.str t) ms) (Json.insert key (.str t) ms)) :
    (Json.obj ms).pyEq (.obj ms) := by
  rw [Json.pyEq, Bool.and_eq_true, Json.pyEqMembers_iff]
  refine ⟨by simp, ?_⟩
  intro m hm
  have hself := Json.find_eq_some_of_mem hnodup hm
  refine ⟨m.2, hself, ?_⟩
  by_cases hk : m.1 = key
  · rw [hk, hfind] at hself
    rw [← Option.some.inj hself, Json.str_pySame, Json.pyEq_str]
  · have hinsert := (Json.find_insert_ne hk (.str t) ms).trans hself
    obtain ⟨v, hv, hsame⟩ := Json.pyEqMembers_find h hinsert
    rw [Option.some.inj (hinsert.symm.trans hv)] at hsame ⊢
    exact hsame

theorem find_of_currentAction {data : Bytes} {ms : Fields} {action : Action}
    (haction : action = .allow ∨ action = .deny) (hdata : Json.loads data = .ok (.obj ms))
    (h : currentAction data = .ok action) :
    Json.find "DefaultAction".toList ms = some (.str action.word.toList) := by
  rw [currentAction, hdata] at h
  have hvalue := Except.ok.inj h
  simp only [Fields.get] at hvalue
  cases hfind : Json.find "DefaultAction".toList ms with
  | none =>
    rw [hfind] at hvalue
    rcases haction with rfl | rfl <;> cases hvalue
  | some v =>
    rw [hfind, Option.getD_some] at hvalue
    cases v with
    | str s =>
      simp only [Action.ofJson] at hvalue
      split at hvalue
      · rename_i hs
        rw [← hvalue, hs]
        rfl
      · split at hvalue
        · rename_i hs
          rw [← hvalue, hs]
          rfl
        · rcases haction with rfl | rfl <;> cases hvalue
    | _ => rcases haction with rfl | rfl <;> cases hvalue

theorem currentAction_of_find {data : Bytes} {ms : Fields} {action : Action}
    (hdata : Json.loads data = .ok (.obj ms))
    (hfind : Json.find "DefaultAction".toList ms = some (.str action.word.toList)) :
    currentAction data = .ok action := by
  rw [currentAction, hdata]
  simp only [Fields.get, hfind, Option.getD_some]
  cases action <;> rfl

/-- Assigning the other action and the old one again gives the same bytes. -/
theorem setAction_back {data result : Bytes} {a b : Action} (ha : a = .allow ∨ a = .deny)
    (hb : b = .allow ∨ b = .deny) (hne : a ≠ b) (h : setAction data a = .ok result)
    (haction : currentAction data = .ok b) : setAction result b = .ok data := by
  obtain ⟨-, hcount, -⟩ := setAction_eq_ok.mp h
  obtain ⟨ms, hdata, hresult, -⟩ := (valueEdited_of_setAction ha h).document
  obtain ⟨before, spaces, spaces', old, rest, hspaces, hspaces', hold, hbytes, hvalue, hbefore, hrest⟩ :=
    setAction_bytes h
  -- Were the old word the new one already, the bytes would not have changed.
  have hchanged : old ≠ ascii a.word := by
    rintro rfl
    obtain rfl : result = data := hvalue.trans hbytes.symm
    exact hne (Except.ok.inj ((currentAction_setAction h).symm.trans haction))
  obtain rfl : old = ascii b.word := by
    rcases ha with rfl | rfl <;> rcases hb with rfl | rfl <;> rcases hold with rfl | rfl <;>
      first | rfl | exact absurd rfl hchanged | exact absurd rfl hne
  have hfind := find_of_currentAction hb hdata haction
  rw [setAction_eq_ok]
  refine ⟨?_, ?_, _, _, hresult, hdata, ?_⟩
  · have hmatch := @matchAction_groupOf _ _ _ rest hspaces hspaces' (isAction_word ha)
    rw [hvalue]
    change subAction _ 0 (before ++ (groupOf spaces spaces' ++ ascii a.word ++ 34 :: rest)) = _
    rw [subAction_append hbefore.word, subAction_match (by simp [groupOf]) hmatch,
      subAction_none hrest, hbytes]
  · rw [hvalue, ← hcount, hbytes]
    exact countKey_word hspaces hspaces' (isAction_word ha) (isAction_word hb) (by omega)
  · have hcheck := (setAction_eq_ok.mp h).2.2
    obtain ⟨ms', after, hdata', hresult', heq⟩ := hcheck
    obtain rfl : ms' = ms := Json.obj.inj (Except.ok.inj (hdata'.symm.trans hdata))
    obtain rfl := Except.ok.inj (hresult'.symm.trans hresult)
    obtain ⟨_, hobj, hmembers⟩ := Json.pyEq_obj heq
    obtain rfl := Json.obj.inj hobj
    rw [Json.insert_insert, Json.insert_self hfind]
    exact pyEq_self_of_insert (Json.nodup_of_loads hdata) hfind hmembers

/-- **Deny and back to allow** gives the same bytes. -/
theorem setAction_allow_of_deny {data result : Bytes} (h : setAction data .deny = .ok result)
    (hallow : currentAction data = .ok .allow) : setAction result .allow = .ok data :=
  setAction_back (.inr rfl) (.inl rfl) nofun h hallow

/-! ## Refusals -/

/-- Documents in which the edit would not be one of the value of one key. -/
inductive Unfit (data : Bytes) (action : Action) : Prop
  /-- The bytes of the key are absent, or there more than once. -/
  | repeated (h : countKey 0 data ≠ 1)
  /-- The key is in no place, or only in nested objects. -/
  | nested (h : ∀ ms, Json.loads data = .ok (.obj ms) → "DefaultAction".toList ∉ ms.map Prod.fst)
  /-- The key that counts is another one, which is spelled with escapes. -/
  | ineffective (h : currentAction (subAction (ascii action.word) 0 data).1 ≠ .ok action)
  | otherValue (h : currentAction data ≠ .ok .allow ∧ currentAction data ≠ .ok .deny)

theorem refuses_of_unfit {data result : Bytes} {action : Action}
    (haction : action = .allow ∨ action = .deny) (hunfit : Unfit data action) :
    setAction data action ≠ .ok result := by
  intro h
  have hedit := valueEdited_of_setAction haction h
  obtain ⟨ms, hdata, -, hvalue⟩ := hedit.document
  cases hunfit with
  | repeated hcount => exact hcount hedit.single
  | nested hkey =>
    have hnone := Json.find_eq_none.mpr (hkey ms hdata)
    rw [hnone] at hvalue
    rcases hvalue with hvalue | hvalue <;> cases hvalue
  | ineffective hresult =>
    obtain ⟨_, _, -, -, -, hbytes⟩ := setAction_cases h
    exact hresult (hbytes ▸ currentAction_setAction h)
  | otherValue hother =>
    rcases hvalue with hvalue | hvalue
    · exact hother.1 (currentAction_of_find hdata hvalue)
    · exact hother.2 (currentAction_of_find hdata hvalue)

/-! ## Acceptance -/

/-- The edited document decodes to the old one with the key assigned. -/
def takesEffect (data result : Bytes) (action : Action) : Bool :=
  match Json.loads data, Json.loads result with
  | .ok (.obj ms), .ok after =>
    (Json.obj (Json.insert "DefaultAction".toList (.str action.word.toList) ms)).pyEq after
  | _, _ => false

theorem takesEffect_iff {data result : Bytes} {action : Action} :
    takesEffect data result action ↔
      ∃ ms after, Json.loads data = .ok (.obj ms) ∧ Json.loads result = .ok after ∧
        (Json.obj (Json.insert "DefaultAction".toList (.str action.word.toList) ms)).pyEq after := by
  constructor
  · intro h
    unfold takesEffect at h
    split at h
    · rename_i ms after hdata hresult
      exact ⟨ms, after, hdata, hresult, h⟩
    · cases h
  · rintro ⟨ms, after, hdata, hresult, heq⟩
    rw [takesEffect, hdata, hresult]
    exact heq

/-- Whatever else a document holds, it is edited if the bytes of the key and the pattern stand
there once and the edit takes effect. -/
theorem accepts_iff {data result : Bytes} {action : Action} :
    setAction data action = .ok result ↔ countKey 0 data = 1 ∧
      subAction (ascii action.word) 0 data = (result, 1) ∧ takesEffect data result action := by
  rw [setAction_eq_ok, takesEffect_iff]
  tauto

/-- **The edit is exact** for every byte string: it replaces the value bytes of the one key
and assigns to that key of the document, the way back gives the same bytes, what is unfit
for it is refused, and what is accepted is determined. -/
theorem setAction_exact :
    (∀ data result action, action = .allow ∨ action = .deny → setAction data action = .ok result →
      ValueEdited data result action)
    ∧ (∀ data result, setAction data .deny = .ok result → currentAction data = .ok .allow →
      setAction result .allow = .ok data)
    ∧ (∀ data result action, action = .allow ∨ action = .deny → Unfit data action →
      setAction data action ≠ .ok result)
    ∧ ∀ data result action, setAction data action = .ok result ↔ countKey 0 data = 1 ∧
      subAction (ascii action.word) 0 data = (result, 1) ∧ takesEffect data result action :=
  ⟨fun _ _ _ haction h => valueEdited_of_setAction haction h,
    fun _ _ h hallow => setAction_allow_of_deny h hallow,
    fun _ _ _ haction hunfit => refuses_of_unfit haction hunfit,
    fun _ _ _ => accepts_iff⟩

/-- A document with other values around the key. -/
def plainDocument : Bytes := ascii "\x7b\"a\":[1.5,NaN], \"DefaultAction\" : \"allow\"\x7d"

/-- The key once in full and once with an escape. -/
def twiceSpelled : Bytes := ascii "\x7b\"Default\\u0041ction\":\"deny\",\"DefaultAction\":\"allow\"\x7d"

/-- Its edited bytes. -/
def twiceDenied : Bytes := ascii "\x7b\"Default\\u0041ction\":\"deny\",\"DefaultAction\":\"deny\"\x7d"

theorem setAction_exact_plain :
    ValueEdited plainDocument (ascii "\x7b\"a\":[1.5,NaN], \"DefaultAction\" : \"deny\"\x7d") .deny
      ∧ setAction (ascii "\x7b\"a\":[1.5,NaN], \"DefaultAction\" : \"deny\"\x7d") .allow = .ok plainDocument
      ∧ setAction (ascii "\x7b\"DefaultAction\":\"ask\"\x7d") .deny ≠ .ok []
      ∧ setAction twiceSpelled .deny = .ok twiceDenied :=
  ⟨setAction_exact.1 _ _ _ (.inr rfl) (by decide +kernel),
    setAction_exact.2.1 _ _ (by decide +kernel) (by decide +kernel),
    setAction_exact.2.2.1 _ _ _ (.inr rfl) (.otherValue (by decide +kernel)),
    (setAction_exact.2.2.2 _ _ _).mpr ⟨by decide +kernel, by decide +kernel, by decide +kernel⟩⟩

/-- The key stands at least twice among the decoded members of the document. -/
def Duplicated (data : Bytes) : Prop := 2 ≤ (Json.keysOf data).count "DefaultAction".toList

/-- A document that holds the key twice is edited all the same. -/
theorem not_refuses_duplicated :
    ¬ ∀ data result, Duplicated data → setAction data .deny ≠ .ok result := by
  intro h
  have hduplicated : 2 ≤ (Json.keysOf twiceSpelled).count "DefaultAction".toList := by
    decide +kernel
  have haccepted : setAction twiceSpelled .deny = .ok twiceDenied := by
    decide +kernel
  exact h _ _ hduplicated haccepted

end Deny
