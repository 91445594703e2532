import BazziteTower.Lib.Text
import Mathlib.Data.List.Infix

/-!
# Scanning a text for a pattern

`re.findall` with a pattern that captures one group: the leftmost matches that do not
overlap.  A pattern is given by its match at a position, with the length of that match.

## Main definitions

* `findall` — the captured groups.
* `followed` — a literal, followed by as many characters of a class as there are.
* `preceded` — one character of a class, and a match behind it.
* `Stands`, `Sole` — where the literals of a pattern stand in a text.

## Main results

* `findall_append` — a text may be cut where no match crosses.
* `findall_followed_skip` — a piece without the literal may be left out.
* `Reads.findall_eq_singleton_iff` — one match is one place where a literal stands.
-/

namespace Text

/-- The group and the length of a match at the head of a text. -/
abbrev Pattern := Text → Option (Text × ℕ)

/-- The groups of the matches behind the first `skip` characters. -/
def findallFrom (pattern : Pattern) : ℕ → Text → List Text
  | _, [] => []
  | skip + 1, _ :: cs => findallFrom pattern skip cs
  | 0, c :: cs =>
    match pattern (c :: cs) with
    | some (group, length) => group :: findallFrom pattern (length - 1) cs
    | none => findallFrom pattern 0 cs

/-- `re.findall`. -/
def findall (pattern : Pattern) (cs : Text) : List Text := findallFrom pattern 0 cs

/-- A literal and at least one character of a class behind it, as many as there are. -/
def followed (literal : Text) (ok : Char → Bool) : Pattern := fun cs =>
  if literal.isPrefixOf cs then
    let group := (cs.drop literal.length).takeWhile ok
    if group = [] then none else some (group, literal.length + group.length)
  else none

/-- A character of a class, and a match behind it, which yields the group. -/
def preceded (first : Char → Bool) (pattern : Pattern) : Pattern
  | [] => none
  | c :: cs => if first c then (pattern cs).map fun m => (m.1, m.2 + 1) else none

/-! ## Cutting a text -/

/-- No match of the pattern crosses into a text that begins so. -/
def Cuts (pattern : Pattern) (s : Text) : Prop :=
  ∀ cs, cs ≠ [] → pattern (cs ++ s) = pattern cs ∧ ∀ m ∈ pattern cs, m.2 ≤ cs.length

theorem findallFrom_append {pattern : Pattern} {s : Text} (h : Cuts pattern s) {skip : ℕ} {cs : Text}
    (hskip : skip ≤ cs.length) :
    findallFrom pattern skip (cs ++ s) = findallFrom pattern skip cs ++ findall pattern s := by
  induction cs generalizing skip with
  | nil =>
    obtain rfl : skip = 0 := by simpa using hskip
    rfl
  | cons c cs ih =>
    obtain ⟨hsame, hlength⟩ := h (c :: cs) (by simp)
    cases skip with
    | succ skip => exact ih (by simpa using hskip)
    | zero =>
      rw [List.cons_append] at hsame ⊢
      rw [findallFrom, findallFrom, hsame]
      cases hmatch : pattern (c :: cs) with
      | none => exact ih (Nat.zero_le _)
      | some m =>
        have hm := hlength m hmatch
        rw [List.length_cons] at hm
        exact congrArg _ (ih (by omega))

theorem findall_append {pattern : Pattern} {s : Text} (h : Cuts pattern s) (cs : Text) :
    findall pattern (cs ++ s) = findall pattern cs ++ findall pattern s :=
  findallFrom_append h (Nat.zero_le _)

/-! ## Literals -/

theorem takeWhile_append_cons {ok : Char → Bool} {d : Char} (hd : ok d = false) (cs s : Text) :
    (cs ++ d :: s).takeWhile ok = cs.takeWhile ok := by
  induction cs with
  | nil => simp [hd]
  | cons c cs ih => by_cases hc : ok c <;> simp [hc, ih]

/-- A literal without the character that comes next is a prefix of what is before it. -/
theorem isPrefixOf_append_cons {literal cs s : Text} {d : Char} (hd : d ∉ literal) :
    literal.isPrefixOf (cs ++ d :: s) = literal.isPrefixOf cs := by
  induction literal generalizing cs with
  | nil => cases cs <;> rfl
  | cons l literal ih =>
    rw [List.mem_cons, not_or] at hd
    cases cs with
    | nil =>
      have hne : (l == d) = false := by simpa using Ne.symm hd.1
      simp only [List.nil_append, List.isPrefixOf, hne, Bool.false_and]
    | cons c cs => simp [List.isPrefixOf, ih hd.2]

theorem followed_append {literal : Text} {ok : Char → Bool} {d : Char} (hliteral : d ∉ literal)
    (hok : ok d = false) (cs s : Text) :
    followed literal ok (cs ++ d :: s) = followed literal ok cs := by
  unfold followed
  rw [isPrefixOf_append_cons hliteral]
  split
  · rename_i hprefix
    have hlength := (List.isPrefixOf_iff_prefix.mp hprefix).length_le
    rw [List.drop_append_of_le_length hlength, takeWhile_append_cons hok]
  · rfl

theorem length_followed {literal : Text} {ok : Char → Bool} {cs : Text} {m : Text × ℕ}
    (h : m ∈ followed literal ok cs) : m.2 ≤ cs.length := by
  simp only [followed, Option.mem_def] at h
  split at h
  · rename_i hprefix
    split at h
    · cases h
    · obtain rfl := Option.some.inj h
      have hlength := (List.isPrefixOf_iff_prefix.mp hprefix).length_le
      have htake := (List.takeWhile_prefix (p := ok) (l := cs.drop literal.length)).length_le
      rw [List.length_drop] at htake
      dsimp only
      omega
  · cases h

theorem cuts_followed {literal : Text} {ok : Char → Bool} {d : Char} (hliteral : d ∉ literal)
    (hok : ok d = false) (s : Text) : Cuts (followed literal ok) (d :: s) :=
  fun cs _ => ⟨followed_append hliteral hok cs s, fun _ => length_followed⟩

theorem cuts_preceded {first : Char → Bool} {literal : Text} {ok : Char → Bool} {d : Char}
    (hliteral : d ∉ literal) (hok : ok d = false) (s : Text) :
    Cuts (preceded first (followed literal ok)) (d :: s) := by
  intro cs hne
  obtain ⟨c, cs, rfl⟩ := List.exists_cons_of_ne_nil hne
  rw [List.cons_append, preceded, preceded, followed_append hliteral hok]
  constructor
  · rfl
  · intro m hm
    split at hm
    · obtain ⟨m', hm', rfl⟩ := Option.map_eq_some_iff.mp hm
      have hlength := length_followed hm'
      simpa using hlength
    · cases hm

theorem findall_of_none {pattern : Pattern} {c : Char} {cs : Text} (h : pattern (c :: cs) = none) :
    findall pattern (c :: cs) = findall pattern cs := by
  rw [findall, findallFrom, h]
  rfl

/-- A literal with a group behind it that ends where the class does. -/
theorem followed_literal {literal group rest : Text} {ok : Char → Bool} (hne : group ≠ [])
    (hgroup : ∀ c ∈ group, ok c) (hrest : ∀ c ∈ rest.head?, ok c = false) :
    followed literal ok (literal ++ (group ++ rest))
      = some (group, literal.length + group.length) := by
  have htake : (group ++ rest).takeWhile ok = group := by
    rw [List.takeWhile_append_of_pos hgroup]
    cases rest with
    | nil => simp
    | cons c rest => simp [hrest c rfl]
  have hprefix : literal.isPrefixOf (literal ++ (group ++ rest)) :=
    List.isPrefixOf_iff_prefix.mpr (List.prefix_append _ _)
  simp only [followed, hprefix, if_true, List.drop_left, htake, hne, if_false]

theorem preceded_of_match {first : Char → Bool} {pattern : Pattern} {c : Char} {cs group : Text}
    {length : ℕ} (hfirst : first c) (h : pattern cs = some (group, length)) :
    preceded first pattern (c :: cs) = some (group, length + 1) := by
  rw [preceded, if_pos hfirst, h]
  rfl

theorem findallFrom_length {pattern : Pattern} (cs rest : Text) :
    findallFrom pattern cs.length (cs ++ rest) = findall pattern rest := by
  induction cs with
  | nil => rfl
  | cons c cs ih => exact ih

/-- A match at the head is the first, and the next ones are searched for behind it. -/
theorem findall_of_match {pattern : Pattern} {cs rest group : Text} (hne : cs ≠ [])
    (h : pattern (cs ++ rest) = some (group, cs.length)) :
    findall pattern (cs ++ rest) = group :: findall pattern rest := by
  obtain ⟨c, cs, rfl⟩ := List.exists_cons_of_ne_nil hne
  rw [List.cons_append] at h ⊢
  rw [findall, findallFrom, h]
  exact congrArg _ (findallFrom_length cs rest)

/-! ## Texts without the literal -/

/-- A text that does not hold the literal has no match at its head, whatever comes behind
a character that is not in the literal. -/
theorem followed_eq_none {literal cs s : Text} {ok : Char → Bool} {d : Char}
    (hliteral : d ∉ literal) (h : ¬ literal <:+: cs) : followed literal ok (cs ++ d :: s) = none := by
  unfold followed
  rw [isPrefixOf_append_cons hliteral, if_neg]
  intro hprefix
  exact h (List.isPrefixOf_iff_prefix.mp hprefix).isInfix

theorem not_infix_of_cons {literal cs : Text} {c : Char} (h : ¬ literal <:+: c :: cs) :
    ¬ literal <:+: cs :=
  fun hinside => h (hinside.trans (List.suffix_cons c cs).isInfix)

theorem findall_followed_skip {literal cs s : Text} {ok : Char → Bool} {d : Char}
    (hliteral : d ∉ literal) (h : ¬ literal <:+: cs) :
    findall (followed literal ok) (cs ++ d :: s) = findall (followed literal ok) s := by
  induction cs with
  | nil =>
    exact findall_of_none (followed_eq_none hliteral h)
  | cons c cs ih =>
    have hhead := @followed_eq_none _ _ s ok _ hliteral h
    rw [List.cons_append] at hhead ⊢
    rw [findall_of_none hhead]
    exact ih (not_infix_of_cons h)

theorem findall_preceded_skip {first : Char → Bool} {literal cs s : Text} {ok : Char → Bool}
    {d : Char} (hliteral : d ∉ literal) (hfirst : first d = false) (h : ¬ literal <:+: cs) :
    findall (preceded first (followed literal ok)) (cs ++ d :: s)
      = findall (preceded first (followed literal ok)) s := by
  induction cs with
  | nil =>
    apply findall_of_none
    rw [preceded, hfirst, if_neg Bool.false_ne_true]
  | cons c cs ih =>
    have hhead : preceded first (followed literal ok) (c :: (cs ++ d :: s)) = none := by
      rw [preceded, followed_eq_none hliteral (not_infix_of_cons h), Option.map_none, ite_self]
    rw [List.cons_append, findall_of_none hhead]
    exact ih (not_infix_of_cons h)

/-! ## Where a literal stands -/

/-- One of the literals stands in the text, with a character of the class behind it. -/
def Stands (literals : List Text) (ok : Char → Bool) (cs : Text) : Prop :=
  ∃ literal ∈ literals, ∃ c, ok c ∧ literal ++ [c] <:+: cs

/-- The first place where one of the literals stands has exactly this word behind it, and
behind that the literals do not stand again. -/
def Sole (literals : List Text) (ok : Char → Bool) (word cs : Text) : Prop :=
  ∃ before, ∃ literal ∈ literals, ∃ after, cs = before ++ (literal ++ (word ++ after)) ∧
    (∀ c ∈ after.head?, ok c = false) ∧ ¬ Stands literals ok (before ++ literal) ∧
      ¬ Stands literals ok after

/-- The pattern is one of some literals of one length, followed by as many characters of a
class as there are. -/
structure Reads (pattern : Pattern) (literals : List Text) (ok : Char → Bool) : Prop where
  eq_some_iff : ∀ {cs group : Text} {length : ℕ}, pattern cs = some (group, length) ↔
    ∃ literal ∈ literals, ∃ rest, cs = literal ++ (group ++ rest) ∧ group ≠ [] ∧
      (∀ c ∈ group, ok c) ∧ (∀ c ∈ rest.head?, ok c = false) ∧ length = literal.length + group.length
  length_eq : ∀ l ∈ literals, ∀ l' ∈ literals, l.length = l'.length

theorem not_head_dropWhile (ok : Char → Bool) (cs : Text) :
    ∀ c ∈ (cs.dropWhile ok).head?, ok c = false := by
  intro c hc
  have hhead := List.head?_dropWhile_not ok cs
  rw [Option.mem_def.mp hc] at hhead
  exact hhead

theorem reads_followed (literal : Text) (ok : Char → Bool) :
    Reads (followed literal ok) [literal] ok where
  eq_some_iff {cs group length} := by
    constructor
    · intro h
      unfold followed at h
      split at h
      · rename_i hprefix
        obtain ⟨tail, rfl⟩ := List.isPrefixOf_iff_prefix.mp hprefix
        rw [List.drop_left] at h
        dsimp only at h
        split_ifs at h with hempty
        obtain ⟨rfl, rfl⟩ := Prod.mk.inj (Option.some.inj h)
        exact ⟨literal, by simp, tail.dropWhile ok, by simp, hempty,
          fun c hc => List.all_eq_true.mp List.all_takeWhile c hc, not_head_dropWhile ok tail, rfl⟩
      · cases h
    · rintro ⟨literal', hliteral, rest, rfl, hne, hgroup, hrest, rfl⟩
      obtain rfl := List.mem_singleton.mp hliteral
      exact followed_literal hne hgroup hrest
  length_eq := by simp

theorem reads_preceded {first : Char → Bool} {heads : List Char}
    (hheads : ∀ c, first c ↔ c ∈ heads) (literal : Text) (ok : Char → Bool) :
    Reads (preceded first (followed literal ok)) (heads.map (· :: literal)) ok where
  eq_some_iff {cs group length} := by
    constructor
    · intro h
      cases cs with
      | nil => cases h
      | cons c cs =>
        rw [preceded] at h
        split_ifs at h with hfirst
        obtain ⟨⟨group', length'⟩, hmatch, heq⟩ := Option.map_eq_some_iff.mp h
        obtain ⟨rfl, rfl⟩ := Prod.mk.inj heq
        obtain ⟨literal', hliteral, rest, rfl, hne, hgroup, hrest, rfl⟩ :=
          (reads_followed literal ok).eq_some_iff.mp hmatch
        obtain rfl := List.mem_singleton.mp hliteral
        exact ⟨c :: literal', List.mem_map_of_mem ((hheads c).mp hfirst), rest, rfl, hne, hgroup, hrest,
          by simp only [List.length_cons]; omega⟩
    · rintro ⟨literal', hliteral, rest, rfl, hne, hgroup, hrest, rfl⟩
      obtain ⟨c, hc, rfl⟩ := List.mem_map.mp hliteral
      rw [List.cons_append, preceded_of_match ((hheads c).mpr hc) (followed_literal hne hgroup hrest),
        List.length_cons, Nat.add_right_comm]
  length_eq := by
    intro l hl l' hl'
    obtain ⟨c, -, rfl⟩ := List.mem_map.mp hl
    obtain ⟨c', -, rfl⟩ := List.mem_map.mp hl'
    rfl

section Reads
variable {pattern : Pattern} {literals : List Text} {ok : Char → Bool} {cs : Text}

theorem Reads.isSome_iff (h : Reads pattern literals ok) :
    (pattern cs).isSome ↔ ∃ literal ∈ literals, ∃ c, ok c ∧ literal ++ [c] <+: cs := by
  rw [Option.isSome_iff_exists]
  constructor
  · rintro ⟨⟨group, length⟩, hmatch⟩
    obtain ⟨literal, hliteral, rest, rfl, hne, hgroup, -, -⟩ := h.eq_some_iff.mp hmatch
    obtain ⟨c, group, rfl⟩ := List.exists_cons_of_ne_nil hne
    exact ⟨literal, hliteral, c, hgroup c (by simp), group ++ rest, by simp⟩
  · rintro ⟨literal, hliteral, c, hc, tail, rfl⟩
    exact ⟨(((c :: tail).takeWhile ok), _), h.eq_some_iff.mpr ⟨literal, hliteral,
      (c :: tail).dropWhile ok, by simp, by simp [hc],
      fun d hd => List.all_eq_true.mp List.all_takeWhile d hd, not_head_dropWhile ok _, rfl⟩⟩

theorem Reads.stands_cons (h : Reads pattern literals ok) (c : Char) (cs : Text) :
    Stands literals ok (c :: cs) ↔ (pattern (c :: cs)).isSome ∨ Stands literals ok cs := by
  rw [h.isSome_iff]
  constructor
  · rintro ⟨literal, hliteral, d, hd, hinfix⟩
    rcases List.infix_cons_iff.mp hinfix with hprefix | hinfix
    · exact .inl ⟨literal, hliteral, d, hd, hprefix⟩
    · exact .inr ⟨literal, hliteral, d, hd, hinfix⟩
  · rintro (⟨literal, hliteral, d, hd, hprefix⟩ | ⟨literal, hliteral, d, hd, hinfix⟩)
    · exact ⟨literal, hliteral, d, hd, hprefix.isInfix⟩
    · exact ⟨literal, hliteral, d, hd, List.infix_cons_iff.mpr (.inr hinfix)⟩

theorem not_stands_nil : ¬ Stands literals ok [] := by
  rintro ⟨literal, -, c, -, hinfix⟩
  have hlength := hinfix.length_le
  simp at hlength

/-- A literal alone has no room for a character behind it. -/
theorem Reads.not_stands_literal (h : Reads pattern literals ok) {literal : Text}
    (hliteral : literal ∈ literals) : ¬ Stands literals ok literal := by
  rintro ⟨literal', hliteral', c, -, hinfix⟩
  have hlength := hinfix.length_le
  have hsame := h.length_eq _ hliteral _ hliteral'
  simp only [List.length_append, List.length_singleton] at hlength
  omega

/-- The next match, and where the search goes on. -/
theorem Reads.findall_of_some (h : Reads pattern literals ok) {group rest : Text} {literal : Text}
    (hliteral : literal ∈ literals) (hne : group ≠ []) (hgroup : ∀ c ∈ group, ok c)
    (hrest : ∀ c ∈ rest.head?, ok c = false) :
    findall pattern (literal ++ (group ++ rest)) = group :: findall pattern rest := by
  rw [← List.append_assoc]
  refine findall_of_match (by simp [hne]) (h.eq_some_iff.mpr ⟨literal, hliteral, rest, by simp, hne,
    hgroup, hrest, by simp⟩)

theorem Reads.findall_eq_nil_iff (h : Reads pattern literals ok) :
    findall pattern cs = [] ↔ ¬ Stands literals ok cs := by
  induction cs with
  | nil => exact iff_of_true rfl not_stands_nil
  | cons c cs ih =>
    rw [h.stands_cons]
    cases hmatch : pattern (c :: cs) with
    | none => simpa [findall_of_none hmatch] using ih
    | some m =>
      obtain ⟨literal, hliteral, rest, hcs, hne, hgroup, hrest, -⟩ := h.eq_some_iff.mp hmatch
      rw [hcs, h.findall_of_some hliteral hne hgroup hrest]
      simp

/-- **One match** is one place where a literal stands. -/
theorem Reads.findall_eq_singleton_iff (h : Reads pattern literals ok) {word : Text} (hne : word ≠ [])
    (hword : ∀ c ∈ word, ok c) : findall pattern cs = [word] ↔ Sole literals ok word cs := by
  induction cs with
  | nil =>
    refine iff_of_false nofun ?_
    rintro ⟨before, literal, -, after, hcs, -⟩
    simp [hne] at hcs
  | cons c cs ih =>
    cases hmatch : pattern (c :: cs) with
    | none =>
      have hnone : ¬ (pattern (c :: cs)).isSome := by simp [hmatch]
      rw [findall_of_none hmatch, ih]
      constructor
      · rintro ⟨before, literal, hliteral, after, rfl, hafter, hbefore, hrest⟩
        refine ⟨c :: before, literal, hliteral, after, rfl, hafter, ?_, hrest⟩
        rw [List.cons_append, h.stands_cons, not_or]
        refine ⟨fun hsome => hnone ?_, hbefore⟩
        obtain ⟨literal', hliteral', d, hd, hprefix⟩ := h.isSome_iff.mp hsome
        refine h.isSome_iff.mpr ⟨literal', hliteral', d, hd, hprefix.trans ?_⟩
        rw [← List.cons_append, ← List.append_assoc]
        exact List.prefix_append ..
      · rintro ⟨before, literal, hliteral, after, hcs, hafter, hbefore, hrest⟩
        cases before with
        | nil =>
          refine absurd (Option.isSome_iff_exists.mpr ⟨_, h.eq_some_iff.mpr ⟨literal, hliteral, after, hcs,
            hne, hword, hafter, rfl⟩⟩) hnone
        | cons b before =>
          obtain ⟨rfl, rfl⟩ := List.cons.inj hcs
          rw [List.cons_append, h.stands_cons, not_or] at hbefore
          exact ⟨before, literal, hliteral, after, rfl, hafter, hbefore.2, hrest⟩
    | some m =>
      obtain ⟨group, length⟩ := m
      obtain ⟨literal, hliteral, rest, hcs, hgroupne, hgroup, hrest, -⟩ := h.eq_some_iff.mp hmatch
      rw [hcs, h.findall_of_some hliteral hgroupne hgroup hrest]
      constructor
      · intro heq
        obtain ⟨hsame, hnil⟩ := List.cons.inj heq
        exact ⟨[], literal, hliteral, rest, by rw [← hsame]; rfl, hrest,
          h.not_stands_literal hliteral, h.findall_eq_nil_iff.mp hnil⟩
      · rintro ⟨before, literal', hliteral', after, hcs', hafter, hbefore, hnone⟩
        cases before with
        | nil =>
          rw [List.nil_append] at hcs'
          rw [← h.findall_of_some hliteral hgroupne hgroup hrest, hcs',
            h.findall_of_some hliteral' hne hword hafter, h.findall_eq_nil_iff.mpr hnone]
        | cons b before =>
          -- the match at the head would stand before the place
          obtain ⟨d, group, rfl⟩ := List.exists_cons_of_ne_nil hgroupne
          have hprefix : literal ++ [d] <+: literal ++ (d :: group ++ rest) :=
            ⟨group ++ rest, by simp⟩
          refine absurd ⟨literal, hliteral, d, hgroup d (by simp), ?_⟩ hbefore
          refine (List.prefix_of_prefix_length_le hprefix ?_ ?_).isInfix
          · rw [hcs', ← List.append_assoc]
            exact List.prefix_append ..
          · have hsame := h.length_eq _ hliteral _ hliteral'
            simp only [List.length_append, List.length_cons, List.length_nil]
            omega

/-- In these texts together, one literal stands at one place, and this word is behind it. -/
def SoleIn (literals : List Text) (ok : Char → Bool) (word : Text) (texts : List Text) : Prop :=
  ∃ left cs right, texts = left ++ cs :: right ∧ Sole literals ok word cs ∧
    (∀ s ∈ left, ¬ Stands literals ok s) ∧ ∀ s ∈ right, ¬ Stands literals ok s

theorem Reads.flatMap_findall_eq_singleton_iff (h : Reads pattern literals ok) {word : Text}
    (hne : word ≠ []) (hword : ∀ c ∈ word, ok c) {texts : List Text} :
    texts.flatMap (findall pattern) = [word] ↔ SoleIn literals ok word texts := by
  rw [List.flatMap_def, List.flatten_eq_singleton_iff]
  constructor
  · rintro ⟨as, bs, heq, hleft, hright⟩
    obtain ⟨left, rest, rfl, rfl, hrest⟩ := List.map_eq_append_iff.mp heq
    obtain ⟨cs, right, rfl, hcs, rfl⟩ := List.map_eq_cons_iff.mp hrest
    refine ⟨left, cs, right, rfl, (h.findall_eq_singleton_iff hne hword).mp hcs, ?_, ?_⟩
    · exact fun s hs => h.findall_eq_nil_iff.mp (hleft _ (List.mem_map_of_mem hs))
    · exact fun s hs => h.findall_eq_nil_iff.mp (hright _ (List.mem_map_of_mem hs))
  · rintro ⟨left, cs, right, rfl, hcs, hleft, hright⟩
    refine ⟨left.map (findall pattern), right.map (findall pattern), ?_, ?_, ?_⟩
    · rw [List.map_append, List.map_cons, (h.findall_eq_singleton_iff hne hword).mpr hcs]
    · intro l hl
      obtain ⟨s, hs, rfl⟩ := List.mem_map.mp hl
      exact h.findall_eq_nil_iff.mpr (hleft s hs)
    · intro l hl
      obtain ⟨s, hs, rfl⟩ := List.mem_map.mp hl
      exact h.findall_eq_nil_iff.mpr (hright s hs)

end Reads

end Text
