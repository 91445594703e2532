import BazziteTower.Lib.Text
import Mathlib.Data.List.DropRight

/-!
# Python's string methods

The methods of `str` that text formats are read with: which characters are white
space, stripping, splitting into lines and at a separator.

## Main definitions

* `Text.isSpace`, `Text.strip` — white space, and stripping it on both sides.
* `Text.fileLines`, `Text.splitlines`, `Text.partition` — lines, and the fields of one.

## Main results

* `Text.splitlines_intercalate` — lines that are joined are split again.
-/

namespace Text

/-- `str.isspace` on one character. -/
def isSpace (c : Char) : Bool :=
  let n := c.toNat
  (9 ≤ n && n ≤ 13) || (28 ≤ n && n ≤ 32) || n = 0x85 || n = 0xA0 || n = 0x1680 ||
    (0x2000 ≤ n && n ≤ 0x200A) || n = 0x2028 || n = 0x2029 || n = 0x202F || n = 0x205F || n = 0x3000

/-- `str.strip`. -/
def strip (cs : Text) : Text := (cs.dropWhile isSpace).rdropWhile isSpace

/-- A nonempty text without white space. -/
def Word (cs : Text) : Prop := cs ≠ [] ∧ ∀ c ∈ cs, isSpace c = false

instance (cs : Text) : Decidable (Word cs) := @instDecidableAnd _ _ _ (List.decidableBAll _ cs)

/-- A text that begins and ends with other characters is not stripped. -/
theorem strip_eq_self {cs : Text} (h : ∀ c ∈ cs.head?, isSpace c = false)
    (h' : ∀ c ∈ cs.getLast?, isSpace c = false) : strip cs = cs := by
  have hfront : cs.dropWhile isSpace = cs := by
    cases cs with
    | nil => rfl
    | cons c cs => simp [h c rfl]
  rw [strip, hfront, List.rdropWhile_eq_self_iff]
  intro hne hspace
  rw [h' _ (List.getLast?_eq_some_getLast hne)] at hspace
  cases hspace

/-- Stripping keeps a first character that is not white space. -/
theorem head_strip {c : Char} {cs : Text} (h : isSpace c = false) :
    (strip (c :: cs)).head? = some c := by
  have hfront : (c :: cs).dropWhile isSpace = c :: cs := by simp [h]
  rw [strip, hfront]
  obtain ⟨rest, hrest⟩ := List.rdropWhile_prefix isSpace (l := c :: cs)
  cases hr : (c :: cs).rdropWhile isSpace with
  | nil =>
    rw [List.rdropWhile_eq_nil_iff] at hr
    simp [h] at hr
  | cons d ds =>
    rw [hr] at hrest
    simp only [List.cons_append, List.cons.injEq] at hrest
    simp [hrest.1]

/-- The lines of a file that is read as text: a carriage return ends a line too, and a
pair of both leaves an empty line behind. -/
def fileLines (cs : Text) : List Text := cs.splitOnP fun c => c = '\n' || c = '\r'

/-- A piece holds characters of the text, but not what it is split at. -/
theorem of_mem_splitOnP {p : Char → Bool} {cs piece : Text} {c : Char}
    (hpiece : piece ∈ cs.splitOnP p) (hc : c ∈ piece) : c ∈ cs ∧ p c = false := by
  induction cs generalizing piece with
  | nil =>
    rw [List.splitOnP_nil, List.mem_singleton] at hpiece
    simp [hpiece] at hc
  | cons d cs ih =>
    rw [List.splitOnP_cons_eq_if_modifyHead] at hpiece
    split at hpiece
    · rcases List.mem_cons.mp hpiece with rfl | hpiece
      · cases hc
      · exact (ih hpiece hc).imp_left (List.mem_cons_of_mem d)
    · rename_i hd
      obtain ⟨first, others, hsplit⟩ := List.exists_cons_of_ne_nil (List.splitOnP_ne_nil p cs)
      rw [hsplit, List.modifyHead_cons] at hpiece
      rcases List.mem_cons.mp hpiece with rfl | hpiece
      · rcases List.mem_cons.mp hc with rfl | hc
        · exact ⟨List.mem_cons_self .., by simpa using hd⟩
        · exact (ih (hsplit ▸ List.mem_cons_self ..) hc).imp_left (List.mem_cons_of_mem d)
      · exact (ih (hsplit ▸ List.mem_cons_of_mem _ hpiece) hc).imp_left (List.mem_cons_of_mem d)

/-- What is joined holds the separator and characters of the pieces only. -/
theorem mem_intercalate {separator c : Char} {pieces : List Text} (hne : c ≠ separator)
    (hc : c ∈ [separator].intercalate pieces) : ∃ piece ∈ pieces, c ∈ piece := by
  induction pieces with
  | nil => cases hc
  | cons piece pieces ih =>
    cases pieces with
    | nil => exact ⟨piece, by simp, by simpa using hc⟩
    | cons piece' pieces =>
      rw [List.intercalate_cons_cons, List.append_assoc, List.mem_append, List.mem_append,
        List.mem_singleton] at hc
      rcases hc with hc | hc | hc
      · exact ⟨piece, by simp, hc⟩
      · exact absurd hc hne
      · obtain ⟨q, hq, hcq⟩ := ih hc
        exact ⟨q, List.mem_cons_of_mem _ hq, hcq⟩

theorem fileLines_cons {line rest : Text} (h : ∀ c ∈ line, isSpace c = false ∨ c = ' ') :
    fileLines (line ++ '\n' :: rest) = line :: fileLines rest := by
  rw [fileLines, List.splitOnP_append_cons _ _ (by simp), List.splitOnP_eq_singleton]
  · rfl
  · intro c hc
    by_contra hbreak
    obtain rfl | rfl : c = '\n' ∨ c = '\r' := by simpa [or_iff_not_imp_left] using hbreak
    · exact (h _ hc).elim (by decide) (by decide)
    · exact (h _ hc).elim (by decide) (by decide)

/-- The characters that end a line for `str.splitlines`. -/
def isBreak (c : Char) : Bool :=
  ['\n', '\r', '\x0b', '\x0c', '\x1c', '\x1d', '\x1e', '\u0085', '\u2028', '\u2029'].contains c

/-- What reading a file as text makes of the ends of its lines. -/
def universalNewlines : Text → Text
  | [] => []
  | [c] => if c = '\r' then ['\n'] else [c]
  | c :: d :: cs =>
    if c = '\r' then
      if d = '\n' then '\n' :: universalNewlines cs else '\n' :: universalNewlines (d :: cs)
    else c :: universalNewlines (d :: cs)

/-- `str.splitlines` on what a file that is read as text holds; the end of the last line
starts no other. -/
def splitlines (cs : Text) : List Text :=
  let lines := cs.splitOnP isBreak
  if lines.getLast? = some [] then lines.dropLast else lines

theorem not_mem_of_mem_splitlines {cs line : Text} {c : Char} (hline : line ∈ splitlines cs)
    (hc : isBreak c) : c ∉ line := by
  have hmem : line ∈ cs.splitOnP isBreak := by
    dsimp only [splitlines] at hline
    split at hline
    · exact List.dropLast_subset _ hline
    · exact hline
  intro hcl
  exact absurd hc (by simpa using (of_mem_splitOnP hmem hcl).2)

/-- A text without carriage return is read as it is. -/
theorem universalNewlines_eq_self {cs : Text} (h : '\r' ∉ cs) : universalNewlines cs = cs := by
  fun_induction universalNewlines cs with
  | case1 => rfl
  | case2 => simp at h
  | case3 => rfl
  | case4 => simp at h
  | case5 => simp at h
  | case6 c d cs hc ih => rw [ih fun hr => h (List.mem_cons_of_mem c hr)]

/-- Lines that are joined are split again. -/
theorem splitOnP_isBreak_intercalate {lines : List Text} (hne : lines ≠ [])
    (h : ∀ line ∈ lines, ∀ c ∈ line, isBreak c = false) :
    (['\n'].intercalate lines).splitOnP isBreak = lines := by
  induction lines with
  | nil => exact absurd rfl hne
  | cons line lines ih =>
    cases lines with
    | nil =>
      rw [List.intercalate_singleton]
      exact List.splitOnP_eq_singleton (h line (by simp))
    | cons line' lines =>
      rw [List.intercalate_cons_cons, List.append_assoc, List.singleton_append,
        List.splitOnP_append_cons_of_forall_mem (h line (by simp)) _ (by decide),
        ih (by simp) fun l hl => h l (List.mem_cons_of_mem _ hl)]

/-- Nonempty lines that are joined, with or without the end of the last one, are the lines
of the text. -/
theorem splitlines_intercalate {lines : List Text} {last : Text} (hne : lines ≠ [])
    (h : ∀ line ∈ lines, line ≠ [] ∧ ∀ c ∈ line, isBreak c = false)
    (hlast : last = [] ∨ last = ['\n']) :
    splitlines (['\n'].intercalate lines ++ last) = lines := by
  rcases hlast with rfl | rfl
  · have hend : lines.getLast? ≠ some [] := by
      intro hend
      exact (h [] (List.mem_of_getLast? hend)).1 rfl
    rw [List.append_nil, splitlines, splitOnP_isBreak_intercalate hne fun l hl => (h l hl).2]
    exact if_neg hend
  · have hjoin : ['\n'].intercalate lines ++ ['\n'] = ['\n'].intercalate lines ++ '\n' :: [] := rfl
    rw [splitlines, hjoin, List.splitOnP_append_cons _ _ (by decide),
      splitOnP_isBreak_intercalate hne fun l hl => (h l hl).2]
    simp

/-- `str.partition`: the text before and behind the first separator. -/
def partition (separator : Char) (cs : Text) : Text × Text :=
  (cs.takeWhile (· ≠ separator), (cs.dropWhile (· ≠ separator)).tail)

theorem partition_append {separator : Char} {before behind : Text} (h : separator ∉ before) :
    partition separator (before ++ separator :: behind) = (before, behind) := by
  have hall : ∀ c ∈ before, decide (c ≠ separator) := by
    intro c hc
    simpa using fun he : c = separator => h (he ▸ hc)
  rw [partition, List.takeWhile_append_of_pos hall, List.dropWhile_append_of_pos hall]
  simp

end Text
