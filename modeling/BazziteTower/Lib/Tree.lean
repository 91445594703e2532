import BazziteTower.Lib.Text
import Mathlib.Data.List.Infix
import Mathlib.Data.List.Sort

/-!
# Directory trees

A directory as the list of its entries, each with the entries under it, and the walk
that looks into the directories that can be listed.  Entries are of any type.

## Main definitions

* `FileName` — a name that a directory can hold.
* `Listing`, `find` — the entries of a directory, and the entry at a path.
* `walk` — every entry of every directory that is listed, level by level.
* `join`, `parts` — a path as text, and the components of such a text.

## Main results

* `mem_walk` — the walk visits what is found through listed directories.
* `parts_join` — the components of a joined path.
-/

/-- A name that a directory can hold. -/
structure FileName where
  text : Text
  nonempty : text ≠ []
  plain : '/' ∉ text
  special : text ≠ ['.'] ∧ text ≠ ['.', '.']
  deriving DecidableEq

theorem FileName.text_injective : Function.Injective FileName.text := by
  rintro ⟨⟩ ⟨⟩ h
  simpa using h

/-- A path below a directory, the outermost name first. -/
abbrev RelPath := List FileName

/-- The entries of a directory as it lists them, with the entries under each. -/
inductive Listing (α : Type)
  | nil
  | cons (name : FileName) (entry : α) (inside rest : Listing α)

namespace Listing

variable {α : Type}

def names : Listing α → List FileName
  | nil => []
  | cons name _ _ rest => name :: rest.names

/-- No directory holds a name twice. -/
def Proper : Listing α → Prop
  | nil => True
  | cons name _ inside rest => name ∉ rest.names ∧ inside.Proper ∧ rest.Proper

def child (name : FileName) : Listing α → Option (α × Listing α)
  | nil => none
  | cons n entry inside rest => if n = name then some (entry, inside) else rest.child name

/-- The entry at a path, through entries that `enter` admits. -/
def find (enter : α → Bool) : Listing α → RelPath → Option α
  | _, [] => none
  | l, [name] => (l.child name).map Prod.fst
  | l, name :: p =>
    match l.child name with
    | some (entry, inside) => if enter entry then inside.find enter p else none
    | none => none

/-! ## The walk -/

/-- The entries of one directory. -/
def rows (base : RelPath) : Listing α → List (RelPath × α)
  | nil => []
  | cons name entry _ rest => (base ++ [name], entry) :: rest.rows base

/-- The rows in the order of their names. -/
def sortedRows (base : RelPath) (l : Listing α) : List (RelPath × α) :=
  (l.rows base).insertionSort fun r s => r.1.map FileName.text ≤ s.1.map FileName.text

/-- What the walk visits below the entries of a directory. -/
def descents (enter : α → Bool) (base : RelPath) : Listing α → List (RelPath × α)
  | nil => []
  | cons name entry inside rest =>
    (if enter entry then
      inside.sortedRows (base ++ [name]) ++ inside.descents enter (base ++ [name])
    else []) ++ rest.descents enter base

/-- `os.walk`, with the sorted entries of each directory that it lists. -/
def walk (enter : α → Bool) (base : RelPath) (l : Listing α) : List (RelPath × α) :=
  l.sortedRows base ++ l.descents enter base

theorem child_isSome {name : FileName} {l : Listing α} {x : α × Listing α}
    (h : l.child name = some x) : name ∈ l.names := by
  induction l with
  | nil => cases h
  | cons n e i r _ ih =>
    rw [child] at h
    split at h
    · exact ‹n = name› ▸ List.mem_cons_self ..
    · exact List.mem_cons_of_mem _ (ih h)

theorem mem_rows {base : RelPath} {l : Listing α} (hl : l.Proper) {r : RelPath × α} :
    r ∈ l.rows base ↔ ∃ name entry inside, l.child name = some (entry, inside) ∧
      r = (base ++ [name], entry) := by
  induction l with
  | nil => simp [rows, child]
  | cons n e i l _ ih =>
    obtain ⟨hn, -, hl⟩ := hl
    rw [rows, List.mem_cons, ih hl]
    constructor
    · rintro (rfl | ⟨name, entry, inside, hchild, rfl⟩)
      · exact ⟨n, e, i, by simp [child], rfl⟩
      · have hne : n ≠ name := fun he => hn (he ▸ child_isSome hchild)
        exact ⟨name, entry, inside, by rw [child, if_neg hne, hchild], rfl⟩
    · rintro ⟨name, entry, inside, hchild, rfl⟩
      rw [child] at hchild
      split at hchild
      · obtain ⟨rfl, rfl⟩ := Prod.mk.inj (Option.some.inj hchild)
        subst n
        exact .inl rfl
      · exact .inr ⟨name, entry, inside, hchild, rfl⟩

theorem mem_sortedRows {base : RelPath} {l : Listing α} (hl : l.Proper) {r : RelPath × α} :
    r ∈ l.sortedRows base ↔ ∃ name entry inside, l.child name = some (entry, inside) ∧
      r = (base ++ [name], entry) :=
  ((List.perm_insertionSort _ _).mem_iff).trans (mem_rows hl)

@[simp] theorem find_nil_path {enter : α → Bool} {l : Listing α} : l.find enter [] = none := by
  cases l <;> rfl

@[simp] theorem find_nil {enter : α → Bool} {p : RelPath} : (nil : Listing α).find enter p = none := by
  match p with
  | [] | [_] | _ :: _ :: _ => rfl

theorem find_cons {enter : α → Bool} {l : Listing α} {name : FileName} {p : RelPath} (hp : p ≠ []) :
    l.find enter (name :: p) = match l.child name with
      | some (entry, inside) => if enter entry then inside.find enter p else none
      | none => none := by
  cases p with
  | nil => contradiction
  | cons m p => rfl

/-- What is found below one of the entries. -/
theorem find_cons_self {enter : α → Bool} {n : FileName} {e : α} {i l : Listing α} {p : RelPath}
    (hp : p ≠ []) : (cons n e i l).find enter (n :: p) = if enter e then i.find enter p else none := by
  rw [find_cons hp, child, if_pos rfl]

/-- What is found below another entry. -/
theorem find_cons_ne {enter : α → Bool} {n name : FileName} {e : α} {i l : Listing α} {p : RelPath}
    (h : n ≠ name) : (cons n e i l).find enter (name :: p) = l.find enter (name :: p) := by
  cases p with
  | nil => rw [find, child, if_neg h]; rfl
  | cons m p => rw [find_cons (by simp), child, if_neg h, ← find_cons (by simp)]

theorem head_mem_names {enter : α → Bool} {l : Listing α} {name : FileName} {p : RelPath} {entry : α}
    (h : l.find enter (name :: p) = some entry) : name ∈ l.names := by
  cases p with
  | nil =>
    obtain ⟨x, hx, -⟩ := Option.map_eq_some_iff.mp h
    exact child_isSome hx
  | cons m p =>
    rw [find_cons (by simp)] at h
    split at h
    · exact child_isSome ‹_›
    · cases h

theorem mem_sortedRows_iff_find (enter : α → Bool) {base : RelPath} {l : Listing α} (hl : l.Proper)
    {r : RelPath × α} :
    r ∈ l.sortedRows base ↔ ∃ name, r.1 = base ++ [name] ∧ l.find enter [name] = some r.2 := by
  rw [mem_sortedRows hl]
  constructor
  · rintro ⟨name, entry, inside, hchild, rfl⟩
    exact ⟨name, rfl, by simp [find, hchild]⟩
  · rintro ⟨name, hr, hfind⟩
    obtain ⟨⟨entry, inside⟩, hchild, hentry⟩ := Option.map_eq_some_iff.mp hfind
    exact ⟨name, entry, inside, hchild, Prod.ext hr hentry.symm⟩

theorem mem_descents {enter : α → Bool} {base : RelPath} {l : Listing α} (hl : l.Proper)
    {r : RelPath × α} : r ∈ l.descents enter base ↔
      ∃ name p, p ≠ [] ∧ r.1 = base ++ name :: p ∧ l.find enter (name :: p) = some r.2 := by
  induction l generalizing base with
  | nil => simp [descents]
  | cons n e i l ihi ihl =>
    obtain ⟨hn, hi, hl⟩ := hl
    rw [descents, List.mem_append, ihl hl]
    constructor
    · rintro (h | ⟨name, p, hp, hr, hfind⟩)
      · split at h
        · rename_i henter
          rcases List.mem_append.mp h with h | h
          · obtain ⟨name, hr, hfind⟩ := (mem_sortedRows_iff_find enter hi).mp h
            exact ⟨n, [name], by simp, by simpa using hr,
              by rw [find_cons_self (by simp), if_pos henter, hfind]⟩
          · obtain ⟨name, p, hp, hr, hfind⟩ := (ihi hi).mp h
            exact ⟨n, name :: p, by simp, by simpa using hr,
              by rw [find_cons_self (by simp), if_pos henter, hfind]⟩
        · cases h
      · have hname : n ≠ name := fun he => hn (he ▸ head_mem_names hfind)
        exact ⟨name, p, hp, hr, (find_cons_ne hname).trans hfind⟩
    · rintro ⟨name, p, hp, hr, hfind⟩
      by_cases hname : n = name
      · subst hname
        rw [find_cons_self hp] at hfind
        split at hfind
        · left
          rw [if_pos ‹_›, List.mem_append]
          obtain ⟨m, p, rfl⟩ := List.exists_cons_of_ne_nil hp
          by_cases hp : p = []
          · subst hp
            exact .inl ((mem_sortedRows_iff_find enter hi).mpr ⟨m, by simpa using hr, hfind⟩)
          · exact .inr ((ihi hi).mpr ⟨m, p, hp, by simpa using hr, hfind⟩)
        · cases hfind
      · rw [find_cons_ne hname] at hfind
        exact .inr ⟨name, p, hp, hr, hfind⟩

/-- **The walk** visits exactly what is found through directories that it enters. -/
theorem mem_walk {enter : α → Bool} {base : RelPath} {l : Listing α} (hl : l.Proper)
    {r : RelPath × α} :
    r ∈ l.walk enter base ↔ ∃ p, r.1 = base ++ p ∧ l.find enter p = some r.2 := by
  rw [walk, List.mem_append, mem_sortedRows_iff_find enter hl, mem_descents hl]
  constructor
  · rintro (⟨name, hr, hfind⟩ | ⟨name, p, -, hr, hfind⟩)
    · exact ⟨[name], hr, hfind⟩
    · exact ⟨name :: p, hr, hfind⟩
  · rintro ⟨p, hr, hfind⟩
    cases p with
    | nil => cases find_nil_path.symm.trans hfind
    | cons name p =>
      by_cases hp : p = []
      · exact .inl ⟨name, hp ▸ hr, hp ▸ hfind⟩
      · exact .inr ⟨name, p, hp, hr, hfind⟩

/-! ## Paths of entries -/

/-- Whatever is found is found through its directories. -/
theorem find_append {enter : α → Bool} {l : Listing α} {p q : RelPath} (hp : p ≠ []) (hq : q ≠ [])
    {entry : α} (h : l.find enter (p ++ q) = some entry) :
    ∃ d, l.find enter p = some d ∧ enter d := by
  induction p generalizing l with
  | nil => contradiction
  | cons name p ih =>
    rw [List.cons_append, find_cons (by simp [hq])] at h
    split at h
    · rename_i e i hchild
      split at h
      · rename_i henter
        by_cases hp : p = []
        · subst hp
          exact ⟨e, by simp [find, hchild], henter⟩
        · obtain ⟨d, hd, henterd⟩ := ih hp h
          exact ⟨d, by rw [find_cons hp, hchild]; exact (if_pos henter).trans hd, henterd⟩
      · cases h
    · cases h

/-- An entry that is found stays the same where more can be entered. -/
theorem find_mono {enter enter' : α → Bool} (h : ∀ a, enter a → enter' a) {l : Listing α}
    {p : RelPath} {entry : α} (hfind : l.find enter p = some entry) : l.find enter' p = some entry := by
  induction p generalizing l with
  | nil => cases find_nil_path.symm.trans hfind
  | cons name p ih =>
    by_cases hp : p = []
    · subst hp
      exact hfind
    · rw [find_cons hp] at hfind ⊢
      split at hfind
      · split at hfind
        · rw [if_pos (h _ ‹_›)]
          exact ih hfind
        · cases hfind
      · cases hfind

/-- An entry is found if each directory above it can be entered. -/
theorem find_of_enter {enter enter' : α → Bool} {l : Listing α} {p : RelPath} {entry : α}
    (hfind : l.find enter p = some entry)
    (h : ∀ q r d, p = q ++ r → q ≠ [] → r ≠ [] → l.find enter q = some d → enter d → enter' d) :
    l.find enter' p = some entry := by
  induction p generalizing l with
  | nil => cases find_nil_path.symm.trans hfind
  | cons name p ih =>
    by_cases hp : p = []
    · subst hp
      exact hfind
    · rw [find_cons hp] at hfind ⊢
      split at hfind
      · rename_i e i hchild
        split at hfind
        · rename_i henter
          have he : enter' e := h [name] p e rfl (by simp) hp (by simp [find, hchild]) henter
          rw [if_pos he]
          refine ih hfind fun q r d hqr hq hr hd => h (name :: q) r d (by simp [hqr]) (by simp) hr ?_
          rw [find_cons hq, hchild]
          exact (if_pos henter).trans hd
        · cases hfind
      · cases hfind

end Listing

/-! ## Paths as text -/

namespace RelPath

def texts (p : RelPath) : List Text := p.map FileName.text

/-- The path with slashes between its names. -/
def join (p : RelPath) : Text := ['/'].intercalate p.texts

/-- The components that `Path` makes of a text; none is empty or a dot. -/
def parts (name : Text) : List Text := (name.splitOn '/').filter fun c => c ≠ [] && c ≠ ['.']

/-- **A joined path** has its names as components. -/
theorem parts_join (p : RelPath) : parts p.join = p.texts := by
  have hkeep (c : Text) (hc : c ∈ p.texts) : (c ≠ [] && c ≠ ['.']) = true := by
    obtain ⟨name, -, rfl⟩ := List.mem_map.mp hc
    simp [name.nonempty, name.special.1]
  by_cases hp : p = []
  · subst hp
    rfl
  · have hplain (c : Text) (hc : c ∈ p.texts) : '/' ∉ c := by
      obtain ⟨name, -, rfl⟩ := List.mem_map.mp hc
      exact name.plain
    rw [parts, join, List.splitOn_intercalate _ hplain (by simpa [texts] using hp),
      List.filter_eq_self.mpr hkeep]

theorem texts_injective : Function.Injective texts :=
  List.map_injective_iff.mpr FileName.text_injective

theorem join_injective : Function.Injective join := by
  intro p q h
  apply texts_injective
  rw [← parts_join, h, parts_join]

end RelPath
