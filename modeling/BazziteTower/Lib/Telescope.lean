import Mathlib.Algebra.Order.Sub.Basic
import Mathlib.Algebra.Order.BigOperators.Group.List
import Mathlib.Data.List.Chain

/-!
# Cumulative counters that are reset

A counter that only grows is read again and again; what it counted is the sum of the
differences, which is its last value.  If it is reset now and then, the readings fall
into segments, and the differences add up to the last values of the segments.

## Main definitions

* `Telescope.delta` — what one reading adds to the one before it.
* `Telescope.Segmented` — readings that grow within segments and are reset in between.
* `Telescope.total` — the last values of the segments.

## Main results

* `Telescope.sum_deltas` — the differences add up to the last values.
* `Telescope.exists_segmented` — readings that only grow or are reset have segments.
-/

namespace Telescope

variable {α : Type}

/-! ## Segments -/

section Segments
variable [PartialOrder α] (reset : α → α → Prop)

/-- One reading may follow another one. -/
def Follows (a b : α) : Prop := reset a b ∨ a ≤ b

/-- A segment grows. -/
def Grows (a b : α) : Prop := ¬ reset a b ∧ a ≤ b

/-- Segments of readings, with a reset between one and the next. -/
structure Segmented (segments : List (List α)) : Prop where
  nonempty : ∀ s ∈ segments, s ≠ []
  grows : ∀ s ∈ segments, s.IsChain (Grows reset)
  resets : segments.IsChain fun s t => ∀ a ∈ s.getLast?, ∀ b ∈ t.head?, reset a b

variable {reset}

theorem Segmented.tail {s : List α} {segments : List (List α)} (h : Segmented reset (s :: segments)) :
    Segmented reset segments :=
  ⟨fun t ht => h.nonempty t (List.mem_cons_of_mem _ ht),
    fun t ht => h.grows t (List.mem_cons_of_mem _ ht), h.resets.tail⟩

/-- Segments of readings may follow one another. -/
theorem isChain_flatten {c : α} {s : List α} {segments : List (List α)}
    (h : Segmented reset ((c :: s) :: segments)) :
    (c :: (s ++ segments.flatten)).IsChain (Follows reset) := by
  induction segments generalizing c s with
  | nil =>
    rw [List.flatten_nil, List.append_nil]
    exact (h.grows _ (List.mem_cons_self ..)).imp fun a b hab => .inr hab.2
  | cons t segments ih =>
    cases t with
    | nil => exact absurd rfl (h.nonempty [] (by simp))
    | cons d t =>
      have hfirst : (c :: s).IsChain (Follows reset) :=
        (h.grows _ (List.mem_cons_self ..)).imp fun a b hab => .inr hab.2
      rw [← List.cons_append]
      refine hfirst.append (ih h.tail) fun a ha b hb => .inl ?_
      exact (List.isChain_cons_cons.mp h.resets).1 a ha b (by simpa using hb)

/-- Readings that only grow or are reset fall into segments. -/
theorem exists_segmented_cons {c : α} {readings : List α}
    (h : (c :: readings).IsChain (Follows reset)) :
    ∃ s segments, Segmented reset ((c :: s) :: segments) ∧ s ++ segments.flatten = readings := by
  induction readings generalizing c with
  | nil => exact ⟨[], [], ⟨by simp, by simp, .singleton _⟩, rfl⟩
  | cons d readings ih =>
    obtain ⟨hfollows, hrest⟩ := List.isChain_cons_cons.mp h
    obtain ⟨s, segments, hsegments, rfl⟩ := ih hrest
    by_cases hreset : reset c d
    · refine ⟨[], (d :: s) :: segments, ⟨?_, ?_, ?_⟩, rfl⟩
      · exact List.forall_mem_cons.mpr ⟨by simp, hsegments.nonempty⟩
      · exact List.forall_mem_cons.mpr ⟨.singleton _, hsegments.grows⟩
      · refine List.isChain_cons_cons.mpr ⟨fun a ha b hb => ?_, hsegments.resets⟩
        obtain rfl : c = a := by simpa using ha
        obtain rfl : d = b := by simpa using hb
        exact hreset
    · refine ⟨d :: s, segments, ⟨?_, ?_, ?_⟩, rfl⟩
      · exact List.forall_mem_cons.mpr ⟨by simp, hsegments.tail.nonempty⟩
      · refine List.forall_mem_cons.mpr ⟨List.isChain_cons_cons.mpr ⟨⟨hreset,
          hfollows.resolve_left hreset⟩, hsegments.grows _ (List.mem_cons_self ..)⟩,
          hsegments.tail.grows⟩
      · cases segments with
        | nil => exact .singleton _
        | cons t segments =>
          obtain ⟨hfirst, hlater⟩ := List.isChain_cons_cons.mp hsegments.resets
          exact List.isChain_cons_cons.mpr ⟨fun a ha => hfirst a (by simpa using ha), hlater⟩

theorem exists_segmented {readings : List α} (h : readings.IsChain (Follows reset)) :
    ∃ segments, Segmented reset segments ∧ segments.flatten = readings := by
  cases readings with
  | nil => exact ⟨[], ⟨by simp, by simp, .nil⟩, rfl⟩
  | cons c readings =>
    obtain ⟨s, segments, hsegments, hflatten⟩ := exists_segmented_cons h
    exact ⟨(c :: s) :: segments, hsegments, by rw [← hflatten]; rfl⟩

end Segments

/-! ## Differences -/

section Differences
variable [Sub α] (reset : α → α → Prop) [DecidableRel reset]

/-- What a reading adds to the previous one. -/
def delta (previous current : α) : α := if reset previous current then current else current - previous

/-- What the readings add, one by one. -/
def deltas : α → List α → List α
  | _, [] => []
  | previous, current :: rest => delta reset previous current :: deltas current rest

variable {reset}

theorem deltas_append (previous : α) (us vs : List α) :
    deltas reset previous (us ++ vs) =
      deltas reset previous us ++ deltas reset (us.getLastD previous) vs := by
  induction us generalizing previous with
  | nil => rfl
  | cons u us ih =>
    rw [List.cons_append, deltas, ih, deltas, List.cons_append]
    cases us <;> rfl

end Differences

/-! ## The sum of the differences -/

section Sum
variable [AddCommMonoid α]

/-- The sum of the last values. -/
def total (segments : List (List α)) : α := (segments.map fun s => s.getLast?.getD 0).sum

variable [PartialOrder α] (reset : α → α → Prop) [DecidableRel reset]

/-- The last values of the segments of some readings, the first one included. -/
def finals : α → List α → α
  | previous, [] => previous
  | previous, current :: rest => (if reset previous current then previous else 0) + finals current rest

variable {reset}

/-- Within a segment only the last value counts. -/
theorem finals_append {previous : α} {s : List α} (hs : (previous :: s).IsChain (Grows reset))
    (rest : List α) : finals reset previous (s ++ rest) = finals reset (s.getLastD previous) rest := by
  induction s generalizing previous with
  | nil => rfl
  | cons c s ih =>
    obtain ⟨hgrows, hrest⟩ := List.isChain_cons_cons.mp hs
    rw [List.cons_append, finals, if_neg hgrows.1, zero_add, ih hrest]
    cases s <;> rfl

/-- The last values of the segments, from the first reading on. -/
theorem finals_cons_flatten {c : α} {s : List α} {segments : List (List α)}
    (h : Segmented reset ((c :: s) :: segments)) :
    finals reset c (s ++ segments.flatten) = total ((c :: s) :: segments) := by
  induction segments generalizing c s with
  | nil =>
    rw [finals_append (h.grows _ (List.mem_cons_self ..))]
    simp [finals, total, List.getLast?_cons]
  | cons t segments ih =>
    cases t with
    | nil => exact absurd rfl (h.nonempty [] (by simp))
    | cons d t =>
      have hreset : reset (s.getLastD c) d :=
        (List.isChain_cons_cons.mp h.resets).1 _ (by simp [List.getLast?_cons]) d rfl
      rw [finals_append (h.grows _ (List.mem_cons_self ..)), List.flatten_cons, List.cons_append, finals,
        if_pos hreset, ih h.tail]
      simp [total, List.getLast?_cons]

variable [CanonicallyOrderedAdd α] [Sub α] [OrderedSub α]

/-- Reading the same value again adds nothing. -/
theorem deltas_again (hreset : ∀ a, ¬ reset a a) (previous : α) (current : α) (rest : List α) :
    (deltas reset previous (current :: current :: rest)).sum =
      (deltas reset previous (current :: rest)).sum := by
  have hagain : delta reset current current = 0 := by
    rw [delta, if_neg (hreset current), tsub_self]
  simp [deltas, hagain]

/-- The differences of readings add up to the last values of their segments. -/
theorem add_sum_deltas {previous : α} {readings : List α}
    (h : (previous :: readings).IsChain (Follows reset)) :
    previous + (deltas reset previous readings).sum = finals reset previous readings := by
  induction readings generalizing previous with
  | nil => simp [deltas, finals]
  | cons current rest ih =>
    obtain ⟨hfollows, hrest⟩ := List.isChain_cons_cons.mp h
    rw [deltas, finals, List.sum_cons, ← ih hrest, delta]
    by_cases hreset : reset previous current
    · rw [if_pos hreset, if_pos hreset]
    · rw [if_neg hreset, if_neg hreset, ← add_assoc, zero_add,
        add_tsub_cancel_of_le (hfollows.resolve_left hreset)]

/-- **The differences of the readings add up to the last values of the segments.** -/
theorem sum_deltas {segments : List (List α)} (h : Segmented reset segments) :
    (deltas reset 0 segments.flatten).sum = total segments := by
  cases segments with
  | nil => rfl
  | cons s segments =>
    cases s with
    | nil => exact absurd rfl (h.nonempty [] (List.mem_cons_self ..))
    | cons c s =>
      have hchain : (0 :: ((c :: s) :: segments).flatten).IsChain (Follows reset) :=
        List.isChain_cons_cons.mpr ⟨.inr (zero_le), isChain_flatten h⟩
      rw [← zero_add (deltas ..).sum, add_sum_deltas hchain, List.flatten_cons, List.cons_append, finals,
        ite_self, zero_add, finals_cons_flatten h]

end Sum

end Telescope
