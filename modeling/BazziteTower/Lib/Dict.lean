import Mathlib.Algebra.BigOperators.Group.List.Basic
import Mathlib.Data.List.Nodup
import Mathlib.Order.Bounds.Basic
import Mathlib.Order.Lattice

/-!
# Dictionaries that keep their order of insertion

A dictionary is a list of keys and values in which a changed value stays where it is and
a new key goes to the end.

A dictionary that keeps the least upper bound of the values that were recorded under
each key depends only on the set of these records: neither on their order nor on how
often each was made.

## Main definitions

* `Dict.find`, `Dict.alter` — look a key up, and change its value.
* `Dict.Collects` — the values are the bounds of a set of records.

## Main results

* `Dict.Collects.alter` — recording once more.
* `Dict.Collects.perm` — two dictionaries that collect the same records.
-/

/-- A dictionary. -/
abbrev Dict (κ V : Type) := List (κ × V)

namespace Dict

variable {κ V : Type} [DecidableEq κ]

/-- The value of a key. -/
def find (k : κ) : Dict κ V → Option V
  | [] => none
  | e :: d => if e.1 = k then some e.2 else find k d

/-- Change the value of a key, or add it. -/
def alter (f : Option V → V) (k : κ) : Dict κ V → Dict κ V
  | [] => [(k, f none)]
  | e :: d => if e.1 = k then (k, f (some e.2)) :: d else e :: alter f k d

/-- No key stands twice. -/
def Distinct (d : Dict κ V) : Prop := (d.map Prod.fst).Nodup

omit [DecidableEq κ] in
theorem distinct_nil : Distinct ([] : Dict κ V) := List.nodup_nil

theorem mem_of_find {d : Dict κ V} {k : κ} {v : V} (h : d.find k = some v) : (k, v) ∈ d := by
  induction d with
  | nil => cases h
  | cons e d ih =>
    rw [find] at h
    split at h
    · rename_i hk
      obtain rfl := Option.some.inj h
      exact hk ▸ List.mem_cons_self ..
    · exact List.mem_cons_of_mem _ (ih h)

theorem find_of_mem {d : Dict κ V} (hd : d.Distinct) {k : κ} {v : V} (h : (k, v) ∈ d) :
    d.find k = some v := by
  induction d with
  | nil => cases h
  | cons e d ih =>
    rw [Distinct, List.map_cons, List.nodup_cons] at hd
    rcases List.mem_cons.mp h with rfl | h
    · exact if_pos rfl
    · have hne : e.1 ≠ k := fun he => hd.1 (he ▸ List.mem_map_of_mem h)
      rw [find, if_neg hne]
      exact ih hd.2 h

theorem find_alter (f : Option V → V) (k k' : κ) (d : Dict κ V) :
    (d.alter f k).find k' = if k' = k then some (f (d.find k)) else d.find k' := by
  induction d with
  | nil =>
    simp only [alter, find]
    by_cases hk : k' = k
    · simp [hk]
    · simp [hk, Ne.symm hk]
  | cons e d ih =>
    by_cases he : e.1 = k
    · by_cases hk : k' = k
      · simp [alter, find, he, hk]
      · simp [alter, find, he, hk, Ne.symm hk]
    · simp only [alter, if_neg he, find]
      rw [ih]
      by_cases hk : k' = k
      · subst hk
        simp [he]
      · simp [hk]

theorem mem_alter {f : Option V → V} {k : κ} {d : Dict κ V} {e : κ × V} (he : e ∈ d.alter f k) :
    (∃ o, e = (k, f o)) ∨ e ∈ d := by
  induction d with
  | nil => exact .inl ⟨none, List.mem_singleton.mp he⟩
  | cons e' d ih =>
    rw [alter] at he
    split at he
    · rcases List.mem_cons.mp he with rfl | he
      · exact .inl ⟨_, rfl⟩
      · exact .inr (List.mem_cons_of_mem _ he)
    · rcases List.mem_cons.mp he with rfl | he
      · exact .inr (List.mem_cons_self ..)
      · exact (ih he).imp id (List.mem_cons_of_mem _)

theorem keys_alter (f : Option V → V) (k : κ) (d : Dict κ V) :
    (d.alter f k).map Prod.fst =
      if k ∈ d.map Prod.fst then d.map Prod.fst else d.map Prod.fst ++ [k] := by
  induction d with
  | nil => rfl
  | cons e d ih =>
    by_cases he : e.1 = k
    · simp [alter, he]
    · rw [alter, if_neg he, List.map_cons, ih]
      by_cases hk : k ∈ d.map Prod.fst
      · simp [hk]
      · simp [hk, Ne.symm he]

theorem Distinct.alter {d : Dict κ V} (hd : d.Distinct) (f : Option V → V) (k : κ) :
    (d.alter f k).Distinct := by
  rw [Distinct, keys_alter]
  split
  · exact hd
  · rename_i hk
    exact List.nodup_append.mpr ⟨hd, by simp, fun a ha b hb hab => by
      obtain rfl := List.mem_singleton.mp hb
      exact hk (hab ▸ ha)⟩

/-- What a change adds to a sum over the values. -/
theorem sum_alter {M : Type} [AddCommMonoid M] (g : V → M) (f : Option V → V) (k : κ) {m : M}
    (hf : ∀ o, g (f o) = (o.map g).getD 0 + m) (d : Dict κ V) :
    ((d.alter f k).map fun e => g e.2).sum = (d.map fun e => g e.2).sum + m := by
  induction d with
  | nil => simp [alter, hf]
  | cons e d ih =>
    by_cases he : e.1 = k
    · simp [alter, he, hf, add_right_comm]
    · simp [alter, he, ih, add_assoc]

/-- Changing values and then mapping them. -/
theorem map_alter {W : Type} (φ : V → W) {f : Option V → V} {g : Option W → W}
    (hf : ∀ o, φ (f o) = g (o.map φ)) (k : κ) (d : Dict κ V) :
    ((d.alter f k).map fun e => (e.1, φ e.2)) = Dict.alter g k (d.map fun e => (e.1, φ e.2)) := by
  induction d with
  | nil => simp [alter, hf]
  | cons e d ih =>
    by_cases he : e.1 = k
    · simp [alter, he, hf]
    · simp [alter, he, ih]

/-- Two dictionaries with the same values have the same entries. -/
theorem perm_of_find_eq {d d' : Dict κ V} (hd : d.Distinct) (hd' : d'.Distinct)
    (h : ∀ k, d.find k = d'.find k) : d.Perm d' := by
  refine (List.perm_ext_iff_of_nodup (List.Nodup.of_map _ hd)
    (List.Nodup.of_map _ hd')).mpr fun ⟨k, v⟩ => ?_
  constructor
  · intro hmem
    exact mem_of_find ((h k).symm.trans (find_of_mem hd hmem))
  · intro hmem
    exact mem_of_find ((h k).trans (find_of_mem hd' hmem))

/-! ## Least upper bounds -/

section Collects
variable [PartialOrder V]

/-- The dictionary has a value for each key that was recorded, their least upper bound. -/
structure Collects (d : Dict κ V) (records : Set (κ × V)) : Prop where
  distinct : d.Distinct
  recorded : ∀ k, d.find k = none ↔ ∀ v, (k, v) ∉ records
  bound : ∀ k v, d.find k = some v → IsLUB {u | (k, u) ∈ records} v

theorem collects_nil : Collects ([] : Dict κ V) ∅ :=
  ⟨distinct_nil, fun _ => iff_of_true rfl fun _ h => h, nofun⟩

/-- Two dictionaries that collect the same records have the same entries. -/
theorem Collects.perm {d d' : Dict κ V} {records : Set (κ × V)} (h : d.Collects records)
    (h' : d'.Collects records) : d.Perm d' := by
  refine perm_of_find_eq h.distinct h'.distinct fun k => ?_
  cases hv : d.find k with
  | none => exact ((h'.recorded k).mpr ((h.recorded k).mp hv)).symm
  | some v =>
    cases hv' : d'.find k with
    | none =>
      rw [(h.recorded k).mpr ((h'.recorded k).mp hv')] at hv
      cases hv
    | some v' => rw [(h.bound k v hv).unique (h'.bound k v' hv')]

end Collects

section Record
variable [SemilatticeSup V]

/-- What recording a value makes of the value of its key. -/
def join (v : V) : Option V → V
  | none => v
  | some u => v ⊔ u

/-- Recording a value. -/
theorem Collects.alter {d : Dict κ V} {records : Set (κ × V)} (h : d.Collects records) (k : κ)
    (v : V) : (d.alter (join v) k).Collects (insert (k, v) records) where
  distinct := h.distinct.alter _ _
  recorded k' := by
    rw [find_alter]
    by_cases hk : k' = k
    · subst hk
      simp only [if_true]
      exact iff_of_false nofun fun hno => hno v (Set.mem_insert ..)
    · rw [if_neg hk, h.recorded]
      refine forall_congr' fun u => not_congr ?_
      simp [hk]
  bound k' u hu := by
    rw [find_alter] at hu
    by_cases hk : k' = k
    · subst hk
      rw [if_pos rfl] at hu
      obtain rfl := Option.some.inj hu
      have hset : {u | (k', u) ∈ insert (k', v) records} = insert v {u | (k', u) ∈ records} := by
        ext u
        simp
      rw [hset]
      cases hold : d.find k' with
      | none =>
        have hempty : {u | (k', u) ∈ records} = ∅ :=
          Set.eq_empty_of_forall_notMem fun u => (h.recorded k').mp hold u
        rw [hempty, join]
        simp
      | some u => exact (h.bound k' u hold).insert v
    · rw [if_neg hk] at hu
      have hset : {u | (k', u) ∈ insert (k, v) records} = {u | (k', u) ∈ records} := by
        ext u
        simp [hk]
      rw [hset]
      exact h.bound k' u hu

end Record

end Dict
