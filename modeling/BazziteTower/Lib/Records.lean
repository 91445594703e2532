import Mathlib.Data.List.Basic

/-!
# Records in one stream

A record is written as its key, a separator, its value and a terminator.  A value may
contain the terminator; no key does, and nothing contains the separator.

## Main results

* `stream_injective` — the stream determines the records.
-/

namespace Records

variable {α : Type*}

/-- The first occurrence of a separator splits a list in one way. -/
theorem first_inj {a : α} {x y z w : List α} (hx : a ∉ x) (hy : a ∉ y)
    (h : x ++ a :: z = y ++ a :: w) : x = y ∧ z = w := by
  induction x generalizing y with
  | nil =>
    cases y with
    | nil => exact ⟨rfl, (List.cons.inj h).2⟩
    | cons b y => exact absurd (List.cons.inj h).1 fun hab => hy (hab ▸ List.mem_cons_self)
  | cons b x ih =>
    rw [List.mem_cons, not_or] at hx
    cases y with
    | nil => exact absurd (List.cons.inj h).1.symm hx.1
    | cons c y =>
      obtain ⟨rfl, hrest⟩ := List.cons.inj h
      rw [List.mem_cons, not_or] at hy
      obtain ⟨rfl, hzw⟩ := ih hx.2 hy.2 hrest
      exact ⟨rfl, hzw⟩

/-- So does the last one. -/
theorem last_inj {a : α} {x y z w : List α} (hz : a ∉ z) (hw : a ∉ w)
    (h : x ++ a :: z = y ++ a :: w) : x = y ∧ z = w := by
  have hreverse : z.reverse ++ a :: x.reverse = w.reverse ++ a :: y.reverse := by
    simpa using congrArg List.reverse h
  obtain ⟨hzw, hxy⟩ := first_inj (by simpa using hz) (by simpa using hw) hreverse
  exact ⟨List.reverse_injective hxy, List.reverse_injective hzw⟩

variable (separator terminator : α)

def render (r : List α × List α) : List α := r.1 ++ separator :: (r.2 ++ [terminator])

def stream (records : List (List α × List α)) : List α :=
  records.flatMap (render separator terminator)

/-- What the key and the value of a record do not contain. -/
structure Sound (r : List α × List α) : Prop where
  separator_key : separator ∉ r.1
  terminator_key : terminator ∉ r.1
  separator_value : separator ∉ r.2

variable {separator terminator}

theorem stream_cons (r : List α × List α) (rs : List (List α × List α)) :
    stream separator terminator (r :: rs) =
      r.1 ++ separator :: (r.2 ++ terminator :: stream separator terminator rs) := by
  simp [stream, render]

theorem stream_ne_nil (r : List α × List α) (rs : List (List α × List α)) :
    stream separator terminator (r :: rs) ≠ [] := by
  simp [stream_cons]

/-- A value ends at the last terminator before the next separator, or at the end. -/
theorem value_inj (hne : separator ≠ terminator) {v v' : List α} {rs rs' : List (List α × List α)}
    (hv : separator ∉ v) (hv' : separator ∉ v') (hrs : ∀ r ∈ rs, Sound separator terminator r)
    (hrs' : ∀ r ∈ rs', Sound separator terminator r)
    (h : v ++ terminator :: stream separator terminator rs =
      v' ++ terminator :: stream separator terminator rs') :
    v = v' ∧ stream separator terminator rs = stream separator terminator rs' := by
  cases rs with
  | nil =>
    cases rs' with
    | nil => exact last_inj List.not_mem_nil List.not_mem_nil h
    | cons r' rs' =>
      have hmem : separator ∈ v ++ terminator :: stream separator terminator [] := by
        rw [h, stream_cons]
        simp
      simp [stream, hv, hne] at hmem
  | cons r rs =>
    cases rs' with
    | nil =>
      have hmem : separator ∈ v' ++ terminator :: stream separator terminator [] := by
        rw [← h, stream_cons]
        simp
      simp [stream, hv', hne] at hmem
    | cons r' rs' =>
      have hr := hrs r List.mem_cons_self
      have hr' := hrs' r' List.mem_cons_self
      have hsplit : (v ++ terminator :: r.1) ++
          separator :: (r.2 ++ terminator :: stream separator terminator rs) =
            (v' ++ terminator :: r'.1) ++
              separator :: (r'.2 ++ terminator :: stream separator terminator rs') := by
        simpa [stream_cons] using h
      obtain ⟨hkeys, hrest⟩ := first_inj (by simp [hv, hne, hr.separator_key])
        (by simp [hv', hne, hr'.separator_key]) hsplit
      obtain ⟨hvalue, hkey⟩ := last_inj hr.terminator_key hr'.terminator_key hkeys
      exact ⟨hvalue, by rw [stream_cons, stream_cons, hkey, hrest]⟩

/-- The stream determines the records. -/
theorem stream_injective (hne : separator ≠ terminator) {rs rs' : List (List α × List α)}
    (hrs : ∀ r ∈ rs, Sound separator terminator r) (hrs' : ∀ r ∈ rs', Sound separator terminator r)
    (h : stream separator terminator rs = stream separator terminator rs') : rs = rs' := by
  induction rs generalizing rs' with
  | nil =>
    cases rs' with
    | nil => rfl
    | cons r' rs' => exact absurd h.symm (stream_ne_nil r' rs')
  | cons r rs ih =>
    cases rs' with
    | nil => exact absurd h (stream_ne_nil r rs)
    | cons r' rs' =>
      rw [List.forall_mem_cons] at hrs hrs'
      rw [stream_cons, stream_cons] at h
      obtain ⟨hkey, h⟩ := first_inj hrs.1.separator_key hrs'.1.separator_key h
      obtain ⟨hvalue, h⟩ := value_inj hne hrs.1.separator_value hrs'.1.separator_value hrs.2 hrs'.2 h
      rw [Prod.ext hkey hvalue, ih hrs.2 hrs'.2 h]

end Records
