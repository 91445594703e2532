import BazziteTower.Tokens.Report
import Mathlib.Algebra.Order.Group.Nat
import Mathlib.Algebra.Order.Pi
import Mathlib.Algebra.Order.Sub.Prod
import Mathlib.Tactic.FinCases

/-!
# The differences of the codex counters

The counters of a session file are cumulative and are reset now and then, and the same
counters may be logged again.  What `codex` emits adds up to the last counters of the
segments, and with a selection by date to what the selected records add to them.

## Main definitions

* `emitted` — the sum of some samples, component by component.
* `Padded` — records with repetitions and records without usage in between.
* `AllSelected`, `NoneSelected` — what is selected of the records of a file.

## Main results

* `emitted_codexFile` — what a suffix of the records adds.
* `emitted_codex_eq_total` — what all records of all files add.
-/

open Telescope

namespace TokenReport

/-- The sum of the samples in each of the five counters. -/
def emitted (samples : List Sample) : Counters := (samples.map fun s =>
  ![s.usage.input, s.usage.cacheRead, s.usage.output, s.usage.reasoning, s.usage.total]).sum

theorem emitted_append (xs ys : List Sample) : emitted (xs ++ ys) = emitted xs + emitted ys := by
  simp [emitted]

theorem emitted_sample (day project kind model : Text) (delta : Counters) (turns large : ℕ) :
    emitted [⟨day, project, kind, model, { input := delta 0, cacheRead := delta 1
                                           output := delta 2, reasoning := delta 3
                                           total := delta 4, turns := turns
                                           largeContextTurns := large }⟩] = delta := by
  funext i
  fin_cases i <;> simp [emitted]

/-- The counters of some records. -/
def readings (records : List Fields) : List Counters := records.filterMap reading

@[simp] theorem readings_nil : readings [] = [] := rfl

theorem readings_cons (record : Fields) (records : List Fields) :
    readings (record :: records) = (reading record).toList ++ readings records := by
  rw [readings, List.filterMap_cons]
  cases reading record <;> rfl

theorem readings_append (us vs : List Fields) : readings (us ++ vs) = readings us ++ readings vs :=
  List.filterMap_append

theorem reading_of_not_tokenCount {record : Fields} (h : ¬ isTokenCount record) :
    reading record = none := by
  simp [reading, h]

section Run
variable {isoDay : Json → Option Text} {sel : Selection}

@[simp] theorem describe_previous (s : CodexState) (record : Fields) :
    (describe s record).previous = s.previous := by
  simp only [describe]
  split
  · rfl
  · split <;> rfl

@[simp] theorem describe_samples (s : CodexState) (record : Fields) :
    (describe s record).samples = s.samples := by
  simp only [describe]
  split
  · rfl
  · split <;> rfl

/-- Every record moves the reference, selected or not. -/
theorem previous_codexRecord (s : CodexState) (record : Fields) :
    (codexRecord isoDay sel s record).previous = (reading record).getD s.previous := by
  by_cases htoken : isTokenCount record
  · cases hreading : reading record <;> simp [codexRecord, htoken, hreading]
  · simp [codexRecord, htoken, reading_of_not_tokenCount htoken]

/-- A selected record emits its difference. -/
theorem emitted_codexRecord {s : CodexState} {record : Fields}
    (h : isTokenCount record → (describe s record).included isoDay sel record) :
    emitted (codexRecord isoDay sel s record).samples =
      emitted s.samples + ((reading record).map (delta resets s.previous)).getD 0 := by
  by_cases htoken : isTokenCount record
  · cases hreading : reading record with
    | none => simp [codexRecord, htoken, hreading]
    | some current =>
      simp only [codexRecord, htoken, hreading, if_true, describe_samples, describe_previous]
      by_cases hzero : delta resets s.previous current = 0
      · simp [hzero]
      · have hincluded := h htoken
        simp only [CodexState.included] at hincluded
        simp only [CodexState.included, hincluded, hzero, ne_eq, not_false_eq_true, and_self, if_true,
          emitted_append, emitted_sample, Option.map_some, Option.getD_some]
  · simp [codexRecord, htoken, reading_of_not_tokenCount htoken]

/-- A record that is not selected emits nothing. -/
theorem samples_codexRecord {s : CodexState} {record : Fields}
    (h : isTokenCount record → ¬ (describe s record).included isoDay sel record) :
    (codexRecord isoDay sel s record).samples = s.samples := by
  by_cases htoken : isTokenCount record
  · cases hreading : reading record with
    | none => simp [codexRecord, htoken, hreading]
    | some current =>
      have hexcluded := h htoken
      simp only [CodexState.included] at hexcluded
      simp [codexRecord, htoken, hreading, CodexState.included, hexcluded]
  · simp [codexRecord, htoken]

variable (isoDay sel)

/-- Every record of usage is selected. -/
def AllSelected : CodexState → List Fields → Prop
  | _, [] => True
  | s, record :: records =>
    (isTokenCount record → (describe s record).included isoDay sel record) ∧
      AllSelected (codexRecord isoDay sel s record) records

/-- No record of usage is selected. -/
def NoneSelected : CodexState → List Fields → Prop
  | _, [] => True
  | s, record :: records =>
    (isTokenCount record → ¬ (describe s record).included isoDay sel record) ∧
      NoneSelected (codexRecord isoDay sel s record) records

/-- The state after some records. -/
abbrev after (s : CodexState) (records : List Fields) : CodexState :=
  records.foldl (codexRecord isoDay sel) s

variable {isoDay sel}

theorem after_cons (s : CodexState) (record : Fields) (records : List Fields) :
    after isoDay sel s (record :: records) = after isoDay sel (codexRecord isoDay sel s record) records :=
  rfl

theorem previous_after (s : CodexState) (records : List Fields) :
    (after isoDay sel s records).previous = (readings records).getLastD s.previous := by
  induction records generalizing s with
  | nil => rfl
  | cons record records ih =>
    rw [after_cons, ih, previous_codexRecord]
    rw [readings_cons]
    cases reading record with
    | none => rfl
    | some current => cases readings records <;> rfl

/-- **Selected records emit the differences of their counters.** -/
theorem emitted_after {s : CodexState} {records : List Fields} (h : AllSelected isoDay sel s records) :
    emitted (after isoDay sel s records).samples =
      emitted s.samples + (deltas resets s.previous (readings records)).sum := by
  induction records generalizing s with
  | nil => simp [deltas]
  | cons record records ih =>
    rw [after_cons, ih h.2, emitted_codexRecord h.1, previous_codexRecord]
    rw [readings_cons]
    cases reading record with
    | none => simp
    | some current => simp [deltas, add_assoc]

theorem samples_after {s : CodexState} {records : List Fields}
    (h : NoneSelected isoDay sel s records) :
    (after isoDay sel s records).samples = s.samples := by
  induction records generalizing s with
  | nil => rfl
  | cons record records ih => rw [after_cons, ih h.2, samples_codexRecord h.1]

end Run

/-! ## Repetitions -/

/-- Records of usage, with exact repetitions and records without usage in between.  A
repetition stands before the next record with other counters. -/
inductive Padded : List Fields → List Fields → Prop
  | nil : Padded [] []
  | keep {rs ts : List Fields} (r : Fields) (h : Padded rs ts) : Padded (r :: rs) (r :: ts)
  | empty {rs ts : List Fields} (e : Fields) (he : reading e = none) (h : Padded rs ts) :
      Padded rs (e :: ts)
  | again {rs ts : List Fields} (r : Fields) (es : List Fields) (hes : ∀ e ∈ es, reading e = none)
      (h : Padded (r :: rs) (r :: ts)) : Padded (r :: rs) (r :: es ++ r :: ts)

theorem readings_of_empty {es : List Fields} (hes : ∀ e ∈ es, reading e = none) : readings es = [] :=
  List.filterMap_eq_nil_iff.mpr hes

theorem readings_again {r : Fields} {es ts : List Fields} (hes : ∀ e ∈ es, reading e = none) :
    readings (r :: es ++ r :: ts) = (reading r).toList ++ ((reading r).toList ++ readings ts) := by
  rw [List.cons_append, readings_cons, readings_append, readings_of_empty hes, List.nil_append,
    readings_cons]

theorem resets_irrefl (a : Counters) : ¬ resets a a := lt_irrefl _

/-- Padding adds nothing. -/
theorem Padded.sum_deltas {rs ts : List Fields} (h : Padded rs ts) (previous : Counters) :
    (deltas resets previous (readings ts)).sum = (deltas resets previous (readings rs)).sum := by
  induction h generalizing previous with
  | nil => rfl
  | keep r h ih =>
    rw [readings_cons, readings_cons]
    cases reading r with
    | none => exact ih previous
    | some c => exact congrArg (delta resets previous c + ·) (ih c)
  | empty e he h ih =>
    rw [readings_cons, he]
    exact ih previous
  | again r es hes h ih =>
    rw [← ih previous, readings_again hes, readings_cons]
    cases reading r with
    | none => rfl
    | some c => exact deltas_again resets_irrefl previous c _

/-- Padded readings still only grow or are reset. -/
theorem Padded.isChain {rs ts : List Fields} (h : Padded rs ts) {previous : Counters}
    (hchain : (previous :: readings rs).IsChain (Follows resets)) :
    (previous :: readings ts).IsChain (Follows resets) := by
  induction h generalizing previous with
  | nil => exact hchain
  | keep r h ih =>
    rw [readings_cons] at hchain ⊢
    cases hr : reading r with
    | none =>
      rw [hr] at hchain
      exact ih hchain
    | some c =>
      rw [hr] at hchain
      obtain ⟨hfirst, hrest⟩ := List.isChain_cons_cons.mp hchain
      exact List.isChain_cons_cons.mpr ⟨hfirst, ih hrest⟩
  | empty e he h ih =>
    rw [readings_cons, he]
    exact ih hchain
  | again r es hes h ih =>
    have hlater := ih hchain
    rw [readings_cons] at hlater
    rw [readings_again hes]
    cases hr : reading r with
    | none =>
      rw [hr] at hlater
      exact hlater
    | some c =>
      rw [hr] at hlater
      obtain ⟨hfirst, hrest⟩ := List.isChain_cons_cons.mp hlater
      exact List.isChain_cons_cons.mpr ⟨hfirst, List.isChain_cons_cons.mpr ⟨.inr le_rfl, hrest⟩⟩

/-! ## The files -/

theorem isChain_of_segmented {segments : List (List Counters)} (h : Segmented resets segments) :
    (0 :: segments.flatten).IsChain (Follows resets) := by
  cases segments with
  | nil => exact .singleton _
  | cons s segments =>
    cases s with
    | nil => exact absurd rfl (h.nonempty [] (List.mem_cons_self ..))
    | cons c s => exact List.isChain_cons_cons.mpr ⟨.inr fun i => Nat.zero_le _, isChain_flatten h⟩

/-- **What a file emits.**  The readings of its records fall into segments, repetitions and
records without usage are in between, and a suffix of the records is selected.  The records
before it have segments, too, and what is emitted is the sum of the last counters of all
segments less the sum for these. -/
theorem emitted_codexFile (isoDay : Json → Option Text) (sel : Selection)
    {segments : List (List Counters)} (hsegments : Segmented resets segments) {rs ts : List Fields}
    (hrs : readings rs = segments.flatten) (hpadded : Padded rs ts) {us vs : List Fields}
    (hcut : ts = us ++ vs) (hus : NoneSelected isoDay sel {} us)
    (hvs : AllSelected isoDay sel (after isoDay sel {} us) vs) :
    (∃ before, Segmented resets before ∧ before.flatten = readings us) ∧
      ∀ before, Segmented resets before → before.flatten = readings us →
        emitted (codexFile isoDay sel ts).samples + total before = total segments := by
  have hchain := hpadded.isChain (hrs ▸ isChain_of_segmented hsegments)
  have hreadings : readings ts = readings us ++ readings vs := by
    rw [hcut, readings_append]
  constructor
  · rw [hreadings, ← List.cons_append] at hchain
    exact exists_segmented hchain.left_of_append.tail
  · intro before hbefore hflatten
    have hfull : (deltas resets 0 (readings ts)).sum = total segments := by
      rw [hpadded.sum_deltas, hrs, sum_deltas hsegments]
    have hprefix : (deltas resets 0 (readings us)).sum = total before := by
      rw [← hflatten, sum_deltas hbefore]
    have hemitted : emitted (codexFile isoDay sel ts).samples =
        (deltas resets ((readings us).getLastD 0) (readings vs)).sum := by
      rw [codexFile, hcut, List.foldl_append, emitted_after hvs, samples_after hus, previous_after]
      exact zero_add _
    rw [hemitted, ← hprefix, ← hfull, hreadings, deltas_append, List.sum_append, add_comm]

/-- No counter is carried from one file to the next. -/
theorem emitted_codex (isoDay : Json → Option Text) (sel : Selection) (files : List (List Fields)) :
    emitted (codex isoDay sel files).1 =
      (files.map fun ts => emitted (codexFile isoDay sel ts).samples).sum := by
  rw [codex]
  induction files with
  | nil => rfl
  | cons ts files ih =>
    rw [List.map_cons, List.flatMap_cons, emitted_append, ih, List.map_cons, List.sum_cons]

/-- **What the report emits.**  In every file the readings fall into segments, with repetitions
and records without usage in between, and all records are selected. -/
theorem emitted_codex_eq_total {isoDay : Json → Option Text} {sel : Selection}
    {files : List (List Fields × List (List Counters))}
    (h : ∀ f ∈ files, Segmented resets f.2 ∧
      (∃ rs, readings rs = f.2.flatten ∧ Padded rs f.1) ∧ AllSelected isoDay sel {} f.1) :
    emitted (codex isoDay sel (files.map Prod.fst)).1 = (files.map fun f => total f.2).sum := by
  rw [emitted_codex, List.map_map]
  congr 1
  refine List.map_congr_left fun f hf => ?_
  obtain ⟨hsegments, ⟨rs, hrs, hpadded⟩, hselected⟩ := h f hf
  calc emitted (codexFile isoDay sel f.1).samples
      = (deltas resets 0 (readings f.1)).sum := (emitted_after hselected).trans (zero_add _)
    _ = total f.2 := by rw [hpadded.sum_deltas, hrs, sum_deltas hsegments]

/-! ## A log -/

/-- A record of usage, as of some time. -/
def tokenCount (timestamp : String) (total : ℕ) : Fields :=
  [("timestamp".toList, .str timestamp.toList),
    ("payload".toList, .obj [("type".toList, .str "token_count".toList),
      ("info".toList, .obj [("total_token_usage".toList, .obj [("total_tokens".toList, .int total)])])])]

/-- Everything since the third of the month. -/
def sinceThird : Selection := ⟨"2026-10-03".toList, []⟩

def counters (total : ℕ) : Counters := ![0, 0, 0, 0, total]

theorem grows_counters {m n : ℕ} (h : m ≤ n) : Grows resets (counters m) (counters n) := by
  refine ⟨Nat.not_lt.mpr h, fun i => ?_⟩
  fin_cases i
  all_goals first | exact le_rfl | exact h

theorem segmented_log : Segmented resets [[counters 100, counters 160], [counters 20]] where
  nonempty := by simp
  grows := by
    have hgrows : Grows resets (counters 100) (counters 160) := grows_counters (by decide)
    simpa using hgrows
  resets := by
    have hresets : resets (counters 160) (counters 20) := by decide
    simpa using hresets

/-- One early record, a repeated one and a reset. -/
theorem emitted_codexFile_log :
    (∃ before, Segmented resets before ∧
      before.flatten = readings [tokenCount "2026-10-01T08:00:00Z" 100]) ∧
    ∀ before, Segmented resets before →
      before.flatten = readings [tokenCount "2026-10-01T08:00:00Z" 100] →
      emitted (codexFile stampDay sinceThird [tokenCount "2026-10-01T08:00:00Z" 100,
        tokenCount "2026-10-10T08:00:00Z" 160, tokenCount "2026-10-10T08:00:00Z" 160,
        tokenCount "2026-10-10T09:00:00Z" 20]).samples + total before =
          total [[counters 100, counters 160], [counters 20]] := by
  have hpadded : Padded [tokenCount "2026-10-01T08:00:00Z" 100, tokenCount "2026-10-10T08:00:00Z" 160,
      tokenCount "2026-10-10T09:00:00Z" 20] [tokenCount "2026-10-01T08:00:00Z" 100,
      tokenCount "2026-10-10T08:00:00Z" 160, tokenCount "2026-10-10T08:00:00Z" 160,
      tokenCount "2026-10-10T09:00:00Z" 20] :=
    .keep _ (.again _ [] nofun (.keep _ (.keep _ .nil)))
  have hearly : NoneSelected stampDay sinceThird {} [tokenCount "2026-10-01T08:00:00Z" 100] :=
    ⟨fun _ => by decide, trivial⟩
  exact emitted_codexFile stampDay sinceThird segmented_log (by decide) hpadded rfl hearly
    ⟨fun _ => by decide, fun _ => by decide, fun _ => by decide, trivial⟩

/-- Records of usage, with copies of any of them and records without usage anywhere. -/
inductive Sprinkled (all : List Fields) : List Fields → List Fields → Prop
  | nil : Sprinkled all [] []
  | keep {rs ts : List Fields} (r : Fields) (h : Sprinkled all rs ts) :
      Sprinkled all (r :: rs) (r :: ts)
  | extra {rs ts : List Fields} (e : Fields) (he : reading e = none ∨ e ∈ all)
      (h : Sprinkled all rs ts) : Sprinkled all rs (e :: ts)

/-- A copy of an earlier record is taken for a reset, and counted again. -/
theorem not_emitted_sprinkled : ∃ segments rs ts, Segmented resets segments ∧
    readings rs = segments.flatten ∧ Sprinkled rs rs ts ∧ AllSelected stampDay sinceThird {} ts ∧
      emitted (codexFile stampDay sinceThird ts).samples ≠ total segments := by
  refine ⟨[[counters 100, counters 160]], [tokenCount "2026-10-10T08:00:00Z" 100,
    tokenCount "2026-10-10T09:00:00Z" 160], [tokenCount "2026-10-10T08:00:00Z" 100,
    tokenCount "2026-10-10T09:00:00Z" 160, tokenCount "2026-10-10T08:00:00Z" 100], ?_, by decide, ?_,
    ⟨fun _ => by decide, fun _ => by decide, fun _ => by decide, trivial⟩, by decide⟩
  · have hgrows : Grows resets (counters 100) (counters 160) := grows_counters (by decide)
    exact ⟨by simp, by simpa using hgrows, .singleton _⟩
  · exact .keep _ (.keep _ (.extra _ (.inr (by simp)) .nil))

end TokenReport
