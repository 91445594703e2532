import BazziteTower.Lib.Strings
import Mathlib.Algebra.Order.Ring.Rat
import Mathlib.Data.List.Chain
import Mathlib.Data.List.Sort
import Mathlib.Tactic.Linarith
import Mathlib.Tactic.Ring

/-!
# The stall detector

`bazzite-tower-stall-detect`: the loop that sleeps, reads the two clocks, and records a
stall when the monotonic clock ran further than the threshold.

A run is given by how far the clocks run on during every sleep and during every
collection of evidence, and by what the collecting commands print.  Numbers are exact.

## Main definitions

* `record`, `sample` — what is logged for a gap, and one round of the loop.
* `trace` — the rounds of a run with what each of them logs.
* `Own` — a report of the time that its own sleep took.
* `Absorbed` — rounds in which no time of a collection is taken for a stall.

## Main results

* `own_iff_absorbed` — every reported stall is one of its own sleep exactly if every
  collection is absorbed.
* `chain_of_long` — collections that pass for stalls report one another.
-/

namespace StallDetect

/-! ## Clocks -/

/-- What `CLOCK_MONOTONIC` and `CLOCK_BOOTTIME` show. -/
structure Clocks where
  mono : ℚ
  boot : ℚ

/-- How far both clocks run on. -/
structure Advance extends Clocks where
  mono_nonneg : 0 ≤ mono
  boot_nonneg : 0 ≤ boot

namespace Advance

/-- No time at all. -/
def none : Advance := ⟨⟨0, 0⟩, le_rfl, le_rfl⟩

/-- While the machine is awake both clocks run on alike. -/
def awake (t : ℚ) (h : 0 ≤ t) : Advance := ⟨⟨t, t⟩, h, h⟩

/-- One after the other. -/
def plus (a b : Advance) : Advance :=
  ⟨⟨a.mono + b.mono, a.boot + b.boot⟩, add_nonneg a.mono_nonneg b.mono_nonneg,
    add_nonneg a.boot_nonneg b.boot_nonneg⟩

@[simp] theorem plus_mono (a b : Advance) : (a.plus b).mono = a.mono + b.mono := rfl
@[simp] theorem plus_boot (a b : Advance) : (a.plus b).boot = a.boot + b.boot := rfl

/-- Only the boot-time clock runs while the machine is suspended. -/
def suspended (a : Advance) : Bool := a.boot - a.mono > 1

/-- What the loop takes for a stall. -/
def stall (thresh : ℚ) (a : Advance) : Bool := a.mono > thresh && !a.suspended

end Advance

def Clocks.after (c : Clocks) (a : Advance) : Clocks := ⟨c.mono + a.mono, c.boot + a.boot⟩

/-! ## Evidence -/

/-- What the commands that collect evidence print. -/
structure Evidence where
  /-- `d_state_tasks()` -/
  blocked : Text
  /-- `pressure()` -/
  pressure : Text
  /-- The last kernel messages. -/
  recent : Text

/-- A line in the journal. -/
inductive Line
  | suspend (duration : ℚ)
  | stall (duration : ℚ) (blocked : Text)
  | dState (tasks : Text)
  | pressure (text : Text)
  | kmsg (line : Text)

def Line.isStall : Line → Bool
  | .stall _ _ => true
  | _ => false

/-- `ln.split()[-1]`, which raises `IndexError` on a blank line. -/
def lastWord (line : Text) : Option Text :=
  let word := (line.rdropWhile Text.isSpace).rtakeWhile fun c => !Text.isSpace c
  if word = [] then none else some word

/-- `",".join(sorted({ln.split()[-1] for ln in blocked.splitlines()})) or "none"`. -/
def workers (blocked : Text) : Option Text := do
  let names ← blocked.splitlines.mapM lastWord
  if names = [] then return "none".toList
  return [','].intercalate (names.dedup.insertionSort (· ≤ ·))

/-- `record(duration, suspended)`: the lines it logs, or none where it raises. -/
def record (duration : ℚ) (suspended : Bool) (e : Evidence) : Option (List Line) := do
  if suspended then return [.suspend duration]
  let names ← workers e.blocked
  return [.stall duration names,
    .dState (if e.blocked = [] then "(none still blocked)".toList else e.blocked),
    .pressure e.pressure] ++ e.recent.splitlines.map .kmsg

/-! ## The loop -/

/-- What happens in one round of the loop: the sleep, and the collection of evidence, if
there is one. -/
structure Round where
  sleep : Advance
  collecting : Advance
  evidence : Evidence

/-- The clocks, and their last readings. -/
structure State where
  now : Clocks
  prev : Clocks

/-- `MIN_THRESH`. -/
def minThresh : ℚ := 1 / 2

/-- `max(THRESH, MIN_THRESH)`. -/
def threshold (thresh : ℚ) : ℚ := max thresh minThresh

/-- One round of the loop in `main`.  The readings are those from before the collection. -/
def sample (thresh : ℚ) (s : State) (r : Round) : Option (State × List Line) := do
  let now := s.now.after r.sleep
  let dMono := now.mono - s.prev.mono
  if dMono > thresh then
    let suspended : Bool := (now.boot - s.prev.boot) - dMono > 1
    let lines ← record dMono suspended r.evidence
    return (⟨if suspended then now else now.after r.collecting, now⟩, lines)
  else return (⟨now, now⟩, [])

/-- A round with what it logged. -/
structure Step where
  round : Round
  lines : List Line

/-- The rounds of a run, until one of them raises. -/
def trace (thresh : ℚ) : State → List Round → List Step
  | _, [] => []
  | s, r :: rs =>
    match sample thresh s r with
    | some (s', lines) => ⟨r, lines⟩ :: trace thresh s' rs
    | none => []

/-- `main()`, from the first readings of the clocks on. -/
def main (thresh : ℚ) (start : Clocks) (rounds : List Round) : List Step :=
  trace (threshold thresh) ⟨start, start⟩ rounds

/-! ## Attribution -/

/-- The round reports a stall. -/
def Step.stalled (s : Step) : Bool := s.lines.any Line.isStall

/-- The round reports at most one stall, and that is one of its sleep: the sleep alone took the
reported time, and that is more than the threshold. -/
def Own (thresh : ℚ) (s : Step) : Prop :=
  s.lines.countP Line.isStall ≤ 1 ∧ ∀ duration blocked, .stall duration blocked ∈ s.lines →
    s.round.sleep.mono = duration ∧ thresh < s.round.sleep.mono

/-- No collection that takes time is reported with the sleep after it.  `before` is what the
detector spent since its last readings. -/
def Absorbed (thresh : ℚ) : Advance → List Round → Prop
  | _, [] => True
  | before, r :: rs =>
    if (before.plus r.sleep).stall thresh then
      -- without the names of the blocked tasks the round raises, and is the last one
      (workers r.evidence.blocked).isSome → before.mono = 0 ∧ Absorbed thresh r.collecting rs
    else Absorbed thresh .none rs

/-! ## One round -/

section Round
variable {thresh : ℚ} {s : State} {before : Advance}

theorem not_mem_of_quiet {lines : List Line} (h : lines.any Line.isStall = false) {duration : ℚ}
    {blocked : Text} : .stall duration blocked ∉ lines := by
  intro hline
  have hstall : lines.any Line.isStall := List.any_eq_true.mpr ⟨_, hline, rfl⟩
  rw [h] at hstall
  cases hstall

theorem countP_of_quiet {lines : List Line} (h : lines.any Line.isStall = false) :
    lines.countP Line.isStall = 0 := by
  simpa [List.countP_eq_zero] using h

theorem own_of_quiet {x : Step} (h : x.stalled = false) : Own thresh x :=
  ⟨(countP_of_quiet h).le.trans zero_le_one, fun _ _ hline => absurd hline (not_mem_of_quiet h)⟩

/-- The clocks are read against the last readings, before what was spent since. -/
theorem gap_eq (hs : s.now = s.prev.after before) (r : Round) :
    (s.now.after r.sleep).mono - s.prev.mono = (before.plus r.sleep).mono ∧
      (s.now.after r.sleep).boot - s.prev.boot = (before.plus r.sleep).boot := by
  simp only [hs, Clocks.after, Advance.plus_mono, Advance.plus_boot]
  constructor <;> ring

/-- Where the clocks ran on as in a stall, the round reports the whole gap, and what it then
collects lies behind its readings. -/
theorem sample_of_stall (hs : s.now = s.prev.after before) (r : Round)
    (h : (before.plus r.sleep).stall thresh) : sample thresh s r =
      (record (before.plus r.sleep).mono false r.evidence).map fun lines =>
        (⟨(s.now.after r.sleep).after r.collecting, s.now.after r.sleep⟩, lines) := by
  obtain ⟨hmono, hboot⟩ := gap_eq hs r
  rw [Advance.stall, Bool.and_eq_true, decide_eq_true_eq, Bool.not_eq_true'] at h
  have hawake : decide ((before.plus r.sleep).boot - (before.plus r.sleep).mono > 1) = false := h.2
  simp only [sample, hmono, hboot, if_pos h.1, hawake]
  cases record (before.plus r.sleep).mono false r.evidence <;> rfl

/-- Elsewhere the round reports no stall, and takes no time behind its readings. -/
theorem sample_of_calm (hs : s.now = s.prev.after before) (r : Round)
    (h : (before.plus r.sleep).stall thresh = false) : ∃ lines, lines.any Line.isStall = false ∧
      sample thresh s r = some (⟨s.now.after r.sleep, s.now.after r.sleep⟩, lines) := by
  obtain ⟨hmono, hboot⟩ := gap_eq hs r
  by_cases hlong : (before.plus r.sleep).mono > thresh
  · have hgap : decide ((before.plus r.sleep).boot - (before.plus r.sleep).mono > 1) = true := by
      rw [Advance.stall, decide_eq_true hlong, Bool.true_and, Bool.not_eq_false'] at h
      exact h
    refine ⟨[.suspend (before.plus r.sleep).mono], rfl, ?_⟩
    simp only [sample, hmono, hboot, if_pos hlong, hgap]
    rfl
  · refine ⟨[], rfl, ?_⟩
    simp only [sample, hmono, if_neg hlong]
    rfl

theorem after_none (c : Clocks) : c = c.after .none := by
  simp [Clocks.after, Advance.none]

/-- The only stall that `record` logs has the duration that it was given. -/
theorem record_eq {e : Evidence} {names : Text} (h : workers e.blocked = some names) (duration : ℚ) :
    ∃ rest, record duration false e = some (.stall duration names :: rest) ∧
      rest.any Line.isStall = false := by
  refine ⟨.dState (if e.blocked = [] then "(none still blocked)".toList else e.blocked) ::
    .pressure e.pressure :: e.recent.splitlines.map .kmsg, ?_, ?_⟩
  · change (workers e.blocked).bind _ = _
    rw [h]
    rfl
  · rw [Bool.eq_false_iff, Ne, List.any_eq_true]
    rintro ⟨line, hline, hstall⟩
    simp only [List.mem_cons, List.mem_map] at hline
    rcases hline with rfl | rfl | ⟨text, -, rfl⟩ <;> cases hstall

theorem record_eq_none {e : Evidence} (h : workers e.blocked = none) (duration : ℚ) :
    record duration false e = none := by
  change (workers e.blocked).bind _ = none
  rw [h]
  rfl

/-- The report of a gap is one of the sleep in it exactly if no time went before the sleep. -/
theorem own_report_iff {r : Round} {names : Text} {rest : List Line}
    (hlong : (before.plus r.sleep).stall thresh) (hrest : rest.any Line.isStall = false) :
    Own thresh ⟨r, .stall (before.plus r.sleep).mono names :: rest⟩ ↔ before.mono = 0 := by
  have hpasses : before.mono + r.sleep.mono > thresh := by
    rw [Advance.stall, Bool.and_eq_true, decide_eq_true_eq] at hlong
    exact hlong.1
  constructor
  · intro hown
    have hsame : r.sleep.mono = before.mono + r.sleep.mono :=
      (hown.2 _ names (List.mem_cons_self ..)).1
    linarith
  · intro hzero
    constructor
    · rw [List.countP_cons_of_pos rfl, countP_of_quiet hrest]
    · intro duration blocked hline
      rcases List.mem_cons.mp hline with heq | hline
      · obtain ⟨rfl, rfl⟩ := Line.stall.inj heq
        exact ⟨by simp [hzero], by simpa [hzero] using hpasses⟩
      · exact absurd hline (not_mem_of_quiet hrest)

end Round

/-! ## Runs -/

/-- Every stall that the rounds of a trace report is one of its own sleep exactly if no time
of a collection, and none of what precedes the first sleep, is taken for a stall. -/
theorem trace_own_iff {thresh : ℚ} {s : State} {before : Advance} {rounds : List Round}
    (hs : s.now = s.prev.after before) :
    (∀ x ∈ trace thresh s rounds, Own thresh x) ↔ Absorbed thresh before rounds := by
  induction rounds generalizing s before with
  | nil => simp [trace, Absorbed]
  | cons r rs ih =>
    by_cases hstall : (before.plus r.sleep).stall thresh
    · rw [trace, sample_of_stall hs r hstall, Absorbed, if_pos hstall]
      cases hnames : workers r.evidence.blocked with
      | none => simp [record_eq_none hnames]
      | some names =>
        obtain ⟨rest, hrecord, hrest⟩ := record_eq hnames (before.plus r.sleep).mono
        simp only [hrecord, Option.map_some, List.forall_mem_cons, own_report_iff hstall hrest,
          Option.isSome_some, true_imp_iff]
        exact and_congr_right fun _ => ih rfl
    · rw [Bool.not_eq_true] at hstall
      obtain ⟨lines, hquiet, hsample⟩ := sample_of_calm hs r hstall
      rw [trace, hsample, Absorbed, hstall, if_neg Bool.false_ne_true]
      simp only [List.forall_mem_cons]
      rw [and_iff_right (own_of_quiet (x := ⟨r, lines⟩) hquiet)]
      exact ih (after_none _)

/-- Every reported stall is one of its own sleep exactly if every collection of evidence
that takes time is absorbed by the sleep after it. -/
theorem own_iff_absorbed (thresh : ℚ) (start : Clocks) (rounds : List Round) :
    (∀ x ∈ main thresh start rounds, Own (threshold thresh) x) ↔
      Absorbed (threshold thresh) .none rounds :=
  trace_own_iff (after_none start)

/-- After two blocked seconds the report takes six: the next sleep, of a fifth of a second,
is reported as a stall as well. -/
theorem not_own_sample : ¬ ∀ (thresh : ℚ) (start : Clocks) (rounds : List Round),
    ∀ x ∈ main thresh start rounds, Own (threshold thresh) x := by
  intro hown
  let quiet : Evidence := ⟨[], [], []⟩
  let rounds : List Round := [⟨.awake 2 (by norm_num), .awake 6 (by norm_num), quiet⟩,
    ⟨.awake (1 / 5) (by norm_num), .none, quiet⟩]
  have hlines : (main (3 / 2) ⟨0, 0⟩ rounds).map (fun x => (x.stalled, x.round.sleep.mono)) =
      [(true, 2), (true, 1 / 5)] := by
    decide +kernel
  have hmem : (true, (1 / 5 : ℚ)) ∈
      (main (3 / 2) ⟨0, 0⟩ rounds).map fun x => (x.stalled, x.round.sleep.mono) := by
    simp [hlines]
  obtain ⟨x, hx, hvalues⟩ := List.mem_map.mp hmem
  obtain ⟨hstalled, hsleep⟩ := Prod.mk.inj hvalues
  obtain ⟨line, hline, hstall⟩ := List.any_eq_true.mp hstalled
  cases line with
  | stall duration blocked =>
    have hlong := ((hown _ _ rounds x hx).2 duration blocked hline).2
    rw [hsleep] at hlong
    norm_num [threshold, minThresh] at hlong
  | _ => cases hstall

/-- Collections that pass for stalls report one another: after one stall, every further
sleep is reported, as long as each collection and the sleep after it look like one. -/
theorem chain_of_long {thresh : ℚ} {s : State} {before : Advance} {rounds : List Round}
    (hs : s.now = s.prev.after before)
    (hlong : rounds.IsChain fun a b => (a.collecting.plus b.sleep).stall thresh) :
    (trace thresh s rounds).IsChain fun p x => p.stalled → x.stalled := by
  induction rounds generalizing s before with
  | nil => exact List.isChain_nil
  | cons r rs ih =>
    by_cases hstall : (before.plus r.sleep).stall thresh
    · rw [trace, sample_of_stall hs r hstall]
      cases hrecord : record (before.plus r.sleep).mono false r.evidence with
      | none => exact List.isChain_nil
      | some lines =>
        refine List.isChain_cons.mpr ⟨?_, ih rfl hlong.tail⟩
        intro x hx _
        cases rs with
        | nil => cases hx
        | cons r' rs =>
          have hnext := (List.isChain_cons_cons.mp hlong).1
          rw [trace, sample_of_stall rfl r' hnext] at hx
          cases hnames : workers r'.evidence.blocked with
          | none =>
            rw [record_eq_none hnames] at hx
            cases hx
          | some names =>
            obtain ⟨rest, hreport, -⟩ := record_eq hnames (r.collecting.plus r'.sleep).mono
            rw [hreport] at hx
            obtain rfl := Option.some.inj hx
            rfl
    · rw [Bool.not_eq_true] at hstall
      obtain ⟨lines, hquiet, hsample⟩ := sample_of_calm hs r hstall
      rw [trace, hsample]
      refine List.isChain_cons.mpr ⟨fun x _ hstalled => ?_, ih (after_none _) hlong.tail⟩
      have hreported : lines.any Line.isStall := hstalled
      rw [hquiet] at hreported
      cases hreported

end StallDetect
