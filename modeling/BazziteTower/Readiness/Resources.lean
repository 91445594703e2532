import BazziteTower.Lib.Strings
import Mathlib.Algebra.Order.Floor.Ring
import Mathlib.Data.PNat.Basic
import Mathlib.Data.Rat.Floor
import Mathlib.Data.List.Sort
import Mathlib.Logic.Function.Basic

/-!
# The resource sampler

`bazzite-tower-snitchwatch-resources`: `collect` reads every target once a round, keeps the
last good sample and the last identity of each, and reports intervals and restarts.

A run is given by what every clock and every read returns.  Numbers are exact.

## Main definitions

* `interval`, `State.visit`, `loop`, `collect` — the program.
* `Attributed` — every interval of a series is one of the row before it.
* `Matches` — the rows of a series show the reads of its target.
* `changes` — how often a list changes its value.
* `made` — the rounds that the clock leaves.

## Main results

* `tracks_visit` — what one read does to the rows and the maps of its target.
* `collect_attributed` — rows, intervals and restarts belong to what was read in the
  rounds that were made, and these are bounded.
-/

namespace Resources

/-! ## Samples -/

/-- The classes of exceptions; `other` is any that `collect` does not name. -/
inductive Failure
  | permission | fileNotFound | processLookup | os | value | index | subprocess | other
  deriving DecidableEq

/-- What `snapshot` returns. -/
structure Snapshot where
  pid : ℤ
  startTicks : ℤ
  monotonic : ℚ
  cpuTicks : ℤ
  rssBytes : ℤ
  threads : ℤ

def Snapshot.identity (s : Snapshot) : ℤ × ℤ := (s.pid, s.startTicks)

/-- `100 * delta / ticks / elapsed` -/
def rate (ticks : ℕ+) (previous current : Snapshot) : ℚ :=
  100 * (current.cpuTicks - previous.cpuTicks : ℤ) / (ticks : ℕ) /
    (current.monotonic - previous.monotonic)

/-- `interval(previous, current, ticks)`. -/
def interval (ticks : ℕ+) (previous current : Snapshot) : Except Failure (Option ℚ) :=
  if previous.identity ≠ current.identity then .ok none
  else if current.monotonic - previous.monotonic ≤ 0 ∨ current.cpuTicks - previous.cpuTicks < 0 then
    .error .value
  else .ok (some (rate ticks previous current))

inductive Status
  | ok (current : Snapshot) (cpuCorePercent : Option ℚ)
  | permissionDenied
  | missing
  | unavailable

structure Row where
  target : Text
  elapsedSeconds : ℚ
  status : Status

/-- The status that the handler of an exception records, if there is a handler. -/
def statusOf : Failure → Option Status
  | .permission => some .permissionDenied
  | .fileNotFound | .processLookup => some .missing
  | .os | .value | .index | .subprocess => some .unavailable
  | .other => none

/-! ## The loop -/

/-- `previous`, `identities`, `restarts`, `samples`. -/
structure State where
  previous : Text → Option Snapshot
  identities : Text → Option (ℤ × ℤ)
  restarts : Text → ℕ
  samples : List Row

def State.initial : State := ⟨fun _ => none, fun _ => none, fun _ => 0, []⟩

/-- A handler: the last good sample is dropped, the last identity is kept. -/
def State.failed (s : State) (label : Text) (elapsed : ℚ) (e : Failure) : Option State :=
  (statusOf e).map fun status =>
    { s with
      previous := Function.update s.previous label none
      samples := s.samples ++ [⟨label, elapsed, status⟩] }

/-- `restarts` and `identities` after a read that returned. -/
def State.identify (s : State) (label : Text) (identity : ℤ × ℤ) : State :=
  { s with
    restarts := if (s.identities label).any (· ≠ identity) then
      Function.update s.restarts label (s.restarts label + 1) else s.restarts
    identities := Function.update s.identities label (some identity) }

section Identify
variable (s : State) (label : Text) (identity : ℤ × ℤ)

@[simp] theorem identify_previous : (s.identify label identity).previous = s.previous := rfl

@[simp] theorem identify_samples : (s.identify label identity).samples = s.samples := rfl

@[simp] theorem identify_identities : (s.identify label identity).identities label = some identity := by
  simp [State.identify]

@[simp] theorem identify_restarts : (s.identify label identity).restarts label =
    s.restarts label + if (s.identities label).any (· ≠ identity) then 1 else 0 := by
  simp only [State.identify]
  split_ifs <;> simp

end Identify

/-- The body of the loop over the targets, given what reading the target did. -/
def State.visit (ticks : ℕ+) (s : State) (label : Text) (elapsed : ℚ) :
    Except Failure Snapshot → Option State
  | .error e => s.failed label elapsed e
  | .ok current =>
    let s := s.identify label current.identity
    let cpu := match s.previous label with
      | some previous => interval ticks previous current
      | none => .ok none
    match cpu with
    | .error e => s.failed label elapsed e
    | .ok cpu => some
      { s with
        previous := Function.update s.previous label (some current)
        samples := s.samples ++ [⟨label, elapsed, .ok current cpu⟩] }

inductive Target
  | pid (n : ℤ)
  | unit (name : Text)

/-- What the program meets when it turns to a target. -/
structure Moment where
  now : ℚ
  resolve : Text → Except Failure ℤ
  read : ℤ → Except Failure Snapshot

/-- `read(target if isinstance(target, int) else resolve(target))`. -/
def Moment.outcome (m : Moment) : Target → Except Failure Snapshot
  | .pid n => m.read n
  | .unit name => do m.read (← m.resolve name)

/-- A round: the moment at which each target is visited, and the clock at its end. -/
structure Round where
  moment : Text → Moment
  now : ℚ

/-- The loop over the targets. -/
def sweep (ticks : ℕ+) (started : ℚ) (r : Round) (targets : List (Text × Target)) (s : State) :
    Option State :=
  targets.foldlM (fun s t =>
    s.visit ticks t.1 ((r.moment t.1).now - started) ((r.moment t.1).outcome t.2)) s

/-- The loop over the rounds. -/
def loop (ticks : ℕ+) (started deadline : ℚ) (targets : List (Text × Target)) :
    List Round → State → Option State
  | [], s => some s
  | r :: rs, s => do
    let s ← sweep ticks started r targets s
    if deadline - r.now ≤ 0 then return s
    loop ticks started deadline targets rs s

/-! ## The report -/

def Row.snapshot (row : Row) : Option Snapshot :=
  match row.status with
  | .ok current _ => some current
  | _ => none

def Row.cpu (row : Row) : Option ℚ :=
  match row.status with
  | .ok _ cpu => cpu
  | _ => none

/-- The rows of one target. -/
def seriesOf (samples : List Row) (label : Text) : List Row :=
  samples.filter fun row => row.target = label

structure Summary where
  cpuCorePercentMedian : Option ℚ
  cpuCorePercentP95 : Option ℚ
  validCpuIntervals : ℕ
  restartsObserved : ℕ
  unavailableSamples : ℕ
  rssInitialBytes : Option ℤ
  rssFinalBytes : Option ℤ
  rssPeakBytes : Option ℤ
  threadsPeak : Option ℤ

/-- `statistics.median` of sorted data. -/
def median (cpu : List ℚ) : Option ℚ :=
  match cpu[(cpu.length - 1) / 2]?, cpu[cpu.length / 2]? with
  | some a, some b => some ((a + b) / 2)
  | _, _ => none

def summarize (s : State) (label : Text) : Summary :=
  let series := seriesOf s.samples label
  let valid := series.filterMap Row.snapshot
  let cpu := (series.filterMap Row.cpu).insertionSort (· ≤ ·)
  { cpuCorePercentMedian := median cpu
    cpuCorePercentP95 := cpu[⌈(cpu.length : ℚ) * 95 / 100⌉₊ - 1]?
    validCpuIntervals := cpu.length
    restartsObserved := s.restarts label
    unavailableSamples := series.length - valid.length
    rssInitialBytes := valid.head?.map Snapshot.rssBytes
    rssFinalBytes := valid.getLast?.map Snapshot.rssBytes
    rssPeakBytes := (valid.map Snapshot.rssBytes).max?
    threadsPeak := (valid.map Snapshot.threads).max? }

/-- The arguments of `collect`. -/
structure Request where
  targets : List (Text × Target)
  duration : ℚ
  period : ℚ
  nodup : (targets.map Prod.fst).Nodup

/-- `math.ceil(duration / period) + 2`; a negative number counts as no round. -/
def Request.cap (q : Request) : ℕ := (⌈q.duration / q.period⌉ + 2).toNat

structure Report where
  durationSeconds : ℚ
  requestedDurationSeconds : ℚ
  intervalSeconds : ℚ
  summary : List (Text × Summary)
  samples : List Row

/-- `collect`, or `none` where an exception leaves it. -/
def collect (ticks : ℕ+) (q : Request) (started : ℚ) (rounds : ℕ → Round) (finished : ℚ) :
    Option Report := do
  if q.period = 0 then none
  let s ← loop ticks started (started + q.duration) q.targets ((List.range q.cap).map rounds) .initial
  return {
    durationSeconds := finished - started
    requestedDurationSeconds := q.duration
    intervalSeconds := q.period
    summary := q.targets.map fun t => (t.1, summarize s t.1)
    samples := s.samples }

/-! ## Changes -/

section Changes
variable {α : Type} [DecidableEq α]

/-- How many entries differ from the entry before them. -/
def changes : List α → ℕ
  | a :: b :: l => (if a = b then 0 else 1) + changes (b :: l)
  | _ => 0

theorem changes_concat (l : List α) (x : α) :
    changes (l ++ [x]) = changes l + if l.getLast?.any (· ≠ x) then 1 else 0 := by
  induction l with
  | nil => rfl
  | cons a l ih =>
    cases l with
    | nil => simp [changes]
    | cons b l =>
      rw [List.cons_append, List.cons_append, changes, changes, ← List.cons_append, ih,
        List.getLast?_cons_cons, Nat.add_assoc]

theorem changes_concat_last {l : List α} {x : α} (h : l.getLast? = some x) :
    changes (l ++ [x]) = changes l := by
  simp [changes_concat, h]

end Changes

/-! ## Attribution -/

/-- An interval of the row is one between the sample of the row before it and its own, of
one and the same process. -/
def Follows (ticks : ℕ+) (last : Option Row) (row : Row) : Prop :=
  ∀ current c, row.status = .ok current (some c) → ∃ previous,
    last.bind Row.snapshot = some previous ∧ previous.identity = current.identity ∧
      previous.monotonic < current.monotonic ∧ c = rate ticks previous current

/-- Every interval of the series is one between its row and the row right before it. -/
def Attributed (ticks : ℕ+) (series : List Row) : Prop :=
  ∀ before row after, series = before ++ row :: after → Follows ticks before.getLast? row

/-- A row shows its read: the exception, or the sample, unless its counters went back behind
those of the row before it. -/
def Shows (last : Option Row) (row : Row) : Except Failure Snapshot → Prop
  | .error e => statusOf e = some row.status
  | .ok current => row.snapshot = some current ∨ row.status = .unavailable ∧ ∃ previous,
      last.bind Row.snapshot = some previous ∧ previous.identity = current.identity ∧
        (current.monotonic ≤ previous.monotonic ∨ current.cpuTicks < previous.cpuTicks)

/-- Row by row, a series shows these reads. -/
inductive Matches : List Row → List (Except Failure Snapshot) → Prop
  | nil : Matches [] []
  | snoc {series : List Row} {reads : List (Except Failure Snapshot)} {row : Row}
      {o : Except Failure Snapshot} (before : Matches series reads)
      (shown : Shows series.getLast? row o) : Matches (series ++ [row]) (reads ++ [o])

theorem Matches.length_eq {series : List Row} {reads : List (Except Failure Snapshot)}
    (h : Matches series reads) : series.length = reads.length := by
  induction h with
  | nil => rfl
  | snoc before shown ih => simp [ih]

/-- The identities of the reads that returned. -/
def identities (reads : List (Except Failure Snapshot)) : List (ℤ × ℤ) :=
  (reads.filterMap Except.toOption).map Snapshot.identity

/-- The identities of the samples that are good. -/
def goodIdentities (series : List Row) : List (ℤ × ℤ) :=
  (series.filterMap Row.snapshot).map Snapshot.identity

theorem attributed_nil (ticks : ℕ+) : Attributed ticks [] := by
  intro before row after h
  simp at h

theorem attributed_concat {ticks : ℕ+} {series : List Row} {row : Row} (h : Attributed ticks series)
    (hrow : Follows ticks series.getLast? row) : Attributed ticks (series ++ [row]) := by
  intro before x after heq
  rcases List.eq_nil_or_concat' after with rfl | ⟨after, y, rfl⟩
  · obtain ⟨rfl, hx⟩ := List.append_inj' heq rfl
    obtain rfl := List.singleton_inj.mp hx
    exact hrow
  · rw [← List.cons_append, ← List.append_assoc] at heq
    exact h before x after (List.append_inj' heq rfl).1

theorem follows_none {ticks : ℕ+} {last : Option Row} {row : Row} (h : row.cpu = none) :
    Follows ticks last row := by
  intro current c hrow
  simp [Row.cpu, hrow] at h

theorem goodIdentities_concat (series : List Row) (row : Row) :
    goodIdentities (series ++ [row]) =
      goodIdentities series ++ row.snapshot.toList.map Snapshot.identity := by
  cases h : row.snapshot <;> simp [goodIdentities, List.filterMap_append, h]

theorem identities_concat (reads : List (Except Failure Snapshot)) (o : Except Failure Snapshot) :
    identities (reads ++ [o]) = identities reads ++ o.toOption.toList.map Snapshot.identity := by
  cases o <;> simp [identities, List.filterMap_append, Except.toOption]

/-- The last identity of a series that ends with a good sample is that of this sample. -/
theorem getLast_goodIdentities {series : List Row} {previous : Snapshot}
    (h : series.getLast?.bind Row.snapshot = some previous) :
    (goodIdentities series).getLast? = some previous.identity := by
  rcases List.eq_nil_or_concat' series with rfl | ⟨series, row, rfl⟩
  · cases h
  · rw [List.getLast?_concat] at h
    simp only [Option.bind_some] at h
    simp [goodIdentities_concat, h]

/-- **The invariant.**  What the maps hold for a target, and its rows, after these reads of
it. -/
structure Tracks (ticks : ℕ+) (label : Text) (s : State) (reads : List (Except Failure Snapshot)) :
    Prop where
  rows : Matches (seriesOf s.samples label) reads
  /-- The last good sample is kept only until the next read. -/
  previous : s.previous label = (seriesOf s.samples label).getLast?.bind Row.snapshot
  /-- The last identity is kept until another read returns. -/
  identity : s.identities label = (identities reads).getLast?
  restarts : s.restarts label = changes (identities reads)
  /-- A read that returned without a good sample did not change the identity. -/
  last : (goodIdentities (seriesOf s.samples label)).getLast? = (identities reads).getLast?
  steady : changes (goodIdentities (seriesOf s.samples label)) = changes (identities reads)
  attributed : Attributed ticks (seriesOf s.samples label)

theorem tracks_initial (ticks : ℕ+) (label : Text) : Tracks ticks label .initial [] :=
  ⟨.nil, rfl, rfl, rfl, rfl, rfl, attributed_nil ticks⟩

@[simp] theorem seriesOf_concat (samples : List Row) (label : Text) (row : Row) :
    seriesOf (samples ++ [row]) label =
      seriesOf samples label ++ if row.target = label then [row] else [] := by
  by_cases h : row.target = label <;> simp [seriesOf, List.filter_append, h]

theorem interval_eq_ok {ticks : ℕ+} {previous current : Snapshot} {cpu : Option ℚ}
    (h : interval ticks previous current = .ok cpu) :
    cpu = none ∨ previous.identity = current.identity ∧ previous.monotonic < current.monotonic ∧
      cpu = some (rate ticks previous current) := by
  unfold interval at h
  split_ifs at h with hidentity hcounters
  · exact .inl (Except.ok.inj h).symm
  · rw [not_or, not_le, sub_pos] at hcounters
    exact .inr ⟨not_not.mp hidentity, hcounters.1, (Except.ok.inj h).symm⟩

theorem interval_eq_error {ticks : ℕ+} {previous current : Snapshot} {e : Failure}
    (h : interval ticks previous current = .error e) : e = .value ∧
      previous.identity = current.identity ∧
        (current.monotonic ≤ previous.monotonic ∨ current.cpuTicks < previous.cpuTicks) := by
  unfold interval at h
  split_ifs at h with hidentity hcounters
  rw [sub_nonpos, sub_neg] at hcounters
  exact ⟨(Except.error.inj h).symm, not_not.mp hidentity, hcounters⟩

theorem snapshot_of_statusOf {e : Failure} {status : Status} (h : statusOf e = some status)
    (label : Text) (elapsed : ℚ) : (Row.mk label elapsed status).snapshot = none ∧
      (Row.mk label elapsed status).cpu = none := by
  cases e <;> simp only [statusOf, Option.some.injEq, reduceCtorEq] at h <;> subst h <;> exact ⟨rfl, rfl⟩

/-- A handler leaves no good sample; the read counts, but shows no other identity. -/
theorem tracks_failed {ticks : ℕ+} {label : Text} {s s₁ s' : State} {elapsed : ℚ} {e : Failure}
    {reads : List (Except Failure Snapshot)} {o : Except Failure Snapshot}
    (h : Tracks ticks label s reads) (hsamples : s₁.samples = s.samples)
    (hidentity : s₁.identities label = s.identities label)
    (hrestarts : s₁.restarts label = s.restarts label)
    (hshows : ∀ status, statusOf e = some status →
      Shows (seriesOf s.samples label).getLast? ⟨label, elapsed, status⟩ o)
    (hlast : (identities (reads ++ [o])).getLast? = (identities reads).getLast?)
    (hsteady : changes (identities (reads ++ [o])) = changes (identities reads))
    (hfailed : s₁.failed label elapsed e = some s') : Tracks ticks label s' (reads ++ [o]) := by
  obtain ⟨status, hstatus, rfl⟩ := Option.map_eq_some_iff.mp hfailed
  obtain ⟨hsnapshot, hcpu⟩ := snapshot_of_statusOf hstatus label elapsed
  constructor
  · simpa [hsamples] using h.rows.snoc (hshows status hstatus)
  · simp [hsnapshot]
  · simp [hidentity, h.identity, hlast]
  · simp [hrestarts, h.restarts, hsteady]
  · simp [hsamples, goodIdentities_concat, hsnapshot, h.last, hlast]
  · simp [hsamples, goodIdentities_concat, hsnapshot, h.steady, hsteady]
  · simpa [hsamples] using attributed_concat h.attributed (follows_none hcpu)

/-- **One read** of the target. -/
theorem tracks_visit {ticks : ℕ+} {label : Text} {s s' : State} {elapsed : ℚ}
    {reads : List (Except Failure Snapshot)} {o : Except Failure Snapshot}
    (h : Tracks ticks label s reads) (hvisit : s.visit ticks label elapsed o = some s') :
    Tracks ticks label s' (reads ++ [o]) := by
  cases o with
  | error e =>
    have hsame : identities (reads ++ [.error e]) = identities reads := by
      simp [identities_concat, Except.toOption]
    exact tracks_failed h rfl rfl rfl (fun _ => id) (by rw [hsame]) (by rw [hsame]) hvisit
  | ok current =>
    have hidentities : identities (reads ++ [.ok current]) = identities reads ++ [current.identity] := by
      simp [identities_concat, Except.toOption]
    simp only [State.visit, identify_previous] at hvisit
    split at hvisit
    · -- the counters went back, so the process is the one of the last good sample
      rename_i e hcpu
      cases hprevious : s.previous label with
      | none => simp [hprevious] at hcpu
      | some previous =>
        simp only [hprevious] at hcpu
        obtain ⟨rfl, hsame, hback⟩ := interval_eq_error hcpu
        have hlast : (identities reads).getLast? = some current.identity := by
          rw [← h.last, getLast_goodIdentities (h.previous.symm.trans hprevious), hsame]
        have hidentity : s.identities label = some current.identity := h.identity.trans hlast
        refine tracks_failed h ?_ ?_ ?_ ?_ ?_ ?_ hvisit
        · simp
        · simp [hidentity]
        · simp [hidentity]
        · rintro _ ⟨⟩
          exact .inr ⟨rfl, previous, h.previous.symm.trans hprevious, hsame, hback⟩
        · rw [hidentities, hlast, List.getLast?_concat]
        · rw [hidentities, changes_concat_last hlast]
    · rename_i cpu hcpu
      obtain rfl := Option.some.inj hvisit
      have hfollows : Follows ticks (seriesOf s.samples label).getLast?
          ⟨label, elapsed, .ok current cpu⟩ := by
        intro current' c hrow
        obtain ⟨rfl, rfl⟩ := Status.ok.inj hrow
        cases hprevious : s.previous label with
        | none => simp [hprevious] at hcpu
        | some previous =>
          simp only [hprevious] at hcpu
          rcases interval_eq_ok hcpu with hnone | ⟨hsame, hlt, hrate⟩
          · cases hnone
          · exact ⟨previous, h.previous.symm.trans hprevious, hsame, hlt, Option.some.inj hrate⟩
      have hshows : Shows (seriesOf s.samples label).getLast? ⟨label, elapsed, .ok current cpu⟩
          (.ok current) := .inl rfl
      constructor
      · simpa using h.rows.snoc hshows
      · simp [Row.snapshot]
      · simp [hidentities]
      · rw [hidentities, changes_concat, ← h.identity, ← h.restarts]
        exact identify_restarts s label current.identity
      · simp [hidentities, goodIdentities_concat, Row.snapshot]
      · simp [hidentities, goodIdentities_concat, Row.snapshot, changes_concat, h.last, h.steady]
      · simpa using attributed_concat h.attributed hfollows

/-- Nothing that is held for the label differs. -/
structure Untouched (label : Text) (s s' : State) : Prop where
  previous : s'.previous label = s.previous label
  identities : s'.identities label = s.identities label
  restarts : s'.restarts label = s.restarts label
  series : seriesOf s'.samples label = seriesOf s.samples label

theorem untouched_identify {label other : Text} (hne : other ≠ label) (s : State)
    (identity : ℤ × ℤ) : Untouched label s (s.identify other identity) := by
  constructor
  · rfl
  · simp [State.identify, hne.symm]
  · simp only [State.identify]
    split_ifs <;> simp [hne.symm]
  · rfl

theorem untouched_failed {label other : Text} (hne : other ≠ label) {s s' : State} {elapsed : ℚ}
    {e : Failure} (h : s.failed other elapsed e = some s') : Untouched label s s' := by
  obtain ⟨status, -, rfl⟩ := Option.map_eq_some_iff.mp h
  constructor
  · simp [hne.symm]
  · rfl
  · rfl
  · simp [hne]

/-- Reading another target leaves what is held for this one. -/
theorem untouched_visit {ticks : ℕ+} {label other : Text} {s s' : State} {elapsed : ℚ}
    {o : Except Failure Snapshot} (hne : other ≠ label)
    (hvisit : s.visit ticks other elapsed o = some s') : Untouched label s s' := by
  cases o with
  | error e => exact untouched_failed hne hvisit
  | ok current =>
    have hidentify := untouched_identify hne s current.identity
    simp only [State.visit, identify_previous] at hvisit
    split at hvisit
    · have hfailed := untouched_failed hne hvisit
      constructor
      · rw [hfailed.previous, hidentify.previous]
      · rw [hfailed.identities, hidentify.identities]
      · rw [hfailed.restarts, hidentify.restarts]
      · rw [hfailed.series, hidentify.series]
    · obtain rfl := Option.some.inj hvisit
      constructor
      · simp [hne.symm]
      · exact hidentify.identities
      · exact hidentify.restarts
      · simp [hne]

theorem tracks_of_untouched {ticks : ℕ+} {label : Text} {s s' : State}
    {reads : List (Except Failure Snapshot)} (hsame : Untouched label s s')
    (h : Tracks ticks label s reads) : Tracks ticks label s' reads := by
  constructor
  · rw [hsame.series]
    exact h.rows
  · rw [hsame.previous, hsame.series, h.previous]
  · rw [hsame.identities, h.identity]
  · rw [hsame.restarts, h.restarts]
  · rw [hsame.series, h.last]
  · rw [hsame.series, h.steady]
  · rw [hsame.series]
    exact h.attributed

/-! ## Runs -/

/-- What reading a target does in a round. -/
def Round.outcome (r : Round) (t : Text × Target) : Except Failure Snapshot :=
  (r.moment t.1).outcome t.2

theorem untouched_sweep {ticks : ℕ+} {started : ℚ} {r : Round} {targets : List (Text × Target)}
    {label : Text} {reads : List (Except Failure Snapshot)} {s s' : State}
    (hlabel : label ∉ targets.map Prod.fst) (htracks : Tracks ticks label s reads)
    (h : sweep ticks started r targets s = some s') : Tracks ticks label s' reads := by
  induction targets generalizing s with
  | nil =>
    obtain rfl := Option.some.inj h
    exact htracks
  | cons t targets ih =>
    rw [List.map_cons, List.mem_cons, not_or] at hlabel
    rw [sweep, List.foldlM_cons] at h
    obtain ⟨s₁, hvisit, h⟩ := Option.bind_eq_some_iff.mp h
    exact ih hlabel.2 (tracks_of_untouched (untouched_visit (Ne.symm hlabel.1) hvisit) htracks) h

/-- **One round** reads every target once. -/
theorem tracks_sweep {ticks : ℕ+} {started : ℚ} {r : Round} {targets : List (Text × Target)}
    {t : Text × Target} {reads : List (Except Failure Snapshot)} {s s' : State}
    (hnodup : (targets.map Prod.fst).Nodup) (ht : t ∈ targets) (htracks : Tracks ticks t.1 s reads)
    (h : sweep ticks started r targets s = some s') :
    Tracks ticks t.1 s' (reads ++ [r.outcome t]) := by
  induction targets generalizing s with
  | nil => cases ht
  | cons u targets ih =>
    rw [List.map_cons, List.nodup_cons] at hnodup
    rw [sweep, List.foldlM_cons] at h
    obtain ⟨s₁, hvisit, hrest⟩ := Option.bind_eq_some_iff.mp h
    rcases List.mem_cons.mp ht with rfl | ht
    · exact untouched_sweep hnodup.1 (tracks_visit htracks hvisit) hrest
    · have hne : u.1 ≠ t.1 := by
        intro heq
        exact hnodup.1 (heq ▸ List.mem_map_of_mem ht)
      exact ih hnodup.2 ht (tracks_of_untouched (untouched_visit hne hvisit) htracks) hrest

theorem untouched_loop {ticks : ℕ+} {started deadline : ℚ} {targets : List (Text × Target)}
    {rounds : List Round} {label : Text} {reads : List (Except Failure Snapshot)} {s s' : State}
    (hlabel : label ∉ targets.map Prod.fst) (htracks : Tracks ticks label s reads)
    (h : loop ticks started deadline targets rounds s = some s') : Tracks ticks label s' reads := by
  induction rounds generalizing s with
  | nil =>
    obtain rfl := Option.some.inj h
    exact htracks
  | cons r rs ih =>
    rw [loop] at h
    obtain ⟨s₁, hsweep, h⟩ := Option.bind_eq_some_iff.mp h
    have hround := untouched_sweep hlabel htracks hsweep
    split_ifs at h
    · obtain rfl := Option.some.inj h
      exact hround
    · exact ih hround h

/-- The rounds that are made: all that end before the deadline, and the one that does not. -/
def made (deadline : ℚ) (rounds : List Round) : List Round :=
  rounds.takeWhile (·.now < deadline) ++ (rounds.dropWhile (·.now < deadline)).take 1

theorem length_made_le (deadline : ℚ) (rounds : List Round) :
    (made deadline rounds).length ≤ rounds.length := by
  have hsplit := congrArg List.length
    (List.takeWhile_append_dropWhile (p := (·.now < deadline)) (l := rounds))
  rw [List.length_append] at hsplit
  rw [made, List.length_append, List.length_take]
  omega

/-- What reading a target does in these rounds. -/
def readsOf (rounds : List Round) (t : Text × Target) : List (Except Failure Snapshot) :=
  rounds.map fun r => r.outcome t

/-- **The loop** reads every target once in each of the rounds that are made. -/
theorem tracks_loop {ticks : ℕ+} {started deadline : ℚ} {targets : List (Text × Target)}
    {t : Text × Target} {rounds : List Round} {reads : List (Except Failure Snapshot)} {s s' : State}
    (hnodup : (targets.map Prod.fst).Nodup) (ht : t ∈ targets) (htracks : Tracks ticks t.1 s reads)
    (h : loop ticks started deadline targets rounds s = some s') :
    Tracks ticks t.1 s' (reads ++ readsOf (made deadline rounds) t) := by
  induction rounds generalizing s reads with
  | nil =>
    obtain rfl := Option.some.inj h
    simpa [made, readsOf] using htracks
  | cons r rs ih =>
    rw [loop] at h
    obtain ⟨s₁, hsweep, h⟩ := Option.bind_eq_some_iff.mp h
    have hround := tracks_sweep hnodup ht htracks hsweep
    split_ifs at h with hdone
    · obtain rfl := Option.some.inj h
      have hlast : ¬ r.now < deadline := not_lt.mpr (sub_nonpos.mp hdone)
      simpa [made, readsOf, hlast] using hround
    · have hbefore : r.now < deadline := lt_of_not_ge fun hle => hdone (sub_nonpos.mpr hle)
      simpa [made, readsOf, hbefore] using ih hround h

/-- The rounds that a request makes, of those that its cap allows. -/
def Request.made (q : Request) (started : ℚ) (rounds : ℕ → Round) : List Round :=
  Resources.made (started + q.duration) ((List.range q.cap).map rounds)

/-- What the report says belongs to what was read in the rounds that were made: every row is
one of a target and shows its read, every interval is one of two successive samples of one
process, the restarts of a target are the changes between successive successful reads,
whichever reads count as successful, and the rounds are bounded. -/
theorem collect_attributed {ticks : ℕ+} {q : Request} {started finished : ℚ} {rounds : ℕ → Round}
    {report : Report} (h : collect ticks q started rounds finished = some report) :
    (q.made started rounds).length ≤ (⌈q.duration / q.period⌉ + 2).toNat ∧
    (∀ row ∈ report.samples, row.target ∈ q.targets.map Prod.fst) ∧
    ∀ t ∈ q.targets,
      Matches (seriesOf report.samples t.1) (readsOf (q.made started rounds) t) ∧
      Attributed ticks (seriesOf report.samples t.1) ∧
      ∃ summary, (∀ x, (t.1, x) ∈ report.summary ↔ x = summary) ∧
        summary.restartsObserved = changes (identities (readsOf (q.made started rounds) t)) ∧
        summary.restartsObserved = changes (goodIdentities (seriesOf report.samples t.1)) := by
  unfold collect at h
  split_ifs at h with hperiod
  · cases h
  obtain ⟨s, hloop, h⟩ := Option.bind_eq_some_iff.mp h
  obtain rfl := Option.some.inj h
  refine ⟨?_, fun row hrow => ?_, fun t ht => ?_⟩
  · have hlength := length_made_le (started + q.duration) ((List.range q.cap).map rounds)
    rwa [List.length_map, List.length_range] at hlength
  · by_contra hlabel
    have hempty := (untouched_loop hlabel (tracks_initial ticks row.target) hloop).rows.length_eq
    have hmem : row ∈ seriesOf s.samples row.target := List.mem_filter.mpr ⟨hrow, by simp⟩
    rw [List.eq_nil_of_length_eq_zero hempty] at hmem
    cases hmem
  · have htracks := tracks_loop q.nodup ht (tracks_initial ticks t.1) hloop
    rw [List.nil_append] at htracks
    refine ⟨htracks.rows, htracks.attributed, summarize s t.1, fun x => ⟨fun hx => ?_, ?_⟩,
      htracks.restarts, htracks.restarts.trans htracks.steady.symm⟩
    · obtain ⟨u, -, hu⟩ := List.mem_map.mp hx
      obtain ⟨hlabel, rfl⟩ := Prod.mk.inj hu
      rw [hlabel]
    · rintro rfl
      exact List.mem_map_of_mem ht

/-- A unit that is read every second and is another process from the third second on. -/
def sampleRequest : Request := ⟨[("bridge".toList, .unit "bridge.service".toList)], 3, 1, by simp⟩

def sampleRounds (i : ℕ) : Round where
  moment _ :=
    { now := i
      resolve := fun _ => .ok 7
      read := fun pid => .ok ⟨pid, if i < 3 then 1 else 2, i, 10 + 50 * i, 4096, 1⟩ }
  now := i

/-- Four rounds, and the restart in the last one. -/
theorem collect_attributed_sample : ∃ report, collect 100 sampleRequest 0 sampleRounds 4 = some report ∧
    report.summary.map (·.2.restartsObserved) = [1] ∧
    (sampleRequest.made 0 sampleRounds).length = 4 ∧
    (sampleRequest.made 0 sampleRounds).length ≤
      (⌈sampleRequest.duration / sampleRequest.period⌉ + 2).toNat ∧
    (∀ row ∈ report.samples, row.target ∈ sampleRequest.targets.map Prod.fst) ∧
    ∀ t ∈ sampleRequest.targets,
      Matches (seriesOf report.samples t.1) (readsOf (sampleRequest.made 0 sampleRounds) t) ∧
      Attributed 100 (seriesOf report.samples t.1) ∧
      ∃ summary, (∀ x, (t.1, x) ∈ report.summary ↔ x = summary) ∧
        summary.restartsObserved = changes (identities (readsOf (sampleRequest.made 0 sampleRounds) t)) ∧
        summary.restartsObserved = changes (goodIdentities (seriesOf report.samples t.1)) := by
  have hrestarts : (collect 100 sampleRequest 0 sampleRounds 4).map
      (fun report => report.summary.map (·.2.restartsObserved)) = some [1] := by
    decide +kernel
  obtain ⟨report, h, hrestart⟩ := Option.map_eq_some_iff.mp hrestarts
  have hmade : (sampleRequest.made 0 sampleRounds).length = 4 := by decide +kernel
  exact ⟨report, h, hrestart, hmade, collect_attributed h⟩

end Resources
