import Mathlib.Data.List.Basic
import Mathlib.Logic.Function.Basic

/-!
# Leftover processes

`kill_leftovers` of `snitchwatch-system-unpriv.py` (and its copy in the stage script): the
reaper scans `/proc` for its own children, kills and waits for them, until a scan finds
none.

Between any two steps the other processes fork, exit and reap as they like.  The reaper is
the child subreaper, so an orphan below it stays below it, and an exited child is listed
until the reaper waits for it.

## Main definitions

* `Environment` — what the other processes do.
* `Step` — one step of the reaper, with the process that it signals.
* `Inv` — what a scan that has found no child so far knows.

## Main results

* `inv_of_reachable` — the invariant holds between any two steps.
* `leftovers_killed` — after a normal return nothing is left, and nothing else is signalled.
-/

namespace Leftovers

abbrev Pid := ℕ

/-- An entry of `/proc`; one that is not alive has exited and is not waited for yet. -/
structure Process where
  parent : Pid
  alive : Bool

abbrev Table := Pid → Option Process

/-- Field 4 of `/proc/PID/stat` names the reaper. -/
def Child (me : Pid) (t : Table) (p : Pid) : Prop := ∃ q, t p = some q ∧ q.parent = me

inductive Descendant (me : Pid) (t : Table) : Pid → Prop
  | child {p : Pid} : Child me t p → Descendant me t p
  | step {p : Pid} {q : Process} : t p = some q → Descendant me t q.parent → Descendant me t p

/-- The table after a process has exited: its children have another parent. -/
def Table.exit (t : Table) (p adopter : Pid) : Table := fun x =>
  (t x).map fun q =>
    if x = p then { q with alive := false }
    else if q.parent = p then { q with parent := adopter }
    else q

/-- What other processes do.  An orphan is adopted below the reaper exactly if it was below
the reaper; by the reaper itself, unless there is another subreaper between them. -/
inductive Environment (me : Pid) (t : Table) : Table → Prop
  | fork {p c : Pid} {q : Process} : p ≠ me → t p = some q → q.alive → c ≠ me → t c = none →
      Environment me t (Function.update t c (some ⟨p, true⟩))
  | exit {p adopter : Pid} {q : Process} : p ≠ me → t p = some q → q.alive → adopter ≠ p →
      (Descendant me t p ↔ adopter = me ∨ Descendant me t adopter) →
      Environment me t (t.exit p adopter)
  | reap {p : Pid} {q : Process} : t p = some q → q.alive = false → q.parent ≠ me →
      Environment me t (Function.update t p none)

/-- Where the reaper stands, with the rounds that are left. -/
inductive Pc
  | loop (rounds : ℕ)
  | scanning (rounds : ℕ) (todo found : List Pid)
  | killing (rounds : ℕ) (todo left : List Pid)
  | waiting (rounds : ℕ) (todo : List Pid)
  | returned
  | refused

structure State where
  table : Table
  pc : Pc

/-- One step of `kill_leftovers`, and which process it signals. -/
inductive Step (me : Pid) : State → Option Pid → State → Prop
  /-- `raise Refusal` -/
  | refuse {t : Table} : Step me ⟨t, .loop 0⟩ none ⟨t, .refused⟩
  /-- `proc.iterdir()` lists every process that is there, and others in passing. -/
  | list {t : Table} {n : ℕ} {entries : List Pid} : (∀ p, (t p).isSome → p ∈ entries) →
      Step me ⟨t, .loop (n + 1)⟩ none ⟨t, .scanning n entries []⟩
  | found {t : Table} {n : ℕ} {p : Pid} {todo found : List Pid} : Child me t p →
      Step me ⟨t, .scanning n (p :: todo) found⟩ none ⟨t, .scanning n todo (found ++ [p])⟩
  /-- Another process, or one that is gone. -/
  | passed {t : Table} {n : ℕ} {p : Pid} {todo found : List Pid} : ¬ Child me t p →
      Step me ⟨t, .scanning n (p :: todo) found⟩ none ⟨t, .scanning n todo found⟩
  | clear {t : Table} {n : ℕ} : Step me ⟨t, .scanning n [] []⟩ none ⟨t, .returned⟩
  | scanned {t : Table} {n : ℕ} {left : List Pid} : left ≠ [] →
      Step me ⟨t, .scanning n [] left⟩ none ⟨t, .killing n left left⟩
  /-- `os.kill(pid, signal.SIGKILL)`; the process exits when it does. -/
  | kill {t : Table} {n : ℕ} {p : Pid} {todo left : List Pid} : (t p).isSome →
      Step me ⟨t, .killing n (p :: todo) left⟩ (some p) ⟨t, .killing n todo left⟩
  /-- `ProcessLookupError` -/
  | gone {t : Table} {n : ℕ} {p : Pid} {todo left : List Pid} : t p = none →
      Step me ⟨t, .killing n (p :: todo) left⟩ none ⟨t, .killing n todo left⟩
  | killed {t : Table} {n : ℕ} {left : List Pid} :
      Step me ⟨t, .killing n [] left⟩ none ⟨t, .waiting n left⟩
  /-- `os.waitpid(pid, 0)` returns once the child has exited. -/
  | reap {t : Table} {n : ℕ} {p : Pid} {todo : List Pid} : t p = some ⟨me, false⟩ →
      Step me ⟨t, .waiting n (p :: todo)⟩ none ⟨Function.update t p none, .waiting n todo⟩
  /-- `ChildProcessError` -/
  | stranger {t : Table} {n : ℕ} {p : Pid} {todo : List Pid} : ¬ Child me t p →
      Step me ⟨t, .waiting n (p :: todo)⟩ none ⟨t, .waiting n todo⟩
  | sleep {t : Table} {n : ℕ} : Step me ⟨t, .waiting n []⟩ none ⟨t, .loop n⟩

/-- The states of a run with so many rounds, from any processes on. -/
inductive Reachable (me : Pid) (rounds : ℕ) : State → Prop
  | start (t : Table) : Reachable me rounds ⟨t, .loop rounds⟩
  | step {s s' : State} {signalled : Option Pid} : Reachable me rounds s → Step me s signalled s' →
      Reachable me rounds s'
  | environment {s : State} {t : Table} : Reachable me rounds s → Environment me s.table t →
      Reachable me rounds ⟨t, s.pc⟩

/-! ## Children -/

section Children
variable {me : Pid} {t t' : Table}

theorem not_descendant (h : ∀ p, ¬ Child me t p) (p : Pid) : ¬ Descendant me t p := by
  intro hp
  induction hp with
  | child hc => exact h _ hc
  | step _ _ ih => exact ih

/-- A child stays one until the reaper waits for it. -/
theorem child_of_environment {p : Pid} (h : Environment me t t') (hp : Child me t p) :
    Child me t' p := by
  obtain ⟨q, hq, hparent⟩ := hp
  cases h with
  | @fork p' c _ _ _ _ _ hfree =>
    have hne : p ≠ c := by
      intro heq
      rw [heq, hfree] at hq
      cases hq
    exact ⟨q, by rw [Function.update_of_ne hne, hq], hparent⟩
  | @exit p' adopter _ hme _ _ _ _ =>
    by_cases hself : p = p'
    · subst hself
      exact ⟨{ q with alive := false }, by simp [Table.exit, hq], hparent⟩
    · have hother : q.parent ≠ p' := by
        rw [hparent]
        exact hme.symm
      exact ⟨q, by simp [Table.exit, hq, hself, hother], hparent⟩
  | @reap p' q' hq' _ hother =>
    have hne : p ≠ p' := by
      intro heq
      rw [heq, hq'] at hq
      exact hother (Option.some.inj hq ▸ hparent)
    exact ⟨q, by rw [Function.update_of_ne hne, hq], hparent⟩

/-- Where there is no child, none appears: nobody is left below the reaper who could fork
one or leave an orphan. -/
theorem no_child_of_environment (h : Environment me t t') (hnone : ∀ p, ¬ Child me t p) :
    ∀ p, ¬ Child me t' p := by
  intro p hp
  obtain ⟨q, hq, hparent⟩ := hp
  cases h with
  | @fork p' c q' hme _ _ _ _ =>
    by_cases hc : p = c
    · rw [hc, Function.update_self] at hq
      exact hme (by rw [← hparent, ← Option.some.inj hq])
    · rw [Function.update_of_ne hc] at hq
      exact hnone p ⟨q, hq, hparent⟩
  | @exit p' adopter _ hme _ _ _ hadopter =>
    have hadopter' : adopter ≠ me := fun heq => not_descendant hnone _ (hadopter.mpr (.inl heq))
    obtain ⟨q', hq', rfl⟩ := Option.map_eq_some_iff.mp hq
    by_cases hself : p = p'
    · rw [if_pos hself] at hparent
      exact hnone p ⟨q', hq', hparent⟩
    · rw [if_neg hself] at hparent
      by_cases horphan : q'.parent = p'
      · rw [if_pos horphan] at hparent
        exact hadopter' hparent
      · rw [if_neg horphan] at hparent
        exact hnone p ⟨q', hq', hparent⟩
  | @reap p' q' _ _ _ =>
    by_cases hself : p = p'
    · rw [hself, Function.update_self] at hq
      cases hq
    · rw [Function.update_of_ne hself] at hq
      exact hnone p ⟨q, hq, hparent⟩

end Children

/-! ## The invariant -/

/-- A scan that has found no child either has one still before it, or there is none; what
it has found are children, until they are waited for. -/
def Inv (me : Pid) (s : State) : Prop :=
  match s.pc with
  | .scanning _ todo found => (∀ p ∈ found, Child me s.table p) ∧
      (found = [] → (∃ p ∈ todo, Child me s.table p) ∨ ∀ p, ¬ Child me s.table p)
  | .killing _ todo _ => ∀ p ∈ todo, Child me s.table p
  | .returned => ∀ p, ¬ Child me s.table p
  | _ => True

theorem inv_environment {me : Pid} {s : State} {t : Table} (hs : Inv me s)
    (h : Environment me s.table t) : Inv me ⟨t, s.pc⟩ := by
  obtain ⟨table, pc⟩ := s
  have hkeep {ps : List Pid} (hps : ∀ p ∈ ps, Child me table p) : ∀ p ∈ ps, Child me t p :=
    fun p hp => child_of_environment h (hps p hp)
  cases pc with
  | scanning n todo found =>
    constructor
    · exact hkeep hs.1
    · intro hfound
      rcases hs.2 hfound with ⟨p, hp, hchild⟩ | hnone
      · exact .inl ⟨p, hp, child_of_environment h hchild⟩
      · exact .inr (no_child_of_environment h hnone)
  | killing n todo left => exact hkeep hs
  | returned => exact no_child_of_environment h hs
  | loop n => trivial
  | waiting n todo => trivial
  | refused => trivial

theorem inv_step {me : Pid} {s s' : State} {signalled : Option Pid} (hs : Inv me s)
    (h : Step me s signalled s') : Inv me s' := by
  cases h with
  | @list t n entries hall =>
    constructor
    · simp
    · intro _
      by_cases hchild : ∃ p, Child me t p
      · obtain ⟨p, q, hq, hparent⟩ := hchild
        exact .inl ⟨p, hall p (by simp [hq]), q, hq, hparent⟩
      · exact .inr (not_exists.mp hchild)
  | found hchild =>
    constructor
    · intro p hp
      rcases List.mem_append.mp hp with hp | hp
      · exact hs.1 p hp
      · rw [List.mem_singleton.mp hp]
        exact hchild
    · intro hnil
      simp at hnil
  | passed hnot =>
    constructor
    · exact hs.1
    · intro hnil
      rcases hs.2 hnil with ⟨p, hp, hchild⟩ | hnone
      · rcases List.mem_cons.mp hp with rfl | hp
        · exact absurd hchild hnot
        · exact .inl ⟨p, hp, hchild⟩
      · exact .inr hnone
  | clear =>
    rcases hs.2 rfl with ⟨p, hp, -⟩ | hnone
    · cases hp
    · exact hnone
  | scanned _ => exact hs.1
  | kill _ => exact fun p hp => hs p (List.mem_cons_of_mem _ hp)
  | gone _ => exact fun p hp => hs p (List.mem_cons_of_mem _ hp)
  | refuse => trivial
  | killed => trivial
  | reap _ => trivial
  | stranger _ => trivial
  | sleep => trivial

theorem inv_of_reachable {me : Pid} {rounds : ℕ} {s : State} (h : Reachable me rounds s) :
    Inv me s := by
  induction h with
  | start t => trivial
  | step _ hstep ih => exact inv_step ih hstep
  | environment _ henv ih => exact inv_environment ih henv

/-- **No leftovers**: from a normal return on no descendant of the reaper is there, alive or
not, and whatever the reaper signals at any time is a descendant then. -/
theorem leftovers_killed (me : Pid) (rounds : ℕ) :
    (∀ s, Reachable me rounds s → s.pc = .returned → ∀ p, ¬ Descendant me s.table p) ∧
      ∀ s s' p, Reachable me rounds s → Step me s (some p) s' → Descendant me s.table p := by
  constructor
  · intro s hs hpc p
    have hinv := inv_of_reachable hs
    rw [Inv, hpc] at hinv
    exact not_descendant hinv p
  · intro s s' p hs hstep
    have hinv := inv_of_reachable hs
    cases hstep with
    | kill _ => exact .child (hinv p List.mem_cons_self)

/-- One leftover that exits when it is signalled: two rounds return normally. -/
theorem returned_after_leftover : ∃ s, Reachable 1 2 s ∧ s.pc = .returned := by
  let t : Table := Function.update (fun _ => none) 2 (some ⟨1, true⟩)
  have ht : t 2 = some ⟨1, true⟩ := by simp [t]
  have hothers : ∀ p, (t p).isSome → p ∈ [2] := by
    intro p hp
    by_contra hne
    have hp2 : p ≠ 2 := by simpa using hne
    simp [t, Function.update_of_ne hp2] at hp
  have hexit : t.exit 2 1 2 = some ⟨1, false⟩ := by simp [Table.exit, ht]
  have hempty : ∀ p, (Function.update (t.exit 2 1) 2 none p).isSome → p ∈ ([] : List Pid) := by
    intro p hp
    by_cases hp2 : p = 2
    · simp [hp2] at hp
    · simp [Function.update_of_ne hp2, Table.exit, t] at hp
  have hadopter : Descendant 1 t 2 ↔ (1 : Pid) = 1 ∨ Descendant 1 t 1 :=
    iff_of_true (.child ⟨_, ht, rfl⟩) (.inl rfl)
  have h : Reachable 1 2 ⟨t, .loop 2⟩ := .start t
  have h := h.step (.list hothers)
  have h := h.step (.found ⟨_, ht, rfl⟩)
  have h := h.step (.scanned (by simp))
  have h := h.step (.kill (by simp [ht]))
  have h := h.step .killed
  have h := h.environment (.exit (by decide) ht rfl (by decide) hadopter)
  have h := h.step (.reap hexit)
  have h := h.step .sleep
  have h := h.step (.list hempty)
  exact ⟨_, h.step .clear, rfl⟩

end Leftovers
