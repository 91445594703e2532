import BazziteTower.Deny.Commands

/-!
# What the daemon runs on

The daemon runs on the configuration that it read at its last start.  Through any
sequence of runs, killed or struck in their systemd calls, an `off` that succeeds
leaves the live configuration on `allow`, and the daemon too, unless it was live
already while the daemon ran on something else: `off` decides from the file
whether to restart.

## Main definitions

* `EffectiveAllow` — the daemon runs on `allow`.
* `SystemdFails`, `Between` — what happens around the calls and between the runs.

## Main results

* `effectiveAllow_of_main` — what a successful `off` or revert guarantees.
-/

open Prog hiding perform

namespace Deny

/-- The daemon read a configuration with DefaultAction `allow` at its last start. -/
def EffectiveAllow (c : Core) : Prop :=
  ∃ data, c.loaded = some data ∧ currentAction data = .ok .allow

theorem effectiveAllow_iff {c : Core} :
    EffectiveAllow c ↔ (c.loaded.bind fun data => (currentAction data).toOption) = some .allow := by
  simp only [EffectiveAllow, Option.bind_eq_some_iff]
  refine exists_congr fun data => and_congr_right fun _ => ?_
  cases currentAction data <;> simp [Except.toOption]

instance : DecidablePred EffectiveAllow := fun _ => decidable_of_iff _ effectiveAllow_iff.symm

/-- The calls of `systemctl` and `systemd-run`. -/
def systemd : Op → Bool
  | .isActive _ | .isEnabled _ | .start _ | .stop _ | .restart _ | .startTimer _ _
  | .stopTimer => true
  | _ => false

/-- Only systemd calls fail, and nobody else does anything. -/
def SystemdFails (o : Op) (c : Choice Exn World) (_ : World) : Prop :=
  c.interfere = id ∧ (systemd o = false → c.fault = .none)

/-- A run of a command other than the boot guard. -/
def Admits (k : Command) (cs : List (Choice Exn World)) (w : World) : Prop :=
  k ≠ .revert true ∧ ∀ s ∈ (main k).steps host cs w, SystemdFails s.op s.choice s.world

/-- Between two runs the lock of a killed one is released, time passes and the timer
may elapse; nobody touches the configuration, the records or the daemon. -/
def Between (w w' : World) : Prop := ∃ timer, core w' = { core w with timer := timer }

theorem quiet_systemdFails : Quiet SystemdFails := quiet_of_alone fun _ _ _ h => h.1

theorem backupAllow_of_session {w₀ w : World} (hw : Session host main Admits Between w₀ w)
    (hstart : BackupAllow (core w₀)) : BackupAllow (core w) := by
  refine hw.invariant (I := fun v => BackupAllow (core v)) (fun k cs v hadmits hv => ?_) ?_ hstart
  · refine (wp_run (fun o c u hc hu => ?_) (fun _ _ h => h.backupAllow)
      (meets_main_change quiet_systemdFails hv hadmits.1) hadmits.2 hv).1
    rw [(quiet_systemdFails o c u hc).1]
    exact hu
  · rintro v v' ⟨timer, h⟩ hv
    rw [h]
    exact hv

theorem OffResult.effectiveAllow {c c' : Core} (h : OffResult c c')
    (hc : LiveAllow c → EffectiveAllow c) : EffectiveAllow c' := by
  obtain ⟨⟨data, hlive, hallow⟩, ⟨-, hloaded⟩ | ⟨hlive', hloaded⟩⟩ := h
  · exact ⟨data, hloaded.trans hlive, hallow⟩
  · obtain ⟨data', hdata', hallow'⟩ := hc hlive'
    exact ⟨data', hloaded.trans hdata', hallow'⟩

/-- **A successful `off`, and a successful revert of a pending trial, leave `allow`
live**, and effective unless it was live before but not effective. -/
theorem effectiveAllow_of_main {w₀ w : World} (hstart : BackupAllow (core w₀))
    (hw : Session host main Admits Between w₀ w) {k : Command}
    (hk : k = .off ∨ k = .revert false ∧ Pending (core w)) {cs : List (Choice Exn World)}
    (hadmits : Admits k cs w) (hexit : ((main k).run host cs w).1 = some (.ok 0)) :
    LiveAllow (core ((main k).run host cs w).2) ∧
      ((LiveAllow (core w) → EffectiveAllow (core w)) →
        EffectiveAllow (core ((main k).run host cs w).2)) := by
  have hbackup := backupAllow_of_session hw hstart
  have hq := quiet_systemdFails
  have hmain : Meets SystemdFails (Move fun _ => True) (main k)
      (fun r c => r = .ok 0 → OffResult (core w) c) w := by
    refine meets_main ?_
    rcases hk with rfl | ⟨rfl, hpending⟩
    · refine meets_policyLock hq Move.same fun v hv => ?_
      exact (meets_turnOff hq (fun _ _ => trivial) hv (.inr hbackup) false).mono
        fun r c h hr => (h hr).2 rfl
    · refine meets_policyLock hq Move.same fun v hv => ?_
      exact (meets_revertIfPending_found hq (fun c v hc => hc.2 rfl) (fun _ _ => trivial) hv hbackup
        hpending false).mono fun r c h hr => (h hr).2 rfl
  have hresult := (wp_run (I := fun _ => True) (fun _ _ _ _ h => h) (fun _ _ _ h => h) hmain
    hadmits.2 trivial).2 _ hexit rfl
  exact ⟨hresult.1, hresult.effectiveAllow⟩

/-! ## Runs on a machine -/

theorem systemdFails_of_mem_calls {n : ℕ} {c : Choice Exn World} (hc : c ∈ calls n) (o : Op)
    (w : World) : SystemdFails o c w := by
  rw [List.eq_of_mem_replicate hc]
  exact ⟨rfl, fun _ => rfl⟩

theorem admits_calls {k : Command} (hk : k ≠ .revert true) (n : ℕ) (w : World) :
    Admits k (calls n) w :=
  ⟨hk, fun _ hs => systemdFails_of_mem_calls (choice_mem_of_mem_steps host hs) _ _⟩

/-- A run of a command on a machine whose lock is free. -/
def after (k : Command) (n : ℕ) (w : World) : World :=
  { ((main k).run host (calls n) w).2 with holder := .nobody }

theorem session_after {w₀ w : World} (hw : Session host main Admits Between w₀ w) {k : Command}
    (hk : k ≠ .revert true) (n : ℕ) : Session host main Admits Between w₀ (after k n w) :=
  .move (.run k (calls n) hw (admits_calls hk n w)) ⟨_, rfl⟩

/-- The machine with a trial. -/
def tried : World := after (.on tenMinutes) 71 installed

theorem session_tried : Session host main Admits Between installed tried :=
  session_after (k := .on tenMinutes) .start (by decide) 71

theorem admits_off_tried : Admits .off (calls 51) tried := admits_calls (by decide) 51 _

/-- An `off` that ends a trial. -/
theorem effectiveAllow_off_tried :
    LiveAllow (core ((main .off).run host (calls 51) tried).2) ∧
      ((LiveAllow (core tried) → EffectiveAllow (core tried)) →
        EffectiveAllow (core ((main .off).run host (calls 51) tried).2)) :=
  effectiveAllow_of_main (fun _ h => by cases h) session_tried (.inl rfl) (admits_off_tried)
    (by decide +kernel)

/-- A revert leaves a confirmed deny alone and succeeds; and after an `off` that was
killed before its restart, another one succeeds while the daemon runs on deny. -/
theorem not_effectiveAllow_of_main :
    (∃ w, Session host main Admits Between installed w ∧ ∃ cs, Admits (.revert false) cs w ∧
      ((main (.revert false)).run host cs w).1 = some (.ok 0) ∧
      ¬EffectiveAllow (core ((main (.revert false)).run host cs w).2)) ∧
    ∃ w, Session host main Admits Between installed w ∧ ∃ cs, Admits .off cs w ∧
      ((main .off).run host cs w).1 = some (.ok 0) ∧
      ¬EffectiveAllow (core ((main .off).run host cs w).2) := by
  refine ⟨⟨after .confirm 54 tried, session_after session_tried (by decide) 54, calls 20,
      admits_calls (by decide) 20 _, by decide +kernel, by decide +kernel⟩,
    ⟨after .off 31 tried, session_after session_tried (by decide) 31, calls 80,
      admits_calls (by decide) 80 _, by decide +kernel, by decide +kernel⟩⟩

end Deny
