import BazziteTower.Deny.Move

/-!
# A live deny configuration is covered by the timer

Through a run of `on`, whatever strikes its calls, the live configuration has
DefaultAction `allow`, or it has `deny` while a trial is pending and the revert
timer is armed, as long as the rollback stops the timer over a live `allow` only.
It does stop the timer after a restoration that failed.

## Main definitions

* `Covered` — what holds at every step.

## Main results

* `covered_turnOn_iff` — exactly when it holds.
-/

open Prog hiding perform

namespace Deny

/-- The live configuration has DefaultAction `deny`. -/
def LiveDeny (c : Core) : Prop := ∃ data, c.live = some data ∧ currentAction data = .ok .deny

theorem liveDeny_iff {c : Core} :
    LiveDeny c ↔ (c.live.bind fun data => (currentAction data).toOption) = some .deny := by
  simp only [LiveDeny, Option.bind_eq_some_iff]
  refine exists_congr fun data => and_congr_right fun _ => ?_
  cases currentAction data <;> simp [Except.toOption]

instance : DecidablePred LiveDeny := fun _ => decidable_of_iff _ liveDeny_iff.symm

/-- DefaultAction is `allow`, or it is `deny` in a pending trial with an armed timer. -/
def Covered (c : Core) : Prop := LiveAllow c ∨ LiveDeny c ∧ Pending c ∧ c.timer = true

instance : DecidablePred Covered := fun c =>
  inferInstanceAs (Decidable (LiveAllow c ∨ LiveDeny c ∧ Pending c ∧ c.timer = true))

/-- A move of a trial that stops the timer over a live `allow` only keeps the
configuration covered. -/
theorem Move.covered {c c' : Core} (h : Move LiveAllow c c') (hc : Covered c) : Covered c' := by
  cases h with
  | same => exact hc
  | backup n live => exact .inl live
  | start state n live => exact .inl live
  | arm =>
    rcases hc with hc | ⟨hdeny, hpending, -⟩
    · exact .inl hc
    · exact .inr ⟨hdeny, hpending, rfl⟩
  | deny n deny pending armed => exact .inr ⟨deny, pending, armed⟩
  | allow n allow => exact .inl allow
  | drop p live record =>
    simp only [List.mem_cons, List.not_mem_nil, or_false] at record
    rcases record with rfl | rfl | rfl <;> exact .inl live
  | stop h => exact .inl h
  | restart => exact hc

/-- The timer is stopped over a live `allow` only. -/
def StopsCovered (s : Step Op Exn World) : Prop :=
  s.op = .stopTimer → s.choice.fault.effective → LiveAllow (core s.world)

instance : DecidablePred StopsCovered := fun s =>
  inferInstanceAs (Decidable (s.op = .stopTimer → s.choice.fault.effective → LiveAllow (core s.world)))

/-- In every state that passes the checks of `on`, DefaultAction is `allow`. -/
theorem liveAllow_of_preflight {w : World} (h : (preflight.exec host w).1 = .ok ()) :
    LiveAllow (core w) :=
  (wp_exec (knows_preflight (quiet_of_alone fun _ _ _ h => h) (G := fun _ _ => True)
    (fun _ => trivial) w rfl) fun _ _ => rfl).2 () h

/-- **Through a run of `on` the configuration is covered exactly if the timer is
stopped over a live `allow` only**, whatever strikes the calls. -/
theorem covered_turnOn_iff (minutes : Minutes) (w : World) (hlive : LiveAllow (core w))
    (cs : List (Choice Exn World)) (halone : ∀ c ∈ cs, c.interfere = id) :
    (∀ n, Covered (core ((turnOn minutes).run host (cs.take n) w).2)) ↔
      ∀ s ∈ (turnOn minutes).steps host cs w, StopsCovered s := by
  constructor
  · intro hcovered s hs hop heffective
    obtain ⟨n, hn⟩ := run_take_of_mem_steps host hs
    have hc := hcovered n
    have hid : s.choice.interfere = id := halone _ (choice_mem_of_mem_steps host hs)
    have hstopped : core (host.act s.choice s.op s.world).2 = { core s.world with timer := false } := by
      rw [hop]
      unfold Host.act
      cases hf : s.choice.fault with
      | before e => simp [hf, Fault.effective] at heffective
      | none | after e => rw [hid]; rfl
    rw [hn, hstopped] at hc
    rcases hc with hc | ⟨-, -, htimer⟩
    · exact hc
    · cases htimer
  · intro hstops n
    let ok : Op → Choice Exn World → World → Prop := fun o c w => c.interfere = id ∧ StopsCovered ⟨o, c, w⟩
    have hq : Quiet ok := quiet_of_alone fun _ _ _ h => h.1
    have hstop : StopsIn LiveAllow ok := fun c v hc heffective => hc.2 rfl heffective
    refine (wp_run (I := fun v => Covered (core v)) (fun o c v hc hv => ?_)
      (fun _ _ hmove hv => hmove.covered hv) (meets_turnOn hq hstop minutes) ?_ (.inl hlive)).1
    · rw [(hq o c v hc).1]
      exact hv
    · intro s hs
      have hs := steps_take_subset host _ _ _ n hs
      exact ⟨halone _ (choice_mem_of_mem_steps host hs), hstops s hs⟩

/-- A restart that fails is rolled back under the timer. -/
theorem covered_turnOn_restart_fails : Covered (core ((turnOn tenMinutes).run host
    ((calls 43 ++ failures 1 ++ calls 60).take 60) installed).2) := by
  refine (covered_turnOn_iff tenMinutes installed (by decide +kernel) _ ?_).mpr (by decide +kernel) 60
  simp only [List.mem_append]
  rintro c ((hc | hc) | hc)
  · exact interfere_of_mem_calls hc
  · exact interfere_of_mem_failures hc
  · exact interfere_of_mem_calls hc

/-- A restart that fails, and then the first read of the restoration: the timer is
stopped over the live deny configuration. -/
theorem not_covered_turnOn_restore_fails : (preflight.exec host installed).1 = .ok () ∧
    ¬∀ n, Covered (core ((turnOn tenMinutes).run host
      ((calls 43 ++ failures 2 ++ calls 60).take n) installed).2) :=
  ⟨by decide +kernel, fun h => absurd (h 46) (by decide +kernel)⟩

end Deny
