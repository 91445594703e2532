import BazziteTower.Deny.Crash
import BazziteTower.Deny.Effective

/-!
# The boot guard and the policy lock

The guard decides without the policy lock whether a trial is its business, and acts
once it holds the lock.  In between, other commands may take and release the lock.
Whatever they do, the guard leaves a trial of the current boot alone, unless it
waited with an earlier trial in mind and found one of this boot when its turn came.

## Main definitions

* `OthersRun` — what may happen around the calls of the guard.
* `OfThisBoot` — the state records a trial of the current boot.

## Main results

* `bootGuard_leaves_trial` — the guard leaves a trial of this boot alone.
-/

open Prog hiding perform

namespace Deny

/-! ## The other processes -/

/-- Nothing fails.  While the guard holds the policy lock nothing else happens, and
before that the other commands may change anything, but leave the lock released. -/
structure OthersRun (c : Choice Exn World) (w : World) : Prop where
  fault : c.fault = .none
  locked : w.holder = .self → c.interfere w = w
  released : w.holder ≠ .self → (c.interfere w).holder ≠ .self

/-- The state records a trial of the current boot. -/
def OfThisBoot (c : Core) : Prop := ∃ state, recorded c = some state ∧ ofBoot state c.bootId

/-- The state records a pending trial of the current boot. -/
def PendingThisBoot (c : Core) : Prop :=
  ∃ state, recorded c = some state ∧ isPending state ∧ ofBoot state c.bootId

theorem ofThisBoot_iff {c : Core} :
    OfThisBoot c ↔ (recorded c).any fun state => ofBoot state c.bootId := by
  simp [OfThisBoot, Option.any_eq_true]

instance : DecidablePred OfThisBoot := fun _ => decidable_of_iff _ ofThisBoot_iff.symm

theorem pendingThisBoot_iff {c : Core} : PendingThisBoot c ↔
    (recorded c).any fun state => isPending state && ofBoot state c.bootId := by
  simp [PendingThisBoot, Option.any_eq_true]

instance : DecidablePred PendingThisBoot := fun _ => decidable_of_iff _ pendingThisBoot_iff.symm

/-- A trial of this boot is left as it is. -/
def Spares (w w' : World) : Prop := OfThisBoot (core w) → core w' = core w

/-! ## What the guard calls under the lock -/

/-- A call of the guard other than taking and releasing the lock. -/
def Guarding : Op → Bool
  | .flock _ | .closeLock | .restart _ | .exchange _ _ | .start _ | .startTimer _ _ => false
  | .replace _ p => p = .config || p = .snapshot
  | .unlink (.file p) => p = .marker || p = .state || p = .backup
  | .rename p q => p = .state && !tracked q
  | .mkdirs p _ | .chmod p _ => !tracked p
  | _ => true

theorem holder_perform {o : Op} (ho : Guarding o) (w : World) :
    (o.perform w).2.holder = w.holder := by
  cases o <;> simp only [Guarding, Bool.false_eq_true] at ho <;>
    simp only [Op.perform, World.modifyTemp, World.setTemp, World.put, World.drop] <;>
    (try split) <;> (try split) <;> (try split) <;> (try rfl)

theorem bootId_perform (o : Op) (w : World) : (o.perform w).2.bootId = w.bootId := by
  cases o <;> simp only [Op.perform, World.modifyTemp, World.setTemp, World.put, World.drop] <;>
    (try split) <;> (try split) <;> (try split) <;> (try rfl)

/-- A call of the guard leaves the state file alone or removes it. -/
theorem state_perform {o : Op} (ho : Guarding o) (w : World) :
    (o.perform w).2.files .state = w.files .state ∨ (o.perform w).2.files .state = none := by
  by_cases hs : Silent o
  · exact .inl (congrArg Core.state (core_perform hs w))
  cases o with
  | replace t p =>
    simp only [Op.perform]
    split
    · exact .inl rfl
    · split
      · exact .inl rfl
      · left
        simp only [Guarding, Bool.or_eq_true, decide_eq_true_eq] at ho
        rcases ho with rfl | rfl <;> simp [World.put, World.setTemp]
  | unlink l =>
    cases l with
    | temp t => simp [Silent] at hs
    | file p =>
      simp only [Op.perform]
      split
      · exact .inl rfl
      · split
        · exact .inl rfl
        · by_cases hp : p = .state
          · right
            simp [World.drop, hp]
          · left
            simp [World.drop, Function.update_of_ne (Ne.symm hp)]
  | rename p q =>
    simp only [Guarding, Bool.and_eq_true, decide_eq_true_eq, Bool.not_eq_true'] at ho
    obtain ⟨rfl, hq⟩ := ho
    have hne : HostPath.state ≠ q := fun h => by simp [← h, tracked] at hq
    simp only [Op.perform]
    split
    · exact .inl rfl
    · right
      simp [World.put, World.drop, Function.update_of_ne hne]
  | stopTimer => exact .inl rfl
  | mkdirs p mode => simp [Guarding, Silent] at ho hs; exact absurd ho (by simp [hs])
  | chmod p mode => simp [Guarding, Silent] at ho hs; exact absurd ho (by simp [hs])
  | _ => simp [Guarding, Silent] at ho hs

/-- No call of the guard records a trial. -/
theorem ofThisBoot_perform {o : Op} (ho : Guarding o) {w : World} (hw : ¬OfThisBoot (core w)) :
    ¬OfThisBoot (core (o.perform w).2) := by
  rintro ⟨state, hstate, hboot⟩
  have hboot' : (core (o.perform w).2).bootId = (core w).bootId := bootId_perform o w
  rcases state_perform ho w with hsame | hnone
  · have hstate' : (core (o.perform w).2).state = (core w).state := hsame
    refine hw ⟨state, ?_, hboot' ▸ hboot⟩
    rw [← hstate, recorded, recorded, hstate']
  · have hstate' : (core (o.perform w).2).state = none := hnone
    simp [recorded, hstate'] at hstate

/-! ## The scripts that run under the lock -/

/-- A script that neither takes nor releases the lock, nor records a trial. -/
abbrev Guards {α : Type} (p : Script α) : Prop := p.uses fun o => Guarding o

theorem guards_perform {o : Op} (ho : Guarding o) : Guards (perform o) := uses_perform.mpr ho

theorem guards_lookup (p : HostPath) : Guards (lookup p) :=
  uses_recover (uses_bind (guards_perform (by rfl)) fun _ => trivial) fun _ =>
    uses_ite trivial (uses_ite trivial trivial)

theorem guards_present (p : HostPath) : Guards (present p) :=
  uses_bind (guards_lookup p) fun _ => trivial

theorem guards_privateBytes (p : HostPath) (what : String) : Guards (privateBytes p what) :=
  uses_bind (guards_perform (by rfl)) fun _ => uses_bind trivial fun _ => guards_perform (by rfl)

theorem guards_loadState : Guards loadState :=
  uses_bind (guards_present _) fun _ => uses_ite
    (uses_bind (guards_privateBytes _ _) fun _ => uses_bind trivial fun _ => trivial) trivial

theorem guards_readConfig : Guards readConfig :=
  uses_bind (uses_bind (guards_perform (by rfl)) fun _ => uses_bind trivial fun _ =>
    uses_bind (guards_perform (by rfl)) fun _ => trivial) fun _ =>
      uses_bind (guards_perform (by rfl)) fun _ => trivial

theorem guards_readBackup : Guards readBackup :=
  uses_bind (guards_present _) fun _ => uses_ite
    (uses_recover (uses_bind (guards_privateBytes _ _) fun _ => trivial) fun _ =>
      uses_ite trivial trivial) trivial

theorem guards_pendingState : Guards pendingState := uses_bind guards_loadState fun _ => trivial

theorem guards_guardShouldRevert : Guards guardShouldRevert := by
  refine uses_bind guards_pendingState fun state => ?_
  cases state with
  | none => trivial
  | some state =>
    exact uses_bind (uses_recover (guards_perform (by rfl)) fun _ => uses_ite trivial trivial)
      fun _ => trivial

theorem guards_applyMetadata (t : ℕ) (metadata : Json) : Guards (applyMetadata t metadata) :=
  uses_mono (dresses_applyMetadata t metadata) fun o ho => by cases o <;> simp_all [Dresses, Guarding]

theorem guards_publishConfig (data : Bytes) (mode : ℤ) (metadata : Json) (expected : Option Bytes) :
    Guards (publish .config data mode metadata expected) := by
  refine uses_bind (guards_perform (by rfl)) fun _ => uses_bind (guards_perform (by rfl)) fun t => ?_
  refine uses_ensuring (uses_bind ?_ fun _ => ?_) ?_
  · refine uses_bind (guards_perform (by rfl)) fun _ => uses_ite (guards_applyMetadata t metadata) ?_
    exact guards_perform (by rfl)
  · refine uses_bind (guards_perform (by rfl)) fun _ => uses_bind ?_ fun _ => ?_
    · cases expected with
      | none => trivial
      | some bytes => exact uses_bind (guards_perform (by rfl)) fun _ => trivial
    · exact uses_bind (guards_perform (by rfl)) fun _ => guards_perform (by rfl)
  · exact uses_bind (guards_perform (by rfl)) fun _ => uses_ite (guards_perform (by rfl)) trivial

theorem guards_flipKey (data : Bytes) (metadata : Json) : Guards (flipKey data metadata) :=
  uses_bind trivial fun _ => uses_bind (guards_publishConfig ..) fun _ => trivial

theorem guards_restoreAllow (state : Option Fields) : Guards (restoreAllow state) := by
  refine uses_bind guards_readConfig fun ⟨data, metadata⟩ => uses_bind trivial fun _ => ?_
  refine uses_ite trivial ?_
  cases state with
  | none => exact guards_flipKey data metadata
  | some state =>
    refine uses_bind guards_readBackup fun backup => ?_
    cases backup with
    | none => exact guards_flipKey data metadata
    | some backup =>
      refine uses_ite (uses_bind trivial fun _ => ?_) (guards_flipKey data metadata)
      exact uses_bind (guards_publishConfig ..) fun _ => trivial

theorem guards_turnOff : Guards (turnOff true) := by
  refine uses_bind guards_loadState fun state => uses_bind guards_readConfig fun _ => ?_
  refine uses_bind (uses_ite trivial (guards_present _)) fun _ => uses_bind trivial fun _ => ?_
  refine uses_ite trivial (uses_bind (guards_restoreAllow state) fun _ => ?_)
  refine uses_bind (uses_forM fun p hp => uses_bind (guards_present p) fun _ => ?_) fun _ => ?_
  · refine uses_ite (guards_perform ?_) trivial
    simp only [List.mem_cons, List.not_mem_nil, or_false] at hp
    rcases hp with rfl | rfl | rfl <;> rfl
  · exact uses_bind (guards_perform (by rfl)) fun _ => trivial

theorem guards_revertIfPending : Guards (revertIfPending true) := by
  refine uses_bind guards_pendingState fun state => ?_
  cases state with
  | none => trivial
  | some state => exact guards_turnOff

theorem guards_quarantine : Guards quarantine := by
  refine uses_bind (guards_perform (by rfl)) fun _ => uses_ite ?_ trivial
  rw [uniqueAside, bind_eq, bind_eq, bind_assoc]
  refine uses_bind (guards_perform (by rfl)) fun now => ?_
  rw [bind_eq, bind_assoc]
  refine uses_bind (guards_perform (by rfl)) fun number => ?_
  rw [pure_eq, bind_ok]
  refine uses_bind (guards_perform (by rfl)) fun _ => uses_bind (guards_perform (by rfl)) fun _ => ?_
  exact uses_ite (guards_perform (by rfl)) trivial

theorem guards_recoverBadState : Guards recoverBadState := by
  have htimer : Guards (try stopTimer catch error => if error.isRefusal then pure () else throw error :
      Script Unit) :=
    uses_recover (guards_perform (by rfl)) fun _ => uses_ite trivial trivial
  refine uses_bind (guards_restoreAllow none) fun _ => uses_bind guards_quarantine fun _ => ?_
  refine uses_bind (guards_perform (by rfl)) fun _ => ?_
  split
  · exact uses_bind (guards_perform (by rfl)) fun _ => htimer
  · exact htimer

theorem guards_recheck : Guards recheck :=
  uses_handle guards_loadState fun
    | .ok _ => uses_bind guards_guardShouldRevert fun _ => uses_ite guards_revertIfPending trivial
    | .error _ => uses_ite trivial (uses_ite guards_recoverBadState trivial)

/-! ## Under the lock -/

variable {w : World}

/-- From a state without a trial of this boot, a script of the guard spares everything. -/
theorem along_of_guards {α : Type} {p : Script α} (hp : Guards p) (hw : ¬OfThisBoot (core w)) :
    p.along host (fun o v => Spares v (o.perform v).2) w :=
  along_of_uses (P := fun v => ¬OfThisBoot (core v)) hp
    (fun _ _ ho hv => ⟨fun htrial => absurd htrial hv, ofThisBoot_perform ho hv⟩) hw

/-- A reading script spares everything. -/
theorem along_of_reads {α : Type} {p : Script α} (hp : Reads p) :
    p.along host (fun o v => Spares v (o.perform v).2) w :=
  along_of_uses (P := fun _ => True) hp
    (fun _ _ ho _ => ⟨fun _ => core_perform ho _, trivial⟩) trivial

/-- A recorded state is what `load_state` returns. -/
theorem stateIn_of_recorded {state : Fields} (h : recorded (core w) = some state) :
    stateIn (w.files .state) = .ok (some state) := by
  obtain ⟨n, hn, hload⟩ := Option.bind_eq_some_iff.mp h
  obtain ⟨hsafe, hload⟩ := Option.ite_none_right_eq_some.mp hload
  obtain ⟨data, hdata, hstate⟩ := Option.bind_eq_some_iff.mp hload
  have hfile : w.files .state = some n := hn
  rw [hfile, stateIn_some_eq_ok]
  refine ⟨hsafe, data, state, hdata, ?_, rfl⟩
  cases hs : stateOf data with
  | error e => simp [hs, Except.toOption] at hstate
  | ok s => simpa [hs, Except.toOption] using hstate

/-- Under the lock the guard reverts a pending trial; it spares one of this boot unless
that is the pending one. -/
theorem along_revertIfPending (hw : ¬PendingThisBoot (core w)) :
    (revertIfPending true).along host (fun o v => Spares v (o.perform v).2) w := by
  by_cases htrial : OfThisBoot (core w)
  · obtain ⟨state, hstate, hboot⟩ := htrial
    have hpending : isPending state = false := by
      by_contra hne
      exact hw ⟨state, hstate, by simpa using hne, hboot⟩
    have hanswer := answers_pendingState (stateIn_of_recorded hstate)
    rw [Option.filter_some, hpending] at hanswer
    exact (along_bind_ok hanswer).mpr ⟨along_of_reads reads_pendingState, trivial⟩
  · exact along_of_guards guards_revertIfPending htrial

/-- The second reading asks for the boot again. -/
theorem along_recheck : recheck.along host (fun o v => Spares v (o.perform v).2) w := by
  by_cases htrial : OfThisBoot (core w)
  · obtain ⟨state, hstate, hboot⟩ := htrial
    have hstate := stateIn_of_recorded hstate
    have hload := answers_loadState (w := w)
    rw [hstate] at hload
    refine (along_handle ..).mpr ⟨along_of_reads reads_loadState, ?_⟩
    rw [hload]
    have hdue := answers_guardShouldRevert hstate
    have hnot : shouldRevert (some state) w.bootId = false := by
      have hboot' : ofBoot state w.bootId = true := hboot
      cases hp : isPending state <;> simp [shouldRevert, Option.filter_some, hp, hboot']
    rw [hnot] at hdue
    exact (along_bind_ok hdue).mpr ⟨along_of_reads reads_guardShouldRevert, trivial⟩
  · exact along_of_guards guards_recheck htrial

/-! ## The guard among other processes -/

variable {ok : Op → Choice Exn World → World → Prop} (hok : ∀ o c w, ok o c w → OthersRun c w)
include hok

/-- A reading script of the guard spares everything, and does not take the lock. -/
theorem wp_unlocked {α : Type} {p : Script α} (hp : p.uses fun o => Silent o ∧ Guarding o)
    (hw : w.holder ≠ .self) : p.wp host ok Spares (fun _ v => v.holder ≠ .self) w := by
  refine wp_of_uses (P := fun v => v.holder ≠ .self) hp ?_ hw fun _ _ h => h
  rintro o c v ⟨hsilent, hguard⟩ hc hv
  have hothers := hok o c v hc
  refine ⟨fun _ => core_act hsilent c v, ?_⟩
  simp only [Host.act, hothers.fault]
  exact (holder_perform hguard _).symm ▸ hothers.released hv

/-- What runs under the lock runs on the state as it was when the lock was taken. -/
theorem wp_policyLock {body : Script Unit} {F : World → Prop} (hbody : Guards body)
    (hF : ∀ c v, ok (.flock true) c v → F (c.interfere v))
    (halong : ∀ v, F v → body.along host (fun o u => Spares u (o.perform u).2)
      { v with holder := .self }) (hw : w.holder ≠ .self) :
    (policyLock true body).wp host ok Spares (fun _ _ => True) w := by
  have hclose : ∀ v, (perform .closeLock).wp host ok Spares (fun _ _ => True) v := by
    intro v c hc
    exact ⟨fun _ => core_act (by rfl) c v, trivial⟩
  refine wp_bind (wp_unlocked hok (uses_perform.mpr ⟨by rfl, by rfl⟩) hw) (fun _ v hv => ?_)
    fun _ _ _ => trivial
  refine wp_bind (wp_unlocked hok (uses_perform.mpr ⟨by rfl, by rfl⟩) hv) (fun info u hu => ?_)
    fun _ _ _ => trivial
  refine wp_ensuring (P := fun _ _ => True) ?_ (fun _ v _ => hclose v)
    (fun _ _ _ => trivial) fun _ _ _ _ => trivial
  refine wp_bind (P := fun _ v => v = u) rfl (fun _ v hv => ?_) fun _ _ _ => trivial
  subst hv
  -- The state in which the guard takes the lock is the one that it acts on.
  refine wp_bind (P := fun r x => r.isOk → ∃ y, F y ∧ x = { y with holder := .self }) ?_ ?_
    fun _ _ _ => trivial
  · intro c hc
    refine ⟨fun _ => core_act (by rfl) c v, ?_⟩
    simp only [Host.act, (hok _ _ _ hc).fault, wp_done]
    simp only [host, Op.perform]
    split
    · exact fun _ => ⟨_, hF c v hc, rfl⟩
    · rintro ⟨⟩
  · intro _ x hx
    obtain ⟨y, hy, rfl⟩ := hx rfl
    refine wp_of_along (P := fun z => z.holder = .self) hbody ?_ ?_ rfl (halong y hy) trivial
    · intro o c z _ hz hc
      exact ⟨(hok o c z hc).fault, (hok o c z hc).locked hz⟩
    · intro o z ho hz
      exact (holder_perform ho z).trans hz

/-- The reading of the state before the lock. -/
theorem wp_loadState (hw : w.holder ≠ .self) :
    loadState.wp host ok Spares (fun _ v => v.holder ≠ .self) w :=
  wp_unlocked hok (uses_and reads_loadState guards_loadState) hw

/-- With a state that it could not read, the guard spares every trial of this boot. -/
theorem wp_bootGuard_unread (hw : w.holder ≠ .self) (e : Exn) :
    (if e.isFileNotFound then pure () else if isBadState e then policyLock true recheck else throw e :
      Script Unit).wp host ok Spares (fun _ _ => True) w := by
  split
  · trivial
  · split
    · exact wp_policyLock hok (F := fun _ => True) guards_recheck (fun _ _ _ => trivial)
        (fun v _ => along_recheck) hw
    · trivial

/-- With a state that it read, the guard spares every trial of this boot, if no such trial
is pending when it takes the lock. -/
theorem wp_bootGuard_read
    (hF : ∀ c v, ok (.flock true) c v → ¬PendingThisBoot (core (c.interfere v)))
    (hw : w.holder ≠ .self) :
    (do if ← guardShouldRevert then policyLock true (revertIfPending true) : Script Unit).wp host ok
      Spares (fun _ _ => True) w := by
  refine wp_bind (wp_unlocked hok (uses_and reads_guardShouldRevert guards_guardShouldRevert) hw)
    (fun due v hv => ?_) fun _ _ _ => trivial
  split
  · exact wp_policyLock hok (F := fun v => ¬PendingThisBoot (core v)) guards_revertIfPending hF
      (fun v hv => along_revertIfPending hv) hv
  · trivial

omit hok

/-- **The guard leaves a trial of this boot alone** in every run among complete runs of other
commands, unless it read the state before it waited for the lock and a trial of this boot
is pending when it takes the lock. -/
theorem bootGuard_leaves_trial {cs : List (Choice Exn World)} (hw : w.holder ≠ .self)
    (hcs : ∀ s ∈ bootGuard.steps host cs w, OthersRun s.choice s.world)
    (h : (∃ e, (loadState.run host cs w).1 = some (.error e)) ∨
      ∀ s ∈ bootGuard.steps host cs w, s.op = .flock true →
        ¬PendingThisBoot (core (s.choice.entry s.world))) :
    ∀ s ∈ bootGuard.steps host cs w, OfThisBoot (core (s.choice.entry s.world)) →
      core (host.act s.choice s.op s.world).2 = core (s.choice.entry s.world) := by
  rcases h with ⟨e, he⟩ | hlock
  · -- The guard reads the state again under the lock.
    have hsteps : bootGuard.steps host cs w = loadState.steps host cs w ++ _ := steps_handle ..
    have hread : loadState.wp host (fun _ c v => OthersRun c v) Spares (fun _ v => v.holder ≠ .self) w :=
      wp_loadState (fun _ _ _ h => h) hw
    rw [hsteps] at hcs ⊢
    simp only [he] at hcs ⊢
    have hunlocked := (wp_run (I := fun _ => True) (fun _ _ _ _ _ => trivial) (fun _ _ _ _ => trivial)
      hread (fun s hs => hcs s (List.mem_append_left _ hs)) trivial).2 _ he
    intro s hs
    rcases List.mem_append.mp hs with hs' | hs'
    · exact wp_steps hread (fun s hs => hcs s (List.mem_append_left _ hs)) s hs'
    · exact wp_steps (wp_bootGuard_unread (fun _ _ _ h => h) hunlocked e)
        (fun s hs => hcs s (List.mem_append_right _ hs)) s hs'
  · let ok : Op → Choice Exn World → World → Prop := fun o c v =>
      OthersRun c v ∧ (o = .flock true → ¬PendingThisBoot (core (c.entry v)))
    have hok : ∀ o c v, ok o c v → OthersRun c v := fun _ _ _ h => h.1
    have hguard : bootGuard.wp host ok Spares (fun _ _ => True) w := by
      refine wp_handle.mpr (wp_mono (wp_loadState hok hw) fun r v hv => ?_)
      cases r with
      | ok state => exact wp_bootGuard_read hok (fun c v h => h.2 rfl) hv
      | error e => exact wp_bootGuard_unread hok hv e
    exact wp_steps hguard fun s hs => ⟨hcs s hs, hlock s hs⟩

/-! ## A trial that another process starts meanwhile -/

/-- Another operator ends the trial of an earlier boot and starts a new one, while the
lock is free. -/
def restarted : Choice Exn World :=
  ⟨fun w => if w.holder = .self then w else after (.on tenMinutes) 100 (after .off 100 w), .none⟩

/-- The guard waits for the lock while the trial is replaced. -/
def raced : List (Choice Exn World) := calls 9 ++ restarted :: calls 60

theorem othersRun_calm (w : World) : OthersRun .calm w := ⟨rfl, fun _ => rfl, fun h => h⟩

theorem othersRun_raced {c : Choice Exn World} (hc : c ∈ raced) (w : World) : OthersRun c w := by
  simp only [raced, List.mem_append, List.mem_cons] at hc
  rcases hc with hc | rfl | hc
  · rw [List.eq_of_mem_replicate hc]
    exact othersRun_calm w
  · refine ⟨rfl, fun h => if_pos h, fun h => ?_⟩
    simp only [restarted, if_neg h, after]
    rintro ⟨⟩
  · rw [List.eq_of_mem_replicate hc]
    exact othersRun_calm w

/-- The guard, alone with a trial of this boot. -/
theorem bootGuard_leaves_trial_tried :
    OfThisBoot (core tried) ∧ ∀ s ∈ bootGuard.steps host (calls 60) tried,
      OfThisBoot (core (s.choice.entry s.world)) →
        core (host.act s.choice s.op s.world).2 = core (s.choice.entry s.world) :=
  ⟨by decide +kernel, bootGuard_leaves_trial (by decide +kernel)
    (fun s hs => by
      rw [List.eq_of_mem_replicate (choice_mem_of_mem_steps host hs)]
      exact othersRun_calm _)
    (.inr (by decide +kernel))⟩

/-- The guard reverts a trial of this boot that was started while it waited. -/
theorem not_bootGuard_leaves_trial : ¬∀ cs w, w.holder ≠ .self →
    (∀ s ∈ bootGuard.steps host cs w, OthersRun s.choice s.world) →
    ∀ s ∈ bootGuard.steps host cs w, OfThisBoot (core (s.choice.entry s.world)) →
      core (host.act s.choice s.op s.world).2 = core (s.choice.entry s.world) := by
  intro h
  have hspared := h raced (reboot ['2'] tried) (by decide +kernel)
    fun s hs => othersRun_raced (choice_mem_of_mem_steps host hs) _
  have hreverted : (bootGuard.steps host raced (reboot ['2'] tried)).any (fun s =>
      decide (OfThisBoot (core (s.choice.entry s.world))) &&
        (core (s.choice.entry s.world)).state.isSome &&
        (core (host.act s.choice s.op s.world).2).state.isNone) = true := by
    decide +kernel
  obtain ⟨s, hs, hrevert⟩ := List.any_eq_true.mp hreverted
  simp only [Bool.and_eq_true, decide_eq_true_eq] at hrevert
  obtain ⟨⟨htrial, hbefore⟩, hafter⟩ := hrevert
  rw [hspared s hs htrial, Option.isNone_iff_eq_none] at hafter
  rw [hafter] at hbefore
  cases hbefore

end Deny
