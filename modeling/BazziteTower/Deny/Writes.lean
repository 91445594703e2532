import BazziteTower.Deny.Reads

/-!
# Which files the commands can change

Apart from silent calls, a command only makes the few calls that its purpose
needs.  `Op.writes` names the files that a call may change; every other file stays
as it is, whatever strikes the call.

## Main definitions

* `Op.writes` — the named files that a call may change.
* `Undoing` — a class of scripts that the commands are built from.

## Main results

* `files_act` — a call leaves every other file alone.
* `Undoing.turnOff`, `Undoing.bootGuard` — the scripts of a closed class.
-/

open Prog hiding perform

/-- The named files that a call may change. -/
def Op.writes : Op → List HostPath
  | .mkdirs p _ | .chmod p _ | .replace _ p | .exchange _ p | .unlink (.file p) => [p]
  | .rename p q => [p, q]
  | .openLock => [.lock]
  | _ => []

namespace Deny

theorem files_modifyTemp (w : World) (t : ℕ) (f : Node → Node) :
    (w.modifyTemp t f).2.files = w.files := by
  unfold World.modifyTemp
  split <;> rfl

theorem files_perform {o : Op} {p : HostPath} (hp : p ∉ o.writes) (w : World) :
    (o.perform w).2.files p = w.files p := by
  cases o with
  | mkdirs q mode =>
    simp only [Op.writes, List.mem_singleton] at hp
    simp only [Op.perform]
    split
    · exact Function.update_of_ne hp ..
    · rfl
  | chmod q mode =>
    simp only [Op.writes, List.mem_singleton] at hp
    simp only [Op.perform]
    split
    · rfl
    · split
      · rfl
      · exact Function.update_of_ne hp ..
  | write t data => exact congrFun (files_modifyTemp ..) p
  | fchown t uid gid => exact congrFun (files_modifyTemp ..) p
  | fchmod t mode => exact congrFun (files_modifyTemp ..) p
  | setxattr t name value =>
    simp only [Op.perform]
    split
    · exact congrFun (files_modifyTemp ..) p
    · rfl
  | replace t q =>
    simp only [Op.writes, List.mem_singleton] at hp
    simp only [Op.perform]
    split
    · rfl
    · split
      · rfl
      · exact Function.update_of_ne hp ..
  | exchange t q =>
    simp only [Op.writes, List.mem_singleton] at hp
    simp only [Op.perform]
    split
    · exact Function.update_of_ne hp ..
    · rfl
  | unlink l =>
    cases l with
    | file q =>
      simp only [Op.writes, List.mem_singleton] at hp
      simp only [Op.perform]
      split
      · rfl
      · split
        · rfl
        · exact Function.update_of_ne hp ..
    | temp t =>
      simp only [Op.perform]
      split
      · rfl
      · split <;> rfl
  | rename q q' =>
    simp only [Op.writes, List.mem_cons, List.not_mem_nil, or_false, not_or] at hp
    simp only [Op.perform]
    split
    · rfl
    · exact (Function.update_of_ne hp.2 ..).trans (Function.update_of_ne hp.1 ..)
  | openLock =>
    simp only [Op.writes, List.mem_singleton] at hp
    simp only [Op.perform]
    split
    · exact Function.update_of_ne hp ..
    · rfl
  | flock wait => simp only [Op.perform]; split <;> rfl
  | startTimer minutes calendar => simp only [Op.perform]; split <;> rfl
  | _ => rfl

/-- **A call leaves every other file alone**, whether a failure strikes it or not. -/
theorem files_act {o : Op} {p : HostPath} (hp : p ∉ o.writes) (c : Choice Exn World) (w : World) :
    (host.act c o w).2.files p = (c.interfere w).files p := by
  unfold Host.act
  split
  · exact files_perform hp _
  · rfl
  · exact files_perform hp _

/-- A silent call changes no record and no configuration. -/
theorem not_mem_writes_of_silent {o : Op} {p : HostPath} (hp : tracked p) (ho : Silent o) :
    p ∉ o.writes := by
  cases o with
  | mkdirs q _ => simp only [Silent, Op.writes, List.mem_singleton] at *; rintro rfl; simp [hp] at ho
  | chmod q _ => simp only [Silent, Op.writes, List.mem_singleton] at *; rintro rfl; simp [hp] at ho
  | replace t q =>
    simp only [Silent, Op.writes, List.mem_singleton, decide_eq_true_eq] at *
    rintro rfl
    rw [ho] at hp
    cases hp
  | unlink l => cases l <;> simp [Silent, Op.writes] at *
  | openLock =>
    simp only [Op.writes, List.mem_singleton]
    rintro rfl
    cases hp
  | _ => simp [Silent, Op.writes] at *

/-! ## The calls of the scripts -/

section Uses
variable {A : Op → Prop} (hs : ∀ o, Silent o → A o) {α : Type}
include hs

theorem uses_reads {p : Script α} (hp : Reads p) : p.uses A := uses_mono hp hs

theorem uses_publish {p : HostPath} (hparent : tracked p.parent = false)
    (h : ∀ t, A (.replace t p)) (data : Bytes) (mode : ℤ) (metadata : Json)
    (expected : Option Bytes) : (publish p data mode metadata expected).uses A := by
  have hmkdirs : Silent (.mkdirs p.parent 0o755) := by simp [Silent, hparent]
  refine uses_bind (uses_perform.mpr (hs _ hmkdirs)) fun _ => ?_
  refine uses_bind (uses_perform.mpr (hs _ (by rfl))) fun t => ?_
  refine uses_ensuring ?_ (uses_reads hs (reads_removeTemporary t))
  refine uses_bind ?_ fun _ => uses_bind (uses_perform.mpr (hs _ (by rfl))) fun _ => ?_
  · refine uses_bind (uses_perform.mpr (hs _ (by rfl))) fun _ => ?_
    split
    · exact uses_reads hs (reads_applyMetadata t metadata)
    · exact uses_perform.mpr (hs _ (by rfl))
  · refine uses_bind ?_ fun _ => uses_bind (uses_perform.mpr (h t)) fun _ =>
      uses_perform.mpr (hs _ (by rfl))
    cases expected with
    | none => trivial
    | some bytes => exact uses_bind (uses_perform.mpr (hs _ (by rfl))) fun _ => trivial

theorem uses_discard
    (hrecords : ∀ p ∈ [HostPath.marker, .state, .backup], A (.unlink (.file p))) :
    discard.uses A :=
  uses_forM fun p hp => uses_bind (uses_reads hs (reads_present p)) fun there => by
    split
    · exact uses_perform.mpr (hrecords p hp)
    · trivial

end Uses

/-! ## Closed classes of scripts -/

/-- The failure handler of `on` belongs to a class that its parts belong to. -/
theorem rollBack_closed {C : ∀ ⦃α : Type⦄, Script α → Prop} (hC : Closed C) {state : Fields}
    (hrestore : C (restoreAllow (some state))) (hdiscard : C discard) (hstop : C stopTimer)
    (hrestart : C restartDaemon) (hsnapshot : C publishSnapshot) (invoked : Bool) (error : Exn) :
    C (rollBack state invoked error) := by
  have htolerate : ∀ due {step : Script Unit}, C step → C (tolerate due step) := by
    intro due step hstep
    unfold tolerate
    refine hC.ite ?_ (hC.done _)
    exact hC.recover (hC.bind hstep fun _ => hC.done _) fun e => hC.ite (hC.done _) (hC.done _)
  refine hC.bind (hC.recover ?_ fun _ => hC.done _) fun ⟨changed, notes⟩ => ?_
  · exact hC.bind hrestore fun _ => hC.bind hdiscard fun _ => hC.done _
  · refine hC.bind (htolerate _ hstop) fun _ => ?_
    refine hC.bind (htolerate _ hrestart) fun _ => ?_
    exact hC.bind hsnapshot fun _ => hC.done _

/-- A class of scripts that holds the reading ones and what a trial is undone with. -/
structure Undoing (C : ∀ ⦃α : Type⦄, Script α → Prop) : Prop extends Closed C where
  reads : ∀ {α : Type} {p : Script α}, Reads p → C p
  publishConfig : ∀ data mode metadata expected, C (publish .config data mode metadata expected)
  discard : C discard
  stopTimer : C stopTimer
  restartDaemon : C restartDaemon

namespace Undoing
variable {C : ∀ ⦃α : Type⦄, Script α → Prop} (hC : Undoing C)
include hC

theorem flipKey (data : Bytes) (metadata : Json) : C (flipKey data metadata) :=
  hC.bind (hC.done _) fun _ => hC.bind (hC.publishConfig ..) fun _ => hC.done _

theorem restoreAllow (state : Option Fields) : C (restoreAllow state) := by
  refine hC.bind (hC.reads reads_readConfig) fun ⟨data, metadata⟩ => hC.bind (hC.done _) fun _ => ?_
  split
  · exact hC.done _
  · cases state with
    | none => exact hC.flipKey data metadata
    | some state =>
      refine hC.bind (hC.reads reads_readBackup) fun backup => ?_
      cases backup with
      | none => exact hC.flipKey data metadata
      | some backup =>
        simp only
        exact hC.ite (hC.bind (hC.done _) fun _ => hC.bind (hC.publishConfig ..) fun _ => hC.done _)
          (hC.flipKey data metadata)

theorem turnOff (boot : Bool) : C (turnOff boot) := by
  have hrevert : ∀ state, C (revert state boot) := by
    intro state
    refine hC.bind (hC.restoreAllow state) fun method => hC.bind hC.discard fun _ => ?_
    refine hC.bind hC.stopTimer fun _ => hC.ite ?_ (hC.done _)
    exact hC.recover hC.restartDaemon fun e => hC.ite (hC.done _) (hC.done _)
  refine hC.bind (hC.reads reads_loadState) fun state => ?_
  refine hC.bind (hC.reads reads_readConfig) fun ⟨data, _⟩ => ?_
  refine hC.bind (hC.reads (reads_leftovers state)) fun left => hC.bind (hC.done _) fun idle => ?_
  refine hC.ite (hC.done _) (hC.ite (hrevert state) ?_)
  exact hC.ensuring (hrevert state) (hC.reads reads_publishSnapshot)

theorem revertIfPending (boot : Bool) : C (revertIfPending boot) := by
  refine hC.bind (hC.reads reads_pendingState) fun state => ?_
  cases state with
  | none => exact hC.done _
  | some state => exact hC.turnOff boot

theorem rollBack (state : Fields) (invoked : Bool) (error : Exn) :
    C (rollBack state invoked error) :=
  rollBack_closed hC.toClosed (hC.restoreAllow _) hC.discard hC.stopTimer hC.restartDaemon
    (hC.reads reads_publishSnapshot) invoked error

theorem policyLock {wait : Bool} {body : Script Unit} (hbody : C body) :
    C (policyLock wait body) :=
  hC.bind (hC.reads (reads_perform (by rfl))) fun _ =>
    hC.bind (hC.reads (reads_perform (by rfl))) fun _ =>
      hC.ensuring (hC.bind (hC.done _) fun _ =>
        hC.bind (hC.reads (reads_perform (by rfl))) fun _ => hbody)
        (hC.reads (reads_perform (by rfl)))

theorem bootGuard (hrename : ∀ stamp n, C (perform (.rename .state (.corrupt stamp n))))
    (hmarker : C (perform (.unlink (.file .marker)))) : C bootGuard := by
  have hquarantine : C quarantine := by
    refine hC.bind (hC.reads (reads_perform (by rfl))) fun there => ?_
    split
    · rw [uniqueAside, bind_eq, bind_eq, bind_assoc]
      refine hC.bind (hC.reads (reads_perform (by rfl))) fun now => ?_
      rw [bind_eq, bind_assoc]
      refine hC.bind (hC.reads (reads_perform (by rfl))) fun number => ?_
      rw [pure_eq, bind_ok]
      refine hC.bind (hrename _ _) fun _ => hC.bind (hC.reads (reads_perform (by rfl))) fun info => ?_
      exact hC.ite (hC.reads (reads_perform (by rfl))) (hC.done _)
    · exact hC.done _
  have htimer : C (try Deny.stopTimer catch error => if error.isRefusal then pure () else throw error :
      Script Unit) :=
    hC.recover hC.stopTimer fun e => hC.ite (hC.done _) (hC.done _)
  have hrecover : C recoverBadState := by
    refine hC.bind (hC.restoreAllow none) fun _ => hC.bind hquarantine fun _ => ?_
    refine hC.bind (hC.reads (reads_perform (by rfl))) fun there => ?_
    split
    · exact hC.bind hmarker fun _ => htimer
    · exact htimer
  have hearlier : C revertEarlier :=
    hC.bind (hC.reads reads_guardShouldRevert) fun due => hC.ite (hC.revertIfPending true) (hC.done _)
  have hrecheck : C recheck := hC.handle (hC.reads reads_loadState) fun
    | .ok _ => hearlier
    | .error e => hC.ite (hC.done _) (hC.ite hrecover (hC.done _))
  exact hC.handle (hC.reads reads_loadState) fun
    | .ok _ => hC.bind (hC.reads reads_guardShouldRevert) fun due =>
      hC.ite (hC.policyLock (hC.revertIfPending true)) (hC.done _)
    | .error e => hC.ite (hC.done _) (hC.ite (hC.policyLock hrecheck) (hC.done _))

theorem launch (harm : ∀ n t, C (perform (.startTimer n t))) (minutes : Minutes) (data : Bytes)
    (metadata : Json) (deny : Bytes) (state : Fields) :
    C (launch minutes data metadata deny state) :=
  hC.bind (harm _ _) fun _ => hC.bind (hC.publishConfig ..) fun _ =>
    hC.bind hC.restartDaemon fun _ => hC.bind (hC.reads reads_serviceActive) fun _ => hC.done _

/-- `confirm`, from the two publications on. -/
theorem confirm (hkeep : ∀ (state : Fields) (id : Json) (confirmedAt : Text), C (do
      publish .marker (recordBytes (markerFields confirmedAt id)) 0o644 .null none
      saveState (confirmedState state confirmedAt)
      Deny.stopTimer.ensuring publishSnapshot)) : C confirm := by
  refine hC.bind (hC.reads reads_loadState) fun state => ?_
  cases state with
  | none => exact hC.done _
  | some state =>
    refine hC.bind (hC.done _) fun _ => hC.bind (hC.reads (reads_perform (by rfl))) fun now => ?_
    refine hC.bind (hC.done _) fun expires => hC.ite ?_ ?_
    · exact hC.bind (hC.turnOff false) fun _ => hC.done _
    · refine hC.bind (hC.reads reads_readConfig) fun ⟨data, _⟩ => hC.bind (hC.done _) fun _ => ?_
      refine hC.bind (hC.done _) fun _ => hC.bind (hC.reads reads_serviceActive) fun _ => ?_
      refine hC.bind (hC.done _) fun _ => hC.bind (hC.reads (reads_perform (by rfl))) fun _ => ?_
      exact hC.bind (hC.done _) fun id => hkeep state id _

end Undoing

/-- The scripts whose calls are all silent or undo a trial. -/
theorem undoing_uses {A : Op → Prop} (hs : ∀ o, Silent o → A o)
    (hconfig : ∀ t, A (.replace t .config))
    (hrecords : ∀ p ∈ [HostPath.marker, .state, .backup], A (.unlink (.file p)))
    (hstop : A .stopTimer) (hrestart : A (.restart .opensnitch)) :
    Undoing fun _ (p : Script _) => p.uses A where
  toClosed := uses_closed
  reads := uses_reads hs
  publishConfig := uses_publish hs (by rfl) hconfig
  discard := uses_discard hs hrecords
  stopTimer := uses_perform.mpr hstop
  restartDaemon := uses_perform.mpr hrestart

end Deny
