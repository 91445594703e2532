import BazziteTower.Deny.Exact

/-!
# The moves of a trial

What the commands do to the core, call by call, while nobody else changes it and
whatever strikes their calls.  A `Move` carries what its command has established
by then: the records are started over a live `allow`, a deny configuration is put
in place over a pending trial with an armed timer, and a record is dropped over a
live `allow`.

## Main definitions

* `Move` — one call of `on`, its rollback, `off` and `revert-if-pending`.

## Main results

* `meets_restoreAllow`, `meets_turnOff`, `meets_turnOn`.
-/

open Prog hiding perform

namespace Deny

/-- A file whose DefaultAction is `allow`. -/
def AllowNode (n : Node) : Prop := ∃ data, n.data = some data ∧ currentAction data = .ok .allow

/-- A file whose DefaultAction is `deny`. -/
def DenyNode (n : Node) : Prop := ∃ data, n.data = some data ∧ currentAction data = .ok .deny

/-- The state of a trial that `on` starts in this boot, or with no boot id. -/
structure Starts (boot : Option Text) (state : Fields) : Prop where
  isRecord : IsRecord state
  pending : Json.find "pending".toList state = some (.bool true)
  bootId : ∃ b, Json.find "bootId".toList state = some (optionalText b) ∧ (b = none ∨ b = boot)

/-- A state file that a command published. -/
abbrev StateNode (state : Fields) (n : Node) : Prop := Published (recordBytes state) 0o600 .null n

/-- One call of a trial.  The timer is stopped in `stoppable` states only. -/
inductive Move (stoppable : Core → Prop) : Core → Core → Prop
  | same (c : Core) : Move stoppable c c
  | backup {c : Core} (n : Node) (live : LiveAllow c) (allow : AllowNode n) :
      Move stoppable c (c.put .backup n)
  | start {c : Core} (state : Fields) (n : Node) (live : LiveAllow c)
      (starts : Starts c.bootId state) (node : StateNode state n) :
      Move stoppable c (c.put .state n)
  | arm (c : Core) : Move stoppable c { c with timer := true }
  | deny {c : Core} (n : Node) (deny : DenyNode n) (pending : Pending c) (armed : c.timer = true) :
      Move stoppable c (c.put .config n)
  | allow {c : Core} (n : Node) (allow : AllowNode n) : Move stoppable c (c.put .config n)
  | drop {c : Core} (p : HostPath) (live : LiveAllow c) (record : p ∈ [HostPath.marker, .state, .backup]) :
      Move stoppable c (c.drop p)
  | stop {c : Core} (h : stoppable c) : Move stoppable c { c with timer := false }
  | restart (c : Core) : Move stoppable c { c with loaded := c.live }

variable {ok : Op → Choice Exn World → World → Prop} {S : Core → Prop} {G : Core → Core → Prop}
  {w : World}

/-! ## Restoring -/

/-- The configuration was replaced by one with DefaultAction `allow`. -/
def Restored (c c' : Core) : Prop := ∃ n, AllowNode n ∧ c' = c.put .config n

theorem Restored.liveAllow {c c' : Core} (h : Restored c c') : LiveAllow c' := by
  obtain ⟨n, ⟨data, hdata, hallow⟩, rfl⟩ := h
  exact ⟨data, hdata, hallow⟩

/-- What a restoration leaves behind. -/
def RestoreResult (c : Core) (r : Except Exn Method) (c' : Core) : Prop :=
  (c' = c ∨ Restored c c') ∧
    ∀ m, r = .ok m → LiveAllow c' ∧ (m = .alreadyAllow → c' = c) ∧ (LiveAllow c → m = .alreadyAllow)

/-- Publishing an `allow` configuration. -/
theorem meets_publishAllow (hq : Quiet ok) {c : Core} (hw : core w = c) (hlive : ¬LiveAllow c)
    {data : Bytes} (hallow : currentAction data = .ok .allow) (mode : ℤ) (metadata : Json)
    (expected : Option Bytes) (m : Method) (hm : m ≠ .alreadyAllow) :
    Meets ok (Move S) (do publish .config data mode metadata expected; return m)
      (RestoreResult c) w := by
  refine meets_bind _ (meets_publish (I := (· = c)) (J := Restored c) rfl (Move.same)
    (hq.keeps _) (hq.keeps _).last hq.privateTemps ?_ hw) ?_ ?_
  · rintro _ n rfl hn
    exact ⟨.allow n ⟨data, hn.data_eq, hallow⟩, n, ⟨data, hn.data_eq, hallow⟩, rfl⟩
  · rintro _ v ⟨hpost, -⟩
    have hpost := hpost rfl
    refine ⟨.inr hpost, fun m' h => ?_⟩
    cases h
    exact ⟨hpost.liveAllow, fun h => absurd h hm, fun h => absurd h hlive⟩
  · rintro e c' ⟨-, hc'⟩
    exact ⟨hc', nofun⟩

theorem meets_flipKey (hq : Quiet ok) {c : Core} (hw : core w = c) (hlive : ¬LiveAllow c)
    (data : Bytes) (metadata : Json) : Meets ok (Move S) (flipKey data metadata) (RestoreResult c) w := by
  refine meets_bind (fun r c' => c' = c ∧ ∀ d, r = .ok d → currentAction d = .ok .allow)
    ⟨hw, fun d hd => currentAction_setAction hd⟩ ?_ ?_
  · rintro d v ⟨hv, hd⟩
    exact meets_publishAllow hq hv hlive (hd d rfl) _ _ _ _ nofun
  · rintro e c' ⟨rfl, -⟩
    exact ⟨.inl rfl, nofun⟩

theorem knows_readBackup {c : Core} (hq : Quiet ok) (hG : ∀ c, G c c) :
    Knows ok G c readBackup fun r => ∀ data, r = some data → c.backup.bind Node.data = some data := by
  refine knows_bind (knows_reads (reads_present _) hq hG) fun _ _ => knows_ite (fun _ => ?_)
    fun _ => knows_pure nofun
  refine knows_recover ?_ fun e => knows_ite (fun _ => knows_pure nofun) fun _ => knows_throw
  refine knows_bind (knows_privateBytes (p := .backup) rfl hq hG _) fun data hdata => ?_
  obtain ⟨n, hn, -, hn'⟩ := hdata
  refine knows_pure fun data' h => ?_
  cases h
  have hfile : c.backup = some n := hn
  simp [hfile, hn']

theorem meets_restoreBackup (hq : Quiet ok) {c : Core} (hw : core w = c) (hlive : ¬LiveAllow c)
    (hbackup : BackupAllow c) (state : Fields) (data : Bytes) (metadata : Json) :
    Meets ok (Move S) (restoreBackup state data metadata) (RestoreResult c) w := by
  refine meets_bind _ (knows_readBackup hq Move.same w hw) ?_ fun e c' h => ⟨.inl h.1, nofun⟩
  rintro (_ | backup) v ⟨hv, hread⟩
  · exact meets_flipKey hq hv hlive data metadata
  · simp only
    split
    · refine meets_bind (fun _ c' => c' = c) hv ?_ fun e c' h => ⟨.inl h, nofun⟩
      intro recorded u hu
      exact meets_publishAllow hq hu hlive (hbackup backup (hread _ rfl backup rfl)) _ _ _ _ nofun
    · exact meets_flipKey hq hv hlive data metadata

/-- **`restore_allow` restores `allow`**, if the backup has it. -/
theorem meets_restoreAllow (hq : Quiet ok) {c : Core} (hw : core w = c)
    (hbackup : LiveAllow c ∨ BackupAllow c) (state : Option Fields) :
    Meets ok (Move S) (restoreAllow state) (RestoreResult c) w := by
  refine meets_bind _ (knows_readConfig hq Move.same w hw) ?_ fun e c' h => ⟨.inl h.1, nofun⟩
  rintro ⟨data, metadata⟩ v ⟨hv, hread⟩
  obtain ⟨hlive, -⟩ := hread _ rfl
  refine meets_bind (fun r c' => c' = c ∧ r = currentAction data) ⟨hv, rfl⟩ ?_
    fun e c' h => ⟨.inl h.1, nofun⟩
  rintro action u ⟨hu, haction⟩
  by_cases hallow : action = .allow
  · subst hallow
    rw [if_pos rfl]
    refine ⟨.inl hu, fun m hm => ⟨?_, fun _ => hu, fun _ => (Except.ok.inj hm).symm⟩⟩
    rw [hu]
    exact ⟨data, hlive, haction.symm⟩
  · rw [if_neg hallow]
    have hnot : ¬LiveAllow c := by
      rintro ⟨data', hlive', hallow'⟩
      obtain rfl : data = data' := Option.some.inj (hlive.symm.trans hlive')
      rw [hallow'] at haction
      exact hallow (Except.ok.inj haction)
    cases state with
    | none => exact meets_flipKey hq hu hnot data metadata
    | some state =>
      exact meets_restoreBackup hq hu hnot (hbackup.resolve_left hnot) state data metadata

/-! ## Discarding -/

/-- Records were dropped, and nothing else changed. -/
def SameLive (c c' : Core) : Prop :=
  c'.config = c.config ∧ c'.loaded = c.loaded ∧ c'.timer = c.timer

theorem SameLive.liveAllow {c c' : Core} (h : SameLive c c') (hc : LiveAllow c) : LiveAllow c' := by
  unfold LiveAllow Core.live
  rw [h.1]
  exact hc

theorem SameLive.drop {c c' : Core} (h : SameLive c c') {p : HostPath}
    (hp : p ∈ [HostPath.marker, .state, .backup]) : SameLive c (c'.drop p) := by
  simp only [List.mem_cons, List.not_mem_nil, or_false] at hp
  rcases hp with rfl | rfl | rfl <;> exact h

/-- Unlinking a file of the core. -/
theorem meets_unlink (hq : Quiet ok) {c : Core} (hw : core w = c) {p : HostPath}
    (hG : ∀ c, G c c) (hdrop : G c (c.drop p)) {Q : Except Exn Unit → Core → Prop}
    (hsame : ∀ r, Q r c) (hdropped : ∀ r, Q r (c.drop p)) :
    Meets ok G (perform (.unlink (.file p))) Q w := by
  refine meets_perform hG fun ch hc => ?_
  have hv : core (ch.interfere w) = c := ((hq _ ch w hc).1).trans hw
  simp only [Op.perform]
  split
  · rw [hv]
    exact ⟨fun _ => hsame _, hG _, fun _ => hsame _, hsame _⟩
  · split
    · rw [hv]
      exact ⟨fun _ => hsame _, hG _, fun _ => hsame _, hsame _⟩
    · simp only [core_drop, hv]
      exact ⟨fun _ => hsame _, hdrop, fun _ => hdropped _, hdropped _⟩

theorem meets_discard (hq : Quiet ok) {c : Core} (hw : core w = c) (hlive : LiveAllow c) :
    Meets ok (Move S) discard (fun _ => SameLive c) w := by
  suffices h : ∀ (ps : List HostPath) v, ps ⊆ [HostPath.marker, .state, .backup] → SameLive c (core v) →
      Meets ok (Move S) (ps.forM fun p => do if ← present p then perform (.unlink (.file p)))
        (fun _ => SameLive c) v from
    h _ w (List.Subset.refl _) (hw ▸ ⟨rfl, rfl, rfl⟩)
  intro ps
  induction ps with
  | nil => exact fun v _ hv => hv
  | cons p ps ih =>
    intro v hsub hv
    have hp : p ∈ [HostPath.marker, .state, .backup] := hsub (List.mem_cons_self ..)
    refine meets_bind (fun _ => SameLive c) ?_ (fun _ u hu => ih u (fun q hq => hsub (by simp [hq])) hu)
      fun _ _ h => h
    refine meets_bind _ (knows_reads (reads_present p) hq Move.same v rfl) ?_
      fun e c' h => h.1 ▸ hv
    rintro there u ⟨hu, -⟩
    split
    · exact meets_unlink hq hu Move.same (.drop p (hv.liveAllow hlive) hp) (fun _ => hv)
        fun _ => hv.drop hp
    · rw [meets_pure, hu]
      exact hv

/-! ## `off` -/

/-- What `off` leaves behind when it returns. -/
def OffResult (c c' : Core) : Prop :=
  LiveAllow c' ∧ (¬LiveAllow c ∧ c'.loaded = c'.live ∨ LiveAllow c ∧ c'.loaded = c.loaded)

theorem meets_stopTimer (hq : Quiet ok) {c : Core} (hw : core w = c) (hG : ∀ c, G c c)
    (hstop : G c { c with timer := false }) {Q : Except Exn Unit → Core → Prop}
    (hsame : ∀ r, Q r c) (hstopped : ∀ r, Q r { c with timer := false }) :
    Meets ok G stopTimer Q w := by
  refine meets_perform hG fun ch hc => ?_
  have hv : core (ch.interfere w) = c := ((hq _ ch w hc).1).trans hw
  have hstep : core ((Op.stopTimer).perform (ch.interfere w)).2 = { c with timer := false } := by
    rw [← hv]
    rfl
  simp only [hstep, hv]
  exact ⟨fun _ => hsame _, hstop, fun _ => hstopped _, hstopped _⟩

theorem meets_restartDaemon (hq : Quiet ok) {c : Core} (hw : core w = c) (hG : ∀ c, G c c)
    (hrestart : G c { c with loaded := c.live }) {Q : Except Exn Unit → Core → Prop}
    (hsame : ∀ e, Q (.error e) c) (hloaded : ∀ r, Q r { c with loaded := c.live }) :
    Meets ok G restartDaemon Q w := by
  refine meets_perform hG fun ch hc => ?_
  have hv : core (ch.interfere w) = c := ((hq _ ch w hc).1).trans hw
  have hstep : core ((Op.restart .opensnitch).perform (ch.interfere w)).2 =
      { c with loaded := c.live } := by
    rw [← hv]
    rfl
  simp only [hstep, hv]
  exact ⟨fun _ => hsame _, hrestart, fun _ => hloaded _, hloaded _⟩

theorem meets_revert (hq : Quiet ok) (hS : ∀ c, LiveAllow c → S c) {c : Core} (hw : core w = c)
    (hbackup : LiveAllow c ∨ BackupAllow c) (state : Option Fields) (boot : Bool) :
    Meets ok (Move S) (revert state boot)
      (fun r c' => r = .ok () → LiveAllow c' ∧ (boot = false → OffResult c c')) w := by
  refine meets_bind _ (meets_restoreAllow hq hw hbackup state) ?_ fun e c' _ => nofun
  rintro method v ⟨hv, hmethod⟩
  obtain ⟨hlive, halready, hnot⟩ := hmethod method rfl
  have hloaded : (core v).loaded = c.loaded := by
    rcases hv with hv | ⟨n, -, hv⟩
    · rw [hv]
    · rw [hv]
      rfl
  refine meets_bind _ (meets_discard hq rfl hlive) ?_ fun e c' _ => nofun
  intro _ u hu
  refine meets_bind (fun _ => fun c' => c'.config = (core v).config ∧ c'.loaded = (core v).loaded)
    (meets_stopTimer hq rfl Move.same (.stop (hS _ (hu.liveAllow hlive)))
      (fun _ => ⟨hu.1, hu.2.1⟩) fun _ => ⟨hu.1, hu.2.1⟩) ?_ fun e c' _ => nofun
  rintro _ x ⟨hconfig, hload⟩
  have hlive' : LiveAllow (core x) := by
    unfold LiveAllow Core.live at hlive ⊢
    rwa [hconfig]
  split
  · rename_i hrestart
    simp only [Bool.and_eq_true, decide_eq_true_eq] at hrestart
    refine meets_recover (fun r c' => r = .ok () → LiveAllow c' ∧ (boot = false → OffResult c c'))
      (meets_restartDaemon hq rfl Move.same (.restart _) (fun _ => nofun) fun _ _ => ?_)
      (fun _ _ h => h) ?_
    · exact ⟨hlive', fun _ => ⟨hlive', .inl ⟨fun h => hrestart.2 (hnot h), rfl⟩⟩⟩
    · intro e y _
      split <;> exact nofun
  · rename_i hrestart
    refine fun _ => ⟨hlive', fun hboot => ⟨hlive', ?_⟩⟩
    have hm : method = .alreadyAllow := by
      by_contra hne
      exact hrestart (by simp [hboot, hne])
    right
    rw [hload, hloaded]
    exact ⟨halready hm ▸ hlive, rfl⟩

/-- **`off` restores `allow`**, and the daemon has it too unless it was live already. -/
theorem meets_turnOff (hq : Quiet ok) (hS : ∀ c, LiveAllow c → S c) {c : Core} (hw : core w = c)
    (hbackup : LiveAllow c ∨ BackupAllow c) (boot : Bool) :
    Meets ok (Move S) (turnOff boot)
      (fun r c' => r = .ok () → LiveAllow c' ∧ (boot = false → OffResult c c')) w := by
  refine meets_bind _ (knows_reads reads_loadState hq Move.same w hw) ?_ fun e c' _ => nofun
  rintro state v ⟨hv, -⟩
  refine meets_bind _ (knows_readConfig hq Move.same v hv) ?_ fun e c' _ => nofun
  rintro ⟨data, metadata⟩ u ⟨hu, hread⟩
  obtain ⟨hlive, -⟩ := hread _ rfl
  refine meets_bind _ (knows_reads (reads_leftovers state) hq Move.same u hu) ?_ fun e c' _ => nofun
  rintro left x ⟨hx, -⟩
  refine meets_bind (fun r c' => c' = c ∧ r = nothingToDo left data) ⟨hx, rfl⟩ ?_ fun e c' _ => nofun
  rintro idle y ⟨hy, hidle⟩
  have hrevert := meets_revert hq hS hy hbackup state boot
  split
  · rename_i hidle'
    subst hidle'
    have hallow : LiveAllow c := by
      unfold nothingToDo at hidle
      split at hidle
      · cases hidle
      · obtain ⟨action, haction, heq⟩ := Except.bind_eq_ok.mp hidle.symm
        refine ⟨data, hlive, ?_⟩
        simp only [pure, Except.pure, Except.ok.injEq, decide_eq_true_eq] at heq
        rw [haction, heq]
    rw [meets_pure, hy]
    exact fun _ => ⟨hallow, fun _ => ⟨hallow, .inr ⟨hallow, rfl⟩⟩⟩
  · split
    · exact hrevert
    · refine meets_ensuring _ hrevert fun r z hz => ?_
      refine (meets_reads (I := fun c' => r = .ok () → LiveAllow c' ∧ (boot = false → OffResult c c'))
        reads_publishSnapshot Move.same (hq.keeps _) hz).mono ?_
      rintro (e | a) c' hc'
      · exact nofun
      · exact hc'

theorem meets_revertIfPending (hq : Quiet ok) (hS : ∀ c, LiveAllow c → S c) {c : Core}
    (hw : core w = c) (hbackup : LiveAllow c ∨ BackupAllow c) (boot : Bool) :
    Meets ok (Move S) (revertIfPending boot)
      (fun r c' => r = .ok () → c' = c ∨ LiveAllow c' ∧ (boot = false → OffResult c c')) w := by
  refine meets_bind _ (knows_reads reads_pendingState hq Move.same w hw) ?_ fun e c' _ => nofun
  rintro (_ | state) v ⟨hv, -⟩
  · exact fun _ => .inl hv
  · exact (meets_turnOff hq hS hv hbackup boot).mono fun r c' h hr => .inr (h hr)

/-- If no failure strikes the inspection, a pending trial is found and turned off. -/
theorem meets_revertIfPending_found (hq : Quiet ok) (hclear : Clear ok (.lstat (.file .state)))
    (hS : ∀ c, LiveAllow c → S c) {c : Core} (hw : core w = c) (hbackup : BackupAllow c)
    (hpending : Pending c) (boot : Bool) :
    Meets ok (Move S) (revertIfPending boot)
      (fun r c' => r = .ok () → LiveAllow c' ∧ (boot = false → OffResult c c')) w := by
  have hfound : Knows ok (Move S) c pendingState fun r => r.isSome := by
    refine knows_bind (knows_loadState_clear hq hclear Move.same) ?_
    rintro _ rfl
    obtain ⟨state, hstate, hp⟩ := hpending
    exact knows_pure (by simp [hstate, Option.filter, hp])
  refine hfound.meets hw (fun _ => nofun) ?_
  rintro (_ | state) v hv hsome
  · cases hsome
  · exact meets_turnOff hq hS hv (.inr hbackup) boot

/-! ## `on` -/

/-- The timer stops in stoppable states only. -/
def StopsIn (S : Core → Prop) (ok : Op → Choice Exn World → World → Prop) : Prop :=
  ∀ c w, ok .stopTimer c w → c.fault.effective → S (core w)

/-- Stopping the timer where nothing is known but what the environment admits. -/
theorem meets_stopTimer_any (hq : Quiet ok) (hS : StopsIn S ok) :
    Meets ok (Move S) stopTimer (fun _ _ => True) w := by
  intro ch hc
  refine ⟨?_, trivial⟩
  have hv : core (ch.interfere w) = core w := (hq _ ch w hc).1
  have hstop : ch.fault.effective →
      Move S (core (ch.interfere w)) { core (ch.interfere w) with timer := false } :=
    fun hf => .stop (hv ▸ hS ch w hc hf)
  unfold Host.act
  cases hf : ch.fault with
  | none => exact hstop (by rw [hf]; rfl)
  | before e => exact .same _
  | after e => exact hstop (by rw [hf]; rfl)

theorem meets_tolerate {P : Core → Prop} {due : Bool} {step : Script Unit} (hw : P (core w))
    (hstep : ∀ v, P (core v) → Meets ok G step (fun _ => P) v) :
    Meets ok G (tolerate due step) (fun _ => P) w := by
  unfold tolerate
  split
  · refine meets_recover (fun _ => P) ?_ (fun _ _ h => h) fun e v hv => ?_
    · exact meets_bind (fun _ => P) (hstep w hw) (fun _ v hv => hv) fun _ _ h => h
    · split <;> exact hv
  · exact hw

theorem meets_rollBack (hq : Quiet ok) (hS : StopsIn S ok)
    (hw : LiveAllow (core w) ∨ BackupAllow (core w)) (state : Fields) (invoked : Bool) (error : Exn) :
    Meets ok (Move S) (rollBack state invoked error) (fun _ _ => True) w := by
  have hundo : Meets ok (Move S) (undo state) (fun _ _ => True) w := by
    refine meets_recover (fun _ _ => True) ?_ (fun _ _ _ => trivial) fun e v _ => trivial
    refine meets_bind _ (meets_restoreAllow hq rfl hw (some state)) ?_ fun _ _ _ => trivial
    rintro method v ⟨-, hmethod⟩
    refine meets_bind _ (meets_discard hq rfl (hmethod method rfl).1) (fun _ _ _ => trivial)
      fun _ _ _ => trivial
  refine meets_bind _ hundo ?_ fun _ _ _ => trivial
  rintro ⟨changed, notes⟩ v -
  refine meets_bind _ (meets_tolerate (P := fun _ => True) trivial fun u _ =>
    meets_stopTimer_any hq hS) ?_ fun _ _ _ => trivial
  rintro _ u -
  refine meets_bind _ (meets_tolerate (P := fun _ => True) trivial fun x _ =>
    meets_restartDaemon hq rfl Move.same (.restart _) (fun _ => trivial) fun _ => trivial) ?_
    fun _ _ _ => trivial
  rintro _ x -
  exact meets_bind _ (meets_reads (I := fun _ => True) reads_publishSnapshot Move.same
    (hq.keeps _) trivial) (fun _ _ _ => trivial) fun _ _ _ => trivial

/-- The records of a trial are in place, over a live `allow`. -/
structure Prepared (c : Core) : Prop where
  live : LiveAllow c
  backup : BackupAllow c
  pending : Pending c

/-- A published state loads, with its keys sorted. -/
theorem stateIn_of_stateNode {c : Core} {state : Fields} {n : Node} (hc : c.state = some n)
    (hrecord : IsRecord state) (hn : StateNode state n) :
    stateIn c.state = .ok (some (Json.sortMembers state)) := by
  obtain ⟨hdata, hkind, hfresh⟩ := hn
  obtain ⟨huid, hmode⟩ := hfresh rfl
  have hsafe : n.rootRegular 0o077 := by
    simp only [Stat.rootRegular, hkind, huid, hmode]
    decide
  rw [hc, stateIn_some_eq_ok]
  exact ⟨hsafe, _, _, hdata, stateOf_recordBytes hrecord, rfl⟩

theorem pending_of_stateNode {c : Core} {boot : Option Text} {state : Fields} {n : Node}
    (hc : c.state = some n) (hstate : Starts boot state) (hn : StateNode state n) : Pending c := by
  refine ⟨_, recorded_of_stateIn (stateIn_of_stateNode hc hstate.isRecord hn), ?_⟩
  rw [isPending, Fields.get, Json.find_sortMembers hstate.isRecord.keys, hstate.pending]
  rfl

theorem meets_record (hq : Quiet ok) {data : Bytes} {state : Fields}
    (hlive : LiveAllow (core w)) (hdata : currentAction data = .ok .allow)
    (hstate : Starts (core w).bootId state) :
    Meets ok (Move S) (record data state) (fun r c => LiveAllow c ∧ (r.isOk → Prepared c)) w := by
  refine meets_bind _ (knows_reads reads_stateDir hq Move.same w rfl) ?_
    fun e c h => ⟨h.1 ▸ hlive, nofun⟩
  rintro _ v ⟨hv, -⟩
  rw [← hv] at hlive hstate
  have hbackup : ∀ n, Published data 0o600 .null n → AllowNode n := fun n hn =>
    ⟨data, hn.data_eq, hdata⟩
  refine meets_bind _ (meets_publish (I := (· = core v))
    (J := fun c => ∃ n, AllowNode n ∧ c = (core v).put .backup n) rfl Move.same (hq.keeps _)
    (hq.keeps _).last hq.privateTemps ?_ rfl) ?_ ?_
  · rintro _ n rfl hn
    exact ⟨.backup n hlive (hbackup n hn), n, hbackup n hn, rfl⟩
  · rintro _ u ⟨hpost, -⟩
    obtain ⟨n, ⟨bytes, hbytes, hallow⟩, hu⟩ := hpost rfl
    have hlive' : LiveAllow (core u) := by rw [hu]; exact hlive
    have hbackup' : BackupAllow (core u) := by
      rw [hu]
      intro d hd
      obtain rfl : bytes = d := Option.some.inj (hbytes.symm.trans hd)
      exact hallow
    have hstate' : Starts (core u).bootId state := by rw [hu]; exact hstate
    refine (meets_publish (I := (· = core u))
      (J := fun c => Prepared c) rfl Move.same (hq.keeps _) (hq.keeps _).last hq.privateTemps ?_ rfl).mono ?_
    · rintro _ n' rfl hn'
      exact ⟨.start state n' hlive' hstate' hn', hlive', hbackup',
        pending_of_stateNode rfl hstate' hn'⟩
    · rintro r c ⟨hok, hc | hc⟩
      · exact ⟨hc ▸ hlive', hok⟩
      · exact ⟨hc.live, hok⟩
  · rintro e c ⟨-, hc | ⟨n, -, hc⟩⟩
    · exact ⟨hc ▸ hlive, nofun⟩
    · exact ⟨hc ▸ hlive, nofun⟩

theorem meets_startTimer (hq : Quiet ok) {c : Core} (hw : core w = c) (minutes : ℕ) (calendar : Text) :
    Meets ok (Move S) (perform (.startTimer minutes calendar))
      (fun r c' => (c' = c ∨ c' = { c with timer := true }) ∧ (r.isOk → c'.timer = true)) w := by
  refine meets_perform Move.same fun ch hc => ?_
  have hv : core (ch.interfere w) = c := ((hq _ ch w hc).1).trans hw
  have harm : core { ch.interfere w with timer := true } = { c with timer := true } := by
    rw [← hv]
    rfl
  simp only [Op.perform]
  split
  · rw [hv]
    exact ⟨fun _ => ⟨.inl rfl, by rintro ⟨⟩⟩, .same _, fun _ => ⟨.inl rfl, by rintro ⟨⟩⟩, .inl rfl,
      by rintro ⟨⟩⟩
  · rw [hv, harm]
    exact ⟨fun _ => ⟨.inl rfl, by rintro ⟨⟩⟩, .arm _, fun _ => ⟨.inr rfl, by rintro ⟨⟩⟩, .inr rfl,
      fun _ => rfl⟩

theorem meets_launch (hq : Quiet ok) (hw : Prepared (core w)) {deny : Bytes}
    (hdeny : currentAction deny = .ok .deny) (minutes : Minutes) (data : Bytes) (metadata : Json)
    (state : Fields) :
    Meets ok (Move S) (launch minutes data metadata deny state) (fun _ => BackupAllow) w := by
  refine meets_bind _ (meets_startTimer hq rfl _ _) ?_ ?_
  · rintro _ v ⟨hv, harmed⟩
    have harmed := harmed rfl
    have hv : Prepared (core v) ∧ (core v).timer = true := by
      refine ⟨?_, harmed⟩
      rcases hv with hv | hv
      · rwa [hv]
      · rw [hv]
        exact ⟨hw.live, hw.backup, hw.pending⟩
    refine meets_bind _ (meets_publish (I := fun c => Prepared c ∧ c.timer = true)
      (J := BackupAllow) rfl Move.same (hq.keeps _) (hq.keeps _).last hq.privateTemps ?_ hv) ?_ ?_
    · rintro c n ⟨hc, ht⟩ hn
      exact ⟨.deny n ⟨deny, hn.data_eq, hdeny⟩ hc.pending ht, hc.backup⟩
    · rintro _ u ⟨hu, -⟩
      refine meets_bind (fun _ => BackupAllow) (meets_restartDaemon hq rfl Move.same (.restart _)
        (fun _ => hu rfl) fun _ => hu rfl) (fun _ x hx => ?_) fun _ _ h => h
      refine meets_bind (fun _ => BackupAllow) (meets_reads reads_serviceActive Move.same
        (hq.keeps _) hx) (fun _ y hy => hy) fun _ _ h => h
    · rintro e c ⟨-, hc | hc⟩
      · exact hc.1.backup
      · exact hc
  · rintro e c ⟨hc | hc, -⟩
    · exact hc ▸ hw.backup
    · exact hc ▸ hw.backup

theorem meets_trial (hq : Quiet ok) (hS : StopsIn S ok) {data deny : Bytes} {state : Fields}
    (hlive : LiveAllow (core w)) (hdata : currentAction data = .ok .allow)
    (hdeny : currentAction deny = .ok .deny) (hstate : Starts (core w).bootId state)
    (minutes : Minutes) (metadata : Json) :
    Meets ok (Move S) (trial minutes data metadata deny state) (fun _ _ => True) w := by
  refine meets_handle _ (meets_record hq hlive hdata hstate) ?_
  rintro (e | a) v ⟨hv, hprepared⟩
  · exact meets_rollBack hq hS (.inl hv) state false e
  · refine meets_handle _ (meets_launch hq (hprepared rfl) hdeny minutes data metadata state) ?_
    rintro (e | b) u hu
    · exact meets_rollBack hq hS (.inr hu) state true e
    · exact meets_reads (I := fun _ => True) reads_publishSnapshot Move.same (hq.keeps _) trivial

theorem knows_bootId {c : Core} (hq : Quiet ok) (hG : ∀ c, G c c) :
    Knows ok G c bootId fun b => b = none ∨ b = c.bootId := by
  refine knows_recover (knows_perform rfl hq hG fun v b hv h => .inr ?_)
    fun e => knows_ite (fun _ => knows_pure (.inl rfl)) fun _ => knows_throw
  rw [← hv]
  exact (Except.ok.inj h).symm

theorem knows_capture {c : Core} (hq : Quiet ok) (hG : ∀ c, G c c) :
    Knows ok G c capture fun r => LiveAllow c ∧ ConfigRead c r :=
  knows_bind (knows_preflight hq hG) fun _ hlive =>
    (knows_readConfig hq hG).mono fun _ hr => ⟨hlive, hr⟩

/-- **Every call of `on` is a move**, its failure handler included. -/
theorem meets_turnOn (hq : Quiet ok) (hS : StopsIn S ok) (minutes : Minutes) :
    Meets ok (Move S) (turnOn minutes) (fun _ _ => True) w := by
  refine meets_bind _ (knows_capture hq Move.same w rfl) ?_ fun _ _ _ => trivial
  rintro ⟨data, metadata⟩ v ⟨hv, hread⟩
  obtain ⟨hlive, hdata, info, xattrs, rfl⟩ := hread _ rfl
  refine meets_bind (fun r c => c = core w ∧ ∀ deny, r = .ok deny → currentAction deny = .ok .deny)
    ⟨hv, fun _ h => currentAction_setAction h⟩ ?_ fun _ _ _ => trivial
  rintro deny u ⟨hu, hdeny⟩
  refine meets_bind _ (knows_reads (reads_perform (by rfl)) hq Move.same u hu) ?_
    fun _ _ _ => trivial
  rintro now x ⟨hx, -⟩
  refine meets_bind _ (knows_reads (reads_perform (by rfl)) hq Move.same x hx) ?_
    fun _ _ _ => trivial
  rintro id y ⟨hy, -⟩
  refine meets_bind _ (knows_bootId hq Move.same y hy) ?_ fun _ _ _ => trivial
  rintro boot z ⟨hz, hboot⟩
  have hallow : currentAction data = .ok .allow := by
    obtain ⟨data', hdata', hallow⟩ := hlive
    obtain rfl : data = data' := Option.some.inj (hdata.symm.trans hdata')
    exact hallow
  refine meets_trial hq hS (hz ▸ hlive) hallow (hdeny deny rfl) ?_ minutes _
  rw [hz]
  exact ⟨isRecord_trialState id now minutes data deny
    (plain_metadataOf (Json.recursionLimit - 3) info xattrs) boot, rfl, boot, rfl, hboot _ rfl⟩

end Deny
