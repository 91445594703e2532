import BazziteTower.Deny.Commands

/-!
# A trial does not survive a reboot unless it was confirmed

Whatever runs were made and wherever they were killed, the live configuration has
DefaultAction `allow`, or the state records a pending trial of this boot, or the
last thing that happened to the files is the confirmation of the last trial.  The
guard of the next boot therefore finds every trial that was not confirmed.

## Main definitions

* `Confirmed` — the ghost history ends with the confirmation of the last trial.
* `Recoverable` — the invariant of all runs of a boot.
* `Reboot` — the machine starts again, with another boot id.

## Main results

* `Change.recoverable` — every call keeps the invariant.
* `allow_or_confirmed` — what the boot guard leaves behind.
-/

open Prog hiding perform

namespace Deny

/-! ## The confirmation of the last trial -/

/-- An event that changes the state file. -/
def stateEvent : Event → Bool
  | .put .state _ | .drop .state => true
  | _ => false

/-- The bytes of the state file after these events. -/
def lastState : List Event → Option Bytes
  | [] => none
  | .put .state data :: _ => data
  | .drop .state :: _ => none
  | _ :: history => lastState history

theorem lastState_cons {e : Event} (he : stateEvent e = false) (history : List Event) :
    lastState (e :: history) = lastState history := by
  rcases e with ⟨p, data⟩ | p | _ <;> [cases p; cases p; skip] <;> first | rfl | simp [stateEvent] at he

/-- The bytes come from the last event that changed the state file. -/
theorem exists_of_lastState {history : List Event} {data : Bytes}
    (h : lastState history = some data) : ∃ later earlier,
      history = later ++ .put .state (some data) :: earlier ∧ ∀ e ∈ later, stateEvent e = false := by
  induction history with
  | nil => cases h
  | cons e history ih =>
    by_cases he : stateEvent e
    · refine ⟨[], history, ?_, by simp⟩
      rcases e with ⟨p, d⟩ | p | _
      · cases p <;> simp_all [stateEvent, lastState]
      · cases p <;> simp_all [stateEvent, lastState]
      · simp [stateEvent] at he
    · obtain ⟨later, earlier, rfl, hlater⟩ := ih (lastState_cons (by simpa using he) _ ▸ h)
      exact ⟨e :: later, earlier, rfl, by simpa using ⟨by simpa using he, hlater⟩⟩

/-- A state with this id, pending or confirmed, that `load_state` reads back. -/
def Saved (data : Bytes) (id : Text) (pending : Bool) : Prop :=
  ∃ state, stateOf data = .ok state ∧ Json.find "id".toList state = some (.str id) ∧
    Json.find "pending".toList state = some (.bool pending)

/-- The last trial that was started was confirmed: the marker was published and the
state was saved with the same id, and nothing happened to the files since. -/
def Confirmed (history : List Event) : Prop :=
  ∃ id confirmedAt saved started later earlier,
    history = .put .state (some saved) ::
      .put .marker (some (recordBytes (markerFields confirmedAt (.str id)))) ::
        (later ++ .put .state (some started) :: earlier) ∧
    Saved saved id false ∧ Saved started id true ∧ ∀ e ∈ later, stateEvent e = false

/-! ## The invariant -/

/-- The state file is the last state that a command saved, in this boot or without a
boot id. -/
structure LastSaved (c : Core) (state : Fields) (n : Node) : Prop where
  file : c.state = some n
  node : StateNode state n
  isRecord : IsRecord state
  bootId : ∃ b, Json.find "bootId".toList state = some (optionalText b) ∧ (b = none ∨ b = c.bootId)
  last : lastState c.history = some (recordBytes state)

/-- What the runs of a boot keep. -/
structure Recoverable (c : Core) : Prop where
  backup : BackupAllow c
  state : c.state = none ∨ ∃ state n, LastSaved c state n
  safe : LiveAllow c ∨ Pending c ∨ Confirmed c.history

theorem LastSaved.stateIn {c : Core} {state : Fields} {n : Node} (h : LastSaved c state n) :
    stateIn c.state = .ok (some (Json.sortMembers state)) :=
  stateIn_of_stateNode h.file h.isRecord h.node

/-- What does not touch the state file keeps it the last one saved. -/
theorem LastSaved.of_eq {c c' : Core} {state : Fields} {n : Node} (h : LastSaved c state n)
    (hfile : c'.state = c.state) (hboot : c'.bootId = c.bootId)
    (hlast : lastState c'.history = lastState c.history) : LastSaved c' state n where
  file := hfile.trans h.file
  node := h.node
  isRecord := h.isRecord
  bootId := hboot ▸ h.bootId
  last := hlast.trans h.last

theorem Recoverable.of_eq {c c' : Core} (h : Recoverable c) (hbackup : BackupAllow c')
    (hfile : c'.state = c.state) (hboot : c'.bootId = c.bootId)
    (hlast : lastState c'.history = lastState c.history)
    (hsafe : LiveAllow c' ∨ Pending c' ∨ Confirmed c'.history) : Recoverable c' where
  backup := hbackup
  state := by
    rcases h.state with hnone | ⟨state, n, hsaved⟩
    · exact .inl (hfile.trans hnone)
    · exact .inr ⟨state, n, hsaved.of_eq hfile hboot hlast⟩
  safe := hsafe

/-- **Every call of a trial keeps the invariant.** -/
theorem Move.recoverable {S : Core → Prop} {c c' : Core} (h : Move S c c') (hc : Recoverable c)
    (hbackup : BackupAllow c') : Recoverable c' := by
  cases h with
  | same => exact hc
  | arm => exact hc.of_eq hbackup rfl rfl rfl hc.safe
  | stop => exact hc.of_eq hbackup rfl rfl rfl hc.safe
  | restart => exact hc.of_eq hbackup rfl rfl rfl hc.safe
  | backup n live => exact hc.of_eq hbackup rfl rfl rfl (.inl live)
  | start state n live starts node =>
    refine ⟨hbackup, .inr ⟨state, n, rfl, node, starts.isRecord, starts.bootId, ?_⟩, .inl live⟩
    exact node.data_eq
  | deny n deny pending => exact hc.of_eq hbackup rfl rfl rfl (.inr (.inl pending))
  | allow n allow => exact hc.of_eq hbackup rfl rfl rfl (.inl allow)
  | drop p live record =>
    simp only [List.mem_cons, List.not_mem_nil, or_false] at record
    rcases record with rfl | rfl | rfl
    · exact hc.of_eq hbackup rfl rfl rfl (.inl live)
    · exact ⟨hbackup, .inl rfl, .inl live⟩
    · exact hc.of_eq hbackup rfl rfl rfl (.inl live)

theorem find_confirmedState {state : Fields} (confirmedAt : Text) {k : Text}
    (hpending : k ≠ "pending".toList) (hat : k ≠ "confirmedAt".toList) :
    Json.find k (confirmedState state confirmedAt) = Json.find k state := by
  rw [confirmedState, Json.find_insert_ne hat, Json.find_insert_ne hpending]

/-- A written state is saved under its id. -/
theorem saved_recordBytes {state : Fields} (h : IsRecord state) {id : Text} {pending : Bool}
    (hid : Json.find "id".toList state = some (.str id))
    (hpending : Json.find "pending".toList state = some (.bool pending)) :
    Saved (recordBytes state) id pending :=
  ⟨_, stateOf_recordBytes h, by rw [Json.find_sortMembers h.keys, hid]; rfl,
    by rw [Json.find_sortMembers h.keys, hpending]; rfl⟩

theorem find_bootId_sorted {state : Fields} (h : IsRecord state) {b : Option Text}
    (hb : Json.find "bootId".toList state = some (optionalText b)) :
    Json.find "bootId".toList (Json.sortMembers state) = some (optionalText b) := by
  rw [Json.find_sortMembers h.keys, hb]
  cases b <;> rfl

/-- The trial that is pending is the last one saved. -/
theorem Recoverable.lastSaved {c : Core} (hc : Recoverable c) {state : Fields}
    (hstate : recorded c = some state) :
    ∃ state₀ n, LastSaved c state₀ n ∧ state = Json.sortMembers state₀ := by
  rcases hc.state with hnone | ⟨state₀, n, hsaved⟩
  · rw [recorded, hnone] at hstate
    cases hstate
  · rw [recorded_of_stateIn hsaved.stateIn] at hstate
    exact ⟨state₀, n, hsaved, (Option.some.inj hstate).symm⟩

/-- Saving the state of the last trial as confirmed, right after the marker. -/
theorem LastSaved.confirmed {c : Core} {state₀ : Fields} {n₀ : Node} (h : LastSaved c state₀ n₀)
    {id : Json} (hid : Json.find "id".toList (Json.sortMembers state₀) = some id)
    (hpending : isPending (Json.sortMembers state₀)) {confirmedAt : Text} {before : List Event}
    (hmarked : c.history =
      .put .marker (some (recordBytes (markerFields confirmedAt id))) :: before) :
    Confirmed (.put .state (some (recordBytes (confirmedState (Json.sortMembers state₀) confirmedAt)))
      :: c.history) := by
  have hrecord := h.isRecord.sorted
  obtain ⟨s, hs⟩ := h.isRecord.id
  have hs' : Json.find "id".toList (Json.sortMembers state₀) = some (.str s) := by
    rw [Json.find_sortMembers h.isRecord.keys, hs]
    rfl
  obtain rfl : id = .str s := Option.some.inj (hid.symm.trans hs')
  obtain ⟨b, hb⟩ := h.isRecord.pending
  obtain rfl : b = true := by
    rw [isPending, Fields.get, Json.find_sortMembers h.isRecord.keys, hb] at hpending
    exact hpending
  obtain ⟨later, earlier, hhistory, hlater⟩ := exists_of_lastState h.last
  cases later with
  | nil => simp [hmarked] at hhistory
  | cons e later =>
    rw [hmarked, List.cons_append, List.cons.injEq] at hhistory
    refine ⟨s, confirmedAt, _, _, later, earlier, by rw [hmarked, hhistory.2], ?_, ?_,
      fun e' he' => hlater e' (by simp [he'])⟩
    · refine saved_recordBytes (hrecord.confirmed confirmedAt) ?_ ?_
      · rw [find_confirmedState confirmedAt (by decide) (by decide), hs']
      · rw [confirmedState, Json.find_insert_ne (by decide), Json.find_insert_self]
    · exact saved_recordBytes h.isRecord hs hb

/-- **Every call keeps the invariant.** -/
theorem Change.recoverable {c c' : Core} (h : Change c c') (hc : Recoverable c) :
    Recoverable c' := by
  have hbackup := h.backupAllow hc.backup
  cases h with
  | move h => exact h.recoverable hc hbackup
  | mark state confirmedAt id n loaded pending =>
    exact hc.of_eq hbackup rfl rfl rfl (.inr (.inl ⟨state, loaded, pending⟩))
  | keep state confirmedAt id n loaded pending find node marked =>
    obtain ⟨state₀, n₀, hsaved, rfl⟩ := hc.lastSaved loaded
    obtain ⟨before, hmarked⟩ := marked
    obtain ⟨b, hb, hboot⟩ := hsaved.bootId
    have hconfirmed := hsaved.confirmed find pending hmarked
    refine ⟨hbackup, .inr ⟨_, n, rfl, node, hsaved.isRecord.sorted.confirmed confirmedAt, ⟨b, ?_, hboot⟩,
      node.data_eq⟩, .inr (.inr ?_)⟩
    · rw [find_confirmedState confirmedAt (by decide) (by decide), find_bootId_sorted hsaved.isRecord hb]
    · rw [← node.data_eq] at hconfirmed
      exact hconfirmed

/-! ## Runs and reboots -/

/-- A run of a command other than the boot guard, while nobody else does anything. -/
def Undisturbed (k : Command) (cs : List (Choice Exn World)) (_ : World) : Prop :=
  k ≠ .revert true ∧ ∀ c ∈ cs, c.interfere = id

/-- Between two runs nobody touches the configuration or the records. -/
def Idle (w w' : World) : Prop :=
  ∃ timer loaded, core w' = { core w with timer := timer, loaded := loaded }

/-- The machine starts again with a new boot id: the timer is gone, and the
configuration and the records are there. -/
def Reboot (w w' : World) : Prop :=
  ∃ boot loaded, boot ≠ [] ∧ w.bootId ≠ some boot ∧
    core w' = { core w with timer := false, loaded := loaded, bootId := some boot }

/-- A machine on which no trial was started. -/
structure Fresh (w : World) : Prop where
  live : LiveAllow (core w)
  state : w.files .state = none
  backup : w.files .backup = none

theorem Fresh.recoverable {w : World} (h : Fresh w) : Recoverable (core w) where
  backup := by
    intro data hdata
    simp [core, h.backup] at hdata
  state := .inl h.state
  safe := .inl h.live

theorem recoverable_of_session {w₀ w : World} (hfresh : Fresh w₀)
    (hw : Session host main Undisturbed Idle w₀ w) : Recoverable (core w) := by
  refine hw.invariant (I := fun v => Recoverable (core v)) (fun k cs v hadmits hv => ?_) ?_
    hfresh.recoverable
  · have hq : Quiet Alone := quiet_of_alone fun _ _ _ h => h
    have hmeets : Meets Alone Change (main k) (fun _ _ => True) v :=
      meets_main_change hq hv.backup hadmits.1
    refine (wp_run (fun o c u hc hu => ?_) (fun _ _ h => h.recoverable) hmeets
      (fun s hs => hadmits.2 _ (choice_mem_of_mem_steps host hs)) hv).1
    rw [(hq o c u hc).1]
    exact hu
  · rintro v v' ⟨timer, loaded, h⟩ hv
    rw [h]
    exact hv.of_eq hv.backup rfl rfl rfl hv.safe

theorem ofBoot_eq_false {state : Fields} {boot : Text} {b : Option Text}
    (hb : Json.find "bootId".toList state = some (optionalText b)) (hne : b ≠ some boot) :
    ofBoot state (some boot) = false := by
  have hpy : (Fields.get state "bootId").pyEq (.str boot) = false := by
    rw [Fields.get, hb]
    cases b with
    | none => rfl
    | some b' => simpa [optionalText, Json.pyEq] using fun h => hne (by rw [h])
  simp [ofBoot, hpy]

/-- The guard reverts the trial that is pending after a reboot. -/
theorem shouldRevert_of_pending {c : Core} (hc : Recoverable c) {boot : Text}
    (hnew : c.bootId ≠ some boot) {state : Fields} (hstate : recorded c = some state)
    (hpending : isPending state) : shouldRevert (some state) (some boot) := by
  obtain ⟨state₀, n, hsaved, rfl⟩ := hc.lastSaved hstate
  obtain ⟨b, hb, hboot⟩ := hsaved.bootId
  have hne : b ≠ some boot := by
    rcases hboot with rfl | rfl
    · nofun
    · exact hnew
  simp [shouldRevert, Option.filter, hpending,
    ofBoot_eq_false (find_bootId_sorted hsaved.isRecord hb) hne]

theorem any_of_shouldRevert {state : Option Fields} {boot : Option Text}
    (h : shouldRevert state boot) : state.any isPending := by
  cases state with
  | none => cases h
  | some state =>
    by_contra hpending
    simp only [Option.any_some, Bool.not_eq_true] at hpending
    simp [shouldRevert, Option.filter, hpending] at h

/-- The state file loads. -/
theorem Recoverable.stateIn {c : Core} (hc : Recoverable c) :
    stateIn c.state = .ok (recorded c) := by
  rcases hc.state with hnone | ⟨state, n, hsaved⟩
  · rw [recorded, hnone]
    rfl
  · rw [hsaved.stateIn, recorded_of_stateIn hsaved.stateIn]

/-- **The guard of the next boot leaves `allow`, or a confirmed trial**, after any
runs, wherever they were killed. -/
theorem allow_or_confirmed {w₀ w w' : World} (hfresh : Fresh w₀)
    (hw : Session host main Undisturbed Idle w₀ w) (hreboot : Reboot w w')
    (hexit : ((main (.revert true)).exec host w').1 = .ok 0) :
    LiveAllow (core ((main (.revert true)).exec host w').2) ∨
      Confirmed (core ((main (.revert true)).exec host w').2).history := by
  have hrecoverable := recoverable_of_session hfresh hw
  obtain ⟨boot, loaded, -, hnew, hw'⟩ := hreboot
  have hboot : w'.bootId = some boot := congrArg Core.bootId hw'
  have hfile : stateIn (w'.files .state) = .ok (recorded (core w)) := by
    rw [show w'.files .state = (core w).state from congrArg Core.state hw']
    exact hrecoverable.stateIn
  rw [exec_main] at hexit ⊢
  replace hexit := exitStatus_eq_zero.mp hexit
  simp only [commandScript, exec_bootGuard hfile, hboot] at hexit ⊢
  split
  · rename_i hrevert
    rw [if_pos hrevert] at hexit
    have hpending : Pending (core w') := by
      rw [hw']
      exact pending_iff.mpr (any_of_shouldRevert hrevert)
    have hbackup : BackupAllow (core w') := by
      rw [hw']
      exact hrecoverable.backup
    have hmeets : Meets Calm (Move fun _ => True) (policyLock true (revertIfPending true))
        (fun r c => r = .ok () → LiveAllow c) w' := by
      refine meets_policyLock quiet_calm Move.same fun v hv => ?_
      exact (meets_revertIfPending_found quiet_calm clear_calm (fun _ _ => trivial) hv hbackup
        hpending true).mono fun r c h hr => (h hr).1
    have hresult := wp_exec hmeets fun _ _ => rfl
    exact .inl (hresult hexit)
  · rename_i hkeep
    simp only [hw']
    rcases hrecoverable.safe with h | ⟨state, hstate, hp⟩ | h
    · exact .inl h
    · rw [hstate] at hkeep
      exact absurd (shouldRevert_of_pending hrecoverable hnew hstate hp) hkeep
    · exact .inr h

/-! ## A machine that crashes -/

theorem undisturbed_calls {k : Command} (hk : k ≠ .revert true) (n : ℕ) (w : World) :
    Undisturbed k (calls n) w :=
  ⟨hk, fun _ => interfere_of_mem_calls⟩

/-- The machine with a trial, which crashes at its 60th call. -/
def crashed : World := ((main (.on tenMinutes)).run host (calls 60) installed).2

/-- A reboot of a machine. -/
def reboot (boot : Text) (w : World) : World :=
  { w with timer := false, loaded := none, bootId := some boot, holder := .nobody }

theorem fresh_installed : Fresh installed := ⟨by decide +kernel, rfl, rfl⟩

theorem session_crashed : Session host main Undisturbed Idle installed crashed :=
  .run _ _ .start (undisturbed_calls (k := .on tenMinutes) (by decide) 60 _)

theorem reboot_reboot {boot : Text} {w : World} (hboot : boot ≠ []) (hnew : w.bootId ≠ some boot) :
    Reboot w (reboot boot w) :=
  ⟨boot, none, hboot, hnew, rfl⟩

/-- After a crash in the middle of a trial, the guard of the next boot restores `allow`. -/
theorem allow_or_confirmed_crashed :
    LiveAllow (core ((main (.revert true)).exec host (reboot ['2'] crashed)).2) ∨
      Confirmed (core ((main (.revert true)).exec host (reboot ['2'] crashed)).2).history :=
  allow_or_confirmed fresh_installed session_crashed (reboot_reboot (by decide) (by decide +kernel))
    (by decide +kernel)

end Deny
