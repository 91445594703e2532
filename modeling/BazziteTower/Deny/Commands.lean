import BazziteTower.Deny.Move

/-!
# The commands under the policy lock

`confirm` publishes the marker and then saves the state of the same trial as
confirmed.  The lock and the exit status leave the core alone, so what the
commands guarantee holds of their invocations.

## Main definitions

* `Change` — one call of a command other than the boot guard.

## Main results

* `meets_confirm`, `meets_policyLock`, `meets_main`.
-/

open Prog hiding perform

namespace Deny

/-- One call of `on`, `confirm`, `off` or `revert-if-pending`. -/
inductive Change : Core → Core → Prop
  | move {c c' : Core} (h : Move (fun _ => True) c c') : Change c c'
  | mark {c : Core} (state : Fields) (confirmedAt : Text) (id : Json) (n : Node)
      (loaded : recorded c = some state) (pending : isPending state)
      (find : Json.find "id".toList state = some id)
      (data : n.data = some (recordBytes (markerFields confirmedAt id))) :
      Change c (c.put .marker n)
  | keep {c : Core} (state : Fields) (confirmedAt : Text) (id : Json) (n : Node)
      (loaded : recorded c = some state) (pending : isPending state)
      (find : Json.find "id".toList state = some id)
      (node : StateNode (confirmedState state confirmedAt) n)
      (marked : ∃ before, c.history =
        .put .marker (some (recordBytes (markerFields confirmedAt id))) :: before) :
      Change c (c.put .state n)

theorem Change.same (c : Core) : Change c c := .move (.same c)

theorem Change.backupAllow {c c' : Core} (h : Change c c') (hc : BackupAllow c) :
    BackupAllow c' := by
  cases h with
  | move h =>
    cases h with
    | backup n live allow =>
      intro data hdata
      obtain ⟨bytes, hbytes, hallow⟩ := allow
      obtain rfl : bytes = data := Option.some.inj (hbytes.symm.trans hdata)
      exact hallow
    | drop p live record =>
      simp only [List.mem_cons, List.not_mem_nil, or_false] at record
      rcases record with rfl | rfl | rfl
      · exact hc
      · exact hc
      · rintro _ ⟨⟩
    | _ => exact hc
  | mark => exact hc
  | keep => exact hc

variable {ok : Op → Choice Exn World → World → Prop} {G : Core → Core → Prop} {w : World}
  {α : Type}

theorem Meets.change {p : Script α} {Q : Except Exn α → Core → Prop}
    (hp : Meets ok (Move fun _ => True) p Q w) : Meets ok Change p Q w :=
  wp_weaken hp fun _ _ => .move

/-! ## `confirm` -/

/-- The two publications of `confirm`. -/
theorem meets_keep (hq : Quiet ok) {state : Fields} (hloaded : recorded (core w) = some state)
    (hpending : isPending state) {id : Json} (hid : Json.find "id".toList state = some id)
    (confirmedAt : Text) :
    Meets ok Change (do
      publish .marker (recordBytes (markerFields confirmedAt id)) 0o644 .null none
      saveState (confirmedState state confirmedAt)
      stopTimer.ensuring publishSnapshot) (fun _ _ => True) w := by
  refine meets_bind _ (meets_publish (I := (· = core w))
    (J := fun c => ∃ n, n.data = some (recordBytes (markerFields confirmedAt id)) ∧
      c = (core w).put .marker n) rfl Change.same (hq.keeps _) (hq.keeps _).last hq.privateTemps ?_ rfl)
    ?_ fun _ _ _ => trivial
  · rintro _ n rfl hn
    exact ⟨.mark state confirmedAt id n hloaded hpending hid hn.data_eq, n, hn.data_eq, rfl⟩
  rintro _ v ⟨hpost, -⟩
  obtain ⟨n, hn, hv⟩ := hpost rfl
  refine meets_bind (fun _ _ => True) ?_ (fun _ u _ => ?_) fun _ _ _ => trivial
  · refine (meets_publish (I := (· = core v)) (J := fun _ => True) rfl Change.same (hq.keeps _)
      (hq.keeps _).last hq.privateTemps ?_ rfl).mono fun _ _ _ => trivial
    rintro _ n' rfl hn'
    refine ⟨.keep state confirmedAt id n' ?_ hpending hid hn' ⟨(core w).history, ?_⟩, trivial⟩
    · rw [hv]
      exact hloaded
    · rw [hv, ← hn]
      rfl
  · refine meets_ensuring (fun _ _ => True) ?_ fun _ x _ => ?_
    · exact meets_stopTimer hq rfl Change.same (.move (.stop trivial)) (fun _ => trivial)
        fun _ => trivial
    · exact meets_reads (I := fun _ => True) reads_publishSnapshot Change.same (hq.keeps _) trivial

theorem meets_confirm (hq : Quiet ok) (hbackup : LiveAllow (core w) ∨ BackupAllow (core w)) :
    Meets ok Change confirm (fun _ _ => True) w := by
  refine (knows_loadState hq Change.same).meets rfl (fun _ => trivial) ?_
  rintro (_ | state) v hv hloaded
  · trivial
  have hloaded := hloaded state rfl
  refine knows_require.meets hv (fun _ => trivial) fun _ v hv hpending => ?_
  have hread : ∀ {α : Type} {p : Script α}, Reads p → Knows ok Change (core w) p fun _ => True :=
    fun hp => knows_reads hp hq Change.same
  refine (hread (reads_perform (by rfl))).meets hv (fun _ => trivial) fun now v hv _ => ?_
  refine (hread (reads_lift _)).meets hv (fun _ => trivial) fun expires v hv _ => ?_
  split
  · -- An expired trial is turned off, and the command refuses.
    refine meets_bind (fun _ _ => True) ?_ (fun _ _ _ => trivial) fun _ _ _ => trivial
    exact ((meets_turnOff hq (fun _ _ => trivial) hv hbackup false).mono fun _ _ _ => trivial).change
  · refine (hread reads_readConfig).meets hv (fun _ => trivial) ?_
    rintro ⟨data, metadata⟩ v hv -
    refine (hread (reads_lift _)).meets hv (fun _ => trivial) fun action v hv _ => ?_
    refine (hread (reads_require ..)).meets hv (fun _ => trivial) fun _ v hv _ => ?_
    refine (hread reads_serviceActive).meets hv (fun _ => trivial) fun active v hv _ => ?_
    refine (hread (reads_require ..)).meets hv (fun _ => trivial) fun _ v hv _ => ?_
    refine (hread (reads_perform (by rfl))).meets hv (fun _ => trivial) fun confirmed v hv _ => ?_
    refine (knows_lift (F := fun id => (Json.obj state).subscript "id" = .ok id)
      fun _ h => h).meets hv (fun _ => trivial) fun id v hv hid => ?_
    refine meets_keep hq (hv ▸ hloaded) hpending ?_ _
    simp only [Json.subscript] at hid
    split at hid
    · rename_i v' hfind
      rw [hfind, Except.ok.inj hid]
    · cases hid

/-! ## The lock and the exit status -/

/-- The lock leaves the core alone. -/
theorem meets_policyLock (hq : Quiet ok) (hG : ∀ c, G c c) {wait : Bool} {body : Script Unit}
    {Q : Core → Prop}
    (hbody : ∀ v, core v = core w → Meets ok G body (fun r c => r = .ok () → Q c) v) :
    Meets ok G (policyLock wait body) (fun r c => r = .ok () → Q c) w := by
  refine (knows_reads (reads_perform (by rfl)) hq hG).meets rfl (fun _ => nofun) fun _ v hv _ => ?_
  refine (knows_reads (reads_perform (by rfl)) hq hG).meets hv (fun _ => nofun) fun info v hv _ => ?_
  refine meets_ensuring (fun r c => r = .ok () → Q c) ?_ fun r u hu => ?_
  · refine (knows_reads (reads_require ..) hq hG).meets hv (fun _ => nofun) fun _ v hv _ => ?_
    refine (knows_reads (reads_perform (by rfl)) hq hG).meets hv (fun _ => nofun) fun _ v hv _ => ?_
    exact hbody v hv
  · refine (meets_reads (I := fun c => r = .ok () → Q c) (reads_perform (by rfl)) hG (hq.keeps _)
      hu).mono ?_
    rintro (_ | _) c hc
    · exact nofun
    · exact hc

theorem meets_main {k : Command} {Q : Core → Prop} (hk : Meets ok G (commandScript k)
    (fun r c => r = .ok () → Q c) w) : Meets ok G (main k) (fun r c => r = .ok 0 → Q c) w := by
  refine meets_recover (fun r c => r = .ok 0 → Q c) ?_ (fun _ _ h => h) fun e v _ => ?_
  · exact meets_bind _ hk (fun _ v hv _ => hv rfl) fun _ _ _ => nofun
  · split <;> exact nofun

/-- The exit status of a command, from what it raised. -/
def exitStatus : Except Exn Unit → Except Exn ℕ
  | .ok () => .ok 0
  | .error e => if isRefused e then .ok 1 else .error e

theorem exec_main (k : Command) : (main k).exec host w =
    (exitStatus ((commandScript k).exec host w).1, ((commandScript k).exec host w).2) := by
  rcases hk : (commandScript k).exec host w with ⟨e | _, u⟩
  · rw [main, tryCatch_eq, recover, exec_handle, bind_eq, exec_bind_error hk]
    simp only [exitStatus]
    split <;> rfl
  · rw [main, tryCatch_eq, recover, exec_handle, bind_eq, exec_bind_ok hk]
    rfl

/-- Exit status 0 is a command that returned. -/
theorem exitStatus_eq_zero {r : Except Exn Unit} : exitStatus r = .ok 0 ↔ r = .ok () := by
  rcases r with e | _
  · simp only [exitStatus]
    split <;> simp
  · simp [exitStatus]

/-- **Every call of a command other than the boot guard is a change.** -/
theorem meets_main_change (hq : Quiet ok) (hbackup : BackupAllow (core w)) {k : Command}
    (hk : k ≠ .revert true) : Meets ok Change (main k) (fun _ _ => True) w := by
  suffices h : Meets ok Change (commandScript k) (fun _ _ => True) w from
    (meets_main (Q := fun _ => True) (h.mono fun _ _ _ _ => trivial)).mono fun _ _ _ => trivial
  have hlock : ∀ {wait : Bool} {body : Script Unit},
      (∀ v, core v = core w → Meets ok Change body (fun _ _ => True) v) →
      Meets ok Change (policyLock wait body) (fun _ _ => True) w := fun hbody =>
    (meets_policyLock hq Change.same (Q := fun _ => True) fun v hv =>
      (hbody v hv).mono fun _ _ _ _ => trivial).mono fun _ _ _ => trivial
  cases k with
  | status =>
    exact meets_reads (I := fun _ => True) (uses_bind reads_buildReport fun _ => reads_pure ())
      Change.same (hq.keeps _) trivial
  | publishStatus =>
    exact meets_reads (I := fun _ => True) reads_publishStatus Change.same (hq.keeps _) trivial
  | on minutes => exact hlock fun v _ => (meets_turnOn hq (fun _ _ _ _ => trivial) minutes).change
  | confirm => exact hlock fun v hv => meets_confirm hq (.inr (hv ▸ hbackup))
  | off =>
    exact hlock fun v hv => ((meets_turnOff hq (fun _ _ => trivial) hv (.inr hbackup) false).mono
      fun _ _ _ => trivial).change
  | revert boot =>
    cases boot with
    | true => exact absurd rfl hk
    | false =>
      exact hlock fun v hv => ((meets_revertIfPending hq (fun _ _ => trivial) hv (.inr hbackup)
        false).mono fun _ _ _ => trivial).change

end Deny
