import BazziteTower.Deny.Exact
import BazziteTower.Deny.Writes

/-!
# The backup holds a configuration with DefaultAction `allow`

An operator may replace the live configuration at any time.  `on` judges one read
of it and makes the backup from another; if that one is still `allow`, so is the
backup, in every state that any runs reach, and a restoration that returns has
restored `allow`.

## Main definitions

* `Edited` — operators replaced the live configuration.
* `CapturesAllow` — the second read of `on` still finds `allow`.
* `Settled` — no other action arrives between the replacement and the return.

## Main results

* `backupAllow_of_edits` — the backup, in every reachable state.
* `liveAllow_of_restoreAllow` — the restoration.
-/

open Prog hiding perform

namespace Deny

/-! ## Operator edits -/

/-- Operators replaced the live configuration any number of times. -/
def Edited : World → World → Prop := Relation.ReflTransGen fun v v' => ∃ n, v' = v.edit n

theorem Edited.frame {w w' : World} (h : Edited w w') :
    (∀ p, p ≠ .config → w'.files p = w.files p) ∧ w'.temps = w.temps := by
  induction h with
  | refl => exact ⟨fun _ _ => rfl, rfl⟩
  | tail _ hstep ih =>
    obtain ⟨n, rfl⟩ := hstep
    exact ⟨fun p hp => (Function.update_of_ne hp ..).trans (ih.1 p hp), ih.2⟩

theorem Edited.backup {w w' : World} (h : Edited w w') : (core w').backup = (core w).backup :=
  h.frame.1 .backup nofun

theorem BackupAllow.of_eq {c c' : Core} (h : BackupAllow c) (hc : c'.backup = c.backup) :
    BackupAllow c' := by
  unfold BackupAllow at *
  rwa [hc]

/-- Around every call only operators may act, and any failure may strike it. -/
def Interrupted (_ : Op) (c : Choice Exn World) (w : World) : Prop := Edited w (c.interfere w)

variable {ok : Op → Choice Exn World → World → Prop} {G : Core → Core → Prop} {w : World} {α : Type}

theorem keeps_backupAllow (hok : ∀ o c w, ok o c w → Interrupted o c w) : Keeps ok BackupAllow :=
  fun o c w hc h => h.of_eq (hok o c w hc).backup

theorem privateTemps_of_interrupted (hok : ∀ o c w, ok o c w → Interrupted o c w) :
    PrivateTemps ok :=
  fun o c w hc => (hok o c w hc).frame.2

/-! ## The calls that keep the backup -/

/-- The call does not put a file in the place of the backup. -/
def KeepsBackup (o : Op) : Prop := .backup ∉ o.writes ∨ o = .unlink (.file .backup)

/-- The guarantee of every command. -/
def Keeping (c c' : Core) : Prop := BackupAllow c → BackupAllow c'

theorem keepsBackup_of_silent (o : Op) (ho : Silent o) : KeepsBackup o :=
  .inl (not_mem_writes_of_silent rfl ho)

theorem keeping_act {o : Op} (ho : KeepsBackup o) (c : Choice Exn World) (w : World) :
    Keeping (core (c.interfere w)) (core (host.act c o w).2) := by
  intro h
  rcases ho with ho | rfl
  · exact h.of_eq (files_act ho c w)
  · have hunlink : BackupAllow (core ((Op.unlink (.file .backup)).perform (c.interfere w)).2) := by
      simp only [Op.perform]
      split
      · exact h
      · split
        · exact h
        · intro data hdata
          simp [Core.drop] at hdata
    unfold Host.act
    split
    · exact hunlink
    · exact h
    · exact hunlink

theorem meets_keepsBackup {p : Script α} (hp : p.uses KeepsBackup) :
    Meets ok Keeping p (fun _ _ => True) w :=
  wp_of_uses (P := fun _ => True) hp (fun _ c v ho _ _ => ⟨keeping_act ho c v, trivial⟩) trivial
    fun _ _ _ => trivial

/-- The commands, as they run under the policy lock. -/
def body : Command → Script Unit
  | .on minutes => turnOn minutes
  | .confirm => confirm
  | .off => turnOff false
  | .revert false => revertIfPending false
  | k => commandScript k

theorem keepsBackup_replace {p : HostPath} (hp : p ≠ .backup) (t : ℕ) : KeepsBackup (.replace t p) :=
  .inl (by simpa [Op.writes] using hp.symm)

theorem keepsBackup_unlink (p : HostPath) (hp : p ∈ [HostPath.marker, .state, .backup]) :
    KeepsBackup (.unlink (.file p)) := by
  simp only [List.mem_cons, List.not_mem_nil, or_false] at hp
  rcases hp with rfl | rfl | rfl <;> simp [KeepsBackup, Op.writes]

theorem keepsBackup_of_writes {o : Op} (h : o.writes = []) : KeepsBackup o := .inl (by simp [h])

theorem undoing_keepsBackup : Undoing fun _ (p : Script _) => p.uses KeepsBackup :=
  undoing_uses keepsBackup_of_silent (keepsBackup_replace nofun) keepsBackup_unlink
    (keepsBackup_of_writes rfl) (keepsBackup_of_writes rfl)

theorem uses_publish_keepsBackup {p : HostPath} (hp : p ≠ .backup)
    (hparent : tracked p.parent = false) (data : Bytes) (mode : ℤ) (metadata : Json)
    (expected : Option Bytes) : (publish p data mode metadata expected).uses KeepsBackup :=
  uses_publish keepsBackup_of_silent hparent (keepsBackup_replace hp) ..

/-- Every command but `on` keeps the backup. -/
theorem meets_body {k : Command} (hk : ∀ minutes, k ≠ .on minutes) :
    Meets ok Keeping (body k) (fun _ _ => True) w := by
  have hC := undoing_keepsBackup
  refine meets_keepsBackup ?_
  cases k with
  | status => exact hC.reads (uses_bind reads_buildReport fun _ => reads_pure ())
  | publishStatus => exact hC.reads reads_publishStatus
  | on minutes => exact absurd rfl (hk minutes)
  | confirm =>
    refine hC.confirm fun state id confirmedAt => ?_
    refine uses_bind (uses_publish_keepsBackup (p := .marker) nofun (by rfl) ..) fun _ => ?_
    refine uses_bind (uses_publish_keepsBackup (p := .state) nofun (by rfl) ..) fun _ => ?_
    exact uses_ensuring hC.stopTimer (hC.reads reads_publishSnapshot)
  | off => exact hC.turnOff false
  | revert boot =>
    cases boot with
    | true =>
      refine hC.bootGuard (fun _ _ => uses_perform.mpr (.inl (by simp [Op.writes]))) ?_
      exact uses_perform.mpr (.inl (by simp [Op.writes]))
    | false => exact hC.revertIfPending false

/-! ## The backup of `on` -/

/-- The bytes that `read_config` returns are live when it returns. -/
theorem meets_readConfig_live (hG : ∀ c, G c c) :
    Meets ok G readConfig (fun r c => ∀ x, r = .ok x → c.live = some x.1) w := by
  refine meets_bind (fun _ _ => True) (meets_reads (I := fun _ => True) (reads_metadataAt _) hG
    (fun _ _ _ _ h => h) trivial) (fun metadata v _ => ?_) fun _ _ _ => nofun
  refine meets_bind (fun r c => ∀ data, r = .ok data → c.live = some data) ?_
    (fun data u hu x hx => ?_) fun _ _ _ => nofun
  · refine meets_perform hG fun c hc => ?_
    exact ⟨fun _ => nofun, hG _, fun _ => nofun, fun data hdata => perform_read_ok hdata⟩
  · cases hx
    exact hu data rfl

theorem meets_capture_live (hG : ∀ c, G c c) :
    Meets ok G capture (fun r c => ∀ x, r = .ok x → c.live = some x.1) w :=
  meets_bind (fun _ _ => True) (meets_reads (I := fun _ => True) reads_preflight hG
    (fun _ _ _ _ h => h) trivial) (fun _ _ _ => meets_readConfig_live hG) fun _ _ _ => nofun

/-- A trial that captured an `allow` configuration keeps the backup on `allow`. -/
theorem meets_trial_keeping (hok : ∀ o c w, ok o c w → Interrupted o c w) {data : Bytes}
    (hdata : currentAction data = .ok .allow) (minutes : Minutes) (metadata : Json) (deny : Bytes)
    (state : Fields) :
    Meets ok Keeping (trial minutes data metadata deny state) (fun _ _ => True) w := by
  have hC := undoing_keepsBackup
  have hrollBack : ∀ invoked e v,
      Meets ok Keeping (rollBack state invoked e) (fun _ _ => True) v := fun invoked e v =>
    meets_keepsBackup (hC.rollBack state invoked e)
  have hrecord : Meets ok Keeping (record data state) (fun _ _ => True) w := by
    refine meets_bind (fun _ _ => True) (meets_keepsBackup (hC.reads reads_stateDir))
      (fun _ v _ => ?_) fun _ _ h => h
    have hsave : (saveState state).uses KeepsBackup :=
      uses_publish_keepsBackup (p := .state) nofun (by rfl) ..
    refine meets_bind (fun _ _ => True) ?_ (fun _ u _ => meets_keepsBackup hsave) fun _ _ h => h
    refine (meets_publish (I := fun _ => True) (J := fun _ => True) rfl (fun _ h => h)
      (fun _ _ _ _ h => h) (fun _ _ _ _ _ h => h) (privateTemps_of_interrupted hok) ?_
      trivial).mono fun _ _ _ => trivial
    intro c n _ hn
    refine ⟨fun _ bytes hbytes => ?_, trivial⟩
    obtain rfl : data = bytes := Option.some.inj (hn.data_eq.symm.trans hbytes)
    exact hdata
  refine meets_handle _ hrecord fun r v _ => ?_
  rcases r with e | a
  · exact hrollBack false e v
  · have harm : ∀ n t, (perform (.startTimer n t)).uses KeepsBackup := fun _ _ =>
      uses_perform.mpr (keepsBackup_of_writes rfl)
    refine meets_handle (fun _ _ => True) (meets_keepsBackup (hC.launch harm minutes data metadata
      deny state)) fun r u _ => ?_
    rcases r with e | b
    · exact hrollBack true e u
    · exact meets_keepsBackup (hC.reads reads_publishSnapshot)

/-- When `on` has made its second read of the configuration, DefaultAction is still
`allow`. -/
def CapturesAllow (cs : List (Choice Exn World)) (w : World) : Prop :=
  ∀ x, (capture.run host cs w).1 = some (.ok x) → LiveAllow (core (capture.run host cs w).2)

/-- The choices of a run only replace the live configuration, or strike calls. -/
def OnlyEdits (cs : List (Choice Exn World)) : Prop := ∀ c ∈ cs, ∀ w, Edited w (c.interfere w)

theorem OnlyEdits.interrupted {cs : List (Choice Exn World)} (hcs : OnlyEdits cs) {p : Script α} :
    ∀ s ∈ p.steps host cs w, Interrupted s.op s.choice s.world := fun s hs =>
  hcs s.choice (choice_mem_of_mem_steps host hs) s.world

/-- A run of a script that keeps the backup. -/
theorem backupAllow_run {p : Script α} (hp : Meets Interrupted Keeping p (fun _ _ => True) w)
    {cs : List (Choice Exn World)} (hcs : OnlyEdits cs) (hw : BackupAllow (core w)) :
    BackupAllow (core (p.run host cs w).2) :=
  (wp_run (I := fun v => BackupAllow (core v)) (keeps_backupAllow fun _ _ _ h => h)
    (fun _ _ h => h) hp hcs.interrupted hw).1

theorem backupAllow_turnOn {cs : List (Choice Exn World)} (hcs : OnlyEdits cs)
    (hcaptures : CapturesAllow cs w) (hw : BackupAllow (core w)) (minutes : Minutes) :
    BackupAllow (core ((turnOn minutes).run host cs w).2) := by
  refine run_bind_invariant host (I := fun v => BackupAllow (core v)) ?_ ?_
  · exact backupAllow_run (meets_keepsBackup (undoing_keepsBackup.reads reads_capture)) hcs hw
  · rintro ⟨data, metadata⟩ hx
    have hmeets : Meets Interrupted Keeping capture (fun r c => ∀ x, r = .ok x → c.live = some x.1) w :=
      meets_capture_live fun _ h => h
    have hcapture := wp_run (I := fun v => BackupAllow (core v))
      (keeps_backupAllow fun _ _ _ h => h) (fun _ _ h => h) hmeets hcs.interrupted hw
    have hlive := hcapture.2 _ hx _ rfl
    obtain ⟨bytes, hbytes, hallow⟩ := hcaptures _ hx
    obtain rfl : data = bytes := Option.some.inj (hlive.symm.trans hbytes)
    refine backupAllow_run ?_ (fun c hc => hcs c (List.mem_of_mem_drop hc)) hcapture.1
    have hread : ∀ {α : Type} {p : Script α} {v}, Reads p →
        Meets Interrupted Keeping p (fun _ _ => True) v :=
      fun hp => meets_keepsBackup (undoing_keepsBackup.reads hp)
    refine meets_bind (fun _ _ => True) (hread (reads_lift _)) (fun deny v _ => ?_) fun _ _ h => h
    refine meets_bind (fun _ _ => True) (hread (reads_perform (by rfl))) (fun now v _ => ?_)
      fun _ _ h => h
    refine meets_bind (fun _ _ => True) (hread (reads_perform (by rfl))) (fun id v _ => ?_)
      fun _ _ h => h
    refine meets_bind (fun _ _ => True) (hread reads_bootId) (fun boot v _ => ?_) fun _ _ h => h
    exact meets_trial_keeping (fun _ _ _ h => h) hallow minutes metadata deny _

/-! ## Sessions -/

/-- A run of a command among operator edits. -/
def Admitted (k : Command) (cs : List (Choice Exn World)) (w : World) : Prop :=
  OnlyEdits cs ∧ ((∃ minutes, k = .on minutes) → CapturesAllow cs w)

/-- Between two runs operators act, and nobody touches the backup. -/
def Meanwhile (w w' : World) : Prop := w'.files .backup = w.files .backup

/-- **The backup is `allow` in every state that runs among operator edits reach.** -/
theorem backupAllow_of_edits {w₀ w : World} (hstart : BackupAllow (core w₀))
    (hw : Session host body Admitted Meanwhile w₀ w) : BackupAllow (core w) := by
  refine hw.invariant (I := fun v => BackupAllow (core v)) (fun k cs v hadmitted hv => ?_)
    (fun v v' h hv => hv.of_eq h) hstart
  by_cases hk : ∃ minutes, k = .on minutes
  · obtain ⟨minutes, rfl⟩ := hk
    exact backupAllow_turnOn hadmitted.1 (hadmitted.2 ⟨minutes, rfl⟩) hv minutes
  · exact backupAllow_run (meets_body fun minutes h => hk ⟨minutes, h⟩) hadmitted.1 hv

/-! ## The restoration -/

/-- At the last calls of a publication, an operator does not replace `allow` by
another action. -/
def Settled (o : Op) (c : Choice Exn World) (w : World) : Prop :=
  Finishing o → LiveAllow (core w) → LiveAllow (core (c.interfere w))

section Restoration
variable (hG : ∀ c, G c c) (hput : ∀ c p n, G c (c.put p n))
  (hok : ∀ o c w, ok o c w → Interrupted o c w) (hsettled : ∀ o c w, ok o c w → Settled o c w)
include hG hput hok hsettled

theorem meets_publishAllow_edits {data : Bytes} (hallow : currentAction data = .ok .allow)
    (mode : ℤ) (metadata : Json) (expected : Option Bytes) (m : Method) :
    Meets ok G (do publish .config data mode metadata expected; return m)
      (fun r c => ∀ m, r = .ok m → LiveAllow c) w := by
  refine meets_bind _ (meets_publish (I := fun _ => True) (J := LiveAllow) rfl hG
    (fun _ _ _ _ h => h) (fun o c v ho hc => hsettled o c v hc ho) (privateTemps_of_interrupted hok)
    (fun c n _ hn => ⟨hput c _ n, data, hn.data_eq, hallow⟩) trivial) ?_ fun _ _ _ => nofun
  rintro _ v ⟨hlive, -⟩ _ -
  exact hlive rfl

theorem meets_flipKey_edits (data : Bytes) (metadata : Json) :
    Meets ok G (flipKey data metadata) (fun r c => ∀ m, r = .ok m → LiveAllow c) w := by
  refine meets_bind (fun r _ => r = setAction data .allow) rfl ?_ fun _ _ _ => nofun
  intro result v hresult
  exact meets_publishAllow_edits hG hput hok hsettled (currentAction_setAction hresult.symm) _ _ _ _

omit hput hsettled in
/-- What the backup holds is `allow`, if it is read at all. -/
theorem meets_readBackup_edits (hw : BackupAllow (core w)) :
    Meets ok G readBackup (fun r _ => ∀ data, r = .ok (some data) → currentAction data = .ok .allow)
      w := by
  have hkeeps := keeps_backupAllow hok
  refine meets_bind (fun _ => BackupAllow) (meets_reads (reads_present _) hG hkeeps hw)
    (fun there v hv => ?_) fun _ _ _ => nofun
  split
  · refine meets_recover (fun r _ => ∀ data, r = .ok (some data) → currentAction data = .ok .allow)
      ?_ (fun _ _ h => h) fun e u _ => ?_
    · refine meets_bind (fun r _ => ∀ data, r = .ok data → currentAction data = .ok .allow) ?_
        (fun data u hu _ h => ?_) fun _ _ _ => nofun
      · refine meets_bind (fun _ => BackupAllow) (meets_reads (reads_perform (by rfl)) hG hkeeps hv)
          (fun info u hu => ?_) fun _ _ _ => nofun
        refine meets_bind (fun _ => BackupAllow) hu (fun _ x hx => ?_) fun _ _ _ => nofun
        refine meets_perform hG fun c hc => ?_
        refine ⟨fun _ => nofun, hG _, fun _ => nofun, fun data hdata => ?_⟩
        exact hkeeps _ c x hc hx data (perform_read_ok hdata)
      · cases h
        exact hu data rfl
    · split <;> exact nofun
  · exact nofun

/-- **A restoration that returns has restored `allow`.** -/
theorem meets_restoreAllow_edits (hw : BackupAllow (core w)) (state : Option Fields) :
    Meets ok G (restoreAllow state) (fun r c => ∀ m, r = .ok m → LiveAllow c) w := by
  have hread := wp_and (meets_readConfig_live (w := w) hG)
    (meets_reads (I := BackupAllow) reads_readConfig hG (keeps_backupAllow hok) hw)
  refine meets_bind (fun r c => (∀ x, r = .ok x → c.live = some x.1) ∧ BackupAllow c) hread ?_
    fun _ _ _ => nofun
  rintro ⟨data, metadata⟩ v ⟨hlive, hbackup⟩
  refine meets_bind (fun r c => r = currentAction data ∧ c = core v) ⟨rfl, rfl⟩ ?_
    fun _ _ _ => nofun
  rintro action u ⟨haction, hu⟩
  split
  · rename_i hallow
    rintro _ -
    rw [hu]
    exact ⟨data, hlive _ rfl, by rw [← haction, hallow]⟩
  · cases state with
    | none => exact meets_flipKey_edits hG hput hok hsettled data metadata
    | some state =>
      refine meets_bind _ (meets_readBackup_edits hG hok (hu ▸ hbackup)) ?_ fun _ _ _ => nofun
      rintro (_ | backup) x hx
      · exact meets_flipKey_edits hG hput hok hsettled data metadata
      · simp only
        split
        · refine meets_bind (fun _ _ => True) trivial (fun recorded y _ => ?_) fun _ _ _ => nofun
          exact meets_publishAllow_edits hG hput hok hsettled (hx backup rfl) _ _ _ _
        · exact meets_flipKey_edits hG hput hok hsettled data metadata

end Restoration

/-- **In every state that runs among operator edits reach, the backup has DefaultAction
`allow`, and a restoration that returns leaves `allow` live**, if `on` finds `allow` at its
second read and no other action arrives at the last calls of the restoration. -/
theorem liveAllow_of_restoreAllow {w₀ w : World} (hstart : BackupAllow (core w₀))
    (hw : Session host body Admitted Meanwhile w₀ w) :
    BackupAllow (core w) ∧ ∀ (state : Option Fields) (cs : List (Choice Exn World)) (m : Method),
      OnlyEdits cs →
      (∀ s ∈ (restoreAllow state).steps host cs w, Settled s.op s.choice s.world) →
      ((restoreAllow state).run host cs w).1 = some (.ok m) →
      LiveAllow (core ((restoreAllow state).run host cs w).2) := by
  have hbackup := backupAllow_of_edits hstart hw
  refine ⟨hbackup, fun state cs m hcs hsettled hreturns => ?_⟩
  have hmeets : Meets (fun o c v => Interrupted o c v ∧ Settled o c v) (fun _ _ => True)
      (restoreAllow state) (fun r c => ∀ m, r = .ok m → LiveAllow c) w :=
    meets_restoreAllow_edits (fun _ => trivial) (fun _ _ _ => trivial) (fun _ _ _ h => h.1)
      (fun _ _ _ h => h.2) hbackup state
  exact (wp_run (I := fun _ => True) (fun _ _ _ _ h => h) (fun _ _ _ h => h) hmeets
    (fun s hs => ⟨hcs.interrupted s hs, hsettled s hs⟩) trivial).2 _ hreturns m rfl

/-! ## An operator and a trial -/

/-- The configuration of `installed` with DefaultAction `deny`. -/
def deniedConfig : Bytes := (setAction installedConfig .deny).toOption.getD []

def denied : Node := ⟨⟨.regular, 0, 0, 0o644⟩, [], some deniedConfig⟩

instance (o : Op) (c : Choice Exn World) (w : World) : Decidable (Settled o c w) :=
  inferInstanceAs (Decidable (Finishing o → LiveAllow (core w) → LiveAllow (core (c.interfere w))))

/-- The call goes through after an operator has denied. -/
def operatorDenies : Choice Exn World := ⟨fun w => w.edit denied, .none⟩

theorem onlyEdits_calls (n : ℕ) : OnlyEdits (calls n) := by
  intro c hc w
  rw [interfere_of_mem_calls hc]
  exact .refl

theorem onlyEdits_denies (m n : ℕ) : OnlyEdits (calls m ++ [operatorDenies] ++ calls n) := by
  intro c hc w
  simp only [List.mem_append, List.mem_singleton] at hc
  rcases hc with (hc | rfl) | hc
  · exact onlyEdits_calls m c hc w
  · exact .single ⟨denied, rfl⟩
  · exact onlyEdits_calls n c hc w

/-- The machine with a trial that saw an operator deny before its restart. -/
def contested : World :=
  ((body (.on tenMinutes)).run host (calls 43 ++ [operatorDenies] ++ calls 24) installed).2

theorem admitted_contested :
    Admitted (.on tenMinutes) (calls 43 ++ [operatorDenies] ++ calls 24) installed :=
  ⟨onlyEdits_denies 43 24, fun _ _ _ => by decide +kernel⟩

theorem session_contested : Session host body Admitted Meanwhile installed contested :=
  .run _ _ .start admitted_contested

/-- A restoration after an operator has denied in the middle of a trial. -/
theorem liveAllow_of_restoreAllow_contested : BackupAllow (core contested) ∧
    LiveAllow (core ((restoreAllow (recorded (core contested))).run host (calls 20) contested).2) := by
  have h := liveAllow_of_restoreAllow (by decide +kernel) session_contested
  exact ⟨h.1, h.2 _ _ .backup (onlyEdits_calls 20) (by decide +kernel) (by decide +kernel)⟩

/-- The machine after an operator denied between the two reads of `on`. -/
def captured : World :=
  ((body (.on tenMinutes)).run host (calls 9 ++ [operatorDenies] ++ calls 59) installed).2

theorem session_captured : Session host body (fun _ cs _ => OnlyEdits cs) Meanwhile installed
    captured :=
  .run _ _ .start (onlyEdits_denies 9 59)

/-- An operator denies between the two reads of `on`: the state and the backup agree on
a deny configuration, and the restoration puts it in place and returns. -/
theorem not_liveAllow_of_restoreAllow :
    Session host body (fun _ cs _ => OnlyEdits cs) Meanwhile installed captured ∧
      ¬BackupAllow (core captured) ∧
      ((restoreAllow (recorded (core captured))).run host (calls 20) captured).1 =
        some (.ok .backup) ∧
      ¬LiveAllow (core ((restoreAllow (recorded (core captured))).run host (calls 20) captured).2) :=
  ⟨session_captured, by decide +kernel, by decide +kernel, by decide +kernel⟩

end Deny
