import BazziteTower.Deny.Backup
import BazziteTower.Deny.Token

/-!
# What `on` publishes of what it examined

`on` reads the configuration for its checks, again for the baseline of the trial, and
once more right before it replaces the file.  If the first two reads find the same
bytes, every deny configuration that `on` puts in place is the examined one with the
value of DefaultAction replaced, whatever operators do and whatever strikes its calls.

## Main definitions

* `PutsOnly` — what was put in place of the configuration.
* `CapturesExamined` — the first two reads of `on` agree.
* `Bound` — every published deny configuration is an edit of the examined bytes.

## Main results

* `bound_of_turnOn` — the runs of `on`.
-/

open Prog hiding perform

namespace Deny

/-! ## What is put in place -/

/-- Since `before`, only this deny configuration and `allow` ones were put in place. -/
def PutsOnly (deny : Bytes) (before : List Event) (c : Core) : Prop :=
  ∃ new, c.history = new ++ before ∧
    ∀ data, Event.put .config (some data) ∈ new → data = deny ∨ currentAction data = .ok .allow

/-- The backup does not collide with the baseline. -/
def BackupOf (data : Bytes) (c : Core) : Prop :=
  ∀ backup, c.backup.bind Node.data = some backup → sha256 backup = sha256 data → backup = data

/-- What the changing part of `on` keeps. -/
structure Binds (data deny : Bytes) (before : List Event) (c : Core) : Prop where
  puts : PutsOnly deny before c
  backup : BackupOf data c

variable {ok : Op → Choice Exn World → World → Prop} {data deny : Bytes} {before : List Event}
  {c : Core} {w : World} {α : Type}

/-- Another event is recorded, and the backup stays. -/
theorem Binds.record (h : Binds data deny before c) {c' : Core} (event : Event)
    (hhistory : c'.history = event :: c.history) (hbackup : c'.backup = c.backup)
    (hevent : ∀ x, event = .put .config (some x) → x = deny ∨ currentAction x = .ok .allow) :
    Binds data deny before c' := by
  obtain ⟨new, hnew, hputs⟩ := h.puts
  refine ⟨⟨event :: new, by rw [hhistory, hnew]; rfl, fun x hx => ?_⟩, ?_⟩
  · rcases List.mem_cons.mp hx with hx | hx
    · exact hevent x hx.symm
    · exact hputs x hx
  · intro backup hb
    rw [hbackup] at hb
    exact h.backup backup hb

theorem Binds.putConfig (h : Binds data deny before c) {n : Node} {x : Bytes} (hx : n.data = some x)
    (hput : x = deny ∨ currentAction x = .ok .allow) : Binds data deny before (c.put .config n) :=
  h.record (.put .config n.data) rfl rfl fun y hy => by
    rw [hx] at hy
    cases hy
    exact hput

theorem Binds.putState (h : Binds data deny before c) (n : Node) :
    Binds data deny before (c.put .state n) :=
  h.record (.put .state n.data) rfl rfl nofun

theorem Binds.putBackup (h : Binds data deny before c) {n : Node} (hn : n.data = some data) :
    Binds data deny before (c.put .backup n) := by
  obtain ⟨new, hnew, hputs⟩ := h.puts
  refine ⟨⟨.put .backup n.data :: new, by simp [Core.put, hnew], ?_⟩, ?_⟩
  · intro x hx
    exact hputs x (by simpa using hx)
  · intro backup hbackup _
    exact Option.some.inj (hbackup.symm.trans hn)

theorem Binds.drop (h : Binds data deny before c) {p : HostPath}
    (hp : p ∈ [HostPath.marker, .state, .backup]) : Binds data deny before (c.drop p) := by
  simp only [List.mem_cons, List.not_mem_nil, or_false] at hp
  rcases hp with rfl | rfl | rfl
  · exact h.record (.drop .marker) rfl rfl (by rintro _ ⟨⟩)
  · exact h.record (.drop .state) rfl rfl (by rintro _ ⟨⟩)
  · obtain ⟨new, hnew, hputs⟩ := h.puts
    refine ⟨⟨.drop .backup :: new, by simp [Core.drop, hnew], ?_⟩, by rintro _ ⟨⟩⟩
    intro x hx
    exact hputs x (by simpa using hx)

theorem Binds.of_eq (h : Binds data deny before c) {c' : Core} (hhistory : c'.history = c.history)
    (hbackup : c'.backup = c.backup) : Binds data deny before c' := by
  refine ⟨?_, ?_⟩
  · unfold PutsOnly
    rw [hhistory]
    exact h.puts
  · unfold BackupOf
    rw [hbackup]
    exact h.backup

/-- Operators only add their edits. -/
theorem Binds.edited (h : Binds data deny before (core w)) {w' : World} (hw : Edited w w') :
    Binds data deny before (core w') := by
  induction hw with
  | refl => exact h
  | tail _ hstep ih =>
    obtain ⟨n, rfl⟩ := hstep
    exact ih.record (.edit _ n.data) rfl rfl nofun

/-! ## The changing part of `on` -/

section Keeping
variable (hok : ∀ o ch v, ok o ch v → Interrupted o ch v)

/-- The script keeps what the changing part of `on` keeps. -/
def Maintains (ok : Op → Choice Exn World → World → Prop) (data deny : Bytes) (before : List Event)
    (p : Script α) : Prop :=
  ∀ v, Binds data deny before (core v) →
    Meets ok (fun c c' => Binds data deny before c → Binds data deny before c') p
      (fun _ => Binds data deny before) v

theorem maintains_closed : Closed fun _ (p : Script _) => Maintains ok data deny before p where
  done _ _ hv := hv
  handle hp hf v hv := meets_handle _ (hp v hv) fun r u hu => hf r u hu

include hok

theorem keeps_binds : Keeps ok (Binds data deny before) := fun _ _ _ hc h => h.edited (hok _ _ _ hc)

theorem maintains_reads {p : Script α} (hp : Reads p) : Maintains ok data deny before p :=
  fun _ hv => meets_reads hp (fun _ h => h) (keeps_binds hok) hv

/-- A call whose effect keeps it. -/
theorem maintains_perform {o : Op} (ho : ∀ v, Binds data deny before (core v) →
    Binds data deny before (core (o.perform v).2)) : Maintains ok data deny before (perform o) :=
  fun _ hv => meets_perform (fun _ h => h) fun _ hc =>
    have hentry := hv.edited (hok _ _ _ hc)
    ⟨fun _ => hentry, ho _, fun _ => ho _ hentry, ho _ hentry⟩

theorem maintains_publish {p : HostPath} (hparent : tracked p.parent = false) {bytes : Bytes} {mode : ℤ}
    {metadata : Json} {expected : Option Bytes}
    (hput : ∀ c n, Binds data deny before c → n.data = some bytes → Binds data deny before (c.put p n)) :
    Maintains ok data deny before (publish p bytes mode metadata expected) := fun _ hv =>
  (meets_publish hparent (fun _ h => h) (keeps_binds hok) (keeps_binds hok).last
    (privateTemps_of_interrupted hok)
    (fun c n hc hn => ⟨fun h => hput c n h hn.data_eq, hput c n hc hn.data_eq⟩) hv).mono
    fun _ _ h => h.2.elim id id

theorem maintains_putConfig {bytes : Bytes} (hbytes : bytes = deny ∨ currentAction bytes = .ok .allow)
    {mode : ℤ} {metadata : Json} {expected : Option Bytes} :
    Maintains ok data deny before (publish .config bytes mode metadata expected) :=
  maintains_publish hok (by rfl) fun _ _ h hn => h.putConfig hn hbytes

theorem maintains_unlink {p : HostPath} (hp : p ∈ [HostPath.marker, .state, .backup]) :
    Maintains ok data deny before (perform (.unlink (.file p))) := by
  refine maintains_perform hok fun v hv => ?_
  simp only [Op.perform]
  split
  · exact hv
  · split
    · exact hv
    · simp only [core_drop]
      exact hv.drop hp

theorem maintains_discard : Maintains ok data deny before discard := by
  have hC := @maintains_closed ok data deny before
  have h : ∀ ps, ps ⊆ [HostPath.marker, .state, .backup] → Maintains ok data deny before
      (ps.forM fun p => do if ← present p then perform (.unlink (.file p)) : Script PUnit) := by
    intro ps
    induction ps with
    | nil => exact fun _ => hC.done _
    | cons p ps ih =>
      intro hsub
      refine hC.bind ?_ fun _ => ih fun q hq => hsub (List.mem_cons_of_mem _ hq)
      refine hC.bind (maintains_reads hok (reads_present p)) fun there => ?_
      split
      · exact maintains_unlink hok (hsub (List.mem_cons_self ..))
      · exact hC.done _
  exact h _ (List.Subset.refl _)

theorem maintains_flipKey (live : Bytes) (metadata : Json) :
    Maintains ok data deny before (flipKey live metadata) := by
  have hC := @maintains_closed ok data deny before
  unfold flipKey
  cases hset : setAction live .allow with
  | error e => exact hC.done _
  | ok result =>
    change Maintains ok data deny before (do
      publish .config result 0o600 metadata (some live)
      return Method.keyEdit)
    exact hC.bind (maintains_putConfig hok (.inr (currentAction_setAction hset))) fun _ => hC.done _

/-- A backup that is read does not collide with the baseline. -/
theorem meets_readBackup_binds (hw : Binds data deny before (core w)) :
    Meets ok (fun c c' => Binds data deny before c → Binds data deny before c') readBackup
      (fun r c => Binds data deny before c ∧ ∀ backup, r = .ok (some backup) →
        sha256 backup = sha256 data → backup = data) w := by
  have hkeeps := @keeps_binds ok data deny before hok
  refine meets_bind (fun _ => Binds data deny before) (maintains_reads hok (reads_present _) w hw)
    (fun there v hv => ?_) fun _ _ h => ⟨h, nofun⟩
  split
  · refine meets_recover (fun r c => Binds data deny before c ∧ ∀ backup, r = .ok (some backup) →
      sha256 backup = sha256 data → backup = data) ?_ (fun _ _ h => h) fun e u hu => ?_
    · refine meets_bind (fun r c => Binds data deny before c ∧ ∀ backup, r = .ok backup →
        sha256 backup = sha256 data → backup = data) ?_ (fun backup u hu => ⟨hu.1, fun _ h => ?_⟩)
        fun _ _ h => ⟨h.1, nofun⟩
      · refine meets_bind (fun _ => Binds data deny before)
          (maintains_reads hok (reads_perform (by rfl)) v hv) (fun info u hu => ?_)
          fun _ _ h => ⟨h, nofun⟩
        refine meets_bind (fun _ => Binds data deny before) hu (fun _ x hx => ?_)
          fun _ _ h => ⟨h, nofun⟩
        refine meets_read (I := Binds data deny before) (by rfl) (fun _ h => h) hkeeps hx
          (fun _ _ h => ⟨h, nofun⟩) fun y hy => ⟨hy, fun backup hbackup => ?_⟩
        exact hy.backup backup (perform_read_ok hbackup)
      · cases h
        exact hu.2 backup rfl
    · split
      · exact ⟨hu.1, nofun⟩
      · exact ⟨hu.1, nofun⟩
  · exact ⟨hv, nofun⟩

/-- The restoration in the failure handler publishes `allow` configurations only. -/
theorem maintains_restoreAllow (hdata : currentAction data = .ok .allow) {state : Fields}
    (hstate : state.get "backupSha256" = .str (sha256 data)) :
    Maintains ok data deny before (restoreAllow (some state)) := by
  have hC := @maintains_closed ok data deny before
  refine hC.bind (maintains_reads hok reads_readConfig) fun ⟨live, metadata⟩ => ?_
  refine hC.bind (hC.done _) fun action => hC.ite (hC.done _) fun v hv => ?_
  refine meets_bind _ (meets_readBackup_binds hok hv) ?_ fun _ _ h => h.1
  rintro (_ | backup) u ⟨hu, hbackup⟩
  · exact maintains_flipKey hok live metadata u hu
  · simp only
    split
    · rename_i hagrees
      simp only [agrees, hstate, Bool.and_eq_true, Json.pyEq_str, Json.str.injEq] at hagrees
      obtain rfl := hbackup backup rfl hagrees.1.symm
      exact hC.bind (hC.done _) (fun _ => hC.bind (maintains_putConfig hok (.inr hdata))
        fun _ => hC.done _) u hu
    · exact maintains_flipKey hok live metadata u hu

/-- **The changing part of `on`** puts the deny configuration of the trial in place, and
otherwise `allow` ones only. -/
theorem maintains_trial (hdata : currentAction data = .ok .allow) {state : Fields}
    (hstate : state.get "backupSha256" = .str (sha256 data)) (minutes : Minutes) (metadata : Json) :
    Maintains ok data deny before (trial minutes data metadata deny state) := by
  have hC := @maintains_closed ok data deny before
  have hcall : ∀ {o : Op}, (∀ v, (core (o.perform v).2).history = (core v).history ∧
      (core (o.perform v).2).backup = (core v).backup) → Maintains ok data deny before (perform o) :=
    fun ho => maintains_perform hok fun v hv => hv.of_eq (ho v).1 (ho v).2
  have hrollBack : ∀ invoked e, Maintains ok data deny before (rollBack state invoked e) :=
    rollBack_closed hC (maintains_restoreAllow hok hdata hstate) (maintains_discard hok)
      (hcall fun _ => ⟨rfl, rfl⟩) (hcall fun _ => ⟨rfl, rfl⟩) (maintains_reads hok reads_publishSnapshot)
  refine hC.handle ?_ fun
    | .error e => hrollBack false e
    | .ok _ => hC.handle ?_ fun
      | .error e => hrollBack true e
      | .ok _ => maintains_reads hok reads_publishSnapshot
  · refine hC.bind (maintains_reads hok reads_stateDir) fun _ => ?_
    exact hC.bind (maintains_publish hok (by rfl) fun _ _ h hn => h.putBackup hn) fun _ =>
      maintains_publish hok (by rfl) fun _ n h _ => h.putState n
  · refine hC.bind (hcall fun v => ?_) fun _ => ?_
    · simp only [Op.perform]
      split <;> exact ⟨rfl, rfl⟩
    · refine hC.bind (maintains_putConfig hok (.inl rfl)) fun _ => ?_
      refine hC.bind (hcall fun _ => ⟨rfl, rfl⟩) fun _ => ?_
      exact hC.bind (maintains_reads hok reads_serviceActive) fun _ => hC.done _

end Keeping

/-! ## The reads of `on` -/

/-- The bytes that the checks of `on` read: its run begins with that read. -/
def Examined (cs : List (Choice Exn World)) (w : World) (data : Bytes) : Prop :=
  ∃ metadata, (readConfig.run host cs w).1 = some (.ok (data, metadata))

/-- The second read of `on` finds the bytes that the first one found. -/
def CapturesExamined (cs : List (Choice Exn World)) (w : World) : Prop :=
  ∀ data x, Examined cs w data → (capture.run host cs w).1 = some (.ok x) → x.1 = data

/-- Checks that pass have read a configuration with the approved values. -/
theorem approved_of_preflight {cs : List (Choice Exn World)}
    (h : (preflight.run host cs w).1 = some (.ok ())) :
    ∃ data, Examined cs w data ∧ Approved data := by
  obtain ⟨⟨profile, action, blockers⟩, hinspect, h⟩ := run_bind_eq_ok host h
  -- The verdict is the conjunction of all blockers, those of the configuration first.
  have hnil : blockers = [] := by
    obtain ⟨state, -, h⟩ := run_bind_eq_ok host h
    obtain ⟨pending, -, h⟩ := run_bind_eq_ok host h
    obtain ⟨optIn, -, h⟩ := run_bind_eq_ok host h
    simp only [require, lift, run_done, Option.some.injEq, refuseUnless_eq_ok, List.isEmpty_iff,
      List.append_eq_nil_iff] at h
    exact h.1.1
  obtain ⟨⟨profile', action', blockers'⟩, hconfig, h⟩ := run_bind_eq_ok host hinspect
  have hnil' : blockers' = [] := by
    obtain ⟨active, -, h⟩ := run_bind_eq_ok host h
    obtain ⟨socket, -, h⟩ := run_bind_eq_ok host h
    simp only [pure_eq, run_done, Option.some.injEq, Except.ok.injEq, Prod.mk.injEq] at h
    rw [← h.2.2] at hnil
    simp only [List.append_eq_nil_iff] at hnil
    exact hnil.1.1
  subst hnil'
  rcases run_recover_eq_ok host hconfig with hread | ⟨e, cs', v, hcaught⟩
  · obtain ⟨⟨data, metadata⟩, hread, hjudge⟩ := run_bind_eq_ok host hread
    simp only [lift, run_done, Option.some.injEq] at hjudge
    exact ⟨data, ⟨metadata, hread⟩, approved_of_judge hjudge⟩
  · split at hcaught
    · simp at hcaught
    · simp at hcaught

/-- What the changing part of `on` needs of the run before it. -/
theorem binds_run {p : Script α} {cs : List (Choice Exn World)} (hcs : OnlyEdits cs)
    (hp : Maintains Interrupted data deny before p) (hw : Binds data deny before (core w)) :
    Binds data deny before (core (p.run host cs w).2) :=
  (wp_run (I := fun v => Binds data deny before (core v)) (keeps_binds fun _ _ _ h => h)
    (fun _ _ h => h) (hp w hw) hcs.interrupted hw).1

/-- **Every published deny configuration is an edit of the examined bytes.** -/
def Bound (cs : List (Choice Exn World)) (w w' : World) : Prop :=
  ∃ new, w'.history = new ++ w.history ∧
    ∀ bytes, Event.put .config (some bytes) ∈ new → currentAction bytes = .ok .deny →
      ∃ data, Examined cs w data ∧ Approved data ∧ ValueEdited data bytes .deny

/-- A script that puts nothing in place leaves everything bound. -/
theorem bound_of_puts {cs : List (Choice Exn World)} {w' : World}
    (h : ∀ deny, PutsOnly deny w.history (core w')) : Bound cs w w' := by
  obtain ⟨new, hnew, hputs⟩ := h []
  refine ⟨new, hnew, fun bytes hbytes hdeny => ?_⟩
  have hother : currentAction [] = .ok .other := by decide +kernel
  rcases hputs bytes hbytes with rfl | hallow
  · exact absurd (hother.symm.trans hdeny) nofun
  · exact absurd (hallow.symm.trans hdeny) nofun

/-- The changing part of `on` from an approved baseline leaves everything bound. -/
theorem bound_of_binds {cs : List (Choice Exn World)} {w' : World} (hexamined : Examined cs w data)
    (happroved : Approved data) (hdeny : setAction data .deny = .ok deny)
    (h : Binds data deny w.history (core w')) : Bound cs w w' := by
  obtain ⟨new, hnew, hputs⟩ := h.puts
  refine ⟨new, hnew, fun bytes hbytes hdenied => ?_⟩
  rcases hputs bytes hbytes with rfl | hallow
  · exact ⟨data, hexamined, happroved, valueEdited_of_setAction (.inr rfl) hdeny⟩
  · exact absurd (hallow.symm.trans hdenied) nofun

theorem binds_start (h : BackupOf data (core w)) : Binds data deny w.history (core w) :=
  ⟨⟨[], rfl, nofun⟩, h⟩

/-- `on` after its second read of an approved configuration. -/
theorem maintains_enable (hok : ∀ o ch v, ok o ch v → Interrupted o ch v)
    (hdata : currentAction data = .ok .allow) (hdeny : ∀ d, setAction data .deny = .ok d → d = deny)
    (minutes : Minutes) (metadata : Json) : Maintains ok data deny before (do
      let deny ← lift (setAction data .deny)
      let now ← perform .now
      let id ← perform .uuid
      let boot ← bootId
      trial minutes data metadata deny (trialState id now minutes data deny metadata boot)) := by
  have hC := @maintains_closed ok data deny before
  cases hset : setAction data .deny with
  | error e => exact hC.done (.error e)
  | ok d =>
    obtain rfl := hdeny d hset
    change Maintains ok data d before (do
      let now ← perform .now
      let id ← perform .uuid
      let boot ← bootId
      trial minutes data metadata d (trialState id now minutes data d metadata boot))
    refine hC.bind (maintains_reads hok (reads_perform (by rfl))) fun now => ?_
    refine hC.bind (maintains_reads hok (reads_perform (by rfl))) fun id => ?_
    refine hC.bind (maintains_reads hok reads_bootId) fun boot => ?_
    exact maintains_trial hok hdata rfl minutes metadata

/-- **What `on` publishes is bound to what it examined**, in every run among operator edits
whose second read finds the bytes of the first, whatever strikes its calls and wherever it
is killed. -/
theorem bound_of_turnOn {cs : List (Choice Exn World)} (hcs : OnlyEdits cs)
    (hcaptures : CapturesExamined cs w)
    (hfree : ∀ data, Examined cs w data → BackupOf data (core w)) (minutes : Minutes) :
    Bound cs w ((turnOn minutes).run host cs w).2 := by
  have hreads : ∀ data deny {α : Type} {p : Script α}, Reads p →
      Maintains Interrupted data deny w.history p := fun _ _ _ _ hp =>
    maintains_reads (fun _ _ _ h => h) hp
  refine run_bind_invariant host (I := Bound cs w) ?_ ?_
  · -- Up to the baseline nothing is put in place; the backup itself may stand for it.
    have hany : BackupOf (((core w).backup.bind Node.data).getD []) (core w) := by
      intro backup hbackup _
      rw [hbackup]
      rfl
    exact bound_of_puts fun deny =>
      (binds_run hcs (hreads _ _ reads_capture) (binds_start hany)).puts
  · rintro ⟨data, metadata⟩ hcaptured
    obtain ⟨_, hchecked, -⟩ := run_bind_eq_ok host hcaptured
    obtain ⟨examined, hexamined, happroved⟩ := approved_of_preflight hchecked
    obtain rfl : data = examined := hcaptures examined _ hexamined hcaptured
    have hrest : OnlyEdits (cs.drop (capture.steps host cs w).length) :=
      fun c hc => hcs c (List.mem_of_mem_drop hc)
    have henable := fun deny hdeny => binds_run hrest
      (@maintains_enable _ _ _ w.history (fun _ _ _ h => h) happroved.action hdeny minutes metadata)
      (binds_run hcs (hreads data deny reads_capture) (binds_start (hfree data hexamined)))
    cases hdeny : setAction data .deny with
    | error e => exact bound_of_puts fun deny => (henable deny (by rw [hdeny]; nofun)).puts
    | ok deny =>
      refine bound_of_binds hexamined happroved hdeny (henable deny fun d hd => ?_)
      exact Except.ok.inj (hd.symm.trans hdeny)

/-! ## An operator between the two reads -/

/-- The configuration of `installed` with another monitor method. -/
def audited : Node := ⟨⟨.regular, 0, 0, 0o644⟩, [], some <| ascii <|
  "\x7b\"Server\":\x7b\"Address\":\"unix:opensnitchd.sock\"\x7d," ++
    "\"DefaultAction\":\"allow\",\"ProcMonitorMethod\":\"audit-d\"\x7d"⟩

/-- The deny configuration that `on` makes of it. -/
def auditedDeny : Bytes := ((audited.data.bind fun data => (setAction data .deny).toOption)).getD []

/-- An operator replaces the configuration before the second read of `on`. -/
def auditedChoices : List (Choice Exn World) :=
  calls 9 ++ [⟨fun w => w.edit audited, .none⟩] ++ calls 59

theorem onlyEdits_audited : OnlyEdits auditedChoices := by
  intro c hc w
  simp only [auditedChoices, List.mem_append, List.mem_singleton] at hc
  rcases hc with (hc | rfl) | hc
  · exact onlyEdits_calls 9 c hc w
  · exact .single ⟨audited, rfl⟩
  · exact onlyEdits_calls 59 c hc w

/-- An edit to `deny` keeps the length, or shortens it by one. -/
theorem ValueEdited.length {result : Bytes} (h : ValueEdited data result .deny) :
    result.length = data.length ∨ result.length + 1 = data.length := by
  obtain ⟨before, spaces, spaces', old, rest, -, -, hold, rfl, rfl⟩ := h.token
  have hdeny : (ascii Action.deny.word).length = 4 := by decide
  have hallow : (ascii "allow").length = 5 := by decide
  rcases hold with rfl | rfl
  · right
    simp only [List.length_append, List.length_cons, hdeny, hallow]
    omega
  · exact .inl rfl

/-- An operator replaced the approved configuration after it was examined, and `on`
published a deny configuration made of bytes that it never examined. -/
theorem not_bound_audited : OnlyEdits auditedChoices ∧
    ¬ Bound auditedChoices installed ((turnOn tenMinutes).run host auditedChoices installed).2 := by
  refine ⟨onlyEdits_audited, ?_⟩
  have hpublished : Event.put .config (some auditedDeny) ∈
      ((turnOn tenMinutes).run host auditedChoices installed).2.history := by decide +kernel
  have hdenied : currentAction auditedDeny = .ok .deny := by decide +kernel
  have hread : (((readConfig.run host auditedChoices installed).1.bind
      fun r => r.toOption.map Prod.fst)) = some installedConfig := by decide +kernel
  rintro ⟨new, hnew, hbound⟩
  obtain rfl : _ = new := hnew.trans (List.append_nil new)
  obtain ⟨data, ⟨metadata, hexamined⟩, -, hedited⟩ := hbound _ hpublished hdenied
  rw [hexamined] at hread
  obtain rfl : data = installedConfig := Option.some.inj hread
  have hlength := hedited.length
  have hlengths : auditedDeny.length = installedConfig.length + 2 := by decide +kernel
  omega

/-- A run of `on` whose configuration is replaced only after its second read. -/
theorem bound_of_turnOn_contested : Bound (calls 43 ++ [operatorDenies] ++ calls 24) installed
    ((turnOn tenMinutes).run host (calls 43 ++ [operatorDenies] ++ calls 24) installed).2 := by
  have hnone : BackupOf installedConfig (core installed) := fun backup hbackup =>
    absurd (show (none : Option Bytes) = some backup from hbackup) nofun
  have hread : (((readConfig.run host (calls 43 ++ [operatorDenies] ++ calls 24) installed).1.bind
      fun r => r.toOption.map Prod.fst)) = some installedConfig := by decide +kernel
  have hcaptured : (((capture.run host (calls 43 ++ [operatorDenies] ++ calls 24) installed).1.bind
      fun r => r.toOption.map Prod.fst)) = some installedConfig := by decide +kernel
  have hbytes : ∀ data, Examined (calls 43 ++ [operatorDenies] ++ calls 24) installed data →
      data = installedConfig := by
    rintro data ⟨metadata, hexamined⟩
    rw [hexamined] at hread
    exact Option.some.inj hread
  refine bound_of_turnOn (onlyEdits_denies 43 24) (fun data x hdata hx => ?_) (fun data hdata => ?_)
    tenMinutes
  · rw [hx] at hcaptured
    rw [hbytes data hdata]
    exact Option.some.inj hcaptured
  · rw [hbytes data hdata]
    exact hnone

end Deny
