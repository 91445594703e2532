import BazziteTower.Deny.Meets

/-!
# What the inspecting scripts establish

While nobody else changes the core, a reading script that returns has seen the
state as it is, whatever struck it on the way.

## Main definitions

* `LiveAllow`, `BackupAllow`, `recorded`, `Pending` — assertions about the core.
* `Quiet` — nobody else changes the core.
* `installed` — a machine to run the commands on.

## Main results

* `knows_loadState`, `knows_readConfig` — the state and the configuration.
* `knows_preflight` — `on` passes its checks only while DefaultAction is `allow`.
-/

open Prog hiding perform

namespace Deny

/-! ## Assertions -/

/-- The bytes of the live configuration. -/
def Core.live (c : Core) : Option Bytes := c.config.bind Node.data

/-- The live configuration has DefaultAction `allow`. -/
def LiveAllow (c : Core) : Prop := ∃ data, c.live = some data ∧ currentAction data = .ok .allow

/-- The backup, if there is one, has DefaultAction `allow`. -/
def BackupAllow (c : Core) : Prop :=
  ∀ data, c.backup.bind Node.data = some data → currentAction data = .ok .allow

/-- The state that `load_state` returns, if it returns one. -/
def recorded (c : Core) : Option Fields :=
  c.state.bind fun n =>
    if n.rootRegular 0o077 then n.data.bind fun data => (stateOf data).toOption else none

/-- The state records a pending trial. -/
def Pending (c : Core) : Prop := ∃ state, recorded c = some state ∧ isPending state

theorem liveAllow_iff {c : Core} :
    LiveAllow c ↔ (c.live.bind fun data => (currentAction data).toOption) = some .allow := by
  simp only [LiveAllow, Option.bind_eq_some_iff]
  refine exists_congr fun data => and_congr_right fun _ => ?_
  cases currentAction data <;> simp [Except.toOption]

instance : DecidablePred LiveAllow := fun _ => decidable_of_iff _ liveAllow_iff.symm

theorem backupAllow_iff {c : Core} : BackupAllow c ↔
    (c.backup.bind Node.data).all (fun data => (currentAction data).toOption = some .allow) := by
  simp only [BackupAllow, Option.all_eq_true, decide_eq_true_eq]
  refine forall_congr' fun data => imp_congr_right fun _ => ?_
  cases currentAction data <;> simp [Except.toOption]

instance : DecidablePred BackupAllow := fun _ => decidable_of_iff _ backupAllow_iff.symm

theorem pending_iff {c : Core} : Pending c ↔ (recorded c).any isPending := by
  simp [Pending, Option.any_eq_true]

instance : DecidablePred Pending := fun _ => decidable_of_iff _ pending_iff.symm

/-- Nobody else changes the core or the temporary files of the script. -/
def Quiet (ok : Op → Choice Exn World → World → Prop) : Prop :=
  ∀ o c w, ok o c w → core (c.interfere w) = core w ∧ (c.interfere w).temps = w.temps

/-- Nobody else does anything. -/
def Alone (_ : Op) (c : Choice Exn World) (_ : World) : Prop := c.interfere = id

theorem quiet_of_alone {ok : Op → Choice Exn World → World → Prop}
    (h : ∀ o c w, ok o c w → Alone o c w) : Quiet ok := by
  intro o c w hc
  rw [show c.interfere = id from h o c w hc]
  exact ⟨rfl, rfl⟩

variable {ok : Op → Choice Exn World → World → Prop} {G : Core → Core → Prop} {α : Type}
  {w : World}

theorem Quiet.keeps (hq : Quiet ok) (I : Core → Prop) : Keeps ok I := by
  intro o c w hc hw
  rwa [(hq o c w hc).1]

theorem Quiet.privateTemps (hq : Quiet ok) : PrivateTemps ok := fun o c w hc => (hq o c w hc).2

/-! ## Answers of the calls -/

theorem perform_lstat_ok {l : Loc} {v : World} {info : Stat}
    (h : ((Op.lstat l).perform v).1 = .ok info) : ∃ n, v.node l = some n ∧ n.toStat = info := by
  simp only [Op.perform, existing] at h
  split at h
  · cases h
  · rename_i n hn
    cases h
    exact ⟨n, hn, rfl⟩

theorem contents_eq_ok {n : Option Node} {data : Bytes} :
    contents n = .ok data ↔ n.bind Node.data = some data := by
  cases n with
  | none => simp [contents]
  | some n =>
    unfold contents
    cases hd : n.data with
    | some data' => simp [hd]
    | none => cases hk : n.kind <;> simp [hd, hk]

theorem perform_read_ok {l : Loc} {v : World} {data : Bytes}
    (h : ((Op.read l).perform v).1 = .ok data) : (v.node l).bind Node.data = some data :=
  contents_eq_ok.mp h

/-! ## Knowledge -/

/-- The script leaves the core `c` alone, and what it returns satisfies `F`. -/
def Knows (ok : Op → Choice Exn World → World → Prop) (G : Core → Core → Prop) (c : Core)
    (p : Script α) (F : α → Prop) : Prop :=
  ∀ w, core w = c → Meets ok G p (fun r c' => c' = c ∧ ∀ a, r = .ok a → F a) w

section Knows
variable {c : Core} {β : Type} {F : α → Prop} {F' : β → Prop}

theorem Knows.mono {F' : α → Prop} {p : Script α} (hp : Knows ok G c p F) (h : ∀ a, F a → F' a) :
    Knows ok G c p F' :=
  fun w hw => (hp w hw).mono fun _ _ hr => ⟨hr.1, fun a ha => h a (hr.2 a ha)⟩

theorem knows_lift {r : Except Exn α} (h : ∀ a, r = .ok a → F a) : Knows ok G c (lift r) F :=
  fun _ hw => ⟨hw, h⟩

theorem knows_pure {a : α} (h : F a) : Knows ok G c (pure a) F :=
  fun _ hw => ⟨hw, fun b hb => by cases hb; exact h⟩

theorem knows_throw {e : Exn} : Knows ok G c (throw e : Script α) F :=
  fun _ hw => ⟨hw, nofun⟩

theorem knows_require {condition : Bool} {message : String} :
    Knows ok G c (require condition message) fun _ => condition :=
  knows_lift fun _ h => refuseUnless_eq_ok.mp h

theorem knows_bind {p : Script α} {f : α → Script β} (hp : Knows ok G c p F)
    (hf : ∀ a, F a → Knows ok G c (f a) F') : Knows ok G c (p >>= f) F' :=
  fun w hw => meets_bind _ (hp w hw) (fun a v hv => hf a (hv.2 a rfl) v hv.1)
    fun _ _ h => ⟨h.1, nofun⟩

/-- Continue with what a script has found out. -/
theorem Knows.meets {p : Script α} {f : α → Script β} {Q : Except Exn β → Core → Prop}
    (hp : Knows ok G c p F) (hw : core w = c) (herr : ∀ e, Q (.error e) c)
    (hf : ∀ a v, core v = c → F a → Meets ok G (f a) Q v) : Meets ok G (p >>= f) Q w :=
  meets_bind _ (hp w hw) (fun a v hv => hf a v hv.1 (hv.2 a rfl)) fun e _ h => h.1 ▸ herr e

theorem knows_recover {p : Script α} {f : Exn → Script α} (hp : Knows ok G c p F)
    (hf : ∀ e, Knows ok G c (f e) F) : Knows ok G c (tryCatch p f) F :=
  fun w hw => meets_recover _ (hp w hw)
    (fun a _ h => ⟨h.1, fun b hb => by cases hb; exact h.2 a rfl⟩) fun e v hv => hf e v hv.1

theorem knows_ite {condition : Prop} [Decidable condition] {p q : Script α}
    (hp : condition → Knows ok G c p F) (hq : ¬condition → Knows ok G c q F) :
    Knows ok G c (if condition then p else q) F := by
  split
  · exact hp ‹_›
  · exact hq ‹_›

theorem knows_reads {p : Script α} (hp : Reads p) (hq : Quiet ok) (hG : ∀ c, G c c) :
    Knows ok G c p fun _ => True :=
  fun _ hw => (meets_reads hp hG (hq.keeps (· = c)) hw).mono fun _ _ h => ⟨h, fun _ _ => trivial⟩

theorem knows_perform {o : Op} {F : o.Res → Prop} (ho : Silent o) (hq : Quiet ok)
    (hG : ∀ c, G c c) (h : ∀ v a, core v = c → (o.perform v).1 = .ok a → F a) :
    Knows ok G c (perform o) F :=
  fun _ hw => meets_read (I := (· = c)) ho hG (hq.keeps _) hw (fun _ _ hc => ⟨hc, nofun⟩)
    fun v hv => ⟨hv, fun a => h v a hv⟩

end Knows

/-! ## The records and the configuration -/

/-- A file of the core. -/
def Core.file (c : Core) : HostPath → Option Node
  | .config => c.config
  | .state => c.state
  | .backup => c.backup
  | .marker => c.marker
  | _ => none

theorem core_file {p : HostPath} (hp : tracked p) (w : World) : (core w).file p = w.files p := by
  cases p <;> first | rfl | simp [tracked] at hp

section Files
variable {c : Core} {p : HostPath} (hp : tracked p) (hq : Quiet ok) (hG : ∀ c, G c c)
include hp hq hG

theorem knows_lstat : Knows ok G c (perform (.lstat (.file p)))
    fun info => ∃ n, c.file p = some n ∧ n.toStat = info := by
  refine knows_perform rfl hq hG fun v info hv h => ?_
  obtain ⟨n, hn, hinfo⟩ := perform_lstat_ok h
  exact ⟨n, by rw [← hv, core_file hp]; exact hn, hinfo⟩

theorem knows_read : Knows ok G c (perform (.read (.file p)))
    fun data => (c.file p).bind Node.data = some data := by
  refine knows_perform rfl hq hG fun v data hv h => ?_
  rw [← hv, core_file hp]
  exact perform_read_ok h

theorem knows_privateBytes (what : String) : Knows ok G c (privateBytes p what)
    fun data => ∃ n, c.file p = some n ∧ n.rootRegular 0o077 ∧ n.data = some data := by
  refine knows_bind (knows_lstat hp hq hG) fun info hinfo => ?_
  obtain ⟨n, hn, rfl⟩ := hinfo
  refine knows_bind knows_require fun _ hsafe => (knows_read hp hq hG).mono fun data hdata => ?_
  exact ⟨n, hn, hsafe, by simpa [hn] using hdata⟩

end Files

/-- Reading a state that is there. -/
theorem knows_readState {c : Core} (hq : Quiet ok) (hG : ∀ c, G c c) :
    Knows ok G c (do
      let data ← privateBytes .state "deny state"
      return some (← lift (stateOf data))) fun r => r = recorded c := by
  refine knows_bind (knows_privateBytes rfl hq hG _) fun data hdata => ?_
  obtain ⟨n, hn, hsafe, hn'⟩ := hdata
  refine knows_bind (knows_lift (F := fun state => stateOf data = .ok state) fun _ h => h)
    fun state hstate => knows_pure ?_
  have hfile : c.state = some n := hn
  simp [recorded, hfile, hsafe, hn', hstate, Except.toOption]

theorem knows_loadState {c : Core} (hq : Quiet ok) (hG : ∀ c, G c c) :
    Knows ok G c loadState fun r => ∀ state, r = some state → recorded c = some state :=
  knows_bind (knows_reads (reads_present _) hq hG) fun _ _ => knows_ite
    (fun _ => (knows_readState hq hG).mono fun _ hr _ hstate => hr ▸ hstate)
    fun _ => knows_pure nofun

/-- No failure strikes this call. -/
def Clear (ok : Op → Choice Exn World → World → Prop) (o : Op) : Prop :=
  ∀ c w, ok o c w → c.fault = .none

/-- Nothing happens around the calls. -/
def Calm (_ : Op) (c : Choice Exn World) (_ : World) : Prop := c = .calm

theorem quiet_calm : Quiet Calm := quiet_of_alone fun _ _ _ h => by
  rw [h]
  rfl

theorem clear_calm {o : Op} : Clear Calm o := fun _ _ h => by
  rw [h]
  rfl

theorem knows_present {c : Core} {p : HostPath} (hp : tracked p) (hq : Quiet ok)
    (hclear : Clear ok (.lstat (.file p))) (hG : ∀ c, G c c) :
    Knows ok G c (present p) fun there => there = (c.file p).isSome := by
  refine knows_bind (F := fun info => info.isSome = (c.file p).isSome) (fun w hw => ?_)
    fun info hinfo => knows_pure hinfo
  refine meets_recover (fun r c' => c' = c ∧ (∀ info, r = .ok info → info.isSome ∧ (c.file p).isSome) ∧
    ∀ e, r = .error e → c.file p = none) ?_ ?_ ?_
  · refine meets_bind (fun r c' => c' = c ∧ (∀ info, r = .ok info → (c.file p).isSome) ∧
      ∀ e, r = .error e → c.file p = none) (fun ch hc => ?_) (fun info v h => ⟨h.1, ?_, by rintro _ ⟨⟩⟩)
      fun e c' h => ⟨h.1, by rintro _ ⟨⟩, fun _ _ => h.2.2 e rfl⟩
    · have hv : core (ch.interfere w) = c := ((hq _ ch w hc).1).trans hw
      have hfile : c.file p = (ch.interfere w).files p := by rw [← hv, core_file hp]
      have hsame : core ((Op.lstat (.file p)).perform (ch.interfere w)).2 = c :=
        (core_perform rfl _).trans hv
      simp only [Host.act, hclear ch w hc, host, hsame, hv, hfile]
      refine ⟨hG _, hsame, fun info h => ?_, fun e h => ?_⟩
      · obtain ⟨n, hn, -⟩ := perform_lstat_ok h
        exact Option.isSome_iff_exists.mpr ⟨n, hn⟩
      · simp only [Op.perform, existing] at h
        split at h
        · assumption
        · cases h
    · rintro _ ⟨⟩
      exact ⟨rfl, h.2.1 _ rfl⟩
  · rintro info c' ⟨hc', hinfo, -⟩
    refine ⟨hc', fun _ h => ?_⟩
    cases h
    rw [(hinfo info rfl).1, (hinfo info rfl).2]
  · rintro e v ⟨hv, -, he⟩
    have hnone := he e rfl
    split
    · refine ⟨hv, fun _ h => ?_⟩
      cases h
      rw [hnone]
      rfl
    · split <;> exact ⟨hv, by rintro _ ⟨⟩⟩

/-- If no failure strikes the inspection, an absent state is really absent. -/
theorem knows_loadState_clear {c : Core} (hq : Quiet ok)
    (hclear : Clear ok (.lstat (.file .state))) (hG : ∀ c, G c c) :
    Knows ok G c loadState fun r => r = recorded c := by
  refine knows_bind (knows_present rfl hq hclear hG) fun there hthere => knows_ite
    (fun _ => knows_readState hq hG) fun habsent => knows_pure ?_
  have hnone : c.state = none := by
    rw [hthere] at habsent
    simpa [Core.file] using habsent
  rw [recorded, hnone]
  rfl

/-- What `read_config` returns. -/
def ConfigRead (c : Core) (r : Bytes × Json) : Prop :=
  c.live = some r.1 ∧ ∃ info xattrs, r.2 = metadataOf info xattrs

theorem knows_readConfig {c : Core} (hq : Quiet ok) (hG : ∀ c, G c c) :
    Knows ok G c readConfig (ConfigRead c) := by
  have hmetadata : Knows ok G c (metadataAt (.file .config))
      fun m => ∃ info xattrs, m = metadataOf info xattrs :=
    knows_bind (knows_reads (reads_perform (by rfl)) hq hG) fun info _ =>
      knows_bind (knows_reads trivial hq hG) fun _ _ =>
        knows_bind (knows_reads (reads_perform (by rfl)) hq hG) fun xattrs _ =>
          knows_pure ⟨info, xattrs, rfl⟩
  exact knows_bind hmetadata fun _ hm =>
    knows_bind (knows_read (p := .config) rfl hq hG) fun _ hdata => knows_pure ⟨hdata, hm⟩

/-! ## The preflight -/

/-- What `on` asks of the bytes of a configuration. -/
structure Approved (data : Bytes) : Prop where
  address : serverAddress data = .ok (.str "unix:opensnitchd.sock".toList)
  action : currentAction data = .ok .allow
  method : ∃ ms, Json.loads data = .ok (.obj ms) ∧
    Fields.get ms "ProcMonitorMethod" = .str "proc".toList

/-- A configuration with these values has no blockers. -/
theorem Approved.judge {data : Bytes} (h : Approved data) : judge data = .ok (.system, .allow, []) := by
  obtain ⟨ms, hms, hmethod⟩ := h.method
  have hget : (do (← decoded (Json.loads data)).get "ProcMonitorMethod") = .ok (.str "proc".toList) :=
    Except.bind_eq_ok.mpr ⟨_, decoded_eq_ok.mpr hms, congrArg Except.ok hmethod⟩
  have hsystem : judgeAddress (.str "unix:opensnitchd.sock".toList) = (.system, []) := by decide
  have hproc : monitorBlockers (.str "proc".toList) = [] := by decide
  refine Except.bind_eq_ok.mpr ⟨.allow, h.action, ?_⟩
  simp only [h.address, hsystem, hget, hproc]
  rfl

/-- A configuration without blockers has these values. -/
theorem approved_of_judge {data : Bytes} {profile : Profile} {action : Action}
    (h : judge data = .ok (profile, action, [])) : Approved data := by
  simp only [Deny.judge, Except.bind_eq_ok] at h
  obtain ⟨action', haction, h⟩ := h
  split at h
  · split at h <;> simp [pure, Except.pure, throw, throwThe, MonadExceptOf.throw] at h
  · rename_i address haddress
    split at h
    · rename_i method hmethod
      have hnil := congrArg (·.2.2) (Except.ok.inj h)
      simp only [List.append_eq_nil_iff] at hnil
      obtain ⟨⟨hjudge, hactions⟩, hmonitor⟩ := hnil
      have hsystem : address = .str "unix:opensnitchd.sock".toList := by
        by_contra hne
        simp only [judgeAddress, Json.pyEq_of_str, hne, if_false] at hjudge
        split at hjudge <;> cases hjudge
      have hallow : action' = .allow := by
        by_contra hne
        simp [actionBlockers, hne] at hactions
      have hproc : method = .str "proc".toList := by
        by_contra hne
        rw [monitorBlockers, if_neg (by rwa [Json.pyEq_of_str])] at hmonitor
        cases hmonitor
      obtain ⟨v, hv, hget⟩ := Except.bind_eq_ok.mp hmethod
      cases v with
      | obj ms =>
        refine ⟨hsystem ▸ haddress, hallow ▸ haction, ms, decoded_eq_ok.mp hv, ?_⟩
        rw [← hproc]
        exact Except.ok.inj hget
      | _ => cases hget
    · split at h
      · simp [pure, Except.pure] at h
      · cases h

/-- A configuration without blockers has DefaultAction `allow`. -/
theorem judge_blockers {data : Bytes} {profile : Profile} {action : Action}
    (h : judge data = .ok (profile, action, [])) : currentAction data = .ok .allow :=
  (approved_of_judge h).action

theorem knows_inspect {c : Core} (hq : Quiet ok) (hG : ∀ c, G c c) :
    Knows ok G c inspect fun r => r.2.2 = [] → LiveAllow c := by
  have hconfig : Knows ok G c (readConfig >>= fun r => lift (judge r.1))
      fun r => r.2.2 = [] → LiveAllow c := by
    refine knows_bind (knows_readConfig hq hG) fun r hr => knows_lift ?_
    rintro ⟨profile, action, blockers⟩ h rfl
    exact ⟨r.1, hr.1, judge_blockers h⟩
  refine knows_bind (knows_recover hconfig fun e => knows_ite (fun _ => knows_pure (by rintro ⟨⟩))
    fun _ => knows_throw) fun r hr => ?_
  refine knows_bind (knows_reads reads_serviceActive hq hG) fun active _ => ?_
  refine knows_bind (knows_reads (reads_lookup _) hq hG) fun info _ => knows_pure fun hnil => ?_
  simp only [List.append_eq_nil_iff] at hnil
  exact hr hnil.1.1

/-- **`on` passes its checks only while DefaultAction is `allow`.** -/
theorem knows_preflight {c : Core} (hq : Quiet ok) (hG : ∀ c, G c c) :
    Knows ok G c preflight fun _ => LiveAllow c := by
  refine knows_bind (knows_inspect hq hG) fun r hr => ?_
  refine knows_bind (knows_reads reads_loadState hq hG) fun state _ => ?_
  refine knows_bind (knows_reads (reads_pendingBlockers state) hq hG) fun pending _ => ?_
  refine knows_bind (knows_reads reads_denyOptIn hq hG) fun optIn _ => ?_
  refine knows_require.mono fun _ hnil => hr ?_
  simp only [List.isEmpty_iff, List.append_eq_nil_iff] at hnil
  exact hnil.1.1

/-! ## A machine -/

/-- `{"Server":{"Address":"unix:opensnitchd.sock"},"DefaultAction":"allow","ProcMonitorMethod":"proc"}` -/
def installedConfig : Bytes :=
  [123, 34, 83, 101, 114, 118, 101, 114, 34, 58, 123, 34, 65, 100, 100, 114, 101, 115, 115, 34,
    58, 34, 117, 110, 105, 120, 58, 111, 112, 101, 110, 115, 110, 105, 116, 99, 104, 100, 46,
    115, 111, 99, 107, 34, 125, 44, 34, 68, 101, 102, 97, 117, 108, 116, 65, 99, 116, 105, 111,
    110, 34, 58, 34, 97, 108, 108, 111, 119, 34, 44, 34, 80, 114, 111, 99, 77, 111, 110, 105,
    116, 111, 114, 77, 101, 116, 104, 111, 100, 34, 58, 34, 112, 114, 111, 99, 34, 125]

/-- A machine with the system profile, on which no trial was started. -/
def installed : World where
  files
    | .config => some ⟨⟨.regular, 0, 0, 0o644⟩, [], some installedConfig⟩
    | .socket => some ⟨⟨.socket, 0, 0, 0o600⟩, [], none⟩
    | .configDir | .markerDir | .lockDir => some (.directory 0o755)
    | .runDir => some (.directory 0o711)
    | _ => none
  temps _ := none
  nextTemp := 0
  corruptBound := 0
  timer := false
  active _ := .active
  enabled _ := .enabled
  loaded := some installedConfig
  holder := .nobody
  bootId := some ['1']
  clock := 63900000000000000
  drawn := 7
  settable _ _ := true
  facts _ := .ok .null
  history := []

/-- Ten minutes. -/
def tenMinutes : Minutes := ⟨10, by decide⟩

/-- Calls that go through. -/
def calls (n : ℕ) : List (Choice Exn World) := List.replicate n .calm

/-- Calls that are struck before they take effect. -/
def failures (n : ℕ) : List (Choice Exn World) := List.replicate n ⟨id, .before inputOutput⟩

theorem interfere_of_mem_calls {n : ℕ} {c : Choice Exn World} (hc : c ∈ calls n) :
    c.interfere = id := by
  rw [List.eq_of_mem_replicate hc]
  rfl

theorem interfere_of_mem_failures {n : ℕ} {c : Choice Exn World} (hc : c ∈ failures n) :
    c.interfere = id := by
  rw [List.eq_of_mem_replicate hc]

end Deny
