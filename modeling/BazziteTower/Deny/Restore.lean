import BazziteTower.Deny.Backup
import BazziteTower.Deny.Move
import BazziteTower.Deny.Publication
import BazziteTower.Deny.Token

/-!
# What a restoration keeps

`restore_allow` puts the recorded backup in place of exactly the deny configuration
that the trial published, and otherwise flips the one key.  Either way the document
is the same as before apart from DefaultAction, unless the trial recorded a deny
configuration as its backup.

## Main definitions

* `Baseline` — what a trial captured, and the state that `on` writes of it.
* `Replaced` — how a restoration replaces the configuration.
* `KeepsEdits` — what a restoration owes to the configuration that it finds.

## Main results

* `meets_restoreAllow_replaced` — every restoration of a trial, under failures.
* `restoreAllow_keepsEdits_iff` — when a restoration keeps the configuration.
-/

open Prog hiding perform

namespace Deny

/-! ## The trial -/

/-- What `on` captured, and the deny configuration that it made of it. -/
structure Baseline where
  id : Text
  now : Moment
  minutes : Minutes
  boot : Option Text
  info : Stat
  xattrs : List (Text × Bytes)
  data : Bytes
  deny : Bytes
  edited : setAction data .deny = .ok deny
  mode : info.mode < 4096
  names : (xattrs.map Prod.fst).Nodup

namespace Baseline

/-- The state that `on` writes. -/
def state (T : Baseline) : Fields :=
  trialState T.id T.now T.minutes T.data T.deny (metadataOf T.info T.xattrs) T.boot

/-- The state as `on` holds it, or as it is loaded again. -/
def Wrote (T : Baseline) (s : Fields) : Prop :=
  s = T.state ∨ stateOf (recordBytes T.state) = .ok s

theorem isRecord_state (T : Baseline) : IsRecord T.state :=
  isRecord_trialState _ _ _ _ _ (plain_metadataOf _ _ _) _

/-- What a restoration reads in the state. -/
structure RecordedIn (T : Baseline) (s : Fields) : Prop where
  backupSha : s.get "backupSha256" = .str (sha256 T.data)
  denySha : s.get "denySha256" = .str (sha256 T.deny)
  metadata : ∃ m, (Json.obj s).subscript "backupMetadata" = .ok m ∧ Records m T.info T.xattrs

theorem recordedIn_state (T : Baseline) : RecordedIn T T.state :=
  ⟨rfl, rfl, _, rfl, records_metadataOf T.names⟩

theorem Wrote.recordedIn {T : Baseline} {s : Fields} (h : T.Wrote s) : RecordedIn T s := by
  have hkeys := T.isRecord_state.keys
  obtain ⟨hbackup, hdeny, m, hm, hrecords⟩ := recordedIn_state T
  rcases h with rfl | h
  · exact recordedIn_state T
  rw [stateOf_recordBytes T.isRecord_state] at h
  obtain rfl := Except.ok.inj h
  refine ⟨?_, ?_, _, subscript_sortMembers hkeys hm, ?_⟩
  · rw [Fields.get, Json.find_sortMembers hkeys]
    rfl
  · rw [Fields.get, Json.find_sortMembers hkeys]
    rfl
  · obtain rfl : metadataOf T.info T.xattrs = m := Except.ok.inj hm
    refine Records.sorted ?_ hrecords
    have hnames : ["uid".toList, "gid".toList, "mode".toList, "xattrs".toList].Nodup := by decide
    exact hnames

end Baseline

/-! ## How the configuration is replaced -/

variable {T : Baseline} {c c' : Core} {w : World}

/-- The configuration was replaced, by this method. -/
inductive Replaced (T : Baseline) (c : Core) : Method → Core → Prop
  | keyEdit {data result : Bytes} (n : Node) (live : c.live = some data)
      (action : currentAction data ≠ .ok .allow) (edit : setAction data .allow = .ok result)
      (node : n.data = some result) : Replaced T c .keyEdit (c.put .config n)
  | backup (n : Node) (live : c.live = some T.deny) (action : currentAction T.deny ≠ .ok .allow)
      (backup : c.backup.bind Node.data = some T.data)
      (dressed : Dressed T.data T.info T.xattrs n) : Replaced T c .backup (c.put .config n)

/-- What a restoration leaves behind when it ends: the core as it was, or a replaced
configuration. -/
def RestoreEnds (T : Baseline) (c : Core) (r : Except Exn Method) (c' : Core) : Prop :=
  (c' = c ∧ ∀ m, r = .ok m → m = .alreadyAllow ∧ LiveAllow c) ∨
    ∃ m, Replaced T c m c' ∧ ∀ m', r = .ok m' → m' = m

/-- One call of a restoration from the core `c`. -/
def RestoreStep (T : Baseline) (c v v' : Core) : Prop := v' = v ∨ ∃ m, Replaced T c m v'

variable {ok : Op → Choice Exn World → World → Prop}

theorem meets_flipKey_replaced (hq : Quiet ok) (hw : core w = c) {data : Bytes}
    (hlive : c.live = some data) (haction : currentAction data ≠ .ok .allow) (metadata : Json) :
    Meets ok (RestoreStep T c) (flipKey data metadata) (RestoreEnds T c) w := by
  have hsame : ∀ v, RestoreStep T c v v := fun _ => .inl rfl
  refine (knows_lift (F := fun result => setAction data .allow = .ok result) fun _ h => h).meets hw
    (fun _ => .inl ⟨rfl, nofun⟩) fun result v hv hedit => ?_
  refine meets_bind _ (meets_publish (I := (· = c)) (J := Replaced T c .keyEdit) rfl hsame
    (hq.keeps _) (hq.keeps _).last hq.privateTemps ?_ hv) (fun _ u hu => ?_) fun e v' hv' => ?_
  · rintro _ n rfl hn
    have hreplaced := Replaced.keyEdit (T := T) n hlive haction hedit hn.data_eq
    exact ⟨.inr ⟨_, hreplaced⟩, hreplaced⟩
  · exact .inr ⟨_, hu.1 rfl, fun _ h => (Except.ok.inj h).symm⟩
  · rcases hv'.2 with rfl | h
    · exact .inl ⟨rfl, nofun⟩
    · exact .inr ⟨_, h, nofun⟩

/-- SHA-256 does not collide on what the restoration finds. -/
structure CollisionFree (T : Baseline) (live backup : Option Bytes) : Prop where
  live : ∀ data ∈ live, sha256 data = sha256 T.deny → data = T.deny
  backup : ∀ data ∈ backup, sha256 data = sha256 T.data → data = T.data

theorem meets_restoreBackup_replaced (hq : Quiet ok) (hw : core w = c) {s : Fields}
    (hs : T.RecordedIn s) (hfree : CollisionFree T c.live (c.backup.bind Node.data)) {data : Bytes}
    (hlive : c.live = some data) (haction : currentAction data ≠ .ok .allow) (metadata : Json) :
    Meets ok (RestoreStep T c) (restoreBackup s data metadata) (RestoreEnds T c) w := by
  have hsame : ∀ v, RestoreStep T c v v := fun _ => .inl rfl
  refine (knows_readBackup hq hsame).meets hw (fun _ => .inl ⟨rfl, nofun⟩) ?_
  rintro (_ | backup) v hv hread
  · exact meets_flipKey_replaced hq hv hlive haction metadata
  simp only
  split
  · rename_i hagrees
    simp only [agrees, hs.backupSha, hs.denySha, Bool.and_eq_true, Json.pyEq_str, Json.str.injEq]
      at hagrees
    have hbackup := hread backup rfl
    obtain rfl := hfree.backup backup hbackup hagrees.1.symm
    obtain rfl := hfree.live data hlive hagrees.2.symm
    obtain ⟨m, hm, hrecords⟩ := hs.metadata
    rw [hm]
    refine (knows_lift (F := fun m' => m' = m) fun _ h => (Except.ok.inj h).symm).meets hv
      (fun _ => .inl ⟨rfl, nofun⟩) ?_
    rintro _ x hx rfl
    refine meets_bind _ (meets_publish_records (p := .config) (I := (· = c))
        (J := Replaced T c .backup) hrecords T.mode T.names rfl hsame (hq.keeps _) (hq.keeps _).last
        hq.privateTemps ?_ hx)
      (fun _ u hu => ?_) fun e v' hv' => ?_
    · rintro _ n rfl hn
      have hreplaced := Replaced.backup n hlive haction hbackup hn
      exact ⟨.inr ⟨_, hreplaced⟩, hreplaced⟩
    · exact .inr ⟨_, hu.1 rfl, fun _ h => (Except.ok.inj h).symm⟩
    · rcases hv'.2 with rfl | h
      · exact .inl ⟨rfl, nofun⟩
      · exact .inr ⟨_, h, nofun⟩
  · exact meets_flipKey_replaced hq hv hlive haction metadata

/-- **A restoration of a trial** leaves the core alone, or replaces the configuration by
the backup over the deny configuration of the trial, or else flips the key. -/
theorem meets_restoreAllow_replaced (hq : Quiet ok) (hw : core w = c) {s : Fields}
    (hs : T.RecordedIn s) (hfree : CollisionFree T c.live (c.backup.bind Node.data)) :
    Meets ok (RestoreStep T c) (restoreAllow (some s)) (RestoreEnds T c) w := by
  have hsame : ∀ v, RestoreStep T c v v := fun _ => .inl rfl
  refine (knows_readConfig hq hsame).meets hw (fun _ => .inl ⟨rfl, nofun⟩) ?_
  rintro ⟨data, metadata⟩ v hv ⟨hlive, -⟩
  refine (knows_lift (F := fun action => currentAction data = .ok action) fun _ h => h).meets hv
    (fun _ => .inl ⟨rfl, nofun⟩) fun action u hu haction => ?_
  split
  · rename_i hallow
    exact .inl ⟨hu, fun _ h => ⟨(Except.ok.inj h).symm, data, hlive, hallow ▸ haction⟩⟩
  · rename_i hnot
    have hne : currentAction data ≠ .ok .allow := by
      rw [haction]
      exact fun h => hnot (Except.ok.inj h)
    exact meets_restoreBackup_replaced hq hu hs hfree hlive hne metadata

/-! ## What is kept -/

/-- The document is the same apart from DefaultAction, which is `allow`. -/
def SameButAllow (data result : Bytes) : Prop :=
  ∃ ms, Json.loads data = .ok (.obj ms) ∧
    Json.loads result = .ok (.obj (Json.insert "DefaultAction".toList (.str "allow".toList) ms))

theorem exists_of_currentAction {data : Bytes} {action : Action}
    (haction : action = .allow ∨ action = .deny) (h : currentAction data = .ok action) :
    ∃ ms, Json.loads data = .ok (.obj ms) ∧
      Json.find "DefaultAction".toList ms = some (.str action.word.toList) := by
  have hother : action ≠ .other := by rcases haction with rfl | rfl <;> nofun
  have hcase := h
  unfold currentAction at hcase
  split at hcase
  · rename_i ms hms
    exact ⟨ms, hms, find_of_currentAction haction hms h⟩
  · exact absurd (Except.ok.inj hcase).symm hother
  · exact absurd (Except.ok.inj hcase).symm hother
  · cases hcase

/-- A document with DefaultAction `allow` is kept as it is. -/
theorem SameButAllow.refl {data : Bytes} (h : currentAction data = .ok .allow) :
    SameButAllow data data := by
  obtain ⟨ms, hms, hfind⟩ := exists_of_currentAction (.inl rfl) h
  have hsame := Json.insert_self hfind
  exact ⟨ms, hms, hms.trans (congrArg (fun ms => Except.ok (Json.obj ms)) hsame.symm)⟩

theorem SameButAllow.of_edit {data result : Bytes} (h : setAction data .allow = .ok result) :
    SameButAllow data result := by
  obtain ⟨ms, hms, hresult, -⟩ := (valueEdited_of_setAction (.inl rfl) h).document
  exact ⟨ms, hms, hresult⟩

/-- The backup differs from the deny configuration of the trial in DefaultAction only. -/
theorem SameButAllow.of_deny {data result : Bytes} (h : setAction data .deny = .ok result)
    (hallow : currentAction data = .ok .allow) : SameButAllow result data :=
  .of_edit (setAction_allow_of_deny h hallow)

/-- The result of a restoration has DefaultAction `allow`. -/
theorem SameButAllow.currentAction {data result : Bytes} (h : SameButAllow data result) :
    currentAction result = .ok .allow := by
  obtain ⟨ms, -, hresult⟩ := h
  exact @currentAction_of_find _ _ .allow hresult (Json.find_insert_self _ _ _)

/-- What a restoration owes to the configuration that it finds: it refuses and leaves the
file as it is, or leaves the same document with DefaultAction `allow`; and the recorded
backup is written back, exactly, over the deny configuration of the trial only. -/
structure KeepsEdits (T : Baseline) (w : World) (out : Option (Except Exn Method) × World) :
    Prop where
  document : (out.2.files .config = w.files .config ∧ ∀ m, out.1 ≠ some (.ok m)) ∨
    ∃ data result, w.bytes .config = some data ∧ out.2.bytes .config = some result ∧
      SameButAllow data result
  writtenBack : out.2.bytes .config = some T.data → out.2.files .config ≠ w.files .config →
    w.bytes .config = some T.deny
  exact : out.1 = some (.ok .backup) → w.bytes .config = some T.deny ∧
    ∃ n, out.2.files .config = some n ∧ Dressed T.data T.info T.xattrs n

/-- A key edit that gives the backup was one of the deny configuration. -/
theorem eq_deny_of_edit {data : Bytes} (haction : currentAction data ≠ .ok .allow)
    (h : setAction data .allow = .ok T.data) : data = T.deny := by
  obtain ⟨ms, hms, -, hfind⟩ := (valueEdited_of_setAction (.inl rfl) h).document
  have hdeny : currentAction data = .ok .deny := by
    rcases hfind with hfind | hfind
    · exact absurd (@currentAction_of_find _ _ .allow hms hfind) haction
    · exact @currentAction_of_find _ _ .deny hms hfind
  have hback := setAction_back (.inl rfl) (.inr rfl) nofun h hdeny
  exact Except.ok.inj (hback.symm.trans T.edited)

/-- Every way a restoration ends keeps the configuration, unless it wrote a deny backup back. -/
theorem keepsEdits_of_ends {r : Option (Except Exn Method)} {v : World}
    (hsafe : ¬ (w.bytes .config = some T.deny ∧ w.bytes .backup = some T.data ∧
      currentAction T.data = .ok .deny))
    (h : core v = core w ∧ (∀ m, r = some (.ok m) → m = .alreadyAllow ∧ LiveAllow (core w)) ∨
      ∃ m, Replaced T (core w) m (core v) ∧ ∀ m', r = some (.ok m') → m' = m) : KeepsEdits T w (r, v) := by
  have hfile : ∀ n, core v = (core w).put .config n → v.files .config = some n := fun n hn =>
    congrArg Core.config hn
  have hbytes : ∀ n, core v = (core w).put .config n → v.bytes .config = n.data := fun n hn =>
    congrArg Core.live hn
  rcases h with ⟨hv, hr⟩ | ⟨m, hm, hr⟩
  · have hsame : v.files .config = w.files .config := congrArg Core.config hv
    refine ⟨?_, fun _ hne => absurd hsame hne, fun h => nomatch (hr _ h).1⟩
    by_cases hok : ∃ m, r = some (.ok m)
    · obtain ⟨m, hm⟩ := hok
      obtain ⟨-, data, hlive, hallow⟩ := hr m hm
      refine .inr ⟨data, data, hlive, ?_, .refl hallow⟩
      exact (congrArg Core.live hv).trans hlive
    · exact .inl ⟨hsame, fun m hm => hok ⟨m, hm⟩⟩
  · generalize hcv : core v = cv at hm
    cases hm with
    | keyEdit n live action edit node =>
      rename_i data result
      refine ⟨.inr ⟨data, result, live, (hbytes n hcv).trans node, .of_edit edit⟩, ?_, fun h => ?_⟩
      · intro hdata _
        obtain rfl : result = T.data := Option.some.inj (((hbytes n hcv).trans node).symm.trans hdata)
        rw [← eq_deny_of_edit action edit]
        exact live
      · cases hr _ h
    | backup n live action backup dressed =>
      refine ⟨.inr ⟨T.deny, T.data, live, (hbytes n hcv).trans dressed.data_eq, ?_⟩, fun _ _ => live,
        fun _ => ⟨live, n, hfile n hcv, dressed⟩⟩
      obtain ⟨ms, hms, -, hfind⟩ := (valueEdited_of_setAction (.inr rfl) T.edited).document
      rcases hfind with hfind | hfind
      · exact .of_deny T.edited (@currentAction_of_find _ _ .allow hms hfind)
      · exact absurd ⟨live, backup, @currentAction_of_find _ _ .deny hms hfind⟩ hsafe

/-- A restoration that returns and leaves another action does not keep the configuration. -/
theorem not_keepsEdits_of_returns {out : Option (Except Exn Method) × World} {m : Method}
    (hreturns : out.1 = some (.ok m)) (hdenied : ¬LiveAllow (core out.2)) : ¬ KeepsEdits T w out := by
  intro h
  rcases h.document with ⟨-, hnone⟩ | ⟨_, result, -, hresult, hsame⟩
  · exact hnone m hreturns
  · exact hdenied ⟨result, hresult, hsame.currentAction⟩

/-- **An undisturbed restoration** whose trial did not record a deny backup of the live bytes
keeps the configuration, whatever strikes its calls and wherever it is killed. -/
theorem keepsEdits_of_run {s : Fields} (hs : T.Wrote s)
    (hfree : CollisionFree T (w.bytes .config) (w.bytes .backup))
    (hsafe : ¬ (w.bytes .config = some T.deny ∧ w.bytes .backup = some T.data ∧
      currentAction T.data = .ok .deny))
    {cs : List (Choice Exn World)} (hcs : ∀ ch ∈ cs, ch.interfere = id) :
    KeepsEdits T w ((restoreAllow (some s)).run host cs w) := by
  have hmeets := @meets_restoreAllow_replaced T (core w) w Alone (quiet_of_alone fun _ _ _ h => h)
    rfl s hs.recordedIn hfree
  obtain ⟨hkilled, hfinished⟩ := wp_run
    (I := fun v => core v = core w ∨ ∃ m, Replaced T (core w) m (core v))
    (fun _ ch v (hc : ch.interfere = id) hv => by rw [hc]; exact hv)
    (fun v v' hstep hv => hstep.elim (fun h => by rw [h]; exact hv) .inr) hmeets
    (fun step hstep => hcs _ (choice_mem_of_mem_steps host hstep)) (.inl rfl)
  rcases hrun : (restoreAllow (some s)).run host cs w with ⟨r, v⟩
  rw [hrun] at hkilled hfinished
  refine keepsEdits_of_ends hsafe ?_
  cases r with
  | none => exact hkilled.imp (fun h => ⟨h, nofun⟩) fun ⟨m, h⟩ => ⟨m, h, nofun⟩
  | some r =>
    refine (hfinished r rfl).imp (fun h => ⟨h.1, fun m hm => h.2 m (Option.some.inj hm)⟩) ?_
    exact fun ⟨m, h, hr⟩ => ⟨m, h, fun m' hm' => hr m' (Option.some.inj hm')⟩

/-! ## When the backup is not `allow` -/

/-- A machine with a live configuration and a backup, on which nothing is in the way. -/
def withBackup (live backup : Bytes) : World :=
  { installed with
    files
      | .config => some ⟨⟨.regular, 0, 0, 0o644⟩, [], some live⟩
      | .backup => some ⟨⟨.regular, 0, 0, 0o600⟩, [], some backup⟩
      | _ => none }

theorem rootRegular_private : Stat.rootRegular ⟨.regular, 0, 0, 0o600⟩ 0o077 := by decide

theorem exec_readConfig_withBackup (live backup : Bytes) :
    readConfig.exec host (withBackup live backup) =
      (.ok (live, metadataOf ⟨.regular, 0, 0, 0o644⟩ []), withBackup live backup) := by
  have hmetadata : (metadataAt (.file .config)).exec host (withBackup live backup) =
      (.ok (metadataOf ⟨.regular, 0, 0, 0o644⟩ []), withBackup live backup) :=
    (exec_call (o := .lstat (.file .config)) rfl).trans <| (exec_bind_ok (a := ()) rfl).trans
      (exec_call (o := .xattrs (.file .config)) rfl)
  exact (exec_bind_ok hmetadata).trans (exec_call (o := .read (.file .config)) rfl)

theorem exec_readBackup_withBackup (live backup : Bytes) :
    readBackup.exec host (withBackup live backup) = (.ok (some backup), withBackup live backup) := by
  refine answers_bind_ok (answers_present .backup) (answers_recover_ok ?_)
  have hread : Answers host (privateBytes .backup "deny backup") (.ok backup)
      (withBackup live backup) := by
    have hprivate : privateOf ((withBackup live backup).files .backup) "deny backup" = .ok backup :=
      Except.bind_eq_ok.mpr ⟨_, rfl, Except.bind_eq_ok.mpr
        ⟨(), refuseUnless_eq_ok.mpr rootRegular_private, rfl⟩⟩
    rw [← hprivate]
    exact answers_privateBytes ..
  exact answers_bind_ok hread (answers_done _ _)

/-- On that machine the deny configuration of a trial is replaced by its backup. -/
theorem exec_restoreAllow_withBackup {s : Fields} (hs : T.RecordedIn s)
    (haction : currentAction T.deny = .ok .deny) :
    ∃ n, Dressed T.data T.info T.xattrs n ∧
      (restoreAllow (some s)).exec host (withBackup T.deny T.data) =
        (.ok .backup, (opened (withBackup T.deny T.data) .config).put .config n) := by
  obtain ⟨m, hm, hrecords⟩ := hs.metadata
  have hfree : Free (withBackup T.deny T.data) .config (some T.deny) :=
    ⟨nofun, fun n hn => by cases hn; nofun, fun data hdata => by cases hdata; rfl⟩
  obtain ⟨n, hn, hprepare⟩ := exec_prepare_records (w := opened (withBackup T.deny T.data) .config)
    (t := 0) hrecords T.mode T.names fun y _ => rfl
  refine ⟨n, hn, ?_⟩
  have hpublish := exec_publish (by decide) hfree hprepare
  have hagrees : agrees s T.data T.deny := by
    simp [agrees, hs.backupSha, hs.denySha, Json.pyEq_str]
  refine (exec_bind_ok (exec_readConfig_withBackup T.deny T.data)).trans ?_
  simp only [haction, lift, bind_eq, bind_ok]
  rw [if_neg (by decide)]
  refine (exec_bind_ok (exec_readBackup_withBackup T.deny T.data)).trans ?_
  simp only [hagrees, if_true, hm]
  exact (exec_bind_ok hpublish).trans rfl

/-- **When a restoration keeps the configuration.**  For the state of any trial, any live bytes
and any backup, every undisturbed restoration keeps the configuration that it finds, unless
the trial recorded a deny configuration, still has it as its backup, and it is live. -/
theorem restoreAllow_keepsEdits_iff (T : Baseline) {s : Fields} (hs : T.Wrote s) (live : Bytes)
    (backup : Option Bytes) (hfree : CollisionFree T (some live) backup) :
    (∀ (w : World) (cs : List (Choice Exn World)), w.bytes .config = some live →
      w.bytes .backup = backup → (∀ ch ∈ cs, ch.interfere = id) →
      KeepsEdits T w ((restoreAllow (some s)).run host cs w)) ↔
    ¬ (live = T.deny ∧ backup = some T.data ∧ currentAction T.data = .ok .deny) := by
  constructor
  · rintro h ⟨rfl, rfl, haction⟩
    obtain ⟨n, hn, hexec⟩ := exec_restoreAllow_withBackup hs.recordedIn
      (currentAction_setAction T.edited)
    obtain ⟨k, hk⟩ := exists_run_eq_exec host (restoreAllow (some s)) (withBackup T.deny T.data)
    have hkeeps := h (withBackup T.deny T.data) (calls k) rfl rfl fun ch hch =>
      interfere_of_mem_calls hch
    rw [calls, hk, hexec] at hkeeps
    refine not_keepsEdits_of_returns rfl ?_ hkeeps
    rintro ⟨data, hdata, hallow⟩
    obtain rfl : T.data = data := Option.some.inj (hn.data_eq.symm.trans hdata)
    rw [haction] at hallow
    cases hallow
  · intro hsafe w cs hlive hbackup hcs
    refine keepsEdits_of_run hs (by rwa [hlive, hbackup]) ?_ hcs
    rintro ⟨hdeny, hdata, haction⟩
    exact hsafe ⟨Option.some.inj (hlive.symm.trans hdeny), hbackup.symm.trans hdata, haction⟩

/-! ## A trial over a deny configuration -/

/-- The trial of `captured`, whose second read found what an operator had put there. -/
def capturedBaseline : Baseline where
  id := ['7']
  now := 63900000000000000
  minutes := tenMinutes
  boot := some ['1']
  info := ⟨.regular, 0, 0, 0o644⟩
  xattrs := []
  data := deniedConfig
  deny := deniedConfig
  edited := by decide +kernel
  mode := by decide
  names := by decide

/-- Over that trial no restoration is safe. -/
theorem restoreAllow_keepsEdits_iff_captured :
    ¬ ∀ (w : World) (cs : List (Choice Exn World)), w.bytes .config = some capturedBaseline.deny →
      w.bytes .backup = some capturedBaseline.data → (∀ ch ∈ cs, ch.interfere = id) →
      KeepsEdits capturedBaseline w
        ((restoreAllow (some capturedBaseline.state)).run host cs w) := fun h =>
  (restoreAllow_keepsEdits_iff capturedBaseline (.inl rfl) capturedBaseline.deny
    (some capturedBaseline.data)
    ⟨fun _ h _ => (Option.some.inj h).symm, fun _ h _ => (Option.some.inj h).symm⟩).mp h
    ⟨rfl, rfl, by decide +kernel⟩

theorem recorded_captured :
    recorded (core captured) = some (Json.sortMembers capturedBaseline.state) := by
  have hfile : (core captured).state =
      some ⟨⟨.regular, 0, 0, 0o600⟩, [], some (recordBytes capturedBaseline.state)⟩ := by
    decide +kernel
  have hload := stateOf_recordBytes capturedBaseline.isRecord_state
  simp [recorded, hfile, rootRegular_private, hload, Except.toOption]

/-- An operator denied between the two reads of `on`, and the restoration of that trial
returns with DefaultAction still `deny`. -/
theorem not_keepsEdits_captured : ∃ s, recorded (core captured) = some s ∧
    capturedBaseline.Wrote s ∧
    ¬ KeepsEdits capturedBaseline captured ((restoreAllow (some s)).run host (calls 20) captured) := by
  have hreturns : ((restoreAllow (recorded (core captured))).run host (calls 20) captured).1 =
      some (.ok .backup) := by decide +kernel
  have hdenied : ¬ LiveAllow
      (core ((restoreAllow (recorded (core captured))).run host (calls 20) captured).2) := by
    decide +kernel
  rw [recorded_captured] at hreturns hdenied
  exact ⟨_, recorded_captured, .inr (stateOf_recordBytes capturedBaseline.isRecord_state),
    not_keepsEdits_of_returns hreturns hdenied⟩

end Deny
