import BazziteTower.Deny.Enable
import BazziteTower.Deny.Snapshot
import BazziteTower.Deny.Move

/-!
# When `on` starts a trial

Where every call that changes something goes through, `on` still refuses for reasons of
its own: behind the blockers it edits the configuration, and it asks whom the lock file
and the state directory belong to.

## Main definitions

* `Succeeds` — the calls that change something go through.
* `Editable`, `Owned`, `LockSafe` — what `on` asks behind the blockers.
* `StartsTrial` — `on` returns and leaves a pending trial.

## Main results

* `startsTrial_iff` — when `on` starts a trial.
* `canEnable_iff_startsTrial` — when `canEnable` tells so.
-/

open Prog hiding perform

namespace Deny

variable {w : World} {α β : Type}

/-! ## Calls that go through -/

/-- The call goes through; one that looks at a file may find none. -/
def Succeeds (o : Op) (w : World) : Prop :=
  match o with
  | .lstat _ | .xattrs _ | .read _ => True
  | o => (o.perform w).1.isOk

instance : ∀ o w, Decidable (Succeeds o w) := fun o w => by
  unfold Succeeds
  split <;> infer_instance

/-- Every call of the script goes through. -/
abbrev Unhindered (p : Script α) (w : World) : Prop := p.along host Succeeds w

theorem isOk_iff {r : Except Exn α} : r.isOk ↔ ∃ a, r = .ok a := by
  cases r with
  | ok a => exact ⟨fun _ => ⟨a, rfl⟩, fun _ => rfl⟩
  | error e => exact ⟨nofun, nofun⟩

theorem unhindered_bind {p : Script α} {f : α → Script β} {v : World} {a : α}
    (hp : p.exec host w = (.ok a, v)) :
    Unhindered (p.bind f) w ↔ Unhindered p w ∧ Unhindered (f a) v :=
  along_bind_ok hp

theorem unhindered_call {o : Op} {f : o.Res → Script α} {v : World} {a : o.Res}
    (ho : o.perform w = (.ok a, v)) :
    Unhindered ((perform o).bind f) w ↔ Succeeds o w ∧ Unhindered (f a) v :=
  (unhindered_bind (show (perform o).exec host w = (.ok a, v) from ho)).trans
    (and_congr_left fun _ => and_iff_left trivial)

theorem Unhindered.first {p : Script α} {f : α → Script β} (h : Unhindered (p.bind f) w) :
    Unhindered p w :=
  ((along_handle host p _ w).mp h).1

/-! ## Publications -/

/-- If its calls go through, the script only changes the temporary file. -/
def Fills (t : ℕ) (p : Script Unit) : Prop :=
  ∀ (u : World) (n : Node), Unhindered p (u.setTemp t (some n)) →
    ∃ n', p.exec host (u.setTemp t (some n)) = (.ok (), u.setTemp t (some n'))

variable {t : ℕ}

theorem fills_bind {p q : Script Unit} (hp : Fills t p) (hq : Fills t q) :
    Fills t (p.bind fun _ => q) := by
  intro u n h
  obtain ⟨n', hn'⟩ := hp u n h.first
  obtain ⟨m, hm⟩ := hq u n' ((unhindered_bind hn').mp h).2
  exact ⟨m, (exec_bind_ok hn').trans hm⟩

theorem fills_of_amends {p : Script Unit} (hp : ∀ u, Amends u t p) : Fills t p :=
  fun u n _ => hp u n

theorem fills_setxattr (name : Text) (value : Bytes) : Fills t (perform (.setxattr t name value)) := by
  intro u n h
  have hset : u.settable name value := by
    by_contra hne
    have hok : ((Op.setxattr t name value).perform (u.setTemp t (some n))).1.isOk := h.1
    have hne' : ¬ (u.setTemp t (some n)).settable name value := hne
    rw [Op.perform, if_neg hne'] at hok
    exact Bool.false_ne_true hok
  exact amends_setxattr hset n

theorem fills_setxattrs (ys : List (Text × Bytes)) :
    Fills t (ys.forM fun y => perform (.setxattr t y.1 y.2) : Script Unit) := by
  induction ys with
  | nil => exact fun u n _ => ⟨n, rfl⟩
  | cons y ys ih => exact fills_bind (fills_setxattr y.1 y.2) ih

/-- The dictionary of any attributes consists of their members. -/
theorem exists_attributes_eq (xattrs : List (Text × Bytes)) :
    ∃ ys : List (Text × Bytes), attributes xattrs = ys.map member := by
  have hinsert : ∀ (x : Text × Bytes) (ys : List (Text × Bytes)), ∃ zs : List (Text × Bytes),
      Json.insert x.1 (encoded x.2) (ys.map member) = zs.map member := by
    intro x ys
    induction ys with
    | nil => exact ⟨[x], rfl⟩
    | cons y ys ih =>
      obtain ⟨zs, hzs⟩ := ih
      rw [List.map_cons, member, Json.insert]
      split
      · rename_i heq
        exact ⟨(y.1, x.2) :: ys, by simp [member]⟩
      · exact ⟨y :: zs, by rw [hzs]; rfl⟩
  suffices hfold : ∀ ys : List (Text × Bytes), ∃ zs : List (Text × Bytes),
      xattrs.foldl (fun ms x => Json.insert x.1 (encoded x.2) ms) (ys.map member) = zs.map member from
    hfold []
  induction xattrs with
  | nil => exact fun ys => ⟨ys, rfl⟩
  | cons x xs ih =>
    intro ys
    obtain ⟨zs, hzs⟩ := hinsert x ys
    rw [List.foldl_cons, hzs]
    exact ih zs

/-- Giving a file the metadata of another one. -/
theorem fills_prepare {info : Stat} (hmode : info.mode < 4096) (xattrs : List (Text × Bytes))
    (data : Bytes) (mode : ℤ) : Fills t (prepare t data mode (metadataOf info xattrs)) := by
  obtain ⟨ys, hys⟩ := exists_attributes_eq xattrs
  refine fills_bind (fills_of_amends fun u => amends_modify fun _ => rfl) ?_
  have hitems : (metadataOf info xattrs).subscript "xattrs" = .ok (.obj (ys.map member)) :=
    congrArg (fun ms => Except.ok (Json.obj ms)) hys
  have htruthy : (metadataOf info xattrs).truthy := rfl
  rw [if_pos htruthy, applyMetadata_eq rfl (toId_uint32 _) rfl (toId_uint32 _) rfl
    (toMode_uint32 hmode) hitems, forM_member]
  refine fills_bind (fills_of_amends fun u => amends_modify fun _ => rfl) (fills_bind ?_
    (fills_setxattrs ys))
  exact fills_of_amends fun u => amends_modify fun _ => rfl

/-- Only a file that is no directory, and no link to one, is in the way of a directory. -/
theorem isDir_of_mkdirs {p : HostPath} {mode : UInt32} (h : ((Op.mkdirs p mode).perform w).1.isOk)
    (hp : (w.files p).isSome) : w.isDir p := by
  obtain ⟨m, hm⟩ := Option.isSome_iff_exists.mp hp
  by_contra hne
  rw [Op.perform, hm] at h
  simp only [if_neg hne] at h
  exact Bool.false_ne_true h

/-- Only a directory is in the way of putting a file in place. -/
theorem not_directory_of_replace {p : HostPath} {n : Node} (ht : w.temps t = some n)
    (h : ((Op.replace t p).perform w).1.isOk) (m : Node) (hm : w.files p = some m) :
    m.kind ≠ .directory := by
  intro hkind
  have hdir : (w.files p).any fun m => m.kind = .directory := by
    rw [hm]
    simpa using hkind
  simp only [Op.perform, ht] at h
  rw [if_pos hdir] at h
  exact Bool.false_ne_true h

/-- **A publication whose calls go through** goes through. -/
theorem exec_publish_unhindered {p : HostPath} (hne : p.parent ≠ p) {data : Bytes} {mode : ℤ}
    {metadata : Json} {expected : Option Bytes} {D : Node → Prop}
    (h : Unhindered (publish p data mode metadata expected) w)
    (hexpected : ∀ data, expected = some data → w.bytes p = some data)
    (hprepare : Unhindered (prepare w.nextTemp data mode metadata)
        ((opened w p).setTemp w.nextTemp (some (.empty 0o600))) →
      ∃ n, D n ∧ (prepare w.nextTemp data mode metadata).exec host
        ((opened w p).setTemp w.nextTemp (some (.empty 0o600))) =
          (.ok (), (opened w p).setTemp w.nextTemp (some n))) :
    ∃ n, D n ∧ (publish p data mode metadata expected).exec host w = (.ok (), (opened w p).put p n) := by
  have hparent := isDir_of_mkdirs (p := p.parent) h.1
  have hopened := ((unhindered_call (mkdirs_opened hparent)).mp h).2
  have hfilled := ((unhindered_call (mkstemp_opened p)).mp hopened).2
  have hfrom : Unhindered (publishFrom w.nextTemp p data mode metadata expected) _ :=
    ((along_handle host _ _ _).mp hfilled).1
  obtain ⟨n, hn, hprepared⟩ := hprepare hfrom.first
  refine ⟨n, hn, exec_publish hne ⟨hparent, fun m hm hkind => ?_, hexpected⟩ hprepared⟩
  have hsynced := ((unhindered_bind hprepared).mp hfrom).2
  have hchecked := ((unhindered_call (o := .fsync _) rfl).mp hsynced).2
  have hreplaced := ((unhindered_bind (exec_checkExpected_opened hne hexpected n)).mp hchecked).2
  refine not_directory_of_replace (t := w.nextTemp) (n := n) (by simp [World.setTemp]) hreplaced.1 m ?_
    hkind
  exact (files_opened hne.symm).trans hm

/-! ## The records -/

/-- What stands at the state directory, if anything, is a directory of root, and no link. -/
def Owned (w : World) : Prop := ∀ n, w.files .stateDir = some n → n.kind = .directory ∧ n.uid = 0

/-- The state with another state directory. -/
def withStateDir (w : World) (n : Node) : World :=
  { w with files := Function.update w.files .stateDir (some n) }

theorem mkdirs_stateDir (h : ((Op.mkdirs .stateDir 0o700).perform w).1.isOk) :
    ∃ n : Node, (n.kind = .directory ∧ n.uid = 0 ↔ Owned w) ∧
      (Op.mkdirs .stateDir 0o700).perform w = (.ok (), withStateDir w n) := by
  cases hm : w.files .stateDir with
  | none =>
    refine ⟨.directory 0o700, iff_of_true ⟨rfl, rfl⟩ ?_, by simp [Op.perform, hm, withStateDir]⟩
    intro n hn
    rw [hm] at hn
    cases hn
  | some m =>
    have hdir := isDir_of_mkdirs h (by rw [hm]; rfl)
    refine ⟨m, ⟨fun hm' n hn => ?_, fun howned => howned m hm⟩, ?_⟩
    · rw [hm] at hn
      exact Option.some.inj hn ▸ hm'
    · simp only [Op.perform, hm, if_pos hdir, withStateDir]
      rw [← hm, Function.update_eq_self]

/-- The state directory gets its mode; where it is a link, what that leads to does. -/
theorem chmod_stateDir {n : Node}
    (h : ((Op.chmod .stateDir 0o700).perform (withStateDir w n)).1.isOk) :
    ∃ m : Node, m.kind = n.kind ∧ m.uid = n.uid ∧ (n.kind ≠ .symlink → m.mode = 0o700) ∧
      (Op.chmod .stateDir 0o700).perform (withStateDir w n) = (.ok (), withStateDir w m) := by
  have hn : (withStateDir w n).files .stateDir = some n := by simp [withStateDir]
  by_cases hlink : n.kind = .symlink
  · refine ⟨n, rfl, rfl, fun hne => absurd hlink hne, ?_⟩
    simp only [Op.perform, hn, if_pos hlink] at h ⊢
    split_ifs at h ⊢ with htarget
    · rfl
    · exact (Bool.false_ne_true h).elim
  · exact ⟨{ n with mode := 0o700 }, rfl, rfl, fun _ => rfl, by simp [Op.perform, hlink, withStateDir]⟩

/-- The state directory passes its check if it is a directory of root. -/
theorem exec_stateDir_unhindered (h : Unhindered stateDir w) : ∃ (r : Except Exn Unit) (n : Node),
    stateDir.exec host w = (r, withStateDir w n) ∧ (r = .ok () ↔ Owned w) := by
  obtain ⟨n, howned, hmkdirs⟩ := mkdirs_stateDir h.1
  have hmade := ((unhindered_call hmkdirs).mp h).2
  obtain ⟨m, hkind, huid, hmode, hchmod⟩ := chmod_stateDir hmade.1
  have hlstat : (Op.lstat (.file .stateDir)).perform (withStateDir w m) =
      (.ok m.toStat, withStateDir w m) := by
    simp [Op.perform, withStateDir, World.node, existing]
  refine ⟨_, m, (exec_call hmkdirs).trans ((exec_call hchmod).trans (exec_call hlstat)), ?_⟩
  rw [refuseUnless_eq_ok, ← howned, ← hkind, ← huid]
  constructor
  · intro hcheck
    simp only [Bool.and_eq_true, decide_eq_true_eq] at hcheck
    exact hcheck.1
  · rintro ⟨hdir, hroot⟩
    have hne : n.kind ≠ .symlink := by
      rw [← hkind, hdir]
      decide
    simp [hdir, hroot, hmode hne]

/-- The records of a trial are written if the state directory is one of root. -/
theorem exec_record_unhindered {data : Bytes} {state : Fields} (h : Unhindered (record data state) w) :
    ∃ (r : Except Exn Unit) (v : World), (record data state).exec host w = (r, v) ∧
      (r = .ok () ↔ Owned w) ∧ (r = .ok () → v.files .config = w.files .config ∧
        ∃ n, StateNode state n ∧ v.files .state = some n) := by
  obtain ⟨r, m, hstateDir, howned⟩ := exec_stateDir_unhindered h.first
  cases r with
  | error e => exact ⟨_, _, exec_bind_error hstateDir, howned, nofun⟩
  | ok _ =>
    have hbackup := ((unhindered_bind hstateDir).mp h).2
    obtain ⟨b, -, hb⟩ := exec_publish_unhindered (D := fun _ => True) (by decide) hbackup.first
      nofun fun _ => (exec_prepare_mode data 0o600).imp fun _ hn => ⟨trivial, hn.2⟩
    have hsave := ((unhindered_bind hb).mp hbackup).2
    obtain ⟨n, hn, hexec⟩ := exec_publish_unhindered (by decide) hsave nofun
      fun _ => exec_prepare_mode (recordBytes state) 0o600
    refine ⟨_, _, (exec_bind_ok hstateDir).trans ((exec_bind_ok hb).trans hexec), ?_, fun _ => ?_⟩
    · exact iff_of_true rfl (howned.mp rfl)
    · refine ⟨?_, n, hn, by simp [World.put]⟩
      rw [files_opened_put (p := .state) (q := .config) (by decide) (by decide),
        files_opened_put (p := .backup) (q := .config) (by decide) (by decide)]
      simp [withStateDir]

/-! ## The launch -/

theorem startTimer_unhindered {minutes : ℕ} {calendar : Text}
    (h : ((Op.startTimer minutes calendar).perform w).1.isOk) :
    (Op.startTimer minutes calendar).perform w = (.ok (), { w with timer := true }) := by
  cases htimer : w.timer with
  | false => simp [Op.perform, htimer]
  | true =>
    simp only [Op.perform, htimer, if_true] at h
    exact (Bool.false_ne_true h).elim

/-- The launch of a trial goes through, while the configuration is as it was read. -/
theorem exec_launch_unhindered {minutes : Minutes} {data deny : Bytes} {info : Stat}
    (hmode : info.mode < 4096) (xattrs : List (Text × Bytes)) {state : Fields}
    (hdata : w.bytes .config = some data)
    (h : Unhindered (launch minutes data (metadataOf info xattrs) deny state) w) :
    ∃ v, (launch minutes data (metadataOf info xattrs) deny state).exec host w = (.ok (), v) ∧
      v.files .state = w.files .state := by
  have htimer := startTimer_unhindered h.1
  have hpublish := ((unhindered_call htimer).mp h).2
  obtain ⟨n, -, hn⟩ := exec_publish_unhindered (D := fun _ => True) (by decide) hpublish.first
    (fun data' hdata' => by cases hdata'; exact hdata)
    fun hprepare => (fills_prepare hmode xattrs deny 0o600 _ _ hprepare).imp fun _ hn' => ⟨trivial, hn'⟩
  let u := (opened { w with timer := true } .config).put .config n
  have hrestart : (Op.restart .opensnitch).perform u =
      (.ok (), ((Op.restart .opensnitch).perform u).2) := rfl
  have hstate : u.files .state = w.files .state :=
    files_opened_put (p := .config) (q := .state) (by decide) (by decide) n
  have hactive : Answers host serviceActive (.ok true) ((Op.restart .opensnitch).perform u).2 := by
    refine answers_bind_ok (answers_call rfl) ?_
    simp only [Op.perform, Function.update_self]
    exact answers_done _ _
  exact ⟨((Op.restart .opensnitch).perform u).2, (exec_call htimer).trans ((exec_bind_ok hn).trans
    ((exec_call hrestart).trans ((exec_bind_ok hactive).trans rfl))), hstate⟩

/-- The failure handler of `on` always raises. -/
theorem rollBack_ne_ok (state : Fields) (invoked : Bool) (error : Exn) (u : Unit) :
    ((rollBack state invoked error).exec host w).1 ≠ .ok u := by
  have hreturns : (rollBack state invoked error).returns fun _ => False :=
    returns_bind (returns_of_forall (F := fun _ => True) (fun _ => trivial) _) fun _ _ =>
      returns_bind (returns_of_forall (F := fun _ => True) (fun _ => trivial) _) fun _ _ =>
        returns_bind (returns_of_forall (F := fun _ => True) (fun _ => trivial) _) fun _ _ =>
          returns_bind (returns_of_forall (F := fun _ => True) (fun _ => trivial) _) fun _ _ => nofun
  exact returns_exec hreturns

/-- A trial starts if the state directory is one of root. -/
theorem exec_trial_unhindered {minutes : Minutes} {data deny : Bytes} {info : Stat}
    (hmode : info.mode < 4096) (xattrs : List (Text × Bytes)) {state : Fields} {boot : Option Text}
    (hstate : Starts boot state) (hdata : w.bytes .config = some data)
    (h : Unhindered (trial minutes data (metadataOf info xattrs) deny state) w) :
    (((trial minutes data (metadataOf info xattrs) deny state).exec host w).1 = .ok () ↔ Owned w) ∧
      (Owned w →
        Pending (core ((trial minutes data (metadataOf info xattrs) deny state).exec host w).2)) := by
  obtain ⟨r, v, hrecord, howned, hrecorded⟩ :=
    exec_record_unhindered ((along_handle host _ _ w).mp h).1
  have hafter := ((along_handle host _ _ w).mp h).2
  rw [hrecord] at hafter
  simp only [trial, exec_handle, hrecord]
  cases r with
  | error e =>
    have hne := rollBack_ne_ok (w := v) state false e
    exact ⟨iff_of_false (hne ()) fun hw => absurd (howned.mpr hw) nofun,
      fun hw => absurd (howned.mpr hw) nofun⟩
  | ok a =>
    obtain ⟨hconfig, n, hn, hfile⟩ := hrecorded rfl
    have hlive : v.bytes .config = some data := by
      rw [World.bytes, hconfig]
      exact hdata
    obtain ⟨u, hlaunch, hkept⟩ := exec_launch_unhindered hmode xattrs hlive
      ((along_handle host _ _ v).mp hafter).1
    simp only [exec_handle, hlaunch]
    refine ⟨iff_of_true (congrArg Prod.fst (exec_publishSnapshot u)) (howned.mp rfl), fun _ => ?_⟩
    have hcore : core (publishSnapshot.exec host u).2 = core u :=
      wp_exec (meets_reads (G := fun _ _ => True) (I := (· = core u)) reads_publishSnapshot
        (fun _ => trivial) (quiet_calm.keeps _) rfl) fun _ _ => rfl
    rw [hcore]
    exact pending_of_stateNode (hkept.trans hfile) hstate hn

/-! ## The command -/

/-- The live configuration can be edited to `deny`. -/
def Editable (w : World) : Prop :=
  ∀ data, w.bytes .config = some data → ∃ deny, setAction data .deny = .ok deny

theorem configIn_eq_ok {n : Option Node} {x : Bytes × Json} (h : configIn n = .ok x) :
    ∃ m, n = some m ∧ m.data = some x.1 ∧ x.2 = metadataOf m.toStat m.xattrs := by
  cases n with
  | none => cases h
  | some m =>
    obtain ⟨info, hinfo, h⟩ := Except.bind_eq_ok.mp h
    obtain ⟨-, -, h⟩ := Except.bind_eq_ok.mp h
    obtain ⟨xattrs, hxattrs, h⟩ := Except.bind_eq_ok.mp h
    obtain ⟨data, hdata, h⟩ := Except.bind_eq_ok.mp h
    cases hinfo
    cases hxattrs
    cases h
    exact ⟨m, rfl, contents_eq_ok.mp hdata, rfl⟩

/-- `on` starts a trial where nothing blocks it, the configuration can be edited and the state
directory is one of root. -/
theorem exec_turnOn_unhindered {minutes : Minutes} {blockers : List String} (hfinds : Finds w blockers)
    (hmode : ∀ n, w.files .config = some n → n.mode < 4096) (h : Unhindered (turnOn minutes) w) :
    (((turnOn minutes).exec host w).1 = .ok () ↔ Eligible w ∧ Editable w ∧ Owned w) ∧
      (((turnOn minutes).exec host w).1 = .ok () →
        Pending (core ((turnOn minutes).exec host w).2)) := by
  have hpreflight := answers_preflight hfinds
  rw [← hfinds.eq_nil_iff]
  by_cases hblockers : blockers = []
  · subst hblockers
    obtain ⟨⟨data, metadata⟩, hread, -⟩ := (hfinds.eq_nil_iff.mp rfl).config
    obtain ⟨m, hm, hdata, hmetadata⟩ := configIn_eq_ok hread
    have hcapture : Answers host capture (.ok (data, metadata)) w :=
      answers_bind_ok hpreflight (hread ▸ answers_readConfig)
    have hbytes : w.bytes .config = some data := by
      rw [World.bytes, hm]
      exact hdata
    have hrest := ((unhindered_bind hcapture).mp h).2
    cases hedit : setAction data .deny with
    | error e =>
      have hlift : (lift (setAction data .deny) : Script Bytes).exec host w = (.error e, w) := by
        rw [hedit]
        rfl
      have hrefused : (turnOn minutes).exec host w = (.error e, w) :=
        (exec_bind_ok hcapture).trans (exec_bind_error hlift)
      rw [hrefused]
      refine ⟨iff_of_false nofun fun hall => ?_, nofun⟩
      obtain ⟨deny, hdeny⟩ := hall.2.1 data hbytes
      rw [hedit] at hdeny
      cases hdeny
    | ok deny =>
      have hlift : (lift (setAction data .deny) : Script Bytes).exec host w = (.ok deny, w) := by
        rw [hedit]
        rfl
      let state := trialState (uuidHex w.drawn) w.clock minutes data deny metadata w.bootId
      have hexec : (turnOn minutes).exec host w =
          (trial minutes data metadata deny state).exec host { w with drawn := w.drawn + 1 } :=
        (exec_bind_ok hcapture).trans ((exec_bind_ok hlift).trans ((exec_call (o := .now) rfl).trans
          ((exec_call (o := .uuid) rfl).trans (exec_bind_ok answers_bootId))))
      have hlifted := ((unhindered_bind hlift).mp hrest).2
      have hdrawn := ((unhindered_call (o := .uuid) rfl).mp
        ((unhindered_call (o := .now) rfl).mp hlifted).2).2
      have htrial := ((unhindered_bind answers_bootId).mp hdrawn).2
      obtain rfl : metadata = metadataOf m.toStat m.xattrs := hmetadata
      have hstarts : Starts w.bootId state :=
        ⟨isRecord_trialState _ _ _ _ _ (plain_metadataOf (Json.recursionLimit - 3) _ _) _, rfl,
          w.bootId, rfl, .inr rfl⟩
      obtain ⟨howned, hpending⟩ := exec_trial_unhindered (w := { w with drawn := w.drawn + 1 })
        (hmode m hm) m.xattrs hstarts hbytes htrial
      have heditable : Editable w := by
        intro data' hdata'
        obtain rfl : data = data' := Option.some.inj (hbytes.symm.trans hdata')
        exact ⟨deny, hedit⟩
      rw [hexec]
      exact ⟨howned.trans ⟨fun hw => ⟨rfl, heditable, hw⟩, fun hall => hall.2.2⟩,
        fun hok => hpending (howned.mp hok)⟩
  · have hrefused : (turnOn minutes).exec host w = (.error (.refusal ("cannot enable deny: " ++
        "; ".intercalate blockers) false), w) := by
      have hempty : blockers.isEmpty = false := by simpa using hblockers
      rw [hempty] at hpreflight
      exact exec_bind_error (exec_bind_error hpreflight)
    rw [hrefused]
    exact ⟨iff_of_false nofun fun hall => hblockers hall.1, nofun⟩

/-- The lock file, if there is one, is a private file of root. -/
def LockSafe (w : World) : Prop :=
  ∀ n, w.files .lock = some n → n.kind = .regular ∧ n.uid = 0 ∧ n.mode = 0o600

/-- The state under the lock. -/
def underLock (w : World) (files : HostPath → Option Node) : World :=
  { w with files := files, holder := .self }

theorem openLock_unhindered (h : ((Op.openLock).perform w).1.isOk) :
    ∃ (info : Stat) (files : HostPath → Option Node),
      (Op.openLock).perform w = (.ok info, { w with files := files }) ∧
        (LockSafe w ↔ info.kind = .regular ∧ info.uid = 0 ∧ info.mode = 0o600) ∧
          ∀ p, p ≠ .lock → files p = w.files p := by
  cases hm : w.files .lock with
  | none =>
    refine ⟨(Node.empty 0o600).toStat, Function.update w.files .lock (some (.empty 0o600)), ?_, ?_,
      fun p hp => Function.update_of_ne hp ..⟩
    · simp [Op.perform, hm]
    · refine iff_of_true (fun n hn => ?_) ⟨rfl, rfl, rfl⟩
      rw [hm] at hn
      cases hn
  | some m =>
    refine ⟨m.toStat, w.files, ?_, ⟨fun hsafe => hsafe m hm, fun hsafe n hn => ?_⟩, fun _ _ => rfl⟩
    · simp only [Op.perform, hm] at h ⊢
      split_ifs at h ⊢
      all_goals first | rfl | exact (Bool.false_ne_true h).elim
    · rw [hm] at hn
      exact Option.some.inj hn ▸ hsafe

theorem flock_unhindered {wait : Bool} (h : ((Op.flock wait).perform w).1.isOk) :
    (Op.flock wait).perform w = (.ok (), { w with holder := .self }) := by
  by_cases hholder : w.holder = .nobody
  · exact if_pos hholder
  · rw [Op.perform, if_neg hholder] at h
    exact (Bool.false_ne_true h).elim

/-- A script under the lock runs if the lock file is safe. -/
theorem exec_policyLock_unhindered {body : Script Unit} (h : Unhindered (policyLock false body) w) :
    ∃ files : HostPath → Option Node, (∀ p, p ≠ .lockDir → p ≠ .lock → files p = w.files p) ∧
      (LockSafe w → Unhindered body (underLock w files) ∧
        (policyLock false body).exec host w = ((body.exec host (underLock w files)).1,
          ((Op.closeLock).perform (body.exec host (underLock w files)).2).2)) ∧
      (¬ LockSafe w → ∀ u, ((policyLock false body).exec host w).1 ≠ .ok u) := by
  have hmkdirs := mkdirs_opened (w := w) (p := .lock) (isDir_of_mkdirs h.1)
  have hopening := ((unhindered_call hmkdirs).mp h).2
  obtain ⟨info, files, hopen, hsafe, hfiles⟩ := openLock_unhindered hopening.1
  have hbody := ((unhindered_call hopen).mp hopening).2
  have hstart : LockSafe { w with files := (opened w .lock).files } ↔ LockSafe w := by
    unfold LockSafe
    rw [show (opened w .lock).files .lock = w.files .lock from files_opened (by decide)]
  rw [hstart] at hsafe
  refine ⟨files, fun p hdir hp => (hfiles p hp).trans (files_opened hdir), fun hw => ?_, fun hw u => ?_⟩
  · have hcheck : (require (info.kind = .regular && info.uid = 0 && info.mode = 0o600)
        "unsafe policy lock file").exec host { w with files := files } =
          (.ok (), { w with files := files }) := by
      have hinfo := hsafe.mp hw
      simp [require, refuseUnless, lift, hinfo]
    have hlocking := ((unhindered_bind hcheck).mp ((along_handle host _ _ _).mp hbody).1).2
    have hflock := flock_unhindered hlocking.1
    refine ⟨((unhindered_call hflock).mp hlocking).2, (exec_call hmkdirs).trans
      ((exec_call hopen).trans (exec_ensuring ((exec_bind_ok hcheck).trans
        ((exec_call hflock).trans rfl)) rfl))⟩
  · have hcheck : (require (info.kind = .regular && info.uid = 0 && info.mode = 0o600)
        "unsafe policy lock file").exec host { w with files := files } =
          (.error (.refusal "unsafe policy lock file" false), { w with files := files }) := by
      have hinfo : (info.kind = .regular && info.uid = 0 && info.mode = 0o600) = false := by
        rw [← Bool.not_eq_true]
        intro hinfo
        simp only [Bool.and_eq_true, decide_eq_true_eq, and_assoc] at hinfo
        exact hw (hsafe.mpr hinfo)
      rw [require, hinfo]
      rfl
    have hrefused : (policyLock false body).exec host w =
        (.error (.refusal "unsafe policy lock file" false),
          ((Op.closeLock).perform { w with files := files }).2) :=
      (exec_call hmkdirs).trans ((exec_call hopen).trans (exec_ensuring (exec_bind_error hcheck) rfl))
    rw [hrefused]
    rintro ⟨⟩

theorem Finds.of_eq {blockers : List String} {v : World} (h : Finds w blockers)
    (hfiles : ∀ p ∈ [HostPath.config, .socket, .state, .marker], v.files p = w.files p)
    (hactive : v.active = w.active) (hclock : v.clock = w.clock) : Finds v blockers := by
  obtain ⟨profile, action, configBlockers, state, pending, confirmed, hinspect, hstate, hpending,
    hconfirmed, heq⟩ := h.found
  have hfile : ∀ p ∈ [HostPath.config, .socket, .state, .marker], w.files p = v.files p :=
    fun p hp => (hfiles p hp).symm
  refine ⟨profile, action, configBlockers, state, pending, confirmed, ?_, ?_, ?_, ?_, heq⟩
  · simpa only [inspectIn, hfile _ (by simp : HostPath.config ∈ _), hactive,
      hfile _ (by simp : HostPath.socket ∈ _)] using hinspect
  · rwa [hfiles _ (by simp)]
  · rwa [hclock]
  · rwa [hfiles _ (by simp), hfiles _ (by simp)]

/-- `on` returns, and leaves a pending trial. -/
structure StartsTrial (minutes : Minutes) (w : World) : Prop where
  returns : ((commandScript (.on minutes)).exec host w).1 = .ok ()
  pending : Pending (core ((commandScript (.on minutes)).exec host w).2)

/-- **When `on` starts a trial**, if its calls go through. -/
theorem startsTrial_iff {minutes : Minutes} {blockers : List String} (hfinds : Finds w blockers)
    (hmode : ∀ n, w.files .config = some n → n.mode < 4096)
    (h : Unhindered (commandScript (.on minutes)) w) :
    StartsTrial minutes w ↔ Eligible w ∧ Editable w ∧ Owned w ∧ LockSafe w := by
  obtain ⟨files, hfiles, hsafe, hunsafe⟩ := exec_policyLock_unhindered h
  by_cases hlock : LockSafe w
  · obtain ⟨hbody, hexec⟩ := hsafe hlock
    have hconfig : files .config = w.files .config := hfiles .config (by decide) (by decide)
    have hdir : files .stateDir = w.files .stateDir := hfiles .stateDir (by decide) (by decide)
    have hfinds' : Finds (underLock w files) blockers := by
      refine hfinds.of_eq (fun p hp => ?_) rfl rfl
      simp only [List.mem_cons, List.not_mem_nil, or_false] at hp
      rcases hp with rfl | rfl | rfl | rfl <;> exact hfiles _ (by decide) (by decide)
    have heligible : Eligible (underLock w files) ↔ Eligible w :=
      hfinds'.eq_nil_iff.symm.trans hfinds.eq_nil_iff
    have heditable : Editable (underLock w files) ↔ Editable w := by
      simp only [Editable, World.bytes, underLock, hconfig]
    have howned : Owned (underLock w files) ↔ Owned w := by
      simp only [Owned, underLock, hdir]
    obtain ⟨hreturns, hpending⟩ := exec_turnOn_unhindered hfinds'
      (fun n hn => hmode n (hconfig.symm.trans hn)) hbody
    rw [heligible, heditable, howned] at hreturns
    constructor
    · intro hstarts
      have hok := hstarts.returns
      rw [commandScript, hexec] at hok
      obtain ⟨hw, hedit, hroot⟩ := hreturns.mp hok
      exact ⟨hw, hedit, hroot, hlock⟩
    · rintro ⟨hw, hedit, hroot, -⟩
      have hok := hreturns.mpr ⟨hw, hedit, hroot⟩
      refine ⟨?_, ?_⟩
      · rw [commandScript, hexec]
        exact hok
      · rw [commandScript, hexec]
        exact hpending hok
  · exact iff_of_false (fun hstarts => hunsafe hlock () hstarts.returns) fun hall => hlock hall.2.2.2

/-- **When `canEnable` tells whether `on` starts a trial**: it is always right about a state in
which something blocks one. -/
theorem canEnable_iff_startsTrial {minutes : Minutes} {report : Fields} {v : World}
    (hreport : buildReport.exec host w = (.ok report, v))
    (hmode : ∀ n, w.files .config = some n → n.mode < 4096)
    (h : Unhindered (commandScript (.on minutes)) w) :
    (report.get "canEnable" = .bool true ↔ StartsTrial minutes w) ↔
      (Eligible w → Editable w ∧ Owned w ∧ LockSafe w) := by
  obtain ⟨blockers, hfinds, -⟩ := finds_of_buildReport hreport
  rw [canEnable_iff hreport, startsTrial_iff hfinds hmode h]
  tauto

theorem exec_eq_of_fst {p : Script α} {r : Except Exn α} (h : (p.exec host w).1 = r) :
    p.exec host w = (r, (p.exec host w).2) := by
  rw [← h]

set_option maxRecDepth 100000 in
theorem unhindered_installed : Unhindered (commandScript (.on tenMinutes)) installed := by
  decide +kernel

/-- On the machine without a trial `canEnable` is right. -/
theorem canEnable_iff_startsTrial_installed :
    ∃ report v, buildReport.exec host installed = (.ok report, v) ∧
      ((report.get "canEnable" = .bool true ↔ StartsTrial tenMinutes installed) ↔
        (Eligible installed → Editable installed ∧ Owned installed ∧ LockSafe installed)) := by
  have hok : (buildReport.exec host installed).1.isOk := by decide +kernel
  obtain ⟨report, hreport⟩ := isOk_iff.mp hok
  have hmode : ∀ n, installed.files .config = some n → n.mode < 4096 := by
    rintro n ⟨⟩
    decide
  exact ⟨report, _, exec_eq_of_fst hreport,
    canEnable_iff_startsTrial (exec_eq_of_fst hreport) hmode unhindered_installed⟩

/-! ## A key that is spelled twice -/

/-- The configuration of `installed` with its DefaultAction spelled twice. -/
def repeatedConfig : Bytes := installedConfig.dropLast ++ ascii ",\"DefaultAction\":\"allow\"\x7d"

/-- `installed` with that configuration. -/
def repeated : World :=
  { installed with
    files := Function.update installed.files .config
      (some ⟨⟨.regular, 0, 0, 0o644⟩, [], some repeatedConfig⟩) }

theorem canEnable_repeated : (buildReport.exec host repeated).1.toOption.any fun report =>
    (report.get "canEnable").truthy := by
  decide +kernel

set_option maxRecDepth 100000 in
theorem unhindered_repeated : Unhindered (commandScript (.on tenMinutes)) repeated := by
  decide +kernel

theorem refused_repeated :
    (((commandScript (.on tenMinutes)).exec host repeated).1.isOk) = false := by
  decide +kernel

/-- `status` offers a trial there, and `on` refuses to start it. -/
theorem not_startsTrial_repeated :
    (∃ report v, buildReport.exec host repeated = (.ok report, v) ∧
      report.get "canEnable" = .bool true) ∧
      Unhindered (commandScript (.on tenMinutes)) repeated ∧ ¬ StartsTrial tenMinutes repeated := by
  refine ⟨?_, unhindered_repeated, fun hstarts => ?_⟩
  · obtain ⟨report, hreport, htruthy⟩ := (Option.any_eq_true ..).mp canEnable_repeated
    have hok : (buildReport.exec host repeated).1 = .ok report := by
      cases hr : (buildReport.exec host repeated).1 with
      | error e =>
        rw [hr] at hreport
        cases hreport
      | ok r =>
        rw [hr] at hreport
        rw [Option.some.inj hreport]
    obtain ⟨blockers, -, hget⟩ := finds_of_buildReport (exec_eq_of_fst hok)
    rw [hget] at htruthy
    refine ⟨report, _, exec_eq_of_fst hok, ?_⟩
    rw [hget]
    exact congrArg Json.bool htruthy
  · have hrefused := refused_repeated
    rw [hstarts.returns] at hrefused
    exact Bool.noConfusion hrefused

end Deny
