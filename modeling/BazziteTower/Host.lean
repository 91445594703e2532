import BazziteTower.Lib.Calendar
import BazziteTower.Lib.Json
import BazziteTower.Lib.Program

/-!
# The host

The machine that the privileged helpers run on: the files they name, the
temporary files they create, the units and the transient revert timer that
systemd keeps, the configuration that the daemon loaded at its last start, the
policy lock, the clock and the boot id.  Every system call or command of a helper
is one `Op`; `Op.perform` is what it does when it is not struck by a failure.

The `history` of published, removed and edited files is a ghost: no call reads it,
and the display snapshot, which records nothing, is left out of it.

## Main definitions

* `Exn` — the exceptions that the helpers raise and tell apart.
* `HostPath`, `Loc`, `Node` — names and files.
* `World`, `Op`, `Op.perform`, `host` — the state and the calls.
-/

/-! ## Files -/

/-- The files and directories that the helpers name. -/
inductive HostPath
  /-- `/etc/opensnitchd` and the live `default-config.json` in it. -/
  | configDir | config
  /-- `/etc/bazzite-tower` and the opt-in marker in it. -/
  | markerDir | marker
  /-- The state directory of the deny helper, its state and its backup. -/
  | stateDir | state | backup
  /-- A quarantined state, by the stamp and the number in its name. -/
  | corrupt (stamp : Text) (number : ℕ)
  /-- `/run/snitchwatch`, the display snapshot and the bridge socket in it. -/
  | runDir | snapshot | socket
  | lockDir | lock
  /-- The migration journal: its directory, the current record, an archived record
  and a retained displaced configuration, by their ids. -/
  | journalDir | current | archive (id : Text) | displaced (id : Text)
  deriving DecidableEq, Repr

/-- The directory of a path. -/
def HostPath.parent : HostPath → HostPath
  | .config => .configDir
  | .marker => .markerDir
  | .state | .backup | .corrupt _ _ => .stateDir
  | .snapshot | .socket => .runDir
  | .lock => .lockDir
  | .current | .archive _ | .displaced _ => .journalDir
  | p => p

/-- The absolute name of a path, as it stands in messages. -/
def HostPath.name : HostPath → String
  | .configDir => "/etc/opensnitchd"
  | .config => "/etc/opensnitchd/default-config.json"
  | .markerDir => "/etc/bazzite-tower"
  | .marker => "/etc/bazzite-tower/snitchwatch-deny-optin"
  | .stateDir => "/var/lib/bazzite-tower/snitchwatch-deny"
  | .state => "/var/lib/bazzite-tower/snitchwatch-deny/state.json"
  | .backup => "/var/lib/bazzite-tower/snitchwatch-deny/config.backup"
  | .corrupt stamp number => "/var/lib/bazzite-tower/snitchwatch-deny/state.json.corrupt-" ++
      String.ofList stamp ++ if number = 0 then "" else "-" ++ toString number
  | .runDir => "/run/snitchwatch"
  | .snapshot => "/run/snitchwatch/deny-status.json"
  | .socket => "/run/snitchwatch/opensnitchd.sock"
  | .lockDir => "/run/lock"
  | .lock => "/run/lock/bazzite-tower-snitchwatch-migration.lock"
  | .journalDir => "/var/lib/bazzite-tower/snitchwatch-migration"
  | .current => "/var/lib/bazzite-tower/snitchwatch-migration/current.json"
  | .archive id => "/var/lib/bazzite-tower/snitchwatch-migration/" ++ String.ofList id ++ ".json"
  | .displaced id => "/var/lib/bazzite-tower/snitchwatch-migration/displaced-config-" ++
      String.ofList id

/-- A named file, or a temporary one by its number. -/
inductive Loc
  | file (p : HostPath)
  | temp (t : ℕ)
  deriving DecidableEq, Repr

inductive FileKind
  | regular | directory | symlink | socket | other
  deriving DecidableEq, Repr

/-- What `lstat` reports. -/
structure Stat where
  kind : FileKind
  uid : UInt32
  gid : UInt32
  mode : UInt32
  deriving DecidableEq, Repr

/-- A file: its status, its extended attributes, and the bytes that opening and
reading it yields, if that works. -/
structure Node extends Stat where
  xattrs : List (Text × Bytes)
  data : Option Bytes
  deriving DecidableEq, Repr

/-- A directory that root made. -/
def Node.directory (mode : UInt32) : Node := ⟨⟨.directory, 0, 0, mode⟩, [], none⟩

/-- An empty regular file of root. -/
def Node.empty (mode : UInt32) : Node := ⟨⟨.regular, 0, 0, mode⟩, [], some []⟩

/-! ## Exceptions -/

/-- The classes of exceptions, apart from refusals, that the helpers tell apart. -/
inductive ExnKind
  | fileNotFound | notADirectory | os | value | key | type | attribute | overflow | recursion
  | timeout | interrupt
  deriving DecidableEq, Repr

/-- An exception: `common.Refusal` with its `busy` mark, the `PublicationDrift` of
a migration with its `recovery_file`, or another class with its text. -/
inductive Exn
  | refusal (message : String) (busy : Bool)
  | drift (recoveryFile : HostPath)
  | raised (kind : ExnKind) (message : String)
  deriving DecidableEq, Repr

namespace Exn

/-- `str(error)`. -/
def text : Exn → String
  | .refusal message _ => message
  | .drift p => "config changed at atomic publication; displaced config retained at " ++ p.name ++
      "; daemon remains stopped for manual recovery"
  | .raised _ message => message

def isFileNotFound : Exn → Bool
  | .raised .fileNotFound _ => true
  | _ => false

/-- `FileNotFoundError` or `NotADirectoryError`. -/
def isAbsent : Exn → Bool
  | .raised .fileNotFound _ | .raised .notADirectory _ => true
  | _ => false

def isOSError : Exn → Bool
  | .raised .fileNotFound _ | .raised .notADirectory _ | .raised .os _ => true
  | _ => false

def isValueError : Exn → Bool
  | .raised .value _ => true
  | _ => false

def isKeyError : Exn → Bool
  | .raised .key _ => true
  | _ => false

def isAttributeError : Exn → Bool
  | .raised .attribute _ => true
  | _ => false

def isTimeout : Exn → Bool
  | .raised .timeout _ => true
  | _ => false

/-- `common.Refusal`, of which `PublicationDrift` is a subclass. -/
def isRefusal : Exn → Bool
  | .refusal _ _ | .drift _ => true
  | .raised _ _ => false

def isDrift : Exn → Bool
  | .drift _ => true
  | _ => false

/-- `Exception`: everything but an interrupt. -/
def isException : Exn → Bool
  | .raised .interrupt _ => false
  | _ => true

/-- The `busy` attribute, which only a contended lock sets. -/
def isBusy : Exn → Bool
  | .refusal _ busy => busy
  | _ => false

end Exn

/-! ## Units -/

inductive Service
  | grpcSocket | guiSocket | bridge | opensnitch
  deriving DecidableEq, Repr

/-- What `systemctl is-active` prints; `transitioning` is any other word. -/
inductive ActiveState
  | active | inactive | failed | transitioning
  deriving DecidableEq, Repr

/-- What `systemctl is-enabled` prints; `other` is any other word. -/
inductive EnabledState
  | enabled | enabledRuntime | disabled | static | masked | maskedRuntime | indirect | other
  deriving DecidableEq, Repr

/-- The read-only checks of the shared module that only pass, with what they
return, or raise. -/
inductive Check
  | immutable | manifestDigest | accountIds | unitContract | localConflicts | flatpakProfiles
  | legacyAbsent | legacyReference | systemReference | runtimeReadiness
  deriving DecidableEq, Repr

/-- Who holds the policy lock: nobody, the running helper, or another process. -/
inductive LockHolder
  | nobody | self | another
  deriving DecidableEq, Repr

/-! ## The state -/

/-- What the ghost history records. -/
inductive Event
  /-- A helper put a file in place. -/
  | put (p : HostPath) (data : Option Bytes)
  /-- A helper removed a file. -/
  | drop (p : HostPath)
  /-- An operator replaced the live configuration. -/
  | edit (old new : Option Bytes)
  deriving DecidableEq

/-- The state of the host. -/
structure World where
  files : HostPath → Option Node
  temps : ℕ → Option Node
  /-- What a symbolic link at a path leads to, if it leads to a file. -/
  target : HostPath → Option FileKind := fun _ => none
  /-- The next temporary file that `mkstemp` creates. -/
  nextTemp : ℕ
  /-- No quarantined state has this number or a larger one. -/
  corruptBound : ℕ
  /-- Whether the transient revert timer is armed. -/
  timer : Bool
  active : Service → ActiveState
  enabled : Service → EnabledState
  /-- The configuration that the daemon read at its last start. -/
  loaded : Option Bytes
  holder : LockHolder
  bootId : Option Text
  clock : Moment
  /-- How many random identifiers were drawn. -/
  drawn : ℕ
  /-- Which extended attributes the file system accepts. -/
  settable : Text → Bytes → Bool
  facts : Check → Except Exn Json
  /-- The ghost history, latest event first. -/
  history : List Event

namespace World

/-- The bytes of a named file. -/
def bytes (w : World) (p : HostPath) : Option Bytes := (w.files p).bind Node.data

def node (w : World) : Loc → Option Node
  | .file p => w.files p
  | .temp t => w.temps t

/-- `Path.is_dir()`, which follows a symbolic link. -/
def isDir (w : World) (p : HostPath) : Bool :=
  (w.files p).any fun n => n.kind = .directory || n.kind = .symlink && w.target p = some .directory

def setTemp (w : World) (t : ℕ) (n : Option Node) : World :=
  { w with temps := Function.update w.temps t n }

/-- A helper puts a file in place. -/
def put (w : World) (p : HostPath) (n : Node) : World :=
  { w with
    files := Function.update w.files p (some n)
    history := if p = .snapshot then w.history else .put p n.data :: w.history }

/-- A helper removes a file. -/
def drop (w : World) (p : HostPath) : World :=
  { w with files := Function.update w.files p none, history := .drop p :: w.history }

/-- An operator atomically replaces the live configuration. -/
def edit (w : World) (n : Node) : World :=
  { w with
    files := Function.update w.files .config (some n)
    history := .edit (w.bytes .config) n.data :: w.history }

end World

/-! ## Calls -/

/-- The system calls and commands of the helpers.  `uniqueAside` stands for the
loop over candidate names, of which no other process creates one meanwhile. -/
inductive Op
  | lstat (l : Loc)
  | xattrs (l : Loc)
  | read (l : Loc)
  | lexists (l : Loc)
  | mkdirs (p : HostPath) (mode : UInt32)
  | chmod (p : HostPath) (mode : UInt32)
  | mkstemp (dir : HostPath)
  | write (t : ℕ) (data : Bytes)
  | fchown (t : ℕ) (uid gid : ℤ)
  | fchmod (t : ℕ) (mode : ℤ)
  | setxattr (t : ℕ) (name : Text) (value : Bytes)
  | fsync (t : ℕ)
  | replace (t : ℕ) (p : HostPath)
  | exchange (t : ℕ) (p : HostPath)
  | syncDirectory (dir : HostPath)
  | unlink (l : Loc)
  | rename (p q : HostPath)
  | uniqueAside (stamp : Text)
  | openLock
  | flock (wait : Bool)
  | closeLock
  | bootId
  | now
  | uuid
  | isActive (s : Service)
  | isEnabled (s : Service)
  | start (s : List Service)
  | stop (s : List Service)
  | restart (s : Service)
  | startTimer (minutes : ℕ) (calendar : Text)
  | stopTimer
  | check (c : Check)
  deriving DecidableEq

/-- What a call returns. -/
@[reducible] def Op.Res : Op → Type
  | .lstat _ => Stat
  | .xattrs _ => List (Text × Bytes)
  | .read _ => Bytes
  | .lexists _ => Bool
  | .mkstemp _ => ℕ
  | .uniqueAside _ => ℕ
  | .openLock => Stat
  | .bootId => Option Text
  | .now => Moment
  | .uuid => Text
  | .isActive _ => ActiveState
  | .isEnabled _ => EnabledState
  | .check _ => Json
  | _ => Unit

/-- The text of `FileNotFoundError`; other failing calls have theirs. -/
def noSuchFile : Exn := .raised .fileNotFound "[Errno 2] No such file or directory"
def noSuchDevice : Exn := .raised .os "[Errno 6] No such device or address"
def isADirectory : Exn := .raised .os "[Errno 21] Is a directory"
def inputOutput : Exn := .raised .os "[Errno 5] Input/output error"
def fileExists : Exn := .raised .os "[Errno 17] File exists"
def tooManyLinks : Exn := .raised .os "[Errno 40] Too many levels of symbolic links"
def notSupported : Exn := .raised .os "[Errno 95] Operation not supported"
def unitExists : Exn := .refusal
  "command failed: systemd-run: Failed to start transient timer unit: Unit already exists" false

/-- The exception of a contended policy lock. -/
def lockHeld : Bool → Exn
  | false => .refusal "another snitchwatch policy writer holds the lock; retry when it finishes"
      true
  | true => .refusal ("timed out after 30.0s waiting for the policy lock; nothing was changed " ++
      "and any pending trial is kept; retry: /usr/libexec/bazzite-tower-snitchwatch-deny " ++
      "revert-if-pending") false

/-- What a call that asks about a file returns. -/
def existing {α : Type} (n : Option Node) (f : Node → α) : Except Exn α :=
  match n with
  | none => .error noSuchFile
  | some n => .ok (f n)

/-- What opening and reading a file returns. -/
def contents (n : Option Node) : Except Exn Bytes :=
  match n with
  | none => .error noSuchFile
  | some n =>
    match n.data, n.kind with
    | some data, _ => .ok data
    | none, .symlink => .error noSuchFile
    | none, .directory => .error isADirectory
    | none, _ => .error inputOutput

/-- Change a file that `mkstemp` created. -/
def World.modifyTemp (w : World) (t : ℕ) (f : Node → Node) : Except Exn Unit × World :=
  match w.temps t with
  | none => (.error noSuchFile, w)
  | some n => (.ok (), w.setTemp t (some (f n)))

/-- The random identifier after `n` others; no two are equal. -/
def uuidHex (n : ℕ) : Text := Nat.toDigits 16 n

/-- The first number that no quarantined state with this stamp has. -/
def World.firstAside (w : World) (stamp : Text) : ℕ :=
  ((List.range w.corruptBound).find? fun n => (w.files (.corrupt stamp n)).isNone).getD
    w.corruptBound

/-- What a call does and returns. -/
def Op.perform : (o : Op) → World → Except Exn o.Res × World
  | .lstat l, w => (existing (w.node l) Node.toStat, w)
  | .xattrs l, w => (existing (w.node l) Node.xattrs, w)
  | .read l, w => (contents (w.node l), w)
  | .lexists l, w => (.ok (w.node l).isSome, w)
  | .mkdirs p mode, w =>
    match w.files p with
    | none => (.ok (), { w with files := Function.update w.files p (some (.directory mode)) })
    | some _ => (if w.isDir p then .ok () else .error fileExists, w)
  | .chmod p mode, w =>
    match w.files p with
    | none => (.error noSuchFile, w)
    | some n =>
      -- the mode of what a link leads to is not kept here
      if n.kind = .symlink then (if (w.target p).isSome then .ok () else .error noSuchFile, w)
      else (.ok (), { w with files := Function.update w.files p (some { n with mode := mode }) })
  | .mkstemp _, w =>
    (.ok w.nextTemp,
      { w.setTemp w.nextTemp (some (.empty 0o600)) with nextTemp := w.nextTemp + 1 })
  | .write t data, w => w.modifyTemp t fun n => { n with data := some data }
  | .fchown t uid gid, w => w.modifyTemp t fun n =>
      { n with uid := if uid = -1 then n.uid else .ofNat uid.toNat
               gid := if gid = -1 then n.gid else .ofNat gid.toNat }
  | .fchmod t mode, w => w.modifyTemp t fun n => { n with mode := .ofNat (mode % 4096).toNat }
  | .setxattr t name value, w =>
    if w.settable name value then
      w.modifyTemp t fun n =>
        { n with xattrs := n.xattrs.filter (fun x => x.1 ≠ name) ++ [(name, value)] }
    else (.error notSupported, w)
  | .fsync _, w => (.ok (), w)
  | .replace t p, w =>
    match w.temps t with
    | none => (.error noSuchFile, w)
    | some n =>
      if (w.files p).any fun m => m.kind = .directory then (.error isADirectory, w)
      else (.ok (), (w.setTemp t none).put p n)
  | .exchange t p, w =>
    match w.temps t, w.files p with
    | some n, some m => (.ok (), (w.setTemp t (some m)).put p n)
    | _, _ => (.error noSuchFile, w)
  | .syncDirectory _, w => (.ok (), w)
  | .unlink l, w =>
    match w.node l with
    | none => (.error noSuchFile, w)
    | some n =>
      if n.kind = .directory then (.error isADirectory, w)
      else
        match l with
        | .file p => (.ok (), w.drop p)
        | .temp t => (.ok (), w.setTemp t none)
  | .rename p q, w =>
    match w.files p with
    | none => (.error noSuchFile, w)
    | some n =>
      (.ok (), { (w.drop p).put q n with
        corruptBound := match q with
          | .corrupt _ number => max w.corruptBound (number + 1)
          | _ => w.corruptBound })
  | .uniqueAside stamp, w => (.ok (w.firstAside stamp), w)
  | .openLock, w =>
    match w.files .lock with
    | none =>
      (.ok (Node.empty 0o600).toStat,
        { w with files := Function.update w.files .lock (some (.empty 0o600)) })
    | some n =>
      (if n.kind = .symlink then .error tooManyLinks
        else if n.kind = .directory then .error isADirectory
        else if n.kind = .socket then .error noSuchDevice
        else .ok n.toStat, w)
  | .flock wait, w =>
    if w.holder = .nobody then (.ok (), { w with holder := .self }) else (.error (lockHeld wait), w)
  | .closeLock, w => (.ok (), { w with holder := if w.holder = .self then .nobody else w.holder })
  | .bootId, w => (.ok w.bootId, w)
  | .now, w => (.ok w.clock, w)
  | .uuid, w => (.ok (uuidHex w.drawn), { w with drawn := w.drawn + 1 })
  | .isActive s, w => (.ok (w.active s), w)
  | .isEnabled s, w => (.ok (w.enabled s), w)
  | .start ss, w =>
    (.ok (), { w with
      active := fun s => if s ∈ ss then .active else w.active s
      loaded := if .opensnitch ∈ ss ∧ w.active .opensnitch ≠ .active then w.bytes .config
        else w.loaded })
  | .stop ss, w => (.ok (), { w with active := fun s => if s ∈ ss then .inactive else w.active s })
  | .restart s, w =>
    (.ok (), { w with
      active := Function.update w.active s .active
      loaded := if s = .opensnitch then w.bytes .config else w.loaded })
  | .startTimer _ _, w => if w.timer then (.error unitExists, w) else (.ok (), { w with timer := true })
  | .stopTimer, w => (.ok (), { w with timer := false })
  | .check c, w => (w.facts c, w)

/-- The host; an injected failure is any exception at all. -/
def host : Host Op Op.Res Exn Exn World := ⟨Op.perform, id⟩

/-- A script of a helper. -/
abbrev Script (α : Type) := Prog Op Op.Res Exn α

/-- One call, in a script. -/
abbrev perform (o : Op) : Script o.Res := Prog.perform o
