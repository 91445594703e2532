import BazziteTower.Deny.Files

/-!
# The deny trial

The commands of the deny helper: `on` with its preflight and its rollback,
`confirm`, `off`, and the display snapshot that each of them publishes.

A loaded state names its schema, so it is never an empty dictionary, and
`if state` asks whether there is one.  A delivered signal raises in the middle of a
command, so it is one of the failures that may strike any call.

## Main definitions

* `inspect`, `buildReport`, `publishSnapshot` — what a command reports.
* `restoreAllow`, `discard` — how a trial is undone.
* `turnOn`, `confirm`, `turnOff` — the commands.
-/

open Prog (lift)

namespace Deny

/-! ## Inspection -/

/-- `repr` of a value, for a message. -/
def reprText : Json → String
  | .null => "None"
  | .bool true => "True"
  | .bool false => "False"
  | .str s => "'" ++ String.ofList s ++ "'"
  | v => String.ofList (v.render none 0)

inductive Profile
  | unknown | system | legacy
  deriving DecidableEq, Repr

def Profile.word : Profile → String
  | .unknown => "unknown"
  | .system => "system"
  | .legacy => "legacy"

/-- The address of a configuration: `json.loads(data).get("Server", {}).get("Address")`. -/
def serverAddress (data : Bytes) : Except Exn Json := do
  match ← decoded (Json.loads data) with
  | .obj ms => ((Json.find "Server".toList ms).getD (.obj [])).get "Address"
  | _ => .error (.raised .attribute "object has no attribute 'get'")

/-- What a configuration's address says about its profile. -/
def judgeAddress (address : Json) : Profile × List String :=
  if address.pyEq (.str "unix:opensnitchd.sock".toList) then (.system, [])
  else if address.pyEq (.str "127.0.0.1:50051".toList) then
    (.legacy, ["legacy TCP profile (127.0.0.1:50051) is squat-able (issue #35); move to the " ++
      "system profile first"])
  else (.unknown, ["unknown profile: Server.Address is " ++ reprText address ++
    "; only unix:opensnitchd.sock is supported"])

/-- The blocker of an action that is not `allow`. -/
def actionBlockers (action : Action) : List String :=
  if action = .allow then []
  else ["current DefaultAction is " ++
    (if action = .other then "not allow/deny" else action.word) ++ "; opt-in requires allow"]

/-- The blocker of another monitor method than `proc`. -/
def monitorBlockers (method : Json) : List String :=
  if method.pyEq (.str "proc".toList) then []
  else ["ProcMonitorMethod is not proc; opt-in requires proc"]

/-- The blocker of an exception that the configuration's checks raised. -/
def configBlocker (error : Exn) : String :=
  "config is not the expected root-owned file: " ++ error.text

/-- What `inspect` catches around the configuration's checks. -/
def isInspected (error : Exn) : Bool :=
  error.isOSError || error.isValueError || error.isAttributeError || error.isRefusal

/-- What `inspect` finds in the bytes of the configuration. -/
def judge (data : Bytes) : Except Exn (Profile × Action × List String) := do
  let action ← currentAction data
  match serverAddress data with
  | .error error =>
    if isInspected error then return (.unknown, action, [configBlocker error]) else throw error
  | .ok address =>
    let (profile, blockers) := judgeAddress address
    let blockers := blockers ++ actionBlockers action
    match (do (← decoded (Json.loads data)).get "ProcMonitorMethod") with
    | .ok method => return (profile, action, blockers ++ monitorBlockers method)
    | .error error =>
      if isInspected error then return (profile, action, blockers ++ [configBlocker error])
      else throw error

def serviceActive : Script Bool := do
  return (← perform (.isActive .opensnitch)) = .active

/-- The bridge socket is a socket of root that only root can use. -/
def socketSafe (info : Option Stat) : Bool :=
  info.any fun i => i.kind = .socket && i.uid = 0 && i.mode = 0o600

/-- The profile, the action, and what blocks a trial. -/
def inspect : Script (Profile × Action × List String) := do
  let (profile, action, blockers) ← try
      let (data, _) ← readConfig
      lift (judge data)
    catch error =>
      if isInspected error then pure (.unknown, .other, [configBlocker error]) else throw error
  let blockers := blockers ++
    (if ← serviceActive then [] else ["opensnitch.service is not active"])
  let blockers := blockers ++
    (if socketSafe (← lookup .socket) then []
      else ["root-only bridge socket /run/snitchwatch/opensnitchd.sock is missing or unsafe"])
  return (profile, action, blockers)

/-- `parse_stamp` of a field of the state. -/
def stampField (state : Fields) (key : String) : Except Exn Moment := do
  match ← (Json.obj state).subscript key with
  | .str s =>
    match Calendar.parseStamp s with
    | some t => return t
    | none => throw (.raised .value "time data does not match format '%Y-%m-%dT%H:%M:%SZ'")
  | _ => throw (.raised .type "strptime() argument 1 must be str")

def isExpired (state : Option Fields) : Script Bool := do
  match state with
  | none => return false
  | some state =>
    if isPending state then
      let now ← perform .now
      return (← lift (stampField state "expiresAt")) < now
    else return false

def pendingBlocker (state : Option Fields) : Script String := do
  if ← isExpired state then
    return "an expired deny trial is still pending (its revert did not complete); run: ujust " ++
      "snitchwatch-deny off"
  else return "a deny trial is already pending; confirm or off first"

def confirmedBlocker : String := "deny is already confirmed; run off first"

/-- The blocker of a pending trial, if there is one. -/
def pendingBlockers (state : Option Fields) : Script (List String) := do
  if state.any isPending then
    return [← pendingBlocker state]
  else return []

/-- The `expiresAt` of a report: `None` unless a trial is pending. -/
def reportedExpiry (state : Option Fields) : Except Exn Json :=
  match state with
  | some fields => if isPending fields then (Json.obj fields).subscript "expiresAt" else .ok .null
  | none => .ok .null

def buildReport : Script Fields := do
  let (profile, action, blockers) ← inspect
  let state ← loadState
  let expired ← isExpired state
  let pendingBlockers ← pendingBlockers state
  let optIn ← denyOptIn
  let blockers := blockers ++ pendingBlockers ++ if optIn then [confirmedBlocker] else []
  let expiresAt ← lift (reportedExpiry state)
  return [("schema".toList, .int 1), ("profile".toList, .str profile.word.toList),
    ("defaultAction".toList, .str action.word.toList), ("optIn".toList, .bool optIn),
    ("pending".toList, .bool (state.any isPending)), ("expiresAt".toList, expiresAt),
    ("canEnable".toList, .bool blockers.isEmpty),
    ("blockers".toList, .arr (blockers.map fun b => .str b.toList)),
    ("expired".toList, .bool expired)]

/-! ## The display snapshot -/

/-- `boot_id`: `None` if it cannot be read. -/
def bootId : Script (Option Text) := do
  try
    perform .bootId
  catch error =>
    if error.isOSError then pure none else throw error

/-- A text, or `None`. -/
def optionalText : Option Text → Json
  | none => .null
  | some s => .str s

/-- Fill a temporary file with the snapshot and put it in place. -/
def snapshotFrom (temporary : ℕ) (report : Fields) : Script Unit := do
  perform (.write temporary (Text.encode ((Json.obj report).render none 0 ++ ['\n'])))
  perform (.fchown temporary 0 0)
  perform (.fchmod temporary 0o644)
  perform (.fsync temporary)
  perform (.replace temporary .snapshot)
  perform (.syncDirectory .runDir)

def writeSnapshot : Script Unit := do
  let info ← perform (.lstat (.file .runDir))
  require (info.kind = .directory && info.uid = 0 && info.mode &&& 0o022 = 0)
    "/run/snitchwatch must be a root-owned, non-writable directory"
  let report ← buildReport
  let now ← perform .now
  let boot ← bootId
  let report := Json.insert "bootId".toList (optionalText boot)
    (Json.insert "updatedAt".toList (.str (Calendar.stamp now)) report)
  let temporary ← perform (.mkstemp .runDir)
  (snapshotFrom temporary report).ensuring (removeTemporary temporary)

/-- Best effort: a display file never fails or undoes a change. -/
def publishSnapshot : Script Unit := do
  try
    writeSnapshot
  catch error =>
    if error.isException then pure () else throw error

/-! ## Undoing a trial -/

/-- How DefaultAction was restored. -/
inductive Method
  | alreadyAllow | backup | keyEdit
  deriving DecidableEq, Repr

def Method.word : Method → String
  | .alreadyAllow => "already-allow"
  | .backup => "backup"
  | .keyEdit => "key-edit"

/-- The backup, if there is one that is safe to read. -/
def readBackup : Script (Option Bytes) := do
  if ← present .backup then
    try
      pure (some (← privateBytes .backup "deny backup"))
    catch error =>
      if error.isRefusal then pure none else throw error
  else return none

/-- The backup and the live bytes are the ones that the state names. -/
def agrees (state : Fields) (backup data : Bytes) : Bool :=
  (Json.str (sha256 backup)).pyEq (state.get "backupSha256") &&
    (Json.str (sha256 data)).pyEq (state.get "denySha256")

/-- Publish the configuration with only the key flipped. -/
def flipKey (data : Bytes) (metadata : Json) : Script Method := do
  publish .config (← lift (setAction data .allow)) 0o600 metadata (some data)
  return .keyEdit

/-- Put the backup in place if the state and the live bytes agree with it. -/
def restoreBackup (state : Fields) (data : Bytes) (metadata : Json) : Script Method := do
  match ← readBackup with
  | some backup =>
    if agrees state backup data then
      let recorded ← lift ((Json.obj state).subscript "backupMetadata")
      publish .config backup 0o600 recorded (some data)
      return .backup
    else flipKey data metadata
  | none => flipKey data metadata

/-- Return how DefaultAction was restored; edit nothing when it is `allow` already. -/
def restoreAllow (state : Option Fields) : Script Method := do
  let (data, metadata) ← readConfig
  if (← lift (currentAction data)) = .allow then return .alreadyAllow
  else
    match state with
    | some state => restoreBackup state data metadata
    | none => flipKey data metadata

/-- Remove the marker, the state and the backup, in this order. -/
def discard : Script Unit :=
  [HostPath.marker, .state, .backup].forM fun p => do
    if ← present p then perform (.unlink (.file p))

def stopTimer : Script Unit := perform .stopTimer

def restartDaemon : Script Unit := perform (.restart .opensnitch)

/-! ## `on` -/

/-- The checks of `on`: it refuses if anything blocks a trial. -/
def preflight : Script Unit := do
  let (_, _, blockers) ← inspect
  let state ← loadState
  let pendingBlockers ← pendingBlockers state
  let optIn ← denyOptIn
  let blockers := blockers ++ pendingBlockers ++ if optIn then [confirmedBlocker] else []
  require blockers.isEmpty ("cannot enable deny: " ++ "; ".intercalate blockers)

/-- The bytes and the metadata that `on` captures once its checks have passed. -/
def capture : Script (Bytes × Json) := do
  preflight
  readConfig

/-- The length of a trial, as the command line admits it. -/
abbrev Minutes := {n : ℕ // 1 ≤ n ∧ n ≤ 60}

/-- The state of a new trial. -/
def trialState (id : Text) (now : Moment) (minutes : Minutes) (data deny : Bytes) (metadata : Json)
    (boot : Option Text) : Fields :=
  [("schema".toList, .int 1), ("id".toList, .str id), ("pending".toList, .bool true),
    ("createdAt".toList, .str (Calendar.stamp now)), ("minutes".toList, .int minutes.val),
    ("expiresAt".toList,
      .str (Calendar.stamp (now + minutes.val * 60 * Calendar.microsPerSecond))),
    ("backupSha256".toList, .str (sha256 data)), ("backupMetadata".toList, metadata),
    ("denySha256".toList, .str (sha256 deny)), ("bootId".toList, optionalText boot)]

/-- The wall-clock argument of the timer. -/
def calendarArgument (expiresAt : Json) : Text :=
  match expiresAt with
  | .str s => s.flatMap fun c => if c = 'T' then [' '] else if c = 'Z' then " UTC".toList else [c]
  | _ => []

/-- The records of a trial, before the timer is armed. -/
def record (data : Bytes) (state : Fields) : Script Unit := do
  stateDir
  publish .backup data 0o600 .null none
  saveState state

/-- Arm the timer, publish the deny configuration and restart the daemon. -/
def launch (minutes : Minutes) (data : Bytes) (metadata : Json) (deny : Bytes) (state : Fields) :
    Script Unit := do
  perform (.startTimer minutes.val (calendarArgument (state.get "expiresAt")))
  publish .config deny 0o600 metadata (some data)
  restartDaemon
  require (← serviceActive) "opensnitch.service is not active after restart"

/-- Restore and discard; whether the daemon must restart, and a note. -/
def undo (state : Fields) : Script (Bool × List String) := do
  try
    let method ← restoreAllow (some state)
    discard
    pure (method ≠ .alreadyAllow,
      ["DefaultAction restored to allow (" ++ method.word ++ ")"])
  catch recovery =>
    pure (true, ["RESTORE FAILED (" ++ recovery.text ++
      "); trial left pending so the timer/boot guard retries"])

/-- Run a step, if it is due; its failure is only noted. -/
def tolerate (due : Bool) (step : Script Unit) : Script (List String) := do
  if due then
    try
      step
      pure []
    catch error =>
      if error.isException then pure [error.text] else throw error
  else return []

/-- The failure handler of `on`; `invoked` tells whether a timer may exist. -/
def rollBack (state : Fields) (invoked : Bool) (error : Exn) : Script Unit := do
  let (changed, notes) ← undo state
  let _ ← tolerate invoked stopTimer
  let restartNotes ← tolerate changed restartDaemon
  publishSnapshot
  throw (.refusal ("deny trial failed and was rolled back: " ++ error.text ++ "; " ++
    "; ".intercalate (notes ++ restartNotes.map ("restart after restore failed: " ++ ·))) false)

/-- The part of `on` that changes something: from the captured bytes to a trial. -/
def trial (minutes : Minutes) (data : Bytes) (metadata : Json) (deny : Bytes) (state : Fields) :
    Script Unit := do
  (record data state).handle fun
    | .error error => rollBack state false error
    | .ok _ => (launch minutes data metadata deny state).handle fun
      | .error error => rollBack state true error
      | .ok _ => publishSnapshot

def turnOn (minutes : Minutes) : Script Unit := do
  let (data, metadata) ← capture
  let deny ← lift (setAction data .deny)
  let now ← perform .now
  let id ← perform .uuid
  let boot ← bootId
  trial minutes data metadata deny (trialState id now minutes data deny metadata boot)

/-! ## `off` and `confirm` -/

/-- What `off` does when there is something to undo. -/
def revert (state : Option Fields) (boot : Bool) : Script Unit := do
  let method ← restoreAllow state
  discard
  stopTimer
  if !boot && method ≠ .alreadyAllow then
    try
      restartDaemon
    catch error =>
      if error.isException then
        throw (.refusal ("DefaultAction restored to allow (" ++ method.word ++ ") but restarting " ++
          "opensnitch.service failed: " ++ error.text ++ "; run: systemctl restart " ++
          "opensnitch.service") false)
      else throw error

/-- Whether a record of a trial is left. -/
def leftovers (state : Option Fields) : Script Bool :=
  if state.isSome then pure true else present .marker

/-- Nothing is left to undo. -/
def nothingToDo (leftovers : Bool) (data : Bytes) : Except Exn Bool :=
  if leftovers then .ok false else do return (← currentAction data) = .allow

def turnOff (boot : Bool) : Script Unit := do
  let state ← loadState
  let (data, _) ← readConfig
  let leftovers ← leftovers state
  if ← lift (nothingToDo leftovers data) then return ()
  else if boot then revert state boot
  else (revert state boot).ensuring publishSnapshot

/-- The opt-in marker of a trial. -/
def markerFields (confirmedAt : Text) (id : Json) : Fields :=
  [("schema".toList, .int 1), ("confirmedAt".toList, .str confirmedAt), ("id".toList, id)]

/-- The state of a confirmed trial. -/
def confirmedState (state : Fields) (confirmedAt : Text) : Fields :=
  Json.insert "confirmedAt".toList (.str confirmedAt)
    (Json.insert "pending".toList (.bool false) state)

def confirm : Script Unit := do
  match ← loadState with
  | none => throw (.refusal "no pending deny trial to confirm" false)
  | some state =>
    require (isPending state) "no pending deny trial to confirm"
    let now ← perform .now
    if (← lift (stampField state "expiresAt")) ≤ now then
      turnOff false
      throw (.refusal "deny trial expired before confirm; it was reverted to allow" false)
    else
      let (data, _) ← readConfig
      require ((← lift (currentAction data)) = .deny) "live DefaultAction is not deny; cannot confirm"
      require (← serviceActive) "opensnitch.service is not active; cannot confirm"
      -- The marker comes first: while the state is pending, readiness treats deny as drift.
      let confirmedAt := Calendar.stamp (← perform .now)
      let id ← lift ((Json.obj state).subscript "id")
      publish .marker (recordBytes (markerFields confirmedAt id)) 0o644 .null none
      saveState (confirmedState state confirmedAt)
      stopTimer.ensuring publishSnapshot

end Deny
