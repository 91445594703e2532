import BazziteTower.Deny.Guard

/-!
# The migration helper

`bazzite-tower-snitchwatch-migrate`: the switch of the live configuration from the
legacy address to the system address, its journal, and its way back.  The
configuration is replaced by an atomic exchange, so that whatever the exchange
displaced can be inspected, and kept if it is not what the helper expected.

What the directories above the journal look like is an argument: `parents` is what
their check raises, if anything.

## Main definitions

* `atomicWrite`, `conditionalConfigWrite` — how files are put in place.
* `check`, `journal`, `save`, `restore` — the parts of a migration.
* `apply`, `rollback` — the commands, with `settle` the failure handler of `apply`.
* `main` — the command line, under the policy lock.
-/

open Prog (lift)

namespace Migrate

/-! ## Units -/

/-- `common.SOCKETS`. -/
def sockets : List Service := [.grpcSocket, .guiSocket]

/-- `common.UNITS`. -/
def units : List Service := sockets ++ [.bridge, .opensnitch]

def unitName : Service → String
  | .grpcSocket => "snitchwatch-system-bridge-grpc.socket"
  | .guiSocket => "snitchwatch-system-bridge-gui.socket"
  | .bridge => "snitchwatch-system-bridge.service"
  | .opensnitch => "opensnitch.service"

def enabledWord : EnabledState → String
  | .enabled => "enabled"
  | .enabledRuntime => "enabled-runtime"
  | .disabled => "disabled"
  | .static => "static"
  | .masked => "masked"
  | .maskedRuntime => "masked-runtime"
  | .indirect => "indirect"
  | .other => "unknown"

def activeWord : ActiveState → String
  | .active => "active"
  | .inactive => "inactive"
  | .failed => "failed"
  | .transitioning => "activating"

/-- What `service_state` records of a unit. -/
def unitEntry (enablement : EnabledState) (activity : ActiveState) : Json :=
  .obj [("enabled".toList, .str (enabledWord enablement).toList),
    ("active".toList, .str (activeWord activity).toList)]

/-- The enablement and the activity of every unit; a unit in transition is refused. -/
def serviceState : Script Fields :=
  units.mapM fun unit => do
    let enablement ← perform (.isEnabled unit)
    let activity ← perform (.isActive unit)
    require (enablement ≠ .other) ("unknown enabled state: " ++ unitName unit)
    require (activity ≠ .transitioning) ("unit is transitioning: " ++ unitName unit)
    return ((unitName unit).toList, unitEntry enablement activity)

/-! ## Files -/

def configMetadata : Script Json := metadataAt (.file .config)

/-- `read_text` and `json.loads` of a file. -/
def readJson (p : HostPath) : Script Json := do
  let data ← perform (.read (.file p))
  lift (loadsUtf8 data)

/-- Write a private file through a temporary one. -/
def atomicWrite (p : HostPath) (data : Bytes) : Script Unit := do
  let temporary ← perform (.mkstemp p.parent)
  let place : Script Unit := do
    perform (.write temporary data)
    perform (.fchmod temporary 0o600)
    perform (.fsync temporary)
    perform (.replace temporary p)
    perform (.syncDirectory p.parent)
  place.ensuring do
    if ← perform (.lexists (.temp temporary)) then perform (.unlink (.temp temporary))

/-- Move a displaced file into the journal, and say so. -/
def retain (temporary : ℕ) : Script HostPath := do
  let retained := HostPath.displaced (← perform .uuid)
  perform (.replace temporary retained)
  perform (.syncDirectory .journalDir)
  return retained

/-- The displaced file is the baseline, in its bytes and its metadata. -/
def matchesBaseline (temporary : ℕ) (metadata : Json) (expected : Bytes) : Script Bool := do
  try
    if (← metadataAt (.temp temporary)).pyEq metadata then
      pure ((← perform (.read (.temp temporary))) == expected)
    else pure false
  catch error =>
    if error.isOSError || error.isRefusal then pure false else throw error

/-- The configuration has these bytes and this metadata. -/
def configIs (data : Bytes) (metadata : Json) : Script Bool := do
  if (← perform (.read (.file .config))) == data then
    return (← configMetadata).pyEq metadata
  else return false

/-- Fill a temporary file and exchange it with the configuration. -/
def exchange (temporary : ℕ) (data : Bytes) (metadata : Json) : Script Unit := do
  perform (.write temporary data)
  applyMetadata temporary metadata
  perform (.fsync temporary)
  perform (.exchange temporary .config)

/-- What follows the exchange: the displaced file is removed if it is the baseline, and
retained otherwise. -/
def inspectDisplaced (temporary : ℕ) (data : Bytes) (metadata : Json) (expected : Bytes) :
    Script Unit := do
  perform (.syncDirectory .configDir)
  if ← matchesBaseline temporary metadata expected then
    require (← configIs data metadata)
      "config changed after publication; manual recovery required"
    perform (.unlink (.temp temporary))
    perform (.syncDirectory .configDir)
  else
    let retained ← retain temporary
    perform (.syncDirectory .configDir)
    throw (.drift retained)

/-- A displaced file that is still there is retained. -/
def retainDisplaced (temporary : ℕ) : Script Unit := do
  if ← perform (.lexists (.temp temporary)) then throw (.drift (← retain temporary))

/-- A temporary file that is still there is removed. -/
def removeTemporary (temporary : ℕ) : Script Unit := do
  if ← perform (.lexists (.temp temporary)) then perform (.unlink (.temp temporary))

/-- Replace the configuration, which must be `expected`; what else it was is retained. -/
def conditionalConfigWrite (data : Bytes) (metadata : Json) (expected : Bytes) : Script Unit := do
  let temporary ← perform (.mkstemp .configDir)
  -- The flag `exchanged` of the source is the outcome of the first part.
  (exchange temporary data metadata).handle fun
    | .error error => (throw error : Script Unit).ensuring (removeTemporary temporary)
    | .ok _ => (inspectDisplaced temporary data metadata expected).ensuring
        (retainDisplaced temporary)

/-! ## The preflight -/

/-- The commit that a manifest names. -/
def sourceCommit (manifest : Json) : Except Exn Json := do
  (← manifest.subscript "source").subscript "commit"

/-- Nothing connects to the legacy address; the pid of the bridge is passed on. -/
def legacyAbsent : Script Unit := do
  let props ← perform (.check .unitContract)
  let _ ← lift (props.subscript "MainPID")
  let _ ← perform (.check .legacyAbsent)

/-- The configuration is one of the two profiles, with the policy that both of them keep. -/
def profileContract (config legacy system : Json) : Except Exn Unit := do
  refuseUnless (config.pyEq legacy || config.pyEq system)
    ("unexpected live config/policy/address drift; operator review required, nothing overwritten")
  let action ← config.subscript "DefaultAction"
  let proc ← (if action.pyEq (.str "allow".toList) then do
      return (← config.subscript "ProcMonitorMethod").pyEq (.str "proc".toList)
    else return false : Except Exn Bool)
  refuseUnless proc "allow/proc policy required"

/-- A unit of a recorded state. -/
def unitField (services : Json) (unit : Service) (field : String) : Except Exn Json := do
  (← services.subscript (unitName unit)).subscript field

/-- The sockets are enabled already. -/
def socketsEnabled (states : Fields) : Except Exn Unit := do
  let enabled ← sockets.mapM fun unit => do
    return (← unitField (.obj states) unit "enabled").pyEq (.str "enabled".toList)
  refuseUnless (enabled.all id)
    "candidate image system sockets must already be enabled; helper does not change enablement"

/-- The read-only preflight: the manifest, the configuration and the states of the units. -/
def check : Script (Json × Json × Fields) := do
  let manifest ← perform (.check .immutable)
  let _ ← perform (.check .accountIds)
  let props ← perform (.check .unitContract)
  let _ ← perform (.check .localConflicts)
  let _ ← perform (.check .flatpakProfiles)
  let _ ← lift (props.subscript "MainPID")
  let _ ← perform (.check .legacyAbsent)
  let _ ← configMetadata
  let config ← readJson .config
  let legacy ← perform (.check .legacyReference)
  let system ← perform (.check .systemReference)
  lift (profileContract config legacy system)
  let states ← serviceState
  lift (socketsEnabled states)
  return (manifest, config, states)

/-! ## The journal -/

/-- The bytes of a record on disk. -/
def recordBytes (record : Fields) : Bytes :=
  Text.encode (Json.dumpsSorted 2 (.obj record) ++ ['\n'])

/-- The journal and its record are private files of root. -/
def journal (parents : Except Exn Unit) (create : Bool) : Script Unit := do
  lift parents
  (if create then perform (.mkdirs .journalDir 0o700) else pure () : Script Unit)
  let info ← perform (.lstat (.file .journalDir))
  require (info.kind = .directory && info.uid = 0 && info.mode = 0o700)
    "migration journal directory must be root-owned mode0700"
  if ← perform (.lexists (.file .current)) then
    let info ← perform (.lstat (.file .current))
    require (info.kind = .regular && info.uid = 0 && info.mode = 0o600)
      "migration baseline must be a root-owned regular mode0600 file"

def save (record : Fields) : Script Unit := atomicWrite .current (recordBytes record)

/-- `record[key]`. -/
def field (record : Fields) (key : String) : Except Exn Json := (Json.obj record).subscript key

/-- `record[key] = value`. -/
def assign (record : Fields) (key : String) (value : String) : Fields :=
  Json.insert key.toList (.str value.toList) record

/-- The record ends its transaction. -/
def isEnded (status : Json) : Bool :=
  status.pyEq (.str "rolled-back".toList) || status.pyEq (.str "failed-restored".toList)

/-- `previous["id"]+".json"` names the archive of a record. -/
def archiveOf (previous : Json) : Except Exn HostPath := do
  match ← previous.subscript "id" with
  | .str id => return .archive id
  | _ => throw (.raised .type "unsupported operand type(s) for +")

/-- Archive the record of an ended transaction; an active one is refused. -/
def archive : Script Unit := do
  if ← perform (.lexists (.file .current)) then
    let previous ← readJson .current
    require (isEnded (← lift (previous.get "status")))
      "migration transaction already exists; inspect/rollback before retry"
    let archived ← lift (archiveOf previous)
    require (!(← perform (.lexists (.file archived)))) "migration history already archived"
    atomicWrite archived (← perform (.read (.file .current)))

/-! ## Restoration -/

/-- The recorded digests name these bytes. -/
def namesBytes (record : Fields) (data : Bytes) : Except Exn Bool := do
  let baseline ← field record "configSha256"
  let applied ← field record "appliedConfigSha256"
  return (Json.str (sha256 data)).pyEq baseline || (Json.str (sha256 data)).pyEq applied

/-- The configuration has the recorded metadata. -/
def recordedMetadata (record : Fields) : Script Bool := do
  return (← configMetadata).pyEq (← lift (field record "configMetadata"))

/-- These bytes and the metadata of the configuration are recorded ones. -/
def isRecorded (record : Fields) (data : Bytes) : Script Bool := do
  if ← lift (namesBytes record data) then recordedMetadata record else return false

/-- Start a unit that the record has as active. -/
def startRecorded (record : Fields) (unit : Service) : Script Unit := do
  let services ← lift (field record "services")
  if (← lift (unitField services unit "active")).pyEq (.str "active".toList) then
    perform (.start [unit])

/-- The unit has the enablement and the activity of the record. -/
def agreesWith (actual : Fields) (entry : Text × Json) : Except Exn Unit := do
  let unit := String.ofList entry.1
  let found ← (Json.obj actual).subscript unit
  let enabled ← found.subscript "enabled"
  let recorded ← entry.2.subscript "enabled"
  let same ← (if enabled.pyEq recorded then do
      let active := (← found.subscript "active").pyEq (.str "active".toList)
      return active == (← entry.2.subscript "active").pyEq (.str "active".toList)
    else return false : Except Exn Bool)
  refuseUnless same ("baseline service state restoration failed: " ++ unit)

/-- Stop the units, put the recorded configuration back, and start what was active. -/
def restore (record : Fields) : Script Unit := do
  perform (.stop ([.opensnitch, .bridge] ++ sockets))
  let expected ← perform (.read (.file .config))
  require (← isRecorded record expected)
    "config drift before restoration; manual recovery required"
  let data ← lift (do (← field record "configBytes").fromBase64)
  let metadata ← lift (field record "configMetadata")
  conditionalConfigWrite data metadata expected
  units.forM (startRecorded record)
  let actual ← serviceState
  let services ← lift (do (← field record "services").items)
  lift (services.forM (agreesWith actual))

/-! ## `apply` -/

/-- The configuration with the system address and the action that every profile keeps. -/
def systemConfig (target : Json) : Except Exn Json := do
  match target, ← target.subscript "Server" with
  | .obj ms, .obj server =>
    let server := Json.insert "Address".toList (.str "unix:opensnitchd.sock".toList) server
    return .obj (Json.insert "DefaultAction".toList (.str "allow".toList)
      (Json.insert "Server".toList (.obj server) ms))
  | _, _ => throw (.raised .type "object does not support item assignment")

/-- `json.dumps(target, indent=4)` and a newline. -/
def replacementBytes (target : Json) : Bytes := Text.encode (target.render (some 4) 0 ++ ['\n'])

/-- The configuration is still the captured one. -/
def sameCapture (config captured : Json) (original : Bytes) (metadata : Json) : Script Bool := do
  if captured.pyEq config then
    if (← perform (.read (.file .config))) == original then
      return (← configMetadata).pyEq metadata
    else return false
  else return false

/-- What `apply` captures: the bytes of the configuration, its metadata, and the bytes that
replace it. -/
def capture (config : Json) : Script (Bytes × Json × Bytes) := do
  let address ← lift (do (← config.subscript "Server").subscript "Address")
  require (address.pyEq (.str "127.0.0.1:50051".toList))
    "already system-configured; use the read-only readiness helper"
  let original ← perform (.read (.file .config))
  let captured ← lift (decoded (Json.loads original))
  let metadata ← configMetadata
  require (← sameCapture config captured original metadata)
    "config changed between preflight and baseline capture; nothing overwritten"
  let target ← lift (systemConfig captured)
  return (original, metadata, replacementBytes target)

/-- The record of a transaction. -/
def baseline (id : Text) (commit manifestSha : Json) (original : Bytes) (metadata : Json)
    (replacement : Bytes) (states : Fields) : Fields :=
  [("schemaVersion".toList, .int 1), ("id".toList, .str id), ("status".toList, .str "prepared".toList),
    ("sourceCommit".toList, commit), ("manifestSha256".toList, manifestSha),
    ("configBytes".toList, encoded original), ("configMetadata".toList, metadata),
    ("configSha256".toList, .str (sha256 original)),
    ("appliedConfigSha256".toList, .str (sha256 replacement)), ("services".toList, .obj states)]

/-- A transaction: the captured bytes, those that replace them, and the record. -/
structure Transaction where
  original : Bytes
  replacement : Bytes
  metadata : Json
  record : Fields

/-- `apply`, up to the record that it prepares. -/
def prepare (parents : Except Exn Unit) : Script Transaction := do
  let (manifest, config, states) ← check
  let (original, metadata, replacement) ← capture config
  journal parents true
  archive
  let id ← perform .uuid
  let commit ← lift (sourceCommit manifest)
  let manifestSha ← perform (.check .manifestDigest)
  return ⟨original, replacement, metadata,
    baseline id commit manifestSha original metadata replacement states⟩

/-- The part of `apply` under its handler, up to the record that it saves. -/
def switch (t : Transaction) : Script Unit := do
  perform (.stop [.opensnitch])
  legacyAbsent
  require (← configIs t.original t.metadata)
    "config changed during transaction; nothing overwritten"
  conditionalConfigWrite t.replacement t.metadata t.original
  require (← configIs t.replacement t.metadata)
    "config changed before activation; manual recovery required"
  perform (.start sockets)
  perform (.start [.bridge])
  perform (.start [.opensnitch])
  let _ ← perform (.check .runtimeReadiness)

/-- The part of `apply` under its handler. -/
def activate (t : Transaction) : Script Fields := do
  switch t
  let record := assign t.record "status" "applied"
  save record
  return record

/-- The displaced file that an exception names. -/
def noteRecovery (record : Fields) : Exn → Fields
  | .drift p => assign record "recoveryFile" p.name
  | _ => record

/-- What the handler records of a restoration that failed. -/
def noteFailure (record : Fields) (recovery : Exn) : Fields :=
  noteRecovery (assign (assign record "status" "recovery-required") "recoveryError" recovery.text)
    recovery

/-- Restore the baseline after a failure, unless the configuration may be an operator's. -/
def undo (record : Fields) (error : Exn) (live : Bytes) : Script Fields := do
  try
    require (!error.isDrift) "publication displaced unexpected config; manual recovery required"
    require (← isRecorded record live)
      "config drift during failed activation; manual recovery required"
    restore record
    pure (assign record "status" "failed-restored")
  catch recovery => pure (noteFailure record recovery)

/-- The failure handler of `apply`, up to the record that it saves. -/
def settle (record : Fields) (error : Exn) : Script Fields := do
  let live ← perform (.read (.file .config))
  let record ← undo record error live
  return assign (noteRecovery record error) "error" error.text

/-- `record["status"]` in a message. -/
def statusWord (record : Fields) : String :=
  match Json.find "status".toList record with
  | some (.str s) => String.ofList s
  | _ => ""

/-- The failure handler of `apply`. -/
def failed (record : Fields) (error : Exn) : Script Fields := do
  let record ← settle record error
  save record
  throw (.refusal ("migration failed; journal status=" ++ statusWord record ++ ": " ++ error.text)
    false)

/-- The part of `apply` that follows its prepared record. -/
def transact (t : Transaction) : Script Fields :=
  (activate t).recover (failed t.record)

def apply (parents : Except Exn Unit) : Script Fields := do
  let t ← prepare parents
  save t.record
  transact t

/-! ## `rollback` -/

/-- `set(services) == set(common.UNITS)`. -/
def namesUnits (services : Json) : Except Exn Bool :=
  let names := units.map fun unit => (unitName unit).toList
  match services with
  | .obj ms => .ok (names.all (ms.map Prod.fst).contains && (ms.map Prod.fst).all names.contains)
  | .str _ => .ok false
  | .arr xs =>
    if xs.any fun x => match x with | .arr _ | .obj _ => true | _ => false then
      .error (.raised .type "unhashable type")
    else
      .ok (names.all (fun name => xs.any fun x => x.pyEq (.str name)) &&
        xs.all fun x => names.any fun name => x.pyEq (.str name))
  | _ => .error (.raised .type "object is not iterable")

/-- The recorded transaction that can be rolled back, with a sound baseline. -/
def activeRecord (value : Json) : Except Exn Fields := do
  let schema ← value.get "schemaVersion"
  let status ← (if schema.pyEq (.int 1) then value.get "status" else return .null : Except Exn Json)
  refuseUnless (["applied", "prepared", "recovery-required"].any fun s => status.pyEq (.str s.toList))
    "no active recorded transaction to roll back"
  refuseUnless (!(← value.get "recoveryFile").truthy)
    "unexpected displaced operator config retained; manual recovery required before rollback"
  let original ← (← value.subscript "configBytes").fromBase64
  let sha ← value.subscript "configSha256"
  let sound ← (if (Json.str (sha256 original)).pyEq sha then do
      namesUnits (← value.subscript "services")
    else return false : Except Exn Bool)
  refuseUnless sound "corrupted migration baseline"
  match value with
  | .obj record => return record
  | _ => throw (.raised .type "indices must be integers")

/-- `path.is_file() and not path.is_symlink()`. -/
def isRegularFile (p : HostPath) : Script Bool := do
  if ← perform (.lexists (.file p)) then return (← perform (.lstat (.file p))).kind = .regular
  else return false

/-- The enablement of a unit is the recorded one. -/
def sameEnablement (actual : Fields) (entry : Text × Json) : Except Exn Bool := do
  let found ← (Json.obj actual).subscript (String.ofList entry.1)
  return (← found.subscript "enabled").pyEq (← entry.2.subscript "enabled")

/-- The checks of `rollback`: its record is active, and the live state is what it left. -/
def reload (parents : Except Exn Unit) : Script Fields := do
  journal parents false
  require (← isRegularFile .current) "no regular recorded migration baseline"
  let info ← perform (.lstat (.file .current))
  require (info.uid = 0 && info.mode = 0o600) "migration baseline must be root-owned mode0600"
  let record ← lift (activeRecord (← readJson .current))
  let _ ← perform (.check .immutable)
  let manifestSha ← perform (.check .manifestDigest)
  require (manifestSha.pyEq (← lift (field record "manifestSha256")))
    "image changed after migration; baseline requires explicit recovery review"
  let live ← perform (.read (.file .config))
  require (← isRecorded record live)
    "live config changed after migration; rollback refuses to overwrite operator policy"
  let _ ← perform (.check .localConflicts)
  let props ← perform (.check .unitContract)
  let _ ← lift (props.subscript "MainPID")
  let _ ← perform (.check .legacyAbsent)
  let _ ← perform (.check .flatpakProfiles)
  let actual ← serviceState
  let services ← lift (do (← field record "services").items)
  let same ← lift (services.mapM (sameEnablement actual))
  require (same.all id)
    "unit enablement changed after migration; rollback requires explicit review"
  return record

def rollback (parents : Except Exn Unit) : Script Fields := do
  let record ← reload parents
  try
    restore record
  catch error =>
    save (noteFailure record error)
    throw error
  let record := assign record "status" "rolled-back"
  save record
  return record

/-! ## The command line -/

inductive Action
  | check | apply | rollback
  deriving DecidableEq, Repr

/-- Take the policy lock or fail at once: a contended lock is an `OSError` here. -/
def lockNow : Script Unit := do
  try
    perform (.flock false)
  catch error =>
    if error = lockHeld false then
      throw (.raised .os "[Errno 11] Resource temporarily unavailable")
    else throw error

/-- What is printed of a transaction. -/
def report (record : Fields) : Script Unit := do
  let _ ← lift (field record "status")
  let _ ← lift (field record "id")
  let _ ← lift ((← readJson .config).subscript "DefaultAction")

/-- `apply` or `rollback` under the policy lock. -/
def locked (body : Script Fields) : Script Unit := do
  let info ← perform .openLock
  Prog.ensuring (do
    require (info.kind = .regular && info.uid = 0 && info.mode = 0o600) "unsafe migration lock file"
    lockNow
    report (← body)) (perform .closeLock)

def actionScript (parents : Except Exn Unit) : Action → Script Unit
  | .check => do
    let (_, config, _) ← check
    let _ ← lift (do (← config.subscript "Server").subscript "Address")
    let _ ← lift (config.subscript "DefaultAction")
  | .apply => locked (apply parents)
  | .rollback => locked (rollback parents)

/-- The exit status of an action. -/
def main (parents : Except Exn Unit) (action : Action) : Script ℕ := do
  try
    actionScript parents action
    pure 0
  catch error =>
    if Deny.isRefused error then pure 1 else throw error

end Migrate
