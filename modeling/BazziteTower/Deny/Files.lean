import BazziteTower.Deny.Edit
import BazziteTower.Lib.Sha256

/-!
# The files of the deny helper

Atomic publication, the helper's own state and backup, and the live configuration.

## Main definitions

* `publish` — atomic replacement through a temporary file, with its cleanup.
* `loadState`, `saveState`, `readConfig` — the helper's files.
-/

open Prog (lift)

namespace Deny

/-- Write a temporary file and give it its owner, mode and attributes. -/
def prepare (temporary : ℕ) (data : Bytes) (mode : ℤ) (metadata : Json) : Script Unit := do
  perform (.write temporary data)
  if metadata.truthy then applyMetadata temporary metadata
  else perform (.fchmod temporary mode)

/-- With `expected`, refuse if the live bytes differ. -/
def checkExpected (p : HostPath) (expected : Option Bytes) : Script Unit :=
  match expected with
  | none => pure ()
  | some bytes => do
    require ((← perform (.read (.file p))) == bytes)
      "config changed since it was read; nothing overwritten"

/-- Fill a temporary file, and put it in place if the live bytes are as expected. -/
def publishFrom (temporary : ℕ) (p : HostPath) (data : Bytes) (mode : ℤ) (metadata : Json)
    (expected : Option Bytes) : Script Unit := do
  prepare temporary data mode metadata
  perform (.fsync temporary)
  checkExpected p expected
  perform (.replace temporary p)
  perform (.syncDirectory p.parent)

/-- Remove a temporary file that is still there. -/
def removeTemporary (temporary : ℕ) : Script Unit := do
  if ← perform (.lexists (.temp temporary)) then
    perform (.unlink (.temp temporary))

/-- Atomic replace. -/
def publish (p : HostPath) (data : Bytes) (mode : ℤ) (metadata : Json) (expected : Option Bytes) :
    Script Unit := do
  perform (.mkdirs p.parent 0o755)
  let temporary ← perform (.mkstemp p.parent)
  (publishFrom temporary p data mode metadata expected).ensuring (removeTemporary temporary)

def privateBytes (p : HostPath) (what : String) : Script Bytes := do
  let info ← perform (.lstat (.file p))
  require (info.rootRegular 0o077) (what ++ " must be a root-owned regular file with mode 0600")
  perform (.read (.file p))

def stateDir : Script Unit := do
  perform (.mkdirs .stateDir 0o700)
  perform (.chmod .stateDir 0o700)
  let info ← perform (.lstat (.file .stateDir))
  require (info.kind = .directory && info.uid = 0 && info.mode = 0o700)
    "deny state directory must be a root-owned mode0700 directory"

/-- What `load_state` makes of the bytes of the state file. -/
def stateOf (data : Bytes) : Except Exn Fields :=
  match Json.loads data with
  | .error .value => .error (.refusal "deny state is not valid JSON" false)
  | .error .recursion => .error (.raised .recursion "maximum recursion depth exceeded")
  | .ok (.obj state) => do
    refuseUnless ((Fields.get state "schema").pyEq (.int 1) && (Fields.get state "pending").isBool)
      "unexpected deny state schema"
    return state
  | .ok _ => .error (.refusal "unexpected deny state schema" false)

def loadState : Script (Option Fields) := do
  if ← present .state then
    let data ← privateBytes .state "deny state"
    return some (← lift (stateOf data))
  else return none

/-- `state["pending"]`, which `load_state` has checked. -/
def isPending (state : Fields) : Bool := (state.get "pending").truthy

/-- The bytes of a JSON record on disk. -/
def recordBytes (fields : Fields) : Bytes :=
  Text.encode (Json.dumpsSorted 2 (.obj fields) ++ ['\n'])

def saveState (state : Fields) : Script Unit :=
  publish .state (recordBytes state) 0o600 .null none

def readConfig : Script (Bytes × Json) := do
  let metadata ← metadataAt (.file .config)
  return (← perform (.read (.file .config)), metadata)

end Deny
