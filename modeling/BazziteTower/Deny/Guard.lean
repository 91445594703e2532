import BazziteTower.Deny.Trial

/-!
# The boot guard and the command line

The policy lock, the guard that reverts a trial of an earlier boot before the
firewall starts, its recovery from a bad state, and the commands as they are
invoked, with their exit status.

## Main definitions

* `policyLock` — a script under the lock.
* `recoverBadState`, `bootGuard`, `revertIfPending` — the guard.
* `Command`, `main` — the command line.
-/

open Prog (lift)

namespace Deny

/-- Run a script under the policy lock; only a reverting command waits for it. -/
def policyLock (wait : Bool) (body : Script Unit) : Script Unit := do
  perform (.mkdirs .lockDir 0o755)
  let info ← perform .openLock
  Prog.ensuring (do
    require (info.kind = .regular && info.uid = 0 && info.mode = 0o600) "unsafe policy lock file"
    perform (.flock wait)
    body) (perform .closeLock)

def pendingState : Script (Option Fields) := do
  return (← loadState).filter isPending

/-- The state records a trial of the boot with this id. -/
def ofBoot (state : Fields) (current : Option Text) : Bool :=
  match current with
  | none => false
  | some boot => boot ≠ [] && (state.get "bootId").pyEq (.str boot)

/-- Only a trial that an earlier boot left is the guard's business. -/
def guardShouldRevert : Script Bool := do
  match ← pendingState with
  | none => return false
  | some state => return !ofBoot state (← bootId)

def uniqueAside : Script HostPath := do
  let stamp := Calendar.compactStamp (← perform .now)
  return .corrupt stamp (← perform (.uniqueAside stamp))

/-- Move the state to a new name, whatever kind of file it is. -/
def quarantine : Script Unit := do
  if ← perform (.lexists (.file .state)) then
    let aside ← uniqueAside
    perform (.rename .state aside)
    if (← perform (.lstat (.file aside))).kind = .regular then
      perform (.chmod aside 0o600)

/-- Force allow, quarantine the state, drop the marker and stop any revert timer. -/
def recoverBadState : Script Unit := do
  let _ ← restoreAllow none
  quarantine
  if ← perform (.lexists (.file .marker)) then
    perform (.unlink (.file .marker))
  try
    stopTimer
  catch error =>
    if error.isRefusal then pure () else throw error

def revertIfPending (boot : Bool) : Script Unit := do
  match ← pendingState with
  | none => return ()
  | some _ => turnOff boot

/-- What the guard takes for a bad state. -/
def isBadState (error : Exn) : Bool :=
  error.isRefusal || error.isOSError || error.isValueError || error.isKeyError

/-- Revert a trial of an earlier boot. -/
def revertEarlier : Script Unit := do
  if ← guardShouldRevert then revertIfPending true

/-- The second reading of a state that did not load: confirmed bad, or transient. -/
def recheck : Script Unit :=
  loadState.handle fun
    | .ok _ => revertEarlier
    | .error error =>
      if error.isFileNotFound then return ()
      else if isBadState error then recoverBadState
      else throw error

/-- A single failed read proves nothing; it is repeated under the lock. -/
def bootGuard : Script Unit :=
  loadState.handle fun
    | .ok _ => do
      if ← guardShouldRevert then policyLock true (revertIfPending true)
    | .error error =>
      if error.isFileNotFound then return ()
      else if isBadState error then policyLock true recheck
      else throw error

/-- Recompute the snapshot; a busy writer publishes it when it finishes. -/
def publishStatus : Script Unit := do
  try
    policyLock false writeSnapshot
  catch error =>
    if error.isBusy then pure ()
    else if error.isException then
      throw (.refusal ("could not publish the deny status snapshot: " ++ error.text) false)
    else throw error

/-! ## The command line -/

/-- The commands; `on` carries its checked number of minutes, and `revert` is
`revert-if-pending`, with or without `--boot`. -/
inductive Command
  | status | publishStatus
  | on (minutes : Minutes) | confirm | off
  | revert (boot : Bool)
  deriving DecidableEq, Repr

/-- What a command runs. -/
def commandScript : Command → Script Unit
  | .status => do let _ ← buildReport
  | .publishStatus => publishStatus
  | .on minutes => policyLock false (turnOn minutes)
  | .confirm => policyLock false confirm
  | .off => policyLock true (turnOff false)
  | .revert true => bootGuard
  | .revert false => policyLock true (revertIfPending false)

/-- What `main` turns into exit status 1; another exception ends in a traceback. -/
def isRefused (error : Exn) : Bool :=
  error.isRefusal || error.isOSError || error.isValueError || error.isKeyError || error.isTimeout

/-- The exit status of a command. -/
def main (command : Command) : Script ℕ := do
  try
    commandScript command
    pure 0
  catch error =>
    if isRefused error then pure 1 else throw error

end Deny
