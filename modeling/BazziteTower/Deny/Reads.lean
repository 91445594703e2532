import BazziteTower.Deny.Frame

/-!
# The scripts that leave the core alone

Inspection, reports and the display snapshot make silent calls only.
-/

open Prog hiding perform

namespace Deny

/-- A script whose calls are all silent. -/
abbrev Reads {α : Type} (p : Script α) : Prop := p.uses fun o => Silent o

variable {α : Type}

theorem reads_perform {o : Op} (ho : Silent o) : Reads (perform o) := uses_perform.mpr ho

theorem reads_lift (r : Except Exn α) : Reads (lift r) := trivial

theorem reads_pure (a : α) : Reads (pure a) := trivial

theorem reads_require (condition : Bool) (message : String) : Reads (require condition message) :=
  trivial

theorem reads_lookup (p : HostPath) : Reads (lookup p) :=
  uses_recover (uses_bind (reads_perform (by rfl)) fun _ => trivial) fun _ =>
    uses_ite trivial (uses_ite trivial trivial)

theorem reads_present (p : HostPath) : Reads (present p) :=
  uses_bind (reads_lookup p) fun _ => trivial

theorem reads_regularRootJson (p : HostPath) : Reads (regularRootJson p) := by
  refine uses_bind (reads_lookup p) fun info => ?_
  cases info with
  | none => trivial
  | some info =>
    refine uses_ite (uses_bind (uses_recover ?_ fun _ => uses_ite trivial trivial) fun v => ?_)
      trivial
    · exact uses_bind (reads_perform (by rfl)) fun _ => uses_bind trivial fun _ => trivial
    · split <;> trivial

theorem reads_denyOptIn : Reads denyOptIn := by
  refine uses_bind (reads_regularRootJson _) fun marker => ?_
  cases marker with
  | none => trivial
  | some marker =>
    refine uses_ite trivial (uses_bind (reads_present _) fun _ => uses_ite ?_ trivial)
    refine uses_bind (reads_regularRootJson _) fun state => ?_
    cases state <;> trivial

theorem reads_metadataAt (l : Loc) : Reads (metadataAt l) :=
  uses_bind (reads_perform (by rfl)) fun _ => uses_bind trivial fun _ =>
    uses_bind (reads_perform (by rfl)) fun _ => trivial

theorem reads_applyMetadata (t : ℕ) (metadata : Json) : Reads (applyMetadata t metadata) := by
  refine uses_bind trivial fun uid => uses_bind trivial fun gid => ?_
  refine uses_bind trivial fun _ => uses_bind trivial fun _ => ?_
  refine uses_bind (reads_perform (by rfl)) fun _ => uses_bind trivial fun mode => ?_
  refine uses_bind trivial fun _ => uses_bind (reads_perform (by rfl)) fun _ => ?_
  refine uses_bind trivial fun xattrs => uses_bind trivial fun items => uses_forM fun x _ => ?_
  exact uses_bind trivial fun _ => reads_perform (by rfl)

theorem reads_removeTemporary (t : ℕ) : Reads (removeTemporary t) :=
  uses_bind (reads_perform (by rfl)) fun _ => uses_ite (reads_perform (by rfl)) trivial

theorem reads_privateBytes (p : HostPath) (what : String) : Reads (privateBytes p what) :=
  uses_bind (reads_perform (by rfl)) fun _ => uses_bind trivial fun _ => reads_perform (by rfl)

theorem reads_stateDir : Reads stateDir :=
  uses_bind (reads_perform (by rfl)) fun _ => uses_bind (reads_perform (by rfl)) fun _ =>
    uses_bind (reads_perform (by rfl)) fun _ => trivial

theorem reads_loadState : Reads loadState :=
  uses_bind (reads_present _) fun _ => uses_ite
    (uses_bind (reads_privateBytes _ _) fun _ => uses_bind trivial fun _ => trivial) trivial

theorem reads_readConfig : Reads readConfig :=
  uses_bind (reads_metadataAt _) fun _ => uses_bind (reads_perform (by rfl)) fun _ => trivial

theorem reads_serviceActive : Reads serviceActive :=
  uses_bind (reads_perform (by rfl)) fun _ => trivial

theorem reads_inspect : Reads inspect := by
  refine uses_bind (uses_recover ?_ fun _ => uses_ite trivial trivial) fun r => ?_
  · exact uses_bind reads_readConfig fun _ => trivial
  · exact uses_bind reads_serviceActive fun _ => uses_bind (reads_lookup _) fun _ => trivial

theorem reads_isExpired (state : Option Fields) : Reads (isExpired state) := by
  cases state with
  | none => trivial
  | some state =>
    exact uses_ite (uses_bind (reads_perform (by rfl)) fun _ => uses_bind trivial fun _ => trivial)
      trivial

theorem reads_pendingBlocker (state : Option Fields) : Reads (pendingBlocker state) :=
  uses_bind (reads_isExpired state) fun _ => uses_ite trivial trivial

theorem reads_pendingBlockers (state : Option Fields) : Reads (pendingBlockers state) :=
  uses_ite (uses_bind (reads_pendingBlocker state) fun _ => trivial) trivial

theorem reads_buildReport : Reads buildReport :=
  uses_bind reads_inspect fun _ => uses_bind reads_loadState fun state =>
    uses_bind (reads_isExpired state) fun _ => uses_bind (reads_pendingBlockers state) fun _ =>
      uses_bind reads_denyOptIn fun _ => uses_bind trivial fun _ => trivial

theorem reads_bootId : Reads bootId :=
  uses_recover (reads_perform (by rfl)) fun _ => uses_ite trivial trivial

theorem reads_writeSnapshot : Reads writeSnapshot := by
  refine uses_bind (reads_perform (by rfl)) fun _ => uses_bind trivial fun _ => ?_
  refine uses_bind reads_buildReport fun _ => uses_bind (reads_perform (by rfl)) fun _ => ?_
  refine uses_bind reads_bootId fun _ => uses_bind (reads_perform (by rfl)) fun t => ?_
  refine uses_ensuring ?_ (reads_removeTemporary t)
  refine uses_bind (reads_perform (by rfl)) fun _ => uses_bind (reads_perform (by rfl)) fun _ => ?_
  refine uses_bind (reads_perform (by rfl)) fun _ => uses_bind (reads_perform (by rfl)) fun _ => ?_
  exact uses_bind (reads_perform (by rfl)) fun _ => reads_perform (by rfl)

theorem reads_publishSnapshot : Reads publishSnapshot :=
  uses_recover reads_writeSnapshot fun _ => uses_ite trivial trivial

theorem reads_preflight : Reads preflight :=
  uses_bind reads_inspect fun _ => uses_bind reads_loadState fun state =>
    uses_bind (reads_pendingBlockers state) fun _ => uses_bind reads_denyOptIn fun _ => trivial

theorem reads_capture : Reads capture := uses_bind reads_preflight fun _ => reads_readConfig

theorem reads_readBackup : Reads readBackup :=
  uses_bind (reads_present _) fun _ => uses_ite
    (uses_recover (uses_bind (reads_privateBytes _ _) fun _ => trivial) fun _ =>
      uses_ite trivial trivial) trivial

theorem reads_leftovers (state : Option Fields) : Reads (leftovers state) :=
  uses_ite trivial (reads_present _)

theorem reads_pendingState : Reads pendingState := uses_bind reads_loadState fun _ => trivial

theorem reads_guardShouldRevert : Reads guardShouldRevert := by
  refine uses_bind reads_pendingState fun state => ?_
  cases state with
  | none => trivial
  | some state => exact uses_bind reads_bootId fun _ => trivial

theorem reads_policyLock {wait : Bool} {body : Script Unit} (hbody : Reads body) :
    Reads (policyLock wait body) :=
  uses_bind (reads_perform (by rfl)) fun _ => uses_bind (reads_perform (by rfl)) fun _ =>
    uses_ensuring (uses_bind trivial fun _ => uses_bind (reads_perform (by rfl)) fun _ => hbody)
      (reads_perform (by rfl))

theorem reads_publishStatus : Reads publishStatus :=
  uses_recover (reads_policyLock reads_writeSnapshot) fun _ =>
    uses_ite trivial (uses_ite trivial trivial)

end Deny
