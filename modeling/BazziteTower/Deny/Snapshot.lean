import BazziteTower.Deny.Files
import BazziteTower.Deny.Trial

/-!
# The display snapshot never fails a command

Nothing that a snapshot computes and no call that it makes raises anything but an
`Exception`, which `publish_snapshot` catches.

## Main definitions

* `Sound` — a computation that raises exceptions only.
* `Tame` — a script that raises exceptions only, if its calls do.

## Main results

* `tame_writeSnapshot`, `returns_publishSnapshot`.
-/

open Prog hiding perform

namespace Deny

/-! ## Computations -/

/-- A computation that raises exceptions only. -/
def Sound {α : Type} (r : Except Exn α) : Prop := ∀ e, r = .error e → e.isException

section Sound
variable {α β : Type}

theorem sound_ok (a : α) : Sound (.ok a : Except Exn α) := nofun

theorem sound_error {e : Exn} (he : e.isException) : Sound (.error e : Except Exn α) := by
  rintro _ ⟨⟩
  exact he

theorem sound_bind {r : Except Exn α} {f : α → Except Exn β} (hr : Sound r) (hf : ∀ a, Sound (f a)) :
    Sound (r >>= f) := by
  cases r with
  | ok a => exact hf a
  | error e => exact sound_error (hr e rfl)

theorem sound_refuseUnless (condition : Bool) (message : String) :
    Sound (refuseUnless condition message) := by
  unfold refuseUnless
  split
  · exact sound_ok _
  · exact sound_error rfl

theorem sound_decoded (r : Except Json.Error Json) : Sound (decoded r) := by
  rcases r with (_ | _) | _
  · exact sound_error rfl
  · exact sound_error rfl
  · exact sound_ok _

theorem sound_get (key : String) (v : Json) : Sound (v.get key) := by
  cases v with
  | obj ms => exact sound_ok _
  | _ => exact sound_error rfl

theorem sound_subscript (key : String) (v : Json) : Sound (v.subscript key) := by
  cases v with
  | obj ms =>
    simp only [Json.subscript]
    split
    · exact sound_ok _
    · exact sound_error rfl
  | _ => exact sound_error rfl

theorem sound_loadsUtf8 (data : Bytes) : Sound (loadsUtf8 data) := by
  refine sound_bind ?_ fun _ => sound_decoded _
  unfold utf8
  split
  · exact sound_ok _
  · exact sound_error rfl

theorem sound_currentAction (data : Bytes) : Sound (currentAction data) := by
  unfold currentAction
  split
  · exact sound_ok _
  · exact sound_ok _
  · exact sound_ok _
  · exact sound_error rfl

theorem sound_judge (data : Bytes) : Sound (judge data) := by
  have haddress : Sound (serverAddress data) := by
    refine sound_bind (sound_decoded _) fun v => ?_
    cases v with
    | obj ms => exact sound_get _ _
    | _ => exact sound_error rfl
  have hmethod : Sound (do (← decoded (Json.loads data)).get "ProcMonitorMethod") :=
    sound_bind (sound_decoded _) fun v => sound_get _ v
  refine sound_bind (sound_currentAction data) fun action => ?_
  split
  · rename_i e he
    split
    · exact sound_ok _
    · exact sound_error (haddress e he)
  · dsimp only
    split
    · exact sound_ok _
    · rename_i e he
      split
      · exact sound_ok _
      · exact sound_error (hmethod e he)

theorem sound_stateOf (data : Bytes) : Sound (stateOf data) := by
  unfold stateOf
  split
  · exact sound_error rfl
  · exact sound_error rfl
  · exact sound_bind (sound_refuseUnless _ _) fun _ => sound_ok _
  · exact sound_error rfl

theorem sound_stampField (state : Fields) (key : String) : Sound (stampField state key) := by
  refine sound_bind (sound_subscript _ _) fun v => ?_
  cases v with
  | str s =>
    simp only
    split
    · exact sound_ok _
    · exact sound_error rfl
  | _ => exact sound_error rfl

theorem sound_reportedExpiry (state : Option Fields) : Sound (reportedExpiry state) := by
  cases state with
  | none => exact sound_ok _
  | some fields =>
    simp only [reportedExpiry]
    split
    · exact sound_subscript _ _
    · exact sound_ok _

end Sound

/-! ## Scripts -/

/-- A call of a command, other than the checks of the shared module. -/
def Ordinary (o : Op) : Prop := ∀ c, o ≠ .check c

/-- What such a call raises is an exception. -/
theorem perform_isException (o : Op) (w : World) (e : Exn) (ho : Ordinary o)
    (he : (host.perform o w).1 = .error e) : e.isException := by
  change (o.perform w).1 = .error e at he
  cases o with
  | check c => exact absurd rfl (ho c)
  | flock wait =>
    simp only [Op.perform] at he
    split at he
    · cases he
    · cases wait <;> cases he <;> rfl
  | _ =>
    simp only [Op.perform, existing, contents, World.modifyTemp] at he
    repeat' split at he
    all_goals first
      | cases he; rfl
      | cases he


/-- A script that raises exceptions only, if its calls do. -/
abbrev Tame {α : Type} (p : Script α) : Prop :=
  p.raises Ordinary (fun e => e.isException) fun e => e.isException

section Tame
variable {α β : Type}

theorem tame_perform {o : Op} (ho : Ordinary o) : Tame (perform o) := raises_perform ho

theorem tame_lift {r : Except Exn α} (hr : Sound r) : Tame (lift r) := hr

theorem tame_require (condition : Bool) (message : String) : Tame (require condition message) :=
  sound_refuseUnless condition message

theorem tame_bind {p : Script α} {f : α → Script β} (hp : Tame p) (hf : ∀ a, Tame (f a)) :
    Tame (p >>= f) :=
  raises_bind hp hf

/-- A handler that only passes on what it was given. -/
theorem tame_recover {p : Script α} {f : Exn → Script α} (hp : Tame p)
    (hf : ∀ e, e.isException → Tame (f e)) : Tame (tryCatch p f) :=
  raises_recover hp hf

theorem tame_ite {c : Prop} [Decidable c] {p q : Script α} (hp : Tame p) (hq : Tame q) :
    Tame (if c then p else q) :=
  raises_ite (fun _ => hp) fun _ => hq

theorem tame_lookup (p : HostPath) : Tame (lookup p) :=
  tame_recover (tame_bind (tame_perform nofun) fun _ => raises_pure _) fun _ he =>
    tame_ite (raises_pure _) (tame_ite (raises_throw rfl) (raises_throw he))

theorem tame_present (p : HostPath) : Tame (present p) :=
  tame_bind (tame_lookup p) fun _ => raises_pure _

theorem tame_regularRootJson (p : HostPath) : Tame (regularRootJson p) := by
  refine tame_bind (tame_lookup p) fun info => ?_
  cases info with
  | none => exact raises_pure _
  | some info =>
    refine tame_ite (tame_bind (tame_recover ?_ fun e he => ?_) fun v => ?_) (raises_pure _)
    · exact tame_bind (tame_perform nofun) fun _ => tame_bind (tame_lift (sound_loadsUtf8 _)) fun _ =>
        raises_pure _
    · exact tame_ite (raises_pure _) (raises_throw he)
    · split <;> exact raises_pure _

theorem tame_denyOptIn : Tame denyOptIn := by
  refine tame_bind (tame_regularRootJson _) fun marker => ?_
  cases marker with
  | none => exact raises_pure _
  | some marker =>
    refine tame_ite (raises_pure _) (tame_bind (tame_present _) fun _ => tame_ite ?_ (raises_pure _))
    refine tame_bind (tame_regularRootJson _) fun state => ?_
    cases state <;> exact raises_pure _

theorem tame_readConfig : Tame readConfig := by
  refine tame_bind ?_ fun _ => tame_bind (tame_perform nofun) fun _ => raises_pure _
  exact tame_bind (tame_perform nofun) fun _ => tame_bind (tame_require _ _) fun _ =>
    tame_bind (tame_perform nofun) fun _ => raises_pure _

theorem tame_serviceActive : Tame serviceActive :=
  tame_bind (tame_perform nofun) fun _ => raises_pure _

theorem tame_inspect : Tame inspect := by
  refine tame_bind (tame_recover ?_ fun e he => tame_ite (raises_pure _) (raises_throw he))
    fun _ => tame_bind tame_serviceActive fun _ => tame_bind (tame_lookup _) fun _ => raises_pure _
  exact tame_bind tame_readConfig fun _ => tame_lift (sound_judge _)

theorem tame_privateBytes (p : HostPath) (what : String) : Tame (privateBytes p what) :=
  tame_bind (tame_perform nofun) fun _ => tame_bind (tame_require _ _) fun _ => tame_perform nofun

theorem tame_loadState : Tame loadState :=
  tame_bind (tame_present _) fun _ => tame_ite (tame_bind (tame_privateBytes _ _) fun _ =>
    tame_bind (tame_lift (sound_stateOf _)) fun _ => raises_pure _) (raises_pure _)

theorem tame_isExpired (state : Option Fields) : Tame (isExpired state) := by
  cases state with
  | none => exact raises_pure _
  | some state =>
    refine tame_ite (tame_bind (tame_perform nofun) fun _ => ?_) (raises_pure _)
    exact tame_bind (tame_lift (sound_stampField _ _)) fun _ => raises_pure _

theorem tame_pendingBlockers (state : Option Fields) : Tame (pendingBlockers state) := by
  refine tame_ite (tame_bind ?_ fun _ => raises_pure _) (raises_pure _)
  exact tame_bind (tame_isExpired state) fun _ => tame_ite (raises_pure _) (raises_pure _)

theorem tame_buildReport : Tame buildReport :=
  tame_bind tame_inspect fun _ => tame_bind tame_loadState fun state =>
    tame_bind (tame_isExpired state) fun _ => tame_bind (tame_pendingBlockers state) fun _ =>
      tame_bind tame_denyOptIn fun _ => tame_bind (tame_lift (sound_reportedExpiry state)) fun _ =>
        raises_pure _

theorem tame_bootId : Tame bootId :=
  tame_recover (tame_perform nofun) fun _ he => tame_ite (raises_pure _) (raises_throw he)

theorem tame_snapshotFrom (temporary : ℕ) (report : Fields) : Tame (snapshotFrom temporary report) :=
  tame_bind (tame_perform nofun) fun _ => tame_bind (tame_perform nofun) fun _ =>
    tame_bind (tame_perform nofun) fun _ => tame_bind (tame_perform nofun) fun _ =>
      tame_bind (tame_perform nofun) fun _ => tame_perform nofun

theorem tame_removeTemporary (temporary : ℕ) : Tame (removeTemporary temporary) :=
  tame_bind (tame_perform nofun) fun _ => tame_ite (tame_perform nofun) (raises_pure _)

theorem tame_writeSnapshot : Tame writeSnapshot :=
  tame_bind (tame_perform nofun) fun _ => tame_bind (tame_require _ _) fun _ =>
    tame_bind tame_buildReport fun _ => tame_bind (tame_perform nofun) fun _ =>
      tame_bind tame_bootId fun _ => tame_bind (tame_perform nofun) fun temporary =>
        raises_ensuring (tame_snapshotFrom temporary _) (tame_removeTemporary temporary)

/-- **The publication of a snapshot raises nothing**, if its calls raise exceptions only. -/
theorem raises_publishSnapshot :
    publishSnapshot.raises Ordinary (fun e => e.isException) fun _ => False :=
  raises_recover tame_writeSnapshot fun _ he => raises_ite (fun _ => raises_pure ()) fun hne =>
    absurd he hne

end Tame

/-- The failures are exceptions, not interrupts. -/
def OnlyExceptions (cs : List (Choice Exn World)) : Prop :=
  ∀ c ∈ cs, ∀ e, c.fault = .before e ∨ c.fault = .after e → e.isException

/-- A publication that is not killed returns, whatever exceptions strike it. -/
theorem returns_publishSnapshot {cs : List (Choice Exn World)} (hcs : OnlyExceptions cs) {w : World}
    {r : Except Exn Unit} (hr : (publishSnapshot.run host cs w).1 = some r) : r = .ok () := by
  cases r with
  | ok _ => rfl
  | error e =>
    exact (raises_run perform_isException raises_publishSnapshot hcs hr).elim

theorem exec_publishSnapshot (w : World) :
    publishSnapshot.exec host w = (.ok (), (publishSnapshot.exec host w).2) := by
  refine Prod.ext ?_ rfl
  cases hr : (publishSnapshot.exec host w).1 with
  | ok _ => rfl
  | error e =>
    exact (raises_exec perform_isException raises_publishSnapshot hr).elim

end Deny
