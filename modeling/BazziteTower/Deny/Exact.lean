import BazziteTower.Deny.Specs

/-!
# What the reading scripts return

Without a failure a reading script returns a function of the files it reads.

## Main definitions

* `privateOf`, `stateIn`, `configIn` — these functions.

## Main results

* `answers_loadState`, `answers_readConfig`, `answers_guardShouldRevert`.
-/

open Prog hiding perform

namespace Deny

variable {w : World} {α β : Type}

theorem answers_call {o : Op} (h : (o.perform w).2 = w) :
    Answers host (perform o) (o.perform w).1 w :=
  Prod.ext rfl h

theorem answers_lookup (p : HostPath) :
    Answers host (lookup p) (.ok ((w.files p).map Node.toStat)) w := by
  have hcall := answers_call (o := .lstat (.file p)) (w := w) rfl
  simp only [Op.perform, World.node, existing] at hcall
  cases hp : w.files p with
  | none =>
    rw [hp] at hcall
    exact answers_recover_error (exec_bind_error hcall) (answers_done _ w)
  | some n =>
    rw [hp] at hcall
    exact answers_recover_ok (answers_bind_ok hcall (answers_done _ w))

theorem answers_present (p : HostPath) : Answers host (present p) (.ok (w.files p).isSome) w := by
  refine answers_bind_ok (answers_lookup p) ?_
  cases w.files p <;> exact answers_done _ w

/-- What `private_bytes` makes of a file. -/
def privateOf (n : Option Node) (what : String) : Except Exn Bytes := do
  let info ← existing n Node.toStat
  refuseUnless (info.rootRegular 0o077) (what ++ " must be a root-owned regular file with mode 0600")
  contents n

theorem answers_privateBytes (p : HostPath) (what : String) :
    Answers host (privateBytes p what) (privateOf (w.files p) what) w :=
  answers_bind (answers_call rfl) fun _ _ =>
    answers_bind (answers_done _ w) fun _ _ => answers_call rfl

/-- What `load_state` makes of the state file. -/
def stateIn (n : Option Node) : Except Exn (Option Fields) :=
  if n.isSome then do
    let data ← privateOf n "deny state"
    return some (← stateOf data)
  else return none

theorem answers_loadState : Answers host loadState (stateIn (w.files .state)) w :=
  answers_bind_ok (answers_present .state) (answers_ite
    (answers_bind (answers_privateBytes ..) fun _ _ =>
      answers_bind (answers_done _ w) fun _ _ => answers_done _ w) (answers_done _ w))

theorem answers_pendingState {state : Option Fields} (h : stateIn (w.files .state) = .ok state) :
    Answers host pendingState (.ok (state.filter isPending)) w := by
  have hload := answers_loadState (w := w)
  rw [h] at hload
  exact answers_bind_ok hload (answers_done _ w)

theorem answers_bootId : Answers host bootId (.ok w.bootId) w :=
  answers_recover_ok (answers_call rfl)

/-- The verdict of `guard_should_revert`. -/
def shouldRevert (state : Option Fields) (boot : Option Text) : Bool :=
  (state.filter isPending).any fun state => !ofBoot state boot

theorem answers_guardShouldRevert {state : Option Fields}
    (h : stateIn (w.files .state) = .ok state) :
    Answers host guardShouldRevert (.ok (shouldRevert state w.bootId)) w := by
  refine answers_bind_ok (answers_pendingState h) ?_
  unfold shouldRevert
  cases state.filter isPending with
  | none => exact answers_done _ w
  | some state => exact answers_bind_ok answers_bootId (answers_done _ w)

/-! ## The verdict -/

/-- What `regular_root_json` makes of a file. -/
def jsonIn (n : Option Node) : Except Exn (Option Fields) :=
  match n with
  | none => return none
  | some n =>
    if n.rootRegular 0o022 then do
      let value ← tryCatch (do return some (← loadsUtf8 (← contents (some n)))) fun error =>
        if error.isOSError || error.isValueError then return none else throw error
      match value with
      | some (.obj ms) => return some ms
      | _ => return none
    else return none

theorem answers_regularRootJson (p : HostPath) :
    Answers host (regularRootJson p) (jsonIn (w.files p)) w := by
  refine answers_bind_ok (answers_lookup p) ?_
  unfold jsonIn
  cases hp : w.files p with
  | none => exact answers_done _ w
  | some n =>
    have hread := answers_call (o := .read (.file p)) (w := w) rfl
    simp only [Op.perform, World.node, hp] at hread
    refine answers_ite (answers_bind (answers_recover ?_ fun e => ?_) fun v _ => ?_) (answers_done _ w)
    · exact answers_bind hread fun _ _ => answers_bind (answers_done _ w) fun _ _ => answers_done _ w
    · exact answers_ite (answers_done _ w) (answers_done _ w)
    · rcases v with _ | v
      · exact answers_done _ w
      · cases v <;> exact answers_done _ w

/-- The verdict of `deny_opt_in` on the marker and the state. -/
def optIn (marker state : Option Node) : Except Exn Bool := do
  match ← jsonIn marker with
  | none => return false
  | some m =>
    if m.isEmpty || !validMarker m then return false
    else if state.isSome then
      match ← jsonIn state with
      | none => return false
      | some s => return !s.isEmpty && (s.get "pending").isFalse && (s.get "id").pyEq (m.get "id")
    else return true

theorem answers_denyOptIn :
    Answers host denyOptIn (optIn (w.files .marker) (w.files .state)) w := by
  refine answers_bind (answers_regularRootJson _) fun marker _ => ?_
  cases marker with
  | none => exact answers_done _ w
  | some m =>
    refine answers_ite (answers_done _ w) (answers_bind_ok (answers_present _) ?_)
    refine answers_ite (answers_bind (answers_regularRootJson _) fun state _ => ?_) (answers_done _ w)
    cases state <;> exact answers_done _ w

/-- The guard with a state that loads. -/
theorem exec_bootGuard {state : Option Fields} (h : stateIn (w.files .state) = .ok state) :
    bootGuard.exec host w =
      if shouldRevert state w.bootId then (policyLock true (revertIfPending true)).exec host w
      else (.ok (), w) := by
  have hload := answers_loadState (w := w)
  rw [h] at hload
  rw [bootGuard, exec_handle, hload]
  refine (exec_bind_ok (answers_guardShouldRevert h)).trans ?_
  cases shouldRevert state w.bootId <;> rfl

theorem stateIn_none : stateIn none = .ok none := rfl

/-- Exactly the safe files that parse load. -/
theorem stateIn_some_eq_ok {n : Node} {r : Option Fields} :
    stateIn (some n) = .ok r ↔ n.rootRegular 0o077 ∧
      ∃ data state, n.data = some data ∧ stateOf data = .ok state ∧ r = some state := by
  simp only [stateIn, Option.isSome_some, if_true, Except.bind_eq_ok, privateOf, existing,
    Except.ok.injEq, exists_eq_left', refuseUnless_eq_ok, exists_and_left, contents_eq_ok,
    Option.bind_some, pure, Except.pure]
  constructor
  · rintro ⟨data, ⟨hsafe, _, hdata⟩, state, hstate, rfl⟩
    exact ⟨hsafe, data, hdata, state, hstate, rfl⟩
  · rintro ⟨hsafe, data, hdata, state, hstate, rfl⟩
    exact ⟨data, ⟨hsafe, (), hdata⟩, state, hstate, rfl⟩

/-- A state that `load_state` returns is the recorded one. -/
theorem recorded_of_stateIn {c : Core} {state : Option Fields} (h : stateIn c.state = .ok state) :
    recorded c = state := by
  cases hn : c.state with
  | none =>
    rw [hn, stateIn_none] at h
    rw [recorded, hn, ← Except.ok.inj h]
    rfl
  | some n =>
    rw [hn, stateIn_some_eq_ok] at h
    obtain ⟨hsafe, data, fields, hdata, hfields, rfl⟩ := h
    simp [recorded, hn, hsafe, hdata, hfields, Except.toOption]

end Deny
