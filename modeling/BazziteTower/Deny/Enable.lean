import BazziteTower.Deny.Publication
import BazziteTower.Deny.Snapshot

/-!
# What `canEnable` promises

`status` and `on` compute the same blockers, so `canEnable` says exactly that the checks
of `on` pass.

## Main definitions

* `configIn`, `inspectIn` — what the inspection returns without a failure.
* `Eligible` — nothing blocks a trial.
* `Finds` — what the inspection of a state finds.

## Main results

* `canEnable_iff` — `canEnable` is `Eligible`.
* `answers_preflight` — the checks of `on` find the same blockers.
-/

open Prog hiding perform

namespace Deny

variable {w : World} {α β : Type}

/-! ## What the inspection returns -/

/-- What `read_config` makes of the live configuration. -/
def configIn (n : Option Node) : Except Exn (Bytes × Json) := do
  let info ← existing n Node.toStat
  refuseUnless (info.rootRegular 0o022) "live config must be a root-owned, non-writable regular file"
  let xattrs ← existing n Node.xattrs
  return (← contents n, metadataOf info xattrs)

theorem answers_readConfig : Answers host readConfig (configIn (w.files .config)) w := by
  have hmetadata : Answers host (metadataAt (.file .config)) (do
      let info ← existing (w.files .config) Node.toStat
      refuseUnless (info.rootRegular 0o022)
        "live config must be a root-owned, non-writable regular file"
      let xattrs ← existing (w.files .config) Node.xattrs
      return metadataOf info xattrs) w :=
    answers_bind (answers_call rfl) fun _ _ => answers_bind (answers_done _ w) fun _ _ =>
      answers_bind (answers_call rfl) fun _ _ => answers_done _ w
  have hread := answers_bind hmetadata fun metadata _ =>
    answers_bind (answers_call (o := .read (.file .config)) (w := w) rfl) fun data _ =>
      answers_done (.ok (data, metadata)) w
  have heq : configIn (w.files .config) = (do
      let metadata ← (do
        let info ← existing (w.files .config) Node.toStat
        refuseUnless (info.rootRegular 0o022)
          "live config must be a root-owned, non-writable regular file"
        let xattrs ← existing (w.files .config) Node.xattrs
        return metadataOf info xattrs)
      let data ← contents (w.files .config)
      return (data, metadata)) := by
    simp [configIn]
  rw [heq]
  exact hread

/-- What `inspect` returns. -/
def inspectIn (w : World) : Except Exn (Profile × Action × List String) := do
  let (profile, action, blockers) ← tryCatch (do judge (← configIn (w.files .config)).1) fun error =>
    if isInspected error then return (.unknown, .other, [configBlocker error]) else throw error
  return (profile, action, blockers ++
    (if w.active .opensnitch = .active then [] else ["opensnitch.service is not active"]) ++
    (if socketSafe ((w.files .socket).map Node.toStat) then []
      else ["root-only bridge socket /run/snitchwatch/opensnitchd.sock is missing or unsafe"]))

theorem answers_inspect : Answers host inspect (inspectIn w) w := by
  refine answers_bind (answers_recover (answers_bind answers_readConfig fun x _ =>
    answers_done (judge x.1) w) fun e => ?_) fun x _ => ?_
  · exact answers_ite (answers_done _ w) (answers_done _ w)
  · refine answers_bind_ok (answers_bind_ok (answers_call rfl) (answers_done _ w)) ?_
    refine answers_bind_ok (answers_lookup .socket) ?_
    simp only [decide_eq_true_eq]
    exact answers_done _ w

/-- What `is_expired` returns. -/
def expiredIn (clock : Moment) (state : Option Fields) : Except Exn Bool :=
  match state with
  | none => return false
  | some state =>
    if isPending state then do return (← stampField state "expiresAt") < clock else return false

theorem answers_isExpired (state : Option Fields) :
    Answers host (isExpired state) (expiredIn w.clock state) w := by
  cases state with
  | none => exact answers_done _ w
  | some state =>
    refine answers_ite ?_ (answers_done _ w)
    exact answers_bind_ok (answers_call rfl) (answers_bind (answers_done _ w) fun _ _ =>
      answers_done _ w)

/-- The blocker of a pending trial. -/
def blockerIn (clock : Moment) (state : Option Fields) : Except Exn String := do
  if ← expiredIn clock state then
    return "an expired deny trial is still pending (its revert did not complete); run: ujust " ++
      "snitchwatch-deny off"
  else return "a deny trial is already pending; confirm or off first"

def pendingIn (clock : Moment) (state : Option Fields) : Except Exn (List String) :=
  if state.any isPending then do return [← blockerIn clock state] else return []

theorem answers_pendingBlockers (state : Option Fields) :
    Answers host (pendingBlockers state) (pendingIn w.clock state) w := by
  refine answers_ite (answers_bind ?_ fun _ _ => answers_done _ w) (answers_done _ w)
  exact answers_bind (answers_isExpired state) fun _ _ =>
    answers_ite (answers_done _ w) (answers_done _ w)

/-! ## Eligibility -/

/-- Nothing blocks a trial. -/
structure Eligible (w : World) : Prop where
  config : ∃ x, configIn (w.files .config) = .ok x ∧ Approved x.1
  service : w.active .opensnitch = .active
  socket : socketSafe ((w.files .socket).map Node.toStat)
  idle : ∀ state, stateIn (w.files .state) = .ok state → ¬ state.any isPending
  unconfirmed : optIn (w.files .marker) (w.files .state) = .ok false

theorem tryCatch_eq_ok {ε : Type} {r : Except ε α} {f : ε → Except ε α} {a : α} :
    tryCatch r f = .ok a ↔ r = .ok a ∨ ∃ e, r = .error e ∧ f e = .ok a := by
  cases r with
  | ok b => exact ⟨.inl, fun h => h.elim id nofun⟩
  | error e =>
    constructor
    · exact fun h => .inr ⟨e, rfl, h⟩
    · rintro (h | ⟨e', he, h⟩)
      · cases h
      · obtain rfl := Except.error.inj he
        exact h

/-- The inspection of the configuration blocks nothing exactly if it is approved. -/
theorem configBlockers_eq_nil {n : Option Node} {profile : Profile} {action : Action}
    {blockers : List String}
    (h : tryCatch (do judge (← configIn n).1) (fun error =>
      if isInspected error then return (.unknown, .other, [configBlocker error]) else throw error) =
        (.ok (profile, action, blockers) : Except Exn _)) :
    blockers = [] ↔ ∃ x, configIn n = .ok x ∧ Approved x.1 := by
  constructor
  · rintro rfl
    rcases tryCatch_eq_ok.mp h with h | ⟨e, -, h⟩
    · obtain ⟨x, hx, hjudge⟩ := Except.bind_eq_ok.mp h
      exact ⟨x, hx, approved_of_judge hjudge⟩
    · split at h <;> cases h
  · rintro ⟨x, hx, happroved⟩
    rw [hx] at h
    have hjudge : (do judge (← (.ok x : Except Exn (Bytes × Json))).1) = .ok (.system, .allow, []) :=
      happroved.judge
    rw [hjudge] at h
    exact (congrArg (fun x => x.2.2) (Except.ok.inj h)).symm

theorem inspectIn_blockers {profile : Profile} {action : Action} {blockers : List String}
    (h : inspectIn w = .ok (profile, action, blockers)) :
    blockers = [] ↔ (∃ x, configIn (w.files .config) = .ok x ∧ Approved x.1) ∧
      w.active .opensnitch = .active ∧ socketSafe ((w.files .socket).map Node.toStat) := by
  obtain ⟨⟨profile', action', blockers'⟩, hconfig, h⟩ := Except.bind_eq_ok.mp h
  obtain ⟨-, -, hblockers⟩ : profile' = profile ∧ action' = action ∧ blockers' ++
      (if w.active .opensnitch = .active then [] else ["opensnitch.service is not active"]) ++
      (if socketSafe ((w.files .socket).map Node.toStat) then []
        else ["root-only bridge socket /run/snitchwatch/opensnitchd.sock is missing or unsafe"]) =
          blockers := by
    simpa only [pure, Except.pure, Except.ok.injEq, Prod.mk.injEq] using h
  rw [← configBlockers_eq_nil hconfig, ← hblockers]
  simp only [List.append_eq_nil_iff, and_assoc]
  refine and_congr_right fun _ => and_congr ?_ ?_
  · split <;> simp_all
  · split <;> simp_all

theorem pendingIn_eq_ok {clock : Moment} {state : Option Fields} {blockers : List String}
    (h : pendingIn clock state = .ok blockers) : blockers = [] ↔ ¬ state.any isPending := by
  by_cases hpending : state.any isPending
  · rw [pendingIn, if_pos hpending] at h
    obtain ⟨blocker, -, h⟩ := Except.bind_eq_ok.mp h
    obtain rfl := Except.ok.inj h
    exact iff_of_false nofun (not_not_intro hpending)
  · rw [pendingIn, if_neg hpending] at h
    obtain rfl := Except.ok.inj h
    exact iff_of_true rfl hpending

/-- The blockers that `status` and `on` compute. -/
structure Finds (w : World) (blockers : List String) : Prop where
  found : ∃ profile action configBlockers state pending confirmed,
    inspectIn w = .ok (profile, action, configBlockers) ∧ stateIn (w.files .state) = .ok state ∧
      pendingIn w.clock state = .ok pending ∧
      optIn (w.files .marker) (w.files .state) = .ok confirmed ∧
      blockers = configBlockers ++ pending ++ if confirmed then [confirmedBlocker] else []

/-- There are none exactly if a trial is eligible. -/
theorem Finds.eq_nil_iff {blockers : List String} (h : Finds w blockers) :
    blockers = [] ↔ Eligible w := by
  obtain ⟨profile, action, configBlockers, state, pending, confirmed, hinspect, hstate, hpending,
    hconfirmed, rfl⟩ := h.found
  have hconfirmed' : (if confirmed then [confirmedBlocker] else []) = [] ↔ confirmed = false := by
    cases confirmed <;> simp
  simp only [List.append_eq_nil_iff, inspectIn_blockers hinspect, pendingIn_eq_ok hpending,
    hconfirmed']
  constructor
  · rintro ⟨⟨⟨hconfig, hservice, hsocket⟩, hidle⟩, rfl⟩
    refine ⟨hconfig, hservice, hsocket, fun state' hstate' => ?_, hconfirmed⟩
    rwa [← Except.ok.inj (hstate.symm.trans hstate')]
  · intro h
    exact ⟨⟨⟨h.config, h.service, h.socket⟩, h.idle state hstate⟩,
      Except.ok.inj (hconfirmed.symm.trans h.unconfirmed)⟩

/-- A report that `status` computes tells the blockers. -/
theorem finds_of_buildReport {report : Fields} {v : World}
    (h : buildReport.exec host w = (.ok report, v)) :
    ∃ blockers, Finds w blockers ∧ report.get "canEnable" = .bool blockers.isEmpty := by
  obtain ⟨⟨profile, action, configBlockers⟩, hinspect, h⟩ := exec_bind_eq_ok answers_inspect h
  obtain ⟨state, hstate, h⟩ := exec_bind_eq_ok answers_loadState h
  obtain ⟨expired, -, h⟩ := exec_bind_eq_ok (answers_isExpired state) h
  obtain ⟨pending, hpending, h⟩ := exec_bind_eq_ok (answers_pendingBlockers state) h
  obtain ⟨confirmed, hconfirmed, h⟩ := exec_bind_eq_ok answers_denyOptIn h
  obtain ⟨expiresAt, -, h⟩ := exec_bind_eq_ok (answers_done (reportedExpiry state) w) h
  refine ⟨_, ⟨profile, action, configBlockers, state, pending, confirmed, hinspect, hstate, hpending,
    hconfirmed, rfl⟩, ?_⟩
  obtain rfl := Except.ok.inj (congrArg Prod.fst h)
  rfl

/-- **`canEnable` tells whether nothing blocks a trial.** -/
theorem canEnable_iff {report : Fields} {v : World} (h : buildReport.exec host w = (.ok report, v)) :
    report.get "canEnable" = .bool true ↔ Eligible w := by
  obtain ⟨blockers, hfinds, hreport⟩ := finds_of_buildReport h
  rw [hreport, ← hfinds.eq_nil_iff, Json.bool.injEq, List.isEmpty_iff]

/-- The checks of `on` pass exactly without a blocker. -/
theorem answers_preflight {blockers : List String} (h : Finds w blockers) :
    Answers host preflight (refuseUnless blockers.isEmpty
      ("cannot enable deny: " ++ "; ".intercalate blockers)) w := by
  obtain ⟨profile, action, configBlockers, state, pending, confirmed, hinspect, hstate, hpending,
    hconfirmed, rfl⟩ := h.found
  have hread : Answers host inspect (.ok (profile, action, configBlockers)) w :=
    hinspect ▸ answers_inspect
  have hload : Answers host loadState (.ok state) w := hstate ▸ answers_loadState
  have hblockers : Answers host (pendingBlockers state) (.ok pending) w :=
    hpending ▸ answers_pendingBlockers state
  have hoptIn : Answers host denyOptIn (.ok confirmed) w := hconfirmed ▸ answers_denyOptIn
  exact answers_bind_ok hread <| answers_bind_ok hload <| answers_bind_ok hblockers <|
    answers_bind_ok hoptIn (answers_done _ w)

end Deny
