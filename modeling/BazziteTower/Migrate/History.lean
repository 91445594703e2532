import BazziteTower.Migrate.Archive

/-!
# Sessions of the journal

Every state that a session of the helper reaches has a journal as in `Chronicle`,
whatever failed or was killed, as long as nobody else writes to the journal.

## Main definitions

* `Ready` — a state in which the record of a new transaction may be saved.
* `Histories` — the states that runs of the helper reach.

## Main results

* `history_kept` — no archive changes, and no record of a transaction that is over is lost.
* `interrupted_blocks` — what follows an interrupted archive.
-/

open Prog hiding perform

namespace Migrate

variable {w w₀ : World} {record live : Fields} {k : ℕ} {I P : World → Prop}
  {parents : Except Exn Unit} {α : Type}

/-! ## Plain parts -/

/-- A recorded unit. -/
def IsUnit (unit : Service) (entry : Text × Json) : Prop :=
  ∃ enablement activity, entry = ((unitName unit).toList, unitEntry enablement activity)

theorem returns_any {F : α → Prop} (hF : ∀ a, F a) (p : Script α) : p.returns F :=
  returns_of_forall hF p

theorem returns_serviceState : serviceState.returns (List.Forall₂ IsUnit units) := by
  refine returns_mapM (fun unit => ?_) units
  refine returns_bind (F := fun _ => True) (returns_any (fun _ => trivial) _) fun enablement _ => ?_
  refine returns_bind (F := fun _ => True) (returns_any (fun _ => trivial) _) fun activity _ => ?_
  refine returns_bind (F := fun _ => True) (returns_any (fun _ => trivial) _) fun _ _ => ?_
  refine returns_bind (F := fun _ => True) (returns_any (fun _ => trivial) _) fun _ _ => ?_
  rintro _ ⟨⟩
  exact ⟨enablement, activity, rfl⟩

theorem plain_of_isUnit {unit : Service} {entry : Text × Json} (h : IsUnit unit entry) :
    Json.Plain (Json.recursionLimit - 2) entry.2 := by
  obtain ⟨enablement, activity, rfl⟩ := h
  exact ⟨by decide, (by decide : ["enabled".toList, "active".toList].Nodup), trivial, trivial, trivial⟩

theorem plainMembers_of_units {us : List Service} {states : Fields}
    (h : List.Forall₂ IsUnit us states) : Json.PlainMembers (Json.recursionLimit - 2) states := by
  induction h with
  | nil => trivial
  | cons hunit _ ih => exact ⟨plain_of_isUnit hunit, ih⟩

theorem keys_of_units {us : List Service} {states : Fields} (h : List.Forall₂ IsUnit us states) :
    states.map Prod.fst = us.map fun unit => (unitName unit).toList := by
  induction h with
  | nil => rfl
  | cons hunit _ ih =>
    obtain ⟨enablement, activity, rfl⟩ := hunit
    exact congrArg _ ih

theorem plain_states {states : Fields} (h : List.Forall₂ IsUnit units states) :
    Json.Plain (Json.recursionLimit - 1) (.obj states) := by
  have hnames : (units.map fun unit => (unitName unit).toList).Nodup := by decide
  exact ⟨by decide, (keys_of_units h).symm ▸ hnames, plainMembers_of_units h⟩

theorem returns_metadataAt (l : Loc) :
    (metadataAt l).returns (Json.Plain (Json.recursionLimit - 1)) := by
  refine returns_bind (F := fun _ => True) (returns_any (fun _ => trivial) _) fun info _ => ?_
  refine returns_bind (F := fun _ => True) (returns_any (fun _ => trivial) _) fun _ _ => ?_
  refine returns_bind (F := fun _ => True) (returns_any (fun _ => trivial) _) fun xattrs _ => ?_
  rintro _ ⟨⟩
  exact Deny.plain_metadataOf _ _ _

/-! ## Preparation -/

section Preparation
variable (hP : Chronicled P) (hI : ∀ v, P v → I v)
include hP hI

/-- What the preflight returns can be recorded. -/
theorem leads_check_plain (hw : P (ground w)) :
    Leads Keeping I check (fun r v => P (ground v) ∧ ∀ manifest config states,
      r = .ok (manifest, config, states) →
        (∀ commit, sourceCommit manifest = .ok commit → ∃ s, commit = .str s) ∧
          Json.Plain (Json.recursionLimit - 1) (.obj states)) w := by
  refine leads_bind _ (leads_ask
    (F := fun manifest => ∀ commit, sourceCommit manifest = .ok commit → ∃ s, commit = .str s)
    rfl hP.keeps.stable hI (fun c manifest hc _ h commit => hc.documented.commit manifest commit h) hw)
    (fun manifest v hv => ?_) fun _ _ hv => ⟨hv.1, nofun⟩
  refine Leads.mono (wp_returns (F := fun checked : Json × Json × Fields => checked.1 = manifest ∧
    Json.Plain (Json.recursionLimit - 1) (.obj checked.2.2)) ?_
    (leads_background (background_check.2 (.ok manifest)) hP.keeps hI hv.1)) ?_
  · have hany : ∀ {β : Type} (p : Script β), p.returns fun _ => True :=
      returns_of_forall fun _ => trivial
    refine returns_bind (hany _) fun _ _ => returns_bind (hany _) fun _ _ => ?_
    refine returns_bind (hany _) fun _ _ => returns_bind (hany _) fun _ _ => ?_
    refine returns_bind (hany _) fun _ _ => returns_bind (hany _) fun _ _ => ?_
    refine returns_bind (hany _) fun _ _ => returns_bind (hany _) fun config _ => ?_
    refine returns_bind (hany _) fun _ _ => returns_bind (hany _) fun _ _ => ?_
    refine returns_bind (hany _) fun _ _ => returns_bind returns_serviceState fun states hstates => ?_
    refine returns_bind (hany _) fun _ _ => ?_
    rintro _ ⟨⟩
    exact ⟨rfl, plain_states hstates⟩
  · rintro r u ⟨hu, hchecked⟩
    refine ⟨hu, ?_⟩
    rintro _ _ _ rfl
    obtain ⟨rfl, hplain⟩ := hchecked _ rfl
    exact ⟨hv.2 _ rfl, hplain⟩

theorem leads_capture_plain (config : Json) (hw : P (ground w)) :
    Leads Keeping I (capture config) (fun r v => P (ground v) ∧ ∀ captured, r = .ok captured →
      Json.Plain (Json.recursionLimit - 1) captured.2.1) w := by
  refine wp_returns ?_ (leads_background (background_capture config) hP.keeps hI hw)
  have hany : ∀ {β : Type} (p : Script β), p.returns fun _ => True :=
    returns_of_forall fun _ => trivial
  refine returns_bind (hany _) fun _ _ => returns_bind (hany _) fun _ _ => ?_
  refine returns_bind (hany _) fun _ _ => returns_bind (hany _) fun _ _ => ?_
  refine returns_bind (returns_metadataAt _) fun metadata hmetadata => ?_
  refine returns_bind (hany _) fun _ _ => returns_bind (hany _) fun _ _ => ?_
  refine returns_bind (hany _) fun _ _ => ?_
  rintro _ ⟨⟩
  exact hmetadata

end Preparation

/-- A record of the transaction with this number can be saved over the current file. -/
structure Ready (w₀ : World) (k : ℕ) (w : World) : Prop where
  chronicle : Chronicle w₀ w
  shelved : Shelved w
  drawn : k < w.drawn
  free : w.files (.archive (uuidHex k)) = none

theorem chronicled_ready (w₀ : World) (k : ℕ) : Chronicled (Ready w₀ k) := fun v v' h hv =>
  ⟨chronicled_chronicle w₀ v v' h hv.chronicle, chronicled_shelved v v' h hv.shelved,
    lt_of_lt_of_le hv.drawn h.drawn, (h.files (.archive _) rfl).trans hv.free⟩

/-- A record of the transaction with this number, which is not over. -/
structure Open (record : Fields) (k : ℕ) : Prop where
  isRecord : IsRecord record
  id : Json.find "id".toList record = some (.str (uuidHex k))
  ended : ¬Ended record

/-- The number of a new transaction. -/
theorem leads_uuid (hw : Chronicle w₀ (ground w) ∧ Shelved (ground w)) :
    Leads Keeping (Chronicle w₀) (perform .uuid) (fun r v => Chronicle w₀ (ground v) ∧
      ∀ id, r = .ok id → ∃ k, id = uuidHex k ∧ Ready w₀ k (ground v)) w := by
  have hP := ((chronicled_chronicle w₀).and chronicled_shelved).keeps
  refine leads_perform fun c hc => ?_
  have hv := hP.stable _ c w hc hw
  have hu := hP.step .uuid _ rfl hv
  refine ⟨hv.1, fun _ => ⟨hv.1, nofun⟩, hu.1, fun _ => ⟨hu.1, nofun⟩, hu.1, ?_⟩
  rintro _ ⟨⟩
  refine ⟨(c.interfere w).drawn, rfl, hu.1, hu.2, Nat.lt_succ_self _, ?_⟩
  -- The archives have numbers that were drawn before.
  rcases hfile : (c.interfere w).files (.archive (uuidHex (c.interfere w).drawn)) with _ | n
  · exact hfile
  · obtain ⟨k, hk, hid⟩ := hv.1.drawn _ (Option.isSome_iff_exists.mpr ⟨n, hfile⟩)
    exact absurd (uuidHex_injective hid) (Nat.ne_of_gt hk)

/-- What `apply` prepares can be saved. -/
theorem leads_prepare_ready (hw : Chronicle w₀ (ground w)) :
    Leads Keeping (Chronicle w₀) (prepare parents) (fun r v => Chronicle w₀ (ground v) ∧
      ∀ t, r = .ok t → ∃ k, Open t.record k ∧ Ready w₀ k (ground v)) w := by
  have hP := chronicled_chronicle w₀
  have hscratch : ∀ o : Op, Scratch o → Background o := fun _ => background_of_scratch
  refine leads_bind _ (leads_check_plain hP (fun _ h => h) hw) ?_ fun _ _ hv => ⟨hv.1, nofun⟩
  rintro ⟨manifest, config, states⟩ v ⟨hv, hchecked⟩
  obtain ⟨hmanifest, hstates⟩ := hchecked _ _ _ rfl
  refine leads_bind _ (leads_capture_plain hP (fun _ h => h) config hv) ?_ fun _ _ hv => ⟨hv.1, nofun⟩
  rintro ⟨original, metadata, replacement⟩ v ⟨hv, hcaptured⟩
  have hmetadata := hcaptured _ rfl
  refine leads_after (uses_journal hscratch (fun _ => by rfl) _ _) hP.keeps (fun _ h => h) hv
    (fun _ v hv => ?_) fun _ _ => nofun
  refine leads_bind _ (leads_archive hv) (fun _ v hv => ?_) fun _ _ hv => ⟨hv.1, nofun⟩
  refine leads_bind _ (leads_uuid ⟨hv.1, hv.2 rfl⟩) (fun id v hv => ?_) fun _ _ hv => ⟨hv.1, nofun⟩
  obtain ⟨k, rfl, hready⟩ := hv.2 id rfl
  have hR := chronicled_ready w₀ k
  rcases hcommit : sourceCommit manifest with e | commit
  · exact ⟨hv.1, nofun⟩
  obtain ⟨s, rfl⟩ := hmanifest commit hcommit
  refine leads_known rfl ?_
  refine leads_bind _ (leads_ask (F := fun sha => ∃ s, sha = Json.str s) rfl hR.keeps.stable
    (fun _ h => h.chronicle) (fun c sha hc _ h => hc.documented.digest sha h) hready)
    (fun sha v hv => ⟨hv.1.chronicle, ?_⟩) fun _ _ hv => ⟨hv.1.chronicle, nofun⟩
  obtain ⟨s', rfl⟩ := hv.2 sha rfl
  rintro _ ⟨⟩
  have hprepared : "prepared" ∉ ["rolled-back", "failed-restored"] := by simp
  refine ⟨k, ⟨?_, rfl, not_ended hprepared rfl⟩, hv.1⟩
  exact isRecord_baseline (show Json.Plain _ (.str s) from trivial)
    (show Json.Plain _ (.str s') from trivial) hmetadata hstates ..

/-! ## The record of a transaction -/

/-- The record of the transaction is in the journal. -/
def OnFile (w₀ : World) (record : Fields) (k : ℕ) (w : World) : Prop :=
  Chronicle w₀ w ∧ Filed record k w

theorem chronicled_onFile (w₀ : World) (record : Fields) (k : ℕ) : Chronicled (OnFile w₀ record k) :=
  (chronicled_chronicle w₀).and (chronicled_filed record k)

/-- A record of a transaction that is not over is not archived. -/
theorem Filed.unarchived (h : Filed record k w) (hended : ¬Ended record) :
    w.files (.archive (uuidHex k)) = none :=
  h.free fun hi => hended (h.archived hi).1

/-- Saving another record of the transaction. -/
theorem leads_refile {record' : Fields} (hended : ¬Ended live) (hrecord : IsRecord record')
    (hid : Json.find "id".toList record' = some (.str (uuidHex k))) (hw : OnFile w₀ live k (ground w)) :
    Leads Keeping (Chronicle w₀) (save record')
      (fun r v => (r.isOk → OnFile w₀ record' k (ground v)) ∧
        (OnFile w₀ live k (ground v) ∨ OnFile w₀ record' k (ground v))) w := by
  refine leads_atomicWrite privateTemps_keeping (chronicled_onFile _ _ _).keeps.stable
    (chronicled_onFile _ _ _).keeps.stable (fun _ h => h.1) (fun _ h => h.1) ?_ hw
  rintro v ⟨hchronicle, hfiled⟩
  have hfree := hfiled.unarchived hended
  exact ⟨chronicle_put hchronicle (.inr (.inr ⟨live, k, hfiled, hended⟩)) hrecord hid hfiled.drawn hfree,
    filed_put hrecord hid hfiled.drawn hfree⟩

theorem offJournal_restore (record : Fields) : (restore record).uses fun o => OffJournal o :=
  uses_restore (fun _ => offJournal_of_scratch) (by rfl) (fun _ _ => by rfl) (fun _ => by rfl)
    (fun _ => by rfl) (fun _ => by rfl) record

theorem offJournal_switch (t : Transaction) : (switch t).uses fun o => OffJournal o :=
  uses_switch (fun _ => offJournal_of_scratch) (by rfl) (fun _ _ => by rfl) (fun _ => by rfl)
    (fun _ => by rfl) (fun _ => by rfl) t

/-- The failure handler saves a record of the same transaction. -/
theorem leads_failed_filed (hrecord : IsRecord record)
    (hid : Json.find "id".toList record = some (.str (uuidHex k))) (hended : ¬Ended live) (e : Exn)
    (hw : OnFile w₀ live k (ground w)) :
    Leads Keeping (Chronicle w₀) (failed record e) (fun _ v => Chronicle w₀ (ground v)) w := by
  have hundo : ∀ data, (undo record e data).uses fun o => OffJournal o :=
    uses_undo (fun _ => offJournal_of_scratch) (by rfl) (fun _ _ => by rfl) (fun _ => by rfl)
      (fun _ => by rfl) (fun _ => by rfl) record e
  have hsettle : (settle record e).returns (Settled record e) := by
    refine returns_bind (F := fun _ => True) (returns_of_forall (fun _ => trivial) _) fun data _ => ?_
    refine returns_bind (returns_undo hrecord data) fun record' hsettled => ?_
    rintro _ ⟨⟩
    exact hsettled
  refine leads_bind _ (wp_returns hsettle (leads_offJournal (P := OnFile w₀ live k) ?_
    (chronicled_onFile _ _ _) (fun _ h => h.1) hw)) (fun settled v hv => ?_) fun _ _ hv => hv.1.1
  · exact uses_bind (uses_perform.mpr (by rfl)) fun data => uses_bind (hundo data) fun _ => trivial
  · have hsettled := hv.2 settled rfl
    refine leads_bind _ (leads_refile hended hsettled.isRecord (hsettled.id.trans hid) hv.1)
      (fun _ u hu => (hu.1 rfl).1) fun _ u hu => hu.2.elim And.left And.left

/-- A transaction keeps the chronicle. -/
theorem leads_transact_filed {t : Transaction} (ht : Open t.record k)
    (hw : OnFile w₀ t.record k (ground w)) :
    Leads Keeping (Chronicle w₀) (transact t) (fun _ v => Chronicle w₀ (ground v)) w := by
  have hid : Json.find "id".toList (assign t.record "status" "applied") = some (.str (uuidHex k)) :=
    (find_assign_ne (by decide) ..).trans ht.id
  have happlied : ¬Ended (assign t.record "status" "applied") :=
    not_ended (by simp) (find_assign_self ..)
  -- The record that the handler finds is the prepared or the applied one.
  let inFlight := fun (_ : Except Exn Fields) v =>
    OnFile w₀ t.record k (ground v) ∨ OnFile w₀ (assign t.record "status" "applied") k (ground v)
  refine wp_recover (P := inFlight) ?_ (fun _ _ hv => hv.elim And.left And.left) ?_
  · refine leads_bind _ (leads_offJournal (offJournal_switch t) (chronicled_onFile _ _ _) (fun _ h => h.1)
      hw) (fun _ v hv => ?_) fun _ _ => .inl
    exact leads_bind _ (leads_refile ht.ended (ht.isRecord.assign ..) hid hv) (fun _ _ hu => hu.2)
      fun _ _ hu => hu.2
  · rintro e v (hv | hv)
    · exact leads_failed_filed ht.isRecord ht.id ht.ended e hv
    · exact leads_failed_filed ht.isRecord ht.id happlied e hv

/-- **`apply` keeps the chronicle**, wherever it is killed. -/
theorem leads_apply_filed (hw : Chronicle w₀ (ground w)) :
    Leads Keeping (Chronicle w₀) (apply parents) (fun _ v => Chronicle w₀ (ground v)) w := by
  refine leads_bind _ (leads_prepare_ready hw) (fun t v hv => ?_) fun _ _ hv => hv.1
  obtain ⟨k, ht, hready⟩ := hv.2 t rfl
  refine leads_bind _ (leads_atomicWrite (P := Ready w₀ k) (R := OnFile w₀ t.record k)
    privateTemps_keeping (chronicled_ready _ _).keeps.stable (chronicled_onFile _ _ _).keeps.stable
    (fun _ h => h.chronicle) (fun _ h => h.1) (fun v hv => ?_) hready)
    (fun _ u hu => leads_transact_filed ht (hu.1 rfl)) fun _ u hu => hu.2.elim (·.chronicle) (·.1)
  exact ⟨chronicle_put hv.chronicle hv.shelved ht.isRecord ht.id hv.drawn hv.free,
    filed_put ht.isRecord ht.id hv.drawn hv.free⟩

/-- **`rollback` keeps the chronicle**, wherever it is killed. -/
theorem leads_rollback_filed (hw : Chronicle w₀ (ground w)) :
    Leads Keeping (Chronicle w₀) (rollback parents) (fun _ v => Chronicle w₀ (ground v)) w := by
  have hsame : Chronicled (SameJournal (ground w)) := fun _ _ h h' => h'.trans h
  have hchronicle : ∀ v, SameJournal (ground w) v → Chronicle w₀ v := fun v hv =>
    chronicled_chronicle w₀ _ v hv hw
  refine leads_bind _ (leads_reload hsame.keeps hchronicle (fun _ h => h.files .current rfl)
    (.refl _)) (fun record v hv => ?_) fun _ _ hv => hchronicle _ hv.1
  obtain ⟨hrecorded, hended⟩ := hv.2 record rfl
  rcases hw.current with ⟨hnone, -⟩ | ⟨live, k, hfiled⟩
  · rw [recorded, World.bytes, hnone] at hrecorded
    cases hrecorded
  rw [recorded_of_journaled hfiled.isRecord hfiled.journaled] at hrecorded
  cases hrecorded
  rw [ended_sortMembers hfiled.isRecord] at hended
  have hsorted : IsRecord (Json.sortMembers live) :=
    ⟨(Json.keys_sortMembers live).nodup_iff.mpr hfiled.isRecord.keys,
      Json.plainMembers_sortMembers live hfiled.isRecord.plain⟩
  have hid := find_id_sortMembers hfiled.isRecord hfiled.id
  have hnoted := fun e => notesFailure hsorted e
  have hv' : OnFile w₀ live k (ground v) := chronicled_onFile w₀ live k _ _ hv.1 ⟨hw, hfiled⟩
  refine leads_bind (fun r u => Chronicle w₀ (ground u) ∧ (r.isOk → OnFile w₀ live k (ground u))) ?_
    (fun _ u hu => ?_) fun _ _ hu => hu.1
  · refine leads_recover _ (leads_offJournal (offJournal_restore _) (chronicled_onFile w₀ live k)
      (fun _ h => h.1) hv') (fun _ u hu => ⟨hu.1, fun _ => hu⟩) fun e u hu => ?_
    exact leads_bind _ (leads_refile hended (hnoted e).isRecord ((hnoted e).id.trans hid) hu)
      (fun _ x hx => ⟨(hx.1 rfl).1, by rintro ⟨⟩⟩) fun _ x hx => ⟨hx.2.elim And.left And.left, by rintro ⟨⟩⟩
  · exact leads_bind _ (leads_refile hended (hsorted.assign ..)
      ((find_assign_ne (by decide) ..).trans hid) (hu.2 rfl))
      (fun _ x hx => (hx.1 rfl).1) fun _ x hx => hx.2.elim And.left And.left

/-- **A run of the helper keeps the chronicle**, wherever it is killed. -/
theorem leads_main_filed (k : Action) (hw : Chronicle w₀ (ground w)) :
    Leads Keeping (Chronicle w₀) (main parents k) (fun _ v => Chronicle w₀ (ground v)) w := by
  have hP := (chronicled_chronicle w₀).keeps
  have hlocked : ∀ {body : Script Fields}, (∀ v, Chronicle w₀ (ground v) →
      Leads Keeping (Chronicle w₀) body (fun _ u => Chronicle w₀ (ground u)) v) →
      Leads Keeping (Chronicle w₀) (locked body)
        (fun r u => Chronicle w₀ (ground u) ∧ (r.isOk → True)) w := fun hbody =>
    leads_locked (R := fun _ => True) hP ⟨fun _ _ _ _ h => h, fun _ _ _ h => h⟩ hP (fun _ h => h)
      (fun v hv => (hbody v hv).mono fun _ _ hu => ⟨hu, fun _ => trivial⟩) hw
  cases k with
  | check => exact leads_main_check hP (fun _ h => h) hw
  | apply =>
    exact (leads_main (R := fun _ => True) (hlocked fun _ => leads_apply_filed)).mono fun _ _ hu => hu.1
  | rollback =>
    exact (leads_main (R := fun _ => True) (hlocked fun _ => leads_rollback_filed)).mono
      fun _ _ hu => hu.1

/-! ## Sessions -/

/-- Nobody else writes to the journal during the run; any of its calls may fail, and it
may be killed. -/
def AdmittedJournal (k : Run) (cs : List (Choice Exn World)) (w : World) : Prop :=
  ∀ s ∈ (main k.1 k.2).steps host cs w, OwnJournal s.choice s.world

/-- Nobody else writes to the journal between two runs. -/
structure BetweenJournal (w w' : World) : Prop extends SameJournal w w' where
  temps : w'.temps = w.temps

/-- The states that runs of the helper reach. -/
abbrev Histories (w₀ w : World) : Prop :=
  Session host (fun k : Run => main k.1 k.2) AdmittedJournal BetweenJournal w₀ w

/-- **Every state that a session reaches** has such a journal. -/
theorem chronicle_of_histories (h₀ : Chronicle w₀ w₀) (hw : Histories w₀ w) : Chronicle w₀ w := by
  have hP := chronicled_chronicle w₀
  have hback : ∀ v, Chronicle w₀ (ground v) → Chronicle w₀ v := fun v =>
    hP _ v (sameJournal_of_ground v)
  have hground : ∀ v, Chronicle w₀ v → Chronicle w₀ (ground v) := fun v =>
    hP v _ (sameJournal_ground v)
  refine hw.invariant (fun k cs v hcs hv => ?_) (fun v v' h => hP v v' h.toSameJournal) h₀
  exact hback _ (leads_run (leads_main_filed k.2 (hground v hv)) hP.keeps.stable hcs (hground v hv)).1

/-- A journal that was never written to. -/
structure Unwritten (w : World) : Prop where
  current : w.files .current = none
  archives : ∀ id, w.files (.archive id) = none
  last : lastJournal w = none

theorem Unwritten.chronicle (h : Unwritten w) : Chronicle w w where
  drawn id hid := by
    rw [h.archives] at hid
    cases hid
  current := .inl ⟨h.current, by rintro ⟨id, hid⟩; rw [h.last] at hid; cases hid⟩
  kept _ _ hn := hn
  history _ _ _ _ := .inl rfl

/-- **What the journal remembers**: whatever a session does after it reached a state,
the archives of that state stay as they are, and a record of a transaction that is over
stays in the journal or is its archive, as it is. -/
theorem history_kept {w' : World} (h₀ : Unwritten w₀) (hw : Histories w₀ w) (hw' : Histories w w') :
    (∀ id n, w.files (.archive id) = some n → w'.files (.archive id) = some n) ∧
      ∀ record, recorded w = some (.obj record) → Ended record →
        ∃ id, Json.find "id".toList record = some (.str id) ∧
          (w'.files .current = w.files .current ∨ w'.files (.archive id) = w.files .current) := by
  have hreached := chronicle_of_histories h₀.chronicle hw
  have hchronicle := chronicle_of_histories hreached.refl hw'
  refine ⟨hchronicle.kept, fun record hrecorded hended => ?_⟩
  rcases hreached.current with ⟨hnone, -⟩ | ⟨live, k, hfiled⟩
  · rw [recorded, World.bytes, hnone] at hrecorded
    cases hrecorded
  · rw [recorded_of_journaled hfiled.isRecord hfiled.journaled] at hrecorded
    cases hrecorded
    rw [ended_sortMembers hfiled.isRecord] at hended
    exact ⟨_, find_id_sortMembers hfiled.isRecord hfiled.id,
      hchronicle.history live k hfiled hended⟩

/-! ## A machine with a history -/

theorem unwritten_legacyHost : Unwritten legacyHost := ⟨rfl, fun _ => rfl, rfl⟩

theorem histories_after (k : Run) (n : ℕ) (hw : Histories w₀ w) (hdoc : Documented w) :
    Histories w₀ (after k n w) := by
  refine .run k _ hw fun s hs => ?_
  obtain ⟨hcalm, hdocumented⟩ := calm_steps k n hdoc s hs
  rw [hcalm]
  exact ⟨rfl, .refl _, hdocumented⟩

/-- The migration of `migratedHost` is rolled back. -/
def rolledBackHost : World := after (.ok (), .rollback) 66 migratedHost

theorem documented_rolledBackHost : Documented rolledBackHost :=
  documented_after _ _ (documented_after _ _ documented_legacyHost)

theorem histories_rolledBackHost : Histories legacyHost rolledBackHost :=
  histories_after _ _ (histories_after _ _ .start documented_legacyHost)
    (documented_after _ _ documented_legacyHost)

/-- A rolled back migration, and the next one. -/
theorem history_kept_rolledBackHost :
    (∀ id n, rolledBackHost.files (.archive id) = some n →
      (after (.ok (), .apply) 78 rolledBackHost).files (.archive id) = some n) ∧
      ∀ record, recorded rolledBackHost = some (.obj record) → Ended record →
        ∃ id, Json.find "id".toList record = some (.str id) ∧
          ((after (.ok (), .apply) 78 rolledBackHost).files .current = rolledBackHost.files .current ∨
            (after (.ok (), .apply) 78 rolledBackHost).files (.archive id) =
              rolledBackHost.files .current) :=
  history_kept unwritten_legacyHost histories_rolledBackHost
    (histories_after _ _ .start documented_rolledBackHost)

/-! ## Interrupted runs -/

section Blocked
variable (hfiled : Filed record k w₀) (hinterrupted : Interrupted w₀)
include hfiled hinterrupted

theorem leads_apply_blocked (hw : SameJournal w₀ (ground w)) :
    Leads Keeping (SameJournal w₀) (apply parents) (fun r v => SameJournal w₀ (ground v) ∧ ¬r.isOk) w := by
  have hP : Chronicled (SameJournal w₀) := fun _ _ h h' => h'.trans h
  have hscratch : ∀ o : Op, Scratch o → Background o := fun _ => background_of_scratch
  refine leads_bind (fun r v => SameJournal w₀ (ground v) ∧ ¬r.isOk) ?_ (fun _ _ hv => absurd rfl hv.2)
    fun _ _ hv => ⟨hv.1, nofun⟩
  refine leads_after background_check hP.keeps (fun _ h => h) hw (fun checked v hv => ?_)
    fun _ _ => nofun
  refine leads_after (background_capture _) hP.keeps (fun _ h => h) hv (fun _ v hv => ?_)
    fun _ _ => nofun
  refine leads_after (uses_journal hscratch (fun _ => by rfl) _ _) hP.keeps (fun _ h => h) hv
    (fun _ v hv => ?_) fun _ _ => nofun
  refine leads_bind _ (leads_archive_interrupted hP (fun _ h => h) (fun u hu =>
    ⟨chronicled_filed record k _ u hu hfiled, hu.interrupted.mpr hinterrupted⟩) hv)
    (fun _ _ hu => absurd rfl hu.2) fun _ _ hu => ⟨hu.1, nofun⟩

theorem leads_rollback_blocked (hw : SameJournal w₀ (ground w)) :
    Leads Keeping (SameJournal w₀) (rollback parents)
      (fun r v => SameJournal w₀ (ground v) ∧ ¬r.isOk) w := by
  have hP : Chronicled (SameJournal w₀) := fun _ _ h h' => h'.trans h
  refine leads_bind _ (leads_reload hP.keeps (fun _ h => h) (fun _ h => h.files .current rfl) hw)
    (fun found v hv => ?_) fun _ _ hv => ⟨hv.1, nofun⟩
  obtain ⟨hrecorded, hended⟩ := hv.2 found rfl
  rw [recorded_of_journaled hfiled.isRecord hfiled.journaled] at hrecorded
  cases hrecorded
  exact absurd ((ended_sortMembers hfiled.isRecord).mpr (hfiled.archived hinterrupted).1) hended

/-- No run of the helper changes the journal again, or succeeds. -/
theorem leads_main_blocked (action : Action) (hw : SameJournal w₀ (ground w)) :
    Leads Keeping (SameJournal w₀) (main parents action)
      (fun r v => SameJournal w₀ (ground v) ∧ (r = .ok 0 → action = .check)) w := by
  have hP : Chronicled (SameJournal w₀) := fun _ _ h h' => h'.trans h
  have hlocked : ∀ {body : Script Fields}, (∀ v, SameJournal w₀ (ground v) →
      Leads Keeping (SameJournal w₀) body (fun r u => SameJournal w₀ (ground u) ∧ ¬r.isOk) v) →
      Leads Keeping (SameJournal w₀) (locked body)
        (fun r u => SameJournal w₀ (ground u) ∧ (r.isOk → False)) w := fun hbody =>
    leads_locked (R := fun _ => False) hP.keeps ⟨fun _ _ _ _ h => h, fun _ _ _ h => h⟩ hP.keeps
      (fun _ h => h) (fun v hv => (hbody v hv).mono fun _ _ hu => ⟨hu.1, hu.2⟩) hw
  cases action with
  | check => exact (leads_main_check hP.keeps (fun _ h => h) hw).mono fun _ _ hu => ⟨hu, fun _ => rfl⟩
  | apply =>
    exact (leads_main (R := fun _ => False) (hlocked fun _ =>
      leads_apply_blocked hfiled hinterrupted)).mono fun _ _ hu => ⟨hu.1, fun hr => (hu.2 hr).elim⟩
  | rollback =>
    exact (leads_main (R := fun _ => False) (hlocked fun _ =>
      leads_rollback_blocked hfiled hinterrupted)).mono fun _ _ hu => ⟨hu.1, fun hr => (hu.2 hr).elim⟩

end Blocked

/-- **After an interrupted archive** no run of `apply` or `rollback` changes the journal or
exits with status 0, until somebody else does something about the journal. -/
theorem interrupted_blocks {w' : World} (h₀ : Unwritten w₀) (hw : Histories w₀ w)
    (hinterrupted : Interrupted w) (hw' : Histories w w') :
    (∀ p, isJournal p → w'.files p = w.files p) ∧
      ∀ action ≠ .check, ∀ cs, AdmittedJournal (parents, action) cs w' →
        ((main parents action).run host cs w').1 ≠ some (.ok 0) := by
  rcases (chronicle_of_histories h₀.chronicle hw).current with ⟨-, hnot⟩ | ⟨record, k, hfiled⟩
  · exact absurd hinterrupted hnot
  have hP : Chronicled (SameJournal w) := fun _ _ h h' => h'.trans h
  have hrun : ∀ (k' : Run) {cs v}, AdmittedJournal k' cs v → SameJournal w v →
      SameJournal w (ground ((main k'.1 k'.2).run host cs v).2) ∧
        ∀ r, ((main k'.1 k'.2).run host cs v).1 = some r → r = .ok 0 → k'.2 = .check := by
    intro k' cs v hcs hv
    have hlead := leads_run (leads_main_blocked hfiled hinterrupted k'.2 (hv.trans (sameJournal_ground v)))
      hP.keeps.stable hcs (hv.trans (sameJournal_ground v))
    exact ⟨hlead.1, fun r hr => (hlead.2 r hr).2⟩
  have hsame : SameJournal w w' :=
    hw'.invariant (I := SameJournal w)
      (fun k' cs v hcs hv => (hrun k' hcs hv).1.trans (sameJournal_of_ground _))
      (fun _ _ h hv => hv.trans h.toSameJournal) (.refl w)
  refine ⟨hsame.files, fun action haction cs hcs hr => haction ?_⟩
  exact (hrun (parents, action) hcs hsame).2 _ hr rfl

/-- The next migration was killed once its archive was in place. -/
def interruptedHost : World := after (.ok (), .apply) 40 rolledBackHost

theorem lastJournal_interruptedHost : lastJournal interruptedHost = some (.archive ['7']) := by
  decide +kernel

theorem interrupted_blocks_interruptedHost :
    (∀ p, isJournal p →
      (after (.ok (), .rollback) 66 interruptedHost).files p = interruptedHost.files p) ∧
      ∀ action ≠ .check, ∀ cs,
        AdmittedJournal (.ok (), action) cs (after (.ok (), .rollback) 66 interruptedHost) →
        ((main (.ok ()) action).run host cs (after (.ok (), .rollback) 66 interruptedHost)).1 ≠
          some (.ok 0) :=
  interrupted_blocks unwritten_legacyHost
    (histories_after _ _ histories_rolledBackHost documented_rolledBackHost)
    ⟨_, lastJournal_interruptedHost⟩
    (histories_after _ _ .start (documented_after _ _ documented_rolledBackHost))

end Migrate
