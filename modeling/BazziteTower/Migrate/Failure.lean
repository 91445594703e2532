import BazziteTower.Deny.Record
import BazziteTower.Migrate.Frame

/-!
# What the journal says of a failed migration

Once its record is prepared, `apply` activates the migration under a handler that
restores the baseline and records the failure.  The handler reads the configuration
before anything else and outside of its own protection, so it is this one read that
decides whether a failure is recorded.

## Main definitions

* `IsRecord` — what every record of a transaction satisfies.
* `InFlight`, `RecordsFailure` — what the journal says before and after the handler.

## Main results

* `failure_recorded_iff` — a failure is recorded if and only if the handler can read
  the configuration.
-/

open Prog hiding perform
open Deny (PrivateTemps)

namespace Migrate

variable {w : World} {record : Fields} {t : Transaction} {e : Exn}

/-! ## Records -/

/-- What every record of a transaction satisfies. -/
structure IsRecord (record : Fields) : Prop where
  keys : (record.map Prod.fst).Nodup
  plain : Json.PlainMembers (Json.recursionLimit - 1) record

theorem IsRecord.assign (h : IsRecord record) (key value : String) :
    IsRecord (assign record key value) where
  keys := Json.nodup_insert h.keys _ _
  plain := Json.plainMembers_insert h.plain _ (show Json.Plain _ (.str value.toList) from trivial)

theorem find_assign_self (record : Fields) (key value : String) :
    Json.find key.toList (assign record key value) = some (.str value.toList) :=
  Json.find_insert_self ..

theorem find_assign_ne {key key' : String} (h : key'.toList ≠ key.toList) (record : Fields)
    (value : String) :
    Json.find key'.toList (assign record key value) = Json.find key'.toList record :=
  Json.find_insert_ne h _ _

/-- The record that `apply` prepares, of plain parts. -/
theorem isRecord_baseline {commit manifestSha metadata : Json} {states : Fields}
    (hcommit : Json.Plain (Json.recursionLimit - 1) commit)
    (hsha : Json.Plain (Json.recursionLimit - 1) manifestSha)
    (hmetadata : Json.Plain (Json.recursionLimit - 1) metadata)
    (hstates : Json.Plain (Json.recursionLimit - 1) (.obj states)) (id : Text)
    (original replacement : Bytes) :
    IsRecord (baseline id commit manifestSha original metadata replacement states) where
  keys := by
    have hnames : ["schemaVersion".toList, "id".toList, "status".toList, "sourceCommit".toList,
        "manifestSha256".toList, "configBytes".toList, "configMetadata".toList, "configSha256".toList,
        "appliedConfigSha256".toList, "services".toList].Nodup := by
      decide
    exact hnames
  plain :=
    ⟨Json.plain_nat _ (by decide), trivial, trivial, hcommit, hsha, trivial, hmetadata, trivial,
      trivial, hstates, trivial⟩

/-- What `service_state` returns. -/
def statesOf (w : World) : Fields :=
  units.map fun unit => ((unitName unit).toList, unitEntry (w.enabled unit) (w.active unit))

theorem plain_statesOf (w : World) : Json.Plain (Json.recursionLimit - 1) (.obj (statesOf w)) := by
  have hentry : ∀ enablement activity,
      Json.Plain (Json.recursionLimit - 2) (unitEntry enablement activity) := fun _ _ =>
    ⟨by decide, (by decide : ["enabled".toList, "active".toList].Nodup), trivial, trivial, trivial⟩
  have hnames : (units.map fun unit => (unitName unit).toList).Nodup := by decide
  exact ⟨by decide, hnames, hentry _ _, hentry _ _, hentry _ _, hentry _ _, trivial⟩

/-- A written record reads the same as text, with its keys sorted. -/
theorem loadsUtf8_recordBytes (h : IsRecord record) :
    loadsUtf8 (recordBytes record) = .ok (.obj (Json.sortMembers record)) := by
  have hplain : Json.Plain Json.recursionLimit (.obj record) := ⟨by decide, h.keys, h.plain⟩
  rw [loadsUtf8, utf8, recordBytes, Json.dumpsSorted, Text.decodeUtf8_encode]
  exact congrArg decoded (Json.loadsText_render (Json.plain_sortKeys _ hplain).written)

/-- What a reader of the journal sees. -/
def recorded (w : World) : Option Json :=
  (w.bytes .current).bind fun data => (loadsUtf8 data).toOption

/-- The journal holds this record. -/
def Journaled (record : Fields) (w : World) : Prop :=
  w.files .current = some (privateFile (recordBytes record))

theorem recorded_of_journaled (h : IsRecord record) (hw : Journaled record w) :
    recorded w = some (.obj (Json.sortMembers record)) := by
  simp [recorded, World.bytes, show w.files .current = _ from hw, privateFile,
    loadsUtf8_recordBytes h, Except.toOption]

/-! ## The handler -/

/-- The transaction is prepared or applied. -/
def InFlight (t : Transaction) (w : World) : Prop :=
  Journaled t.record w ∨ Journaled (assign t.record "status" "applied") w

/-- What the handler makes of a record. -/
structure Settled (record : Fields) (e : Exn) (settled : Fields) : Prop where
  isRecord : IsRecord settled
  id : Json.find "id".toList settled = Json.find "id".toList record
  error : Json.find "error".toList settled = some (.str e.text.toList)
  status : Json.find "status".toList settled = some (.str "failed-restored".toList) ∨
    Json.find "status".toList settled = some (.str "recovery-required".toList)

/-- The journal records a failure with this error. -/
def RecordsFailure (e : Exn) (w : World) : Prop :=
  ∃ record, recorded w = some (.obj record) ∧
    Json.find "error".toList record = some (.str e.text.toList) ∧
    (Json.find "status".toList record = some (.str "failed-restored".toList) ∨
      Json.find "status".toList record = some (.str "recovery-required".toList))

theorem recordsFailure_of_settled {settled : Fields} (h : Settled record e settled)
    (hw : Journaled settled w) : RecordsFailure e w := by
  refine ⟨_, recorded_of_journaled h.isRecord hw, ?_, ?_⟩
  · rw [Json.find_sortMembers h.isRecord.keys, h.error]
    rfl
  · rw [Json.find_sortMembers h.isRecord.keys]
    exact h.status.imp (fun hs => by rw [hs]; rfl) fun hs => by rw [hs]; rfl

/-- A transaction in flight records no failure. -/
theorem not_recordsFailure_of_inFlight (ht : IsRecord t.record)
    (hstatus : Json.find "status".toList t.record = some (.str "prepared".toList))
    (hw : InFlight t w) : ¬RecordsFailure e w := by
  rintro ⟨record, hrecorded, -, hfailed⟩
  have hsome : ∃ status : String, (status = "prepared" ∨ status = "applied") ∧
      Json.find "status".toList record = some (.str status.toList) := by
    rcases hw with hw | hw
    · rw [recorded_of_journaled ht hw] at hrecorded
      cases hrecorded
      exact ⟨_, .inl rfl, by rw [Json.find_sortMembers ht.keys, hstatus]; rfl⟩
    · have ht' := ht.assign "status" "applied"
      rw [recorded_of_journaled ht' hw] at hrecorded
      cases hrecorded
      exact ⟨_, .inr rfl, by rw [Json.find_sortMembers ht'.keys, find_assign_self]; rfl⟩
  obtain ⟨status, hstatus', hfind⟩ := hsome
  rw [hfind] at hfailed
  simp only [Option.some.injEq, Json.str.injEq] at hfailed
  rcases hstatus' with rfl | rfl <;> revert hfailed <;> decide

/-- The parts of a settled record that are not its error. -/
theorem settled_assign {record' : Fields} (hrecord : IsRecord record')
    (hid : Json.find "id".toList record' = Json.find "id".toList record)
    (hstatus : Json.find "status".toList record' = some (.str "failed-restored".toList) ∨
      Json.find "status".toList record' = some (.str "recovery-required".toList)) (e : Exn) :
    Settled record e (assign (noteRecovery record' e) "error" e.text) := by
  have hnote : IsRecord (noteRecovery record' e) ∧
      (∀ key ∈ ["id", "status"], Json.find key.toList (noteRecovery record' e) =
        Json.find key.toList record') := by
    cases e with
    | drift p =>
      refine ⟨hrecord.assign .., fun key hkey => find_assign_ne ?_ ..⟩
      revert key
      decide
    | refusal message busy => exact ⟨hrecord, fun _ _ => rfl⟩
    | raised kind message => exact ⟨hrecord, fun _ _ => rfl⟩
  refine ⟨hnote.1.assign .., ?_, find_assign_self .., ?_⟩
  · rw [find_assign_ne (by decide), hnote.2 "id" (by simp), hid]
  · rw [find_assign_ne (by decide), hnote.2 "status" (by simp)]
    exact hstatus

/-- What a failed restoration records: a record with the same id. -/
structure NotesFailure (record noted : Fields) : Prop where
  isRecord : IsRecord noted
  id : Json.find "id".toList noted = Json.find "id".toList record
  status : Json.find "status".toList noted = some (.str "recovery-required".toList)

theorem notesFailure (h : IsRecord record) (recovery : Exn) :
    NotesFailure record (noteFailure record recovery) := by
  have hbase : NotesFailure record (assign (assign record "status" "recovery-required")
      "recoveryError" recovery.text) :=
    ⟨(h.assign "status" "recovery-required").assign "recoveryError" recovery.text,
      (find_assign_ne (by decide) ..).trans (find_assign_ne (by decide) ..),
      (find_assign_ne (by decide) ..).trans (find_assign_self ..)⟩
  cases recovery with
  | drift p =>
    exact ⟨hbase.isRecord.assign .., (find_assign_ne (by decide) ..).trans hbase.id,
      (find_assign_ne (by decide) ..).trans hbase.status⟩
  | refusal message busy => exact hbase
  | raised kind message => exact hbase

/-! ## Runs -/

/-- The journal and the temporary files are left to the helper. -/
structure LeavesJournal (c : Choice Exn World) (w : World) : Prop where
  temps : (c.interfere w).temps = w.temps
  current : (c.interfere w).files .current = w.files .current

/-- The choices that a run may meet: any failure, and anything outside of the journal. -/
def Outside : Op → Choice Exn World → World → Prop := fun _ c w => LeavesJournal c w

theorem privateTemps_outside : PrivateTemps Outside := fun _ _ _ h => h.temps

theorem stable_current (n : Node) : Stable Outside fun v => v.files .current = some n :=
  fun _ _ _ h hv => h.current.trans hv

/-- A call that leaves the current record alone. -/
def SparesCurrent (o : Op) : Prop := Spares .current o

theorem sparesCurrent_of_scratch {o : Op} (ho : Scratch o) : SparesCurrent o := spares_of_scratch ho

/-- Calls that leave the current record alone keep it through a run. -/
theorem leads_sparesCurrent {α : Type} {p : Script α} (hp : p.uses SparesCurrent) {P : World → Prop}
    (hP : ∀ v v' : World, v'.files .current = v.files .current → P v → P v') (hw : P w) :
    Leads Outside (fun _ => True) p (fun _ v => P v) w := by
  refine wp_of_uses (P := P) hp ?_ hw fun _ _ h => h
  intro o c v ho hc hv
  have hv' := hP v _ hc.current hv
  have hafter := hP _ _ (files_perform ho (c.interfere v)) hv'
  unfold Host.act
  split
  · exact ⟨trivial, hafter⟩
  · exact ⟨trivial, hv'⟩
  · exact ⟨trivial, hafter⟩

theorem sparesCurrent_switch (t : Transaction) : (switch t).uses SparesCurrent :=
  uses_switch (fun _ => sparesCurrent_of_scratch) (by rfl) (fun _ _ => by rfl) (fun _ => by rfl)
    (fun _ => by rfl) (fun _ => by rfl) t

theorem sparesCurrent_undo (record : Fields) (e : Exn) (live : Bytes) :
    (undo record e live).uses SparesCurrent :=
  uses_undo (fun _ => sparesCurrent_of_scratch) (by rfl) (fun _ _ => by rfl) (fun _ => by rfl)
    (fun _ => by rfl) (fun _ => by rfl) record e live

theorem inFlight_congr {v v' : World} (h : v'.files .current = v.files .current) (hv : InFlight t v) :
    InFlight t v' :=
  hv.imp h.trans h.trans

/-- Writing a record puts it in place, or leaves the one that was there. -/
theorem leads_save {record record' : Fields} (hw : Journaled record w) :
    Leads Outside (fun _ => True) (save record')
      (fun r v => (r.isOk → Journaled record' v) ∧ (Journaled record v ∨ Journaled record' v)) w :=
  leads_atomicWrite (P := fun v => v.files .current = some (privateFile (recordBytes record)))
    (R := fun v => v.files .current = some (privateFile (recordBytes record')))
    privateTemps_outside (stable_current _) (stable_current _) (fun _ _ => trivial)
    (fun _ _ => trivial) (fun v _ => by simp [World.put]) hw

/-- Whatever becomes of the activation, the transaction is in flight after it. -/
theorem leads_activate (hw : Journaled t.record w) :
    Leads Outside (fun _ => True) (activate t) (fun _ v => InFlight t v) w := by
  refine leads_bind (fun _ v => Journaled t.record v)
    (leads_sparesCurrent (sparesCurrent_switch t) (fun _ _ h => h.trans) hw) (fun _ v hv => ?_)
    fun _ _ => .inl
  exact leads_bind _ (leads_save hv) (fun _ _ hu => hu.2) fun _ _ hu => hu.2

/-- What the handler makes of a record, once it has read the configuration. -/
theorem returns_undo (hrecord : IsRecord record) (live : Bytes) :
    (undo record e live).returns fun record' =>
      Settled record e (assign (noteRecovery record' e) "error" e.text) := by
  refine returns_recover ?_ fun recovery => ?_
  · refine returns_bind (F := fun _ => True) (returns_of_forall (fun _ => trivial) _) fun _ _ => ?_
    refine returns_bind (F := fun _ => True) (returns_of_forall (fun _ => trivial) _) fun _ _ => ?_
    refine returns_bind (F := fun _ => True) (returns_of_forall (fun _ => trivial) _) fun _ _ => ?_
    refine returns_bind (F := fun _ => True) (returns_of_forall (fun _ => trivial) _) fun _ _ => ?_
    rintro _ ⟨⟩
    exact settled_assign (hrecord.assign ..) (find_assign_ne (by decide) ..)
      (.inl (find_assign_self ..)) e
  · rintro _ ⟨⟩
    have hnote := notesFailure hrecord recovery
    exact settled_assign hnote.isRecord hnote.id (.inr hnote.status) e

/-- The handler protects everything but its first call. -/
theorem leads_undo (hrecord : IsRecord record) (live : Bytes) (hw : InFlight t w) :
    Leads Outside (fun _ => True) (undo record e live)
      (fun r v => InFlight t v ∧ ∃ record', r = .ok record' ∧
        Settled record e (assign (noteRecovery record' e) "error" e.text)) w := by
  have hflight := leads_sparesCurrent (P := InFlight t) (sparesCurrent_undo record e live)
    (fun _ _ => inFlight_congr) hw
  have hreturns : Leads Outside (fun _ => True) (undo record e live) (fun r _ => r.isOk) w :=
    leads_recover (fun _ _ => True) (wp_of_forall (fun _ _ => trivial) (fun _ _ => trivial) _)
      (fun _ _ _ => rfl) fun _ _ _ => rfl
  refine wp_mono (wp_returns (returns_undo hrecord live) (wp_and hflight hreturns)) ?_
  rintro (_ | record') v ⟨⟨hv, hok⟩, hsettled⟩
  · cases hok
  · exact ⟨hv, record', rfl, hsettled record' rfl⟩

/-- As `Outside`, without failures. -/
def Calm : Op → Choice Exn World → World → Prop := fun _ c w => LeavesJournal c w ∧ c.fault = .none

theorem leads_calm {o : Op} {Q : Except Exn o.Res → World → Prop}
    (H : ∀ c : Choice Exn World, LeavesJournal c w →
      Q (o.perform (c.interfere w)).1 (o.perform (c.interfere w)).2) :
    Leads Calm (fun _ => True) (perform o) Q w := by
  rintro c ⟨hc, hfault⟩
  simp only [Host.act, hfault]
  exact ⟨trivial, H c hc⟩

/-- The transaction is in flight, and the temporary file is there. -/
def Made (t : Transaction) (n : ℕ) (w : World) : Prop := InFlight t w ∧ (w.temps n).isSome

theorem leads_made {o : Op} {n : ℕ}
    (H : ∀ v, Made t n v → (o.perform v).1.isOk ∧ Made t n (o.perform v).2) (hw : Made t n w) :
    Leads Calm (fun _ => True) (perform o) (fun r v => r.isOk ∧ Made t n v) w :=
  leads_calm fun _ hc => H _ ⟨inFlight_congr hc.current hw.1, by rw [hc.temps]; exact hw.2⟩

theorem made_modifyTemp {n : ℕ} {v : World} (hv : Made t n v) (f : Node → Node) :
    (v.modifyTemp n f).1.isOk ∧ Made t n (v.modifyTemp n f).2 := by
  obtain ⟨hflight, hsome⟩ := hv
  obtain ⟨m, hm⟩ := Option.isSome_iff_exists.mp hsome
  simp only [World.modifyTemp, hm]
  exact ⟨rfl, inFlight_congr rfl hflight, by simp [World.setTemp]⟩

/-- Without failures, the write of a record goes through. -/
theorem leads_save_calm {record' : Fields} (hw : InFlight t w) :
    Leads Calm (fun _ => True) (save record') (fun r _ => r.isOk) w := by
  refine leads_bind (fun r v => ∃ n, r = .ok n ∧ Made t n v) ?_ ?_ (by rintro e v ⟨n, ⟨⟩, -⟩)
  · refine leads_calm fun c hc => ⟨_, rfl, ?_⟩
    exact ⟨inFlight_congr hc.current hw, by simp [Op.perform, World.setTemp]⟩
  rintro n v ⟨_, ⟨⟩, hv⟩
  refine leads_ensuring (fun r u => r.isOk ∧ u.temps n = none) ?_ ?_
  · refine leads_bind _ (leads_made (fun _ h => made_modifyTemp h _) hv) (fun _ u hu => ?_)
      (by rintro _ _ ⟨⟨⟩, -⟩)
    refine leads_bind _ (leads_made (fun _ h => made_modifyTemp h _) hu.2) (fun _ u hu => ?_)
      (by rintro _ _ ⟨⟨⟩, -⟩)
    refine leads_bind _ (leads_made (fun _ h => ⟨rfl, h⟩) hu.2) (fun _ u hu => ?_)
      (by rintro _ _ ⟨⟨⟩, -⟩)
    -- The record is a regular file, which the temporary one replaces.
    refine leads_bind (fun r x => r.isOk ∧ x.temps n = none) (leads_calm fun c hc => ?_)
      (fun _ x hx => leads_calm fun c hc => ⟨rfl, hc.temps ▸ hx.2⟩) (by rintro _ _ ⟨⟨⟩, -⟩)
    have hflight := inFlight_congr hc.current hu.2.1
    obtain ⟨m, hm⟩ := Option.isSome_iff_exists.mp hu.2.2
    have hkind : ¬((c.interfere u).files .current).any fun m => m.kind = .directory := by
      rcases hflight with h | h <;> rw [show (c.interfere u).files .current = _ from h] <;>
        simp [privateFile]
    simp only [Op.perform, hc.temps, hm, if_neg hkind]
    exact ⟨rfl, by simp [World.put, World.setTemp]⟩
  · rintro r u ⟨hr, hu⟩
    refine leads_bind (fun r x => r = .ok false) (leads_calm fun c hc => ?_) ?_ ?_
    · simp [Op.perform, World.node, hc.temps, hu]
    · rintro _ x ⟨⟩
      exact hr
    · rintro e x ⟨⟩

/-! ## Failed runs -/

section Runs
variable {cs : List (Choice Exn World)}

theorem run_outside {α : Type} {p : Script α} {Q : Except Exn α → World → Prop}
    (hp : Leads Outside (fun _ => True) p Q w)
    (hcs : ∀ s ∈ p.steps host cs w, LeavesJournal s.choice s.world) {r : Except Exn α}
    (hr : (p.run host cs w).1 = some r) : Q r (p.run host cs w).2 :=
  (leads_run hp (fun _ _ _ _ h => h) hcs trivial).2 r hr

/-- The handler of a failed activation can read the configuration. -/
def HandlerReads (t : Transaction) (cs : List (Choice Exn World)) (w : World) : Prop :=
  ∀ c ∈ ((activate t).rest host cs w).head?,
    (host.act c (.read (.file .config)) ((activate t).run host cs w).2).1.isOk

/-- No failure strikes the handler while it writes its record. -/
def HandlerSaves (t : Transaction) (e : Exn) (cs : List (Choice Exn World)) (w : World) : Prop :=
  let cs₁ := (activate t).rest host cs w
  let w₁ := ((activate t).run host cs w).2
  ∀ record, ((settle t.record e).run host cs₁ w₁).1 = some (.ok record) →
    ∀ s ∈ (save record).steps host ((settle t.record e).rest host cs₁ w₁)
      ((settle t.record e).run host cs₁ w₁).2, s.choice.fault = .none

/-- The part of the handler that follows its first call. -/
def settleWith (record : Fields) (e : Exn) (live : Bytes) : Script Fields := do
  let record ← undo record e live
  return assign (noteRecovery record e) "error" e.text

theorem leads_settleWith (ht : IsRecord record) (live : Bytes) (hw : InFlight t w) :
    Leads Outside (fun _ => True) (settleWith record e live)
      (fun r _ => ∃ settled, r = .ok settled ∧ Settled record e settled) w :=
  leads_bind _ (leads_undo ht live hw) (by rintro _ v ⟨-, record', ⟨⟩, hsettled⟩; exact ⟨_, rfl, hsettled⟩)
    (by rintro _ v ⟨-, record', ⟨⟩, -⟩)

theorem act_read (c : Choice Exn World) (l : Loc) (w : World) :
    (host.act c (.read l) w).2 = c.interfere w := by
  unfold Host.act
  split <;> rfl

theorem sparesCurrent_settle (record : Fields) (e : Exn) : (settle record e).uses SparesCurrent :=
  uses_bind (uses_perform.mpr (by rfl)) fun _ =>
    uses_bind (sparesCurrent_undo record e _) fun _ => trivial

/-- The handler settles a record exactly if its first call returns. -/
theorem run_settle (ht : IsRecord record) (hw : InFlight t w)
    (hcs : ∀ s ∈ (settle record e).steps host cs w, LeavesJournal s.choice s.world)
    {r : Except Exn Fields} (hr : ((settle record e).run host cs w).1 = some r) :
    (∀ settled, r = .ok settled → Settled record e settled) ∧
      (r.isOk ↔ ∀ c ∈ cs.head?, (host.act c (.read (.file .config)) w).1.isOk) := by
  cases cs with
  | nil => cases hr
  | cons c cs =>
    let next := host.act c (.read (.file .config)) w
    have hrun : (settle record e).run host (c :: cs) w =
        ((done next.1).bind (settleWith record e)).run host cs next.2 := rfl
    have hsteps : (settle record e).steps host (c :: cs) w = ⟨_, c, w⟩ ::
        ((done next.1).bind (settleWith record e)).steps host cs next.2 := rfl
    simp only [List.head?_cons, Option.mem_some_iff, forall_eq']
    rw [hrun] at hr
    rw [hsteps] at hcs
    have hc := hcs _ (List.mem_cons_self ..)
    change _ ∧ (_ ↔ next.1.isOk = true)
    rcases hnext : next.1 with x | live
    · rw [hnext] at hr
      cases hr
      exact ⟨nofun, Iff.rfl⟩
    · rw [hnext] at hr hcs
      have hflight : InFlight t next.2 := inFlight_congr (by rw [act_read]; exact hc.current) hw
      obtain ⟨settled, rfl, hsettled⟩ := run_outside (leads_settleWith ht live hflight)
        (fun s hs => hcs s (List.mem_cons_of_mem _ hs)) hr
      exact ⟨by rintro _ ⟨⟩; exact hsettled, ⟨fun _ => rfl, fun _ => rfl⟩⟩

theorem run_save_calm {record' : Fields} (hw : InFlight t w)
    (hcs : ∀ s ∈ (save record').steps host cs w, LeavesJournal s.choice s.world)
    (hfault : ∀ s ∈ (save record').steps host cs w, s.choice.fault = .none)
    {r : Except Exn Unit} (hr : ((save record').run host cs w).1 = some r) :
    r.isOk ∧ Journaled record' ((save record').run host cs w).2 := by
  have hok : r.isOk := (leads_run (leads_save_calm hw) (fun _ _ _ _ h => h)
    (fun s hs => ⟨hcs s hs, hfault s hs⟩) trivial).2 r hr
  refine ⟨hok, ?_⟩
  rcases hw with hw | hw
  · exact (run_outside (leads_save hw) hcs hr).1 hok
  · exact (run_outside (leads_save hw) hcs hr).1 hok

/-- **A failed activation is recorded, with its error, if and only if the handler can
read the configuration**, and `apply` raises in either case. -/
theorem failure_recorded_iff (ht : IsRecord t.record)
    (hstatus : Json.find "status".toList t.record = some (.str "prepared".toList))
    (hw : Journaled t.record w)
    (hcs : ∀ s ∈ (transact t).steps host cs w, LeavesJournal s.choice s.world)
    (he : ((activate t).run host cs w).1 = some (.error e)) (hsave : HandlerSaves t e cs w)
    {r : Except Exn Fields} (hr : ((transact t).run host cs w).1 = some r) :
    (∃ error, r = .error error) ∧
      (RecordsFailure e ((transact t).run host cs w).2 ↔ HandlerReads t cs w) ∧
      (¬HandlerReads t cs w → InFlight t ((transact t).run host cs w).2) := by
  have hflight : InFlight t ((activate t).run host cs w).2 :=
    run_outside (leads_activate hw) (fun s hs => hcs s (steps_subset_recover host _ _ _ _ hs)) he
  have hhandler := fun s hs => hcs s (steps_subset_recover_of_error host he hs)
  have hrun : (transact t).run host cs w = _ := run_recover_of_error host he
  unfold HandlerSaves at hsave
  unfold HandlerReads
  rw [hrun] at hr ⊢
  -- The run of the handler, from where the activation failed.
  generalize (activate t).rest host cs w = cs₁ at *
  generalize ((activate t).run host cs w).2 = w₁ at *
  have hsettle := fun s hs => hhandler s (steps_subset_bind host (settle t.record e) _ _ _ hs)
  rw [failed] at hr hhandler ⊢
  rcases hsettled : ((settle t.record e).run host cs₁ w₁).1 with _ | x | settled
  · exact nomatch hr.symm.trans (run_bind_of_none host hsettled)
  · obtain ⟨-, hreads⟩ := run_settle ht hflight hsettle hsettled
    have hflight' := run_outside (leads_sparesCurrent (P := InFlight t) (sparesCurrent_settle _ e)
      (fun _ _ => inFlight_congr) hflight) hsettle hsettled
    rw [bind_eq, run_bind_of_error host hsettled] at hr ⊢
    refine ⟨⟨x, (Option.some.inj hr).symm⟩,
      iff_of_false (not_recordsFailure_of_inFlight ht hstatus hflight') ?_, fun _ => hflight'⟩
    exact fun h => nomatch hreads.mpr h
  · obtain ⟨hsettled', hreads⟩ := run_settle ht hflight hsettle hsettled
    have hflight' := run_outside (leads_sparesCurrent (P := InFlight t) (sparesCurrent_settle _ e)
      (fun _ _ => inFlight_congr) hflight) hsettle hsettled
    have hsaved := fun s hs => hhandler s (steps_subset_bind_of_ok host hsettled hs)
    have hfault := hsave settled hsettled
    rw [bind_eq, run_bind_of_ok host hsettled] at hr ⊢
    generalize (settle t.record e).rest host cs₁ w₁ = cs₂ at *
    generalize ((settle t.record e).run host cs₁ w₁).2 = w₂ at *
    have hsaved' := fun s hs => hsaved s (steps_subset_bind host (save settled) _ _ _ hs)
    rcases hsave' : ((save settled).run host cs₂ w₂).1 with _ | x | u
    · exact nomatch hr.symm.trans (run_bind_of_none host hsave')
    · exact nomatch (run_save_calm hflight' hsaved' hfault hsave').1
    · have hjournaled := (run_save_calm hflight' hsaved' hfault hsave').2
      rw [bind_eq, run_bind_of_ok host hsave'] at hr ⊢
      rw [throw_eq, run_done] at hr ⊢
      refine ⟨⟨_, (Option.some.inj hr).symm⟩, iff_of_true ?_ (hreads.mp rfl),
        fun h => absurd (hreads.mp rfl) h⟩
      exact recordsFailure_of_settled (hsettled' settled rfl) hjournaled

end Runs

/-! ## Two failed activations -/

/-- What `apply` prepares on `legacyHost`. -/
def legacyTransaction : Transaction :=
  let metadata := metadataOf ⟨.regular, 0, 0, 0o644⟩ []
  let replacement := replacementBytes (profile "unix:opensnitchd.sock")
  ⟨legacyConfig, replacement, metadata, baseline ['7'] (.str "c0ffee".toList)
    (.str "5ca1ab1e".toList) legacyConfig metadata replacement (statesOf legacyHost)⟩

theorem isRecord_legacyTransaction : IsRecord legacyTransaction.record :=
  isRecord_baseline (show Json.Plain _ (.str _) from trivial) (show Json.Plain _ (.str _) from trivial)
    (Deny.plain_metadataOf _ _ _) (plain_statesOf legacyHost) _ _ _

/-- The machine once the record is prepared. -/
def preparedHost : World := legacyHost.put .current (privateFile (recordBytes legacyTransaction.record))

/-- The daemon cannot be stopped, and then everything goes through. -/
def unstoppable : List (Choice Exn World) := ⟨id, .before inputOutput⟩ :: List.replicate 60 .calm

/-- The daemon cannot be stopped, and then the configuration cannot be read. -/
def unreadable : List (Choice Exn World) := List.replicate 2 ⟨id, .before inputOutput⟩

theorem leavesJournal_of_id {p : Script α} (hcs : ∀ c ∈ cs, c.interfere = id) :
    ∀ s ∈ p.steps host cs w, LeavesJournal s.choice s.world := by
  intro s hs
  have hid := hcs _ (choice_mem_of_mem_steps host hs)
  exact ⟨by rw [hid]; rfl, by rw [hid]; rfl⟩

theorem handlerSaves_unstoppable :
    HandlerSaves legacyTransaction inputOutput unstoppable preparedHost := by
  intro record _ s hs
  have hrest : (activate legacyTransaction).rest host unstoppable preparedHost = List.replicate 60 .calm :=
    rfl
  have hcalm := List.mem_of_mem_drop (choice_mem_of_mem_steps host hs)
  rw [hrest] at hcalm
  rw [List.eq_of_mem_replicate hcalm]
  rfl

/-- The failure is recorded in the one case, and not in the other. -/
theorem failure_recorded_iff_preparedHost :
    (HandlerReads legacyTransaction unstoppable preparedHost ∧
      RecordsFailure inputOutput ((transact legacyTransaction).run host unstoppable preparedHost).2) ∧
    ¬HandlerReads legacyTransaction unreadable preparedHost ∧
      ¬RecordsFailure inputOutput ((transact legacyTransaction).run host unreadable preparedHost).2 := by
  constructor
  · have hcs : ∀ c ∈ unstoppable, c.interfere = id := by
      rw [unstoppable, List.forall_mem_cons]
      exact ⟨rfl, fun c hc => by rw [List.eq_of_mem_replicate hc]; rfl⟩
    have hreads : HandlerReads legacyTransaction unstoppable preparedHost := by
      rintro c ⟨⟩
      rfl
    have hends : ((transact legacyTransaction).run host unstoppable preparedHost).1.isSome := by
      decide +kernel
    obtain ⟨r, hr⟩ := Option.isSome_iff_exists.mp hends
    obtain ⟨-, hiff, -⟩ := failure_recorded_iff isRecord_legacyTransaction rfl rfl
      (leavesJournal_of_id hcs) (w := preparedHost) (e := inputOutput) rfl handlerSaves_unstoppable hr
    exact ⟨hreads, hiff.mpr hreads⟩
  · have hcs : ∀ c ∈ unreadable, c.interfere = id := fun c hc => by
      rw [List.eq_of_mem_replicate hc]
    have hreads : ¬HandlerReads legacyTransaction unreadable preparedHost :=
      fun h => nomatch h _ rfl
    obtain ⟨-, hiff, -⟩ := failure_recorded_iff isRecord_legacyTransaction rfl rfl
      (leavesJournal_of_id hcs) (w := preparedHost) (e := inputOutput) (r := .error inputOutput) rfl
      (fun _ h => nomatch h) rfl
    exact ⟨hreads, fun h => hreads (hiff.mp h)⟩

end Migrate
