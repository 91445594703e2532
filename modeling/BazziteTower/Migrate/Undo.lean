import BazziteTower.Migrate.Failure

/-!
# Undoing a migration

A record holds the configuration and the units of the state in which its migration
began.  A restoration from it that returns leaves the configuration and the units as they
were in that state, whatever failed on the way.

## Main definitions

* `Undisturbed` — nobody else touches the configuration, the units and the journal.
* `Baseline` — a record holds the configuration and the units of a state.
* `RestoredTo` — they are as in that state.

## Main results

* `leads_restore` — a restoration that returns restored.
-/

open Prog hiding perform
open Deny (PrivateTemps Records Dressed)

namespace Migrate

variable {w w₀ : World} {record : Fields} {I P : World → Prop}

/-! ## Alone -/

/-- What the shared module reads off the manifest are texts. -/
structure Documented (w : World) : Prop where
  commit : ∀ manifest commit, w.facts .immutable = .ok manifest → sourceCommit manifest = .ok commit →
    ∃ s, commit = .str s
  digest : ∀ sha, w.facts .manifestDigest = .ok sha → ∃ s, sha = .str s

/-- Nobody else touches the configuration, the units, the journal and the temporary files. -/
structure Undisturbed (c : Choice Exn World) (w : World) : Prop where
  temps : (c.interfere w).temps = w.temps
  config : (c.interfere w).files .config = w.files .config
  current : (c.interfere w).files .current = w.files .current
  active : (c.interfere w).active = w.active
  enabled : (c.interfere w).enabled = w.enabled
  documented : Documented (c.interfere w)

/-- Any call may fail. -/
def Alone : Op → Choice Exn World → World → Prop := fun _ c w => Undisturbed c w

theorem privateTemps_alone : PrivateTemps Alone := fun _ _ _ h => h.temps

/-- The configuration, the record and the units are the same. -/
structure Alike (w v : World) : Prop where
  config : v.files .config = w.files .config
  current : v.files .current = w.files .current
  active : v.active = w.active
  enabled : v.enabled = w.enabled

theorem Alike.refl (w : World) : Alike w w := ⟨rfl, rfl, rfl, rfl⟩

theorem Alike.trans {u v : World} (h : Alike w v) (h' : Alike v u) : Alike w u :=
  ⟨h'.config.trans h.config, h'.current.trans h.current, h'.active.trans h.active,
    h'.enabled.trans h.enabled⟩

theorem Alike.ground {v : World} (h : Alike w v) : Alike (ground w) (ground v) :=
  ⟨h.config, h.current, h.active, h.enabled⟩

theorem stable_alone (hP : ∀ v v', Alike v v' → P v → P v') : Stable Alone P := fun _ _ _ h =>
  hP _ _ ⟨h.config, h.current, h.active, h.enabled⟩

theorem stable_alike (w : World) : Stable Alone (Alike w) := stable_alone fun _ _ h h' => h'.trans h

/-! ## Records of a state -/

/-- The record holds the configuration and the units of `w₀`. -/
structure Baseline (w₀ : World) (record : Fields) : Prop where
  isRecord : IsRecord record
  config : ∃ n data metadata, w₀.files .config = some n ∧ n.data = some data ∧
    field record "configBytes" = .ok (encoded data) ∧
    field record "configMetadata" = .ok metadata ∧ Records metadata n.toStat n.xattrs
  services : ∃ services, field record "services" = .ok (.obj services) ∧
    ∀ unit, ∃ entry, (Json.obj services).subscript (unitName unit) = .ok entry ∧
      entry.subscript "enabled" = .ok (.str (enabledWord (w₀.enabled unit)).toList) ∧
      entry.subscript "active" = .ok (.str (activeWord (w₀.active unit)).toList)

/-- The configuration has these bytes, this owner, this mode and these attributes. -/
def ConfigDressed (data : Bytes) (info : Stat) (xattrs : List (Text × Bytes)) (w : World) : Prop :=
  ∃ n, w.files .config = some n ∧ Dressed data info xattrs n

/-- The configuration and the units are as in `w₀`. -/
structure RestoredTo (w₀ w : World) : Prop where
  config : ∃ n₀ data, w₀.files .config = some n₀ ∧ n₀.data = some data ∧
    ConfigDressed data n₀.toStat n₀.xattrs w
  units : ∀ unit, w.enabled unit = w₀.enabled unit ∧
    (w.active unit = .active ↔ w₀.active unit = .active)

theorem plain_of_find {depth : ℕ} {ms : Fields} (h : Json.PlainMembers depth ms) {k : Text} {v : Json}
    (hv : Json.find k ms = some v) : Json.Plain depth v := by
  induction ms with
  | nil => cases hv
  | cons m ms ih =>
    rw [Json.find] at hv
    split at hv
    · rw [← Option.some.inj hv]
      exact h.1
    · exact ih h.2 hv

theorem subscript_eq_ok {v u : Json} {key : String} :
    v.subscript key = .ok u ↔ ∃ ms, v = .obj ms ∧ Json.find key.toList ms = some u := by
  cases v <;> simp only [Json.subscript, reduceCtorEq, false_and, exists_false, Json.obj.injEq,
    exists_eq_left']
  split <;> simp_all

theorem field_assign {key key' : String} (h : key'.toList ≠ key.toList) (value : String) :
    field (assign record key value) key' = field record key' := by
  simp only [field, Json.subscript, find_assign_ne h]

/-- What the journal adds to a record leaves its baseline alone. -/
theorem Baseline.assign (h : Baseline w₀ record) {key : String} (value : String)
    (hkey : key ∈ ["status", "recoveryError", "recoveryFile", "error"]) :
    Baseline w₀ (assign record key value) := by
  have hne : ∀ key' ∈ ["configBytes", "configMetadata", "services"], key'.toList ≠ key.toList := by
    revert key
    decide
  obtain ⟨n, data, metadata, hn, hdata, hbytes, hmetadata, hrecords⟩ := h.config
  obtain ⟨services, hservices, hunits⟩ := h.services
  exact ⟨h.isRecord.assign .., ⟨n, data, metadata, hn, hdata,
    (field_assign (hne _ (by simp)) _).trans hbytes, (field_assign (hne _ (by simp)) _).trans hmetadata,
    hrecords⟩, services, (field_assign (hne _ (by simp)) _).trans hservices, hunits⟩

theorem Baseline.noteRecovery (h : Baseline w₀ record) (e : Exn) :
    Baseline w₀ (noteRecovery record e) := by
  cases e with
  | drift p => exact h.assign _ (by simp)
  | refusal message busy => exact h
  | raised kind message => exact h

theorem Baseline.noteFailure (h : Baseline w₀ record) (e : Exn) :
    Baseline w₀ (noteFailure record e) :=
  ((h.assign _ (by simp)).assign _ (by simp)).noteRecovery e

/-- Reading a record back sorts its keys, and keeps its baseline. -/
theorem Baseline.sorted (h : Baseline w₀ record) : Baseline w₀ (Json.sortMembers record) := by
  have hfield : ∀ {key : String} {v : Json}, field record key = .ok v →
      field (Json.sortMembers record) key = .ok v.sortKeys := Deny.subscript_sortMembers h.isRecord.keys
  have hplain : ∀ {key : String} {v : Json}, field record key = .ok v → Json.Plain _ v := fun hv => by
    obtain ⟨ms, hms, hfind⟩ := subscript_eq_ok.mp hv
    cases hms
    exact plain_of_find h.isRecord.plain hfind
  obtain ⟨n, data, metadata, hn, hdata, hbytes, hmetadata, hrecords⟩ := h.config
  obtain ⟨services, hservices, hunits⟩ := h.services
  refine ⟨⟨(Json.keys_sortMembers record).nodup_iff.mpr h.isRecord.keys,
    Json.plainMembers_sortMembers record h.isRecord.plain⟩, ?_, ?_⟩
  · obtain ⟨ms, rfl, -⟩ := subscript_eq_ok.mp hrecords.uid
    exact ⟨n, data, _, hn, hdata, hfield hbytes, hfield hmetadata,
      hrecords.sorted (hplain hmetadata).2.1⟩
  · obtain ⟨-, hkeys, hmembers⟩ := hplain hservices
    refine ⟨Json.sortMembers services, hfield hservices, fun unit => ?_⟩
    obtain ⟨entry, hentry, henabled, hactive⟩ := hunits unit
    obtain ⟨es, rfl, -⟩ := subscript_eq_ok.mp henabled
    obtain ⟨ms, hms, hfind⟩ := subscript_eq_ok.mp hentry
    cases hms
    have hnodup := (plain_of_find hmembers hfind).2.1
    exact ⟨_, Deny.subscript_sortMembers hkeys hentry, Deny.subscript_sortMembers hnodup henabled,
      Deny.subscript_sortMembers hnodup hactive⟩

/-! ## Restoration -/

section Restoration
variable {data : Bytes} {metadata : Json} {info : Stat} {xattrs : List (Text × Bytes)}

theorem stable_configDressed : Stable Alone (ConfigDressed data info xattrs) :=
  stable_alone fun _ _ h ⟨n, hn, hdressed⟩ => ⟨n, h.config.trans hn, hdressed⟩

/-- A script that does not touch the configuration. -/
theorem leads_configDressed {α : Type} {p : Script α} (hp : p.uses fun o => Spares .config o)
    (hw : ConfigDressed data info xattrs w) :
    Leads Alone (fun _ => True) p (fun _ v => ConfigDressed data info xattrs v) w :=
  leads_uses (P := ConfigDressed data info xattrs) hp stable_configDressed
    (fun _ v ho ⟨n, hn, hdressed⟩ => ⟨n, (files_perform ho v).trans hn, hdressed⟩)
    (fun _ _ => trivial) hw

/-- The exchange puts the dressed file in place. -/
theorem leads_exchange (h : Records metadata info xattrs) (hmode : info.mode < 4096)
    (hnames : (xattrs.map Prod.fst).Nodup) {t : ℕ} (hw : w.temps t = some (.empty 0o600)) :
    Leads Alone (fun _ => True) (exchange t data metadata)
      (fun r v => r.isOk → ConfigDressed data info xattrs v) w := by
  have hkeeps : Deny.Keeps Alone fun _ => True := fun _ _ _ _ h => h
  obtain ⟨ys, hperm, hys⟩ := Deny.applyMetadata_records h hmode t
  have hnames' := (hperm.map Prod.fst).nodup_iff.mpr hnames
  refine leads_bind_ok _ (Deny.wp_write (G := fun _ _ => True) (fun _ => trivial) hkeeps
    privateTemps_alone ⟨trivial, hw⟩) fun _ v hv => ?_
  rw [hys]
  refine leads_bind_ok _ (Deny.wp_dress (G := fun _ _ => True) (fun _ => trivial) hkeeps
    privateTemps_alone hmode hnames' ⟨trivial, hv.2 rfl⟩) fun _ v hv => ?_
  refine leads_bind_ok _ (leads_temporary (P := fun _ => True) (E := Dressed data info ys)
    privateTemps_alone (fun _ _ _ _ h => h) (fun _ _ => trivial) (o := .fsync t) rfl
    (fun _ n hn hdressed _ => ⟨n, hn, hdressed⟩) ⟨trivial, hv.2 rfl⟩) fun _ v hv => ?_
  refine leads_perform fun c hc => ⟨trivial, by rintro _ ⟨⟩, trivial, by rintro _ ⟨⟩, ?_⟩
  obtain ⟨n, hn, hdressed⟩ := hv.2 rfl
  have hn' : (c.interfere v).temps t = some n := by rw [hc.temps, hn]
  simp only [Op.perform, hn']
  split
  · rename_i m m' hm hm'
    cases hm
    exact fun _ => ⟨n, by simp [World.put], { hdressed with xattrs := hdressed.xattrs.trans hperm }⟩
  · rintro ⟨⟩

/-- If the replacement of the configuration returns, the configuration is the replacement. -/
theorem leads_conditionalConfigWrite (h : Records metadata info xattrs) (hmode : info.mode < 4096)
    (hnames : (xattrs.map Prod.fst).Nodup) (expected : Bytes) :
    Leads Alone (fun _ => True) (conditionalConfigWrite data metadata expected)
      (fun r v => r.isOk → ConfigDressed data info xattrs v) w := by
  refine leads_bind_ok _ (leads_mkstemp (P := fun _ => True) (fun _ _ _ _ h => h) (fun _ _ => trivial)
    .configDir trivial) fun t v hv => ?_
  refine leads_handle _ (leads_exchange h hmode hnames (hv.2 t rfl)) ?_
  rintro (e | _) u hu
  · refine leads_ensuring (fun r _ => r = .error e) rfl ?_
    rintro _ x rfl
    refine wp_of_forall (fun _ _ => trivial) ?_ _
    rintro (_ | _) _ <;> exact nofun
  · have hspares : ∀ o : Op, Scratch o → Spares .config o := fun _ => spares_of_scratch
    refine leads_ensuring (fun _ v => ConfigDressed data info xattrs v)
      (leads_configDressed (uses_inspectDisplaced hspares (by rfl) (fun _ _ => by rfl) ..) (hu rfl)) ?_
    intro r x hx
    refine (leads_configDressed ?_ hx).mono ?_
    · exact uses_bind (uses_perform.mpr (by rfl)) fun _ => uses_ite
        (uses_bind (uses_retain hspares (by rfl) (fun _ _ => by rfl) t) fun _ => trivial) trivial
    · rintro (_ | _) y hy
      · exact nofun
      · exact fun _ => hy

end Restoration

/-! ## Units -/

theorem alike_ground {v : World} : Alike w (ground v) ↔ Alike w v :=
  ⟨fun h => ⟨h.config, h.current, h.active, h.enabled⟩,
    fun h => ⟨h.config, h.current, h.active, h.enabled⟩⟩

theorem leads_serviceState (hI : ∀ v, Alike w₀ v → I v) (hw : Alike w₀ (ground w)) :
    Leads Alone I serviceState
      (fun r v => Alike w₀ (ground v) ∧ ∀ states, r = .ok states → states = statesOf w₀) w := by
  refine leads_mapM (fun unit v hv => ?_) units hw
  refine leads_bind _ (leads_ask (F := (· = w₀.enabled unit)) rfl (stable_alike w₀) hI ?_ hv)
    (fun _ v hv => ?_) fun _ _ hv => ⟨hv.1, nofun⟩
  · rintro c _ - hv ⟨⟩
    exact congrFun hv.enabled unit
  refine leads_bind _ (leads_ask (F := (· = w₀.active unit)) rfl (stable_alike w₀) hI ?_ hv.1)
    (fun _ u hu => ?_) fun _ _ hu => ⟨hu.1, nofun⟩
  · rintro c _ - hv ⟨⟩
    exact congrFun hv.active unit
  refine leads_bind (fun _ x => Alike w₀ (ground x)) hu.1 (fun _ x hx => ?_) fun _ _ hx => ⟨hx, nofun⟩
  refine leads_bind (fun _ x => Alike w₀ (ground x)) hx (fun _ x hx => ⟨hx, ?_⟩)
    fun _ _ hx => ⟨hx, nofun⟩
  rintro _ ⟨⟩
  rw [hv.2 _ rfl, hu.2 _ rfl]

theorem subscript_statesOf (w : World) (unit : Service) :
    (Json.obj (statesOf w)).subscript (unitName unit) =
      .ok (unitEntry (w.enabled unit) (w.active unit)) := by
  cases unit <;> rfl

theorem enabledWord_inj {a b : EnabledState} : enabledWord a = enabledWord b ↔ a = b := by
  cases a <;> cases b <;> decide

theorem activeWord_eq_active {a : ActiveState} : activeWord a = "active" ↔ a = .active := by
  cases a <;> decide

theorem unitEntry_enabled (enablement : EnabledState) (activity : ActiveState) :
    (unitEntry enablement activity).subscript "enabled" = .ok (.str (enabledWord enablement).toList) :=
  rfl

theorem unitEntry_active (enablement : EnabledState) (activity : ActiveState) :
    (unitEntry enablement activity).subscript "active" = .ok (.str (activeWord activity).toList) :=
  rfl

/-- The units agree with the record where the helper found no difference. -/
theorem agrees_of_agreesWith {services : Fields} {unit : Service} {entry : Json} {v : World}
    (hall : services.forM (agreesWith (statesOf v)) = .ok ())
    (hentry : (Json.obj services).subscript (unitName unit) = .ok entry)
    (henabled : entry.subscript "enabled" = .ok (.str (enabledWord (w₀.enabled unit)).toList))
    (hactive : entry.subscript "active" = .ok (.str (activeWord (w₀.active unit)).toList)) :
    v.enabled unit = w₀.enabled unit ∧ (v.active unit = .active ↔ w₀.active unit = .active) := by
  obtain ⟨ms, hms, hfind⟩ := subscript_eq_ok.mp hentry
  cases hms
  have hagrees := Except.forM_eq_ok.mp hall _ (Json.mem_of_find hfind)
  have hactive_iff : ∀ a : ActiveState,
      (Json.str (activeWord a).toList).pyEq (.str "active".toList) ↔ a = .active := fun a => by
    rw [Json.pyEq_str, Json.str.injEq, eq_comm, String.toList_inj, activeWord_eq_active]
  simp only [agreesWith, String.ofList_toList, subscript_statesOf, unitEntry_enabled, unitEntry_active,
    henabled, hactive, Except.bind_eq_ok, Except.ok.injEq, exists_eq_left', refuseUnless_eq_ok] at hagrees
  obtain ⟨same, hsame, rfl⟩ := hagrees
  split at hsame
  · rename_i heq
    rw [Json.pyEq_str, Json.str.injEq, String.toList_inj, enabledWord_inj] at heq
    refine ⟨heq.symm, ?_⟩
    have hsame := Except.ok.inj hsame
    rw [beq_iff_eq, Bool.eq_iff_iff, hactive_iff, hactive_iff] at hsame
    exact hsame
  · cases hsame

/-! ## `restore` -/

/-- A step that only matters if it returns. -/
theorem leads_returning {α β : Type} {p : Script α} {f : α → Script β} {R : World → Prop}
    (hf : ∀ a v, Leads Alone (fun _ => True) (f a) (fun r v => r.isOk → R v) v) :
    Leads Alone (fun _ => True) (p >>= f) (fun r v => r.isOk → R v) w :=
  leads_bind_ok (fun _ _ => True) (wp_of_forall (fun _ _ => trivial) (fun _ _ => trivial) p)
    fun a v _ => hf a v

/-- The mode and the attributes of a file as the kernel reports them. -/
def Sane (n : Node) : Prop := n.mode < 4096 ∧ (n.xattrs.map Prod.fst).Nodup

/-- **A restoration that returns restored** the configuration and the units, from
whatever state. -/
theorem leads_restore (hb : Baseline w₀ record) (hsane : ∀ n, w₀.files .config = some n → Sane n) :
    Leads Alone (fun _ => True) (restore record) (fun r v => r.isOk → RestoredTo w₀ v) w := by
  obtain ⟨n, data, metadata, hn, hdata, hbytes, hmetadata, hrecords⟩ := hb.config
  obtain ⟨services, hservices, hunits⟩ := hb.services
  obtain ⟨hmode, hnames⟩ := hsane n hn
  refine leads_returning fun _ v => leads_returning fun expected v => leads_returning fun _ v =>
    leads_returning fun _ v => ?_
  have hdecoded : (do (← field record "configBytes").fromBase64 : Except Exn Bytes) = .ok data :=
    Except.bind_eq_ok.mpr
      ⟨_, hbytes, by simp only [encoded, Json.fromBase64, Base64.decode_encode]⟩
  refine leads_known hdecoded (leads_known hmetadata ?_)
  refine leads_bind_ok _ (leads_conditionalConfigWrite hrecords hmode hnames expected)
    fun _ v hv => ?_
  have hstart : (units.forM (startRecorded record)).uses fun o => Spares .config o :=
    uses_forM fun unit _ => uses_bind trivial fun _ => uses_bind trivial fun _ =>
      uses_ite (uses_perform.mpr (by rfl)) trivial
  refine leads_bind_ok _ (leads_configDressed hstart (hv rfl)) fun _ v hv => ?_
  refine leads_bind_ok _ (leads_serviceState (fun _ _ => trivial)
    (alike_ground.mpr (Alike.refl v))) fun states u hu => ?_
  obtain ⟨halike, hstates⟩ := hu
  obtain ⟨n', hn', hdressed⟩ := hv
  obtain rfl := hstates states rfl
  refine leads_known (Except.bind_eq_ok.mpr ⟨_, hservices, rfl⟩) fun hall => ?_
  have hagrees : services.forM (agreesWith (statesOf v)) = .ok () := by
    rcases hr : services.forM (agreesWith (statesOf v)) with e | _
    · rw [hr] at hall
      cases hall
    · rfl
  refine ⟨⟨n, data, hn, hdata, n', halike.config.trans hn', hdressed⟩, fun unit => ?_⟩
  obtain ⟨entry, hentry, henabled, hactive⟩ := hunits unit
  have hunit := agrees_of_agreesWith hagrees hentry henabled hactive
  rw [show u.enabled = v.enabled from halike.enabled, show u.active = v.active from halike.active]
  exact hunit

end Migrate
