import BazziteTower.Migrate.Undo

/-!
# What a run of `apply` leaves behind

From the state in which `apply` starts, its run either changes nothing that a later
run can see, or leaves a record that holds that state.

## Main definitions

* `Sound` — the journal holds a state, and keeps what it says of it.
* `Aside` — the calls that touch neither configuration, record nor units.

## Main results

* `leads_prepare` — the record that `apply` prepares holds the state it starts from.
* `leads_apply` — what `apply` leaves, wherever it is killed.
-/

open Prog hiding perform
open Deny (PrivateTemps Records Dressed)

namespace Migrate

variable {w w₀ : World} {record : Fields} {I P : World → Prop} {parents : Except Exn Unit}
  {α : Type}

/-! ## Calls beside the migration -/

/-- A call that touches neither the configuration, the record nor the units. -/
def Aside (o : Op) : Bool :=
  Scratch o || match o with
    | .mkdirs p _ => p = .journalDir
    | .replace _ (.archive _) => true
    | .uuid | .openLock | .flock _ | .closeLock => true
    | _ => false

theorem aside_of_scratch {o : Op} (ho : Scratch o) : Aside o := by simp [Aside, ho]

theorem aside_of_background {o : Op} (ho : Background o) : Aside o := by
  cases o <;> simp_all [Aside, Background, Scratch]

/-- Only systemctl changes units. -/
def SparesUnits : Op → Bool
  | .start _ | .stop _ | .restart _ => false
  | _ => true

theorem units_perform {o : Op} (ho : SparesUnits o) (w : World) :
    (o.perform w).2.active = w.active ∧ (o.perform w).2.enabled = w.enabled := by
  have hmodify : ∀ t f, (w.modifyTemp t f).2.active = w.active ∧
      (w.modifyTemp t f).2.enabled = w.enabled := by
    intro t f
    unfold World.modifyTemp
    split <;> exact ⟨rfl, rfl⟩
  cases o with
  | start ss => simp [SparesUnits] at ho
  | stop ss => simp [SparesUnits] at ho
  | restart s => simp [SparesUnits] at ho
  | write t data => exact hmodify ..
  | fchown t uid gid => exact hmodify ..
  | fchmod t mode => exact hmodify ..
  | _ =>
    simp only [Op.perform]
    repeat' split
    all_goals first | trivial | exact ⟨rfl, rfl⟩ | exact hmodify ..

theorem alike_perform {o : Op} (ho : Aside o) (w : World) : Alike w (o.perform w).2 := by
  have hspares : Spares .config o ∧ Spares .current o ∧ SparesUnits o := by
    by_cases hs : Scratch o
    · exact ⟨spares_of_scratch hs, spares_of_scratch hs, by cases o <;> simp_all [Scratch, SparesUnits]⟩
    · cases o <;> simp_all [Aside, Scratch, Spares, SparesUnits]
      rename_i p
      cases p <;> simp_all
  obtain ⟨hactive, henabled⟩ := units_perform hspares.2.2 w
  exact ⟨files_perform hspares.1 w, files_perform hspares.2.1 w, hactive, henabled⟩

/-- What such calls keep. -/
def Lasting (P : World → Prop) : Prop := ∀ v v', Alike v v' → P v → P v'

theorem lasting_alike (w : World) : Lasting (Alike w) := fun _ _ h h' => h'.trans h

theorem Lasting.keeps (hP : Lasting P) : Keeps Alone P where
  stable := stable_alone hP
  step _ v ho := hP _ _ (alike_perform (aside_of_background ho) v).ground

theorem leads_aside {p : Script α} (hp : p.uses fun o => Aside o) (hP : Lasting P)
    (hI : ∀ v, P v → I v) (hw : P (ground w)) : Leads Alone I p (fun _ v => P (ground v)) w :=
  leads_uses hp (stable_alone hP) (fun _ v ho => hP _ _ (alike_perform ho v).ground) hI hw

/-! ## Preparation -/

section Preparation
variable (hI : ∀ v, Alike w₀ v → I v)
include hI

/-- The rest of a script, after calls that only look. -/
theorem leads_look {β : Type} {p : Script α} {f : α → Script β} {F : Except Exn β → World → Prop}
    (hp : p.uses fun o => Aside o) (hw : Alike w₀ (ground w))
    (hf : ∀ a v, Alike w₀ (ground v) → Leads Alone I (f a) (fun r v => Alike w₀ (ground v) ∧ F r v) v)
    (he : ∀ e v, F (.error e) v) :
    Leads Alone I (p >>= f) (fun r v => Alike w₀ (ground v) ∧ F r v) w :=
  leads_bind _ (leads_aside hp (lasting_alike w₀) hI hw) hf fun e v hv => ⟨hv, he e v⟩

theorem leads_configMetadata (hw : Alike w₀ (ground w)) :
    Leads Alone I configMetadata (fun r v => Alike w₀ (ground v) ∧ ∀ metadata, r = .ok metadata →
      ∃ n, w₀.files .config = some n ∧ metadata = metadataOf n.toStat n.xattrs) w := by
  refine leads_bind _ (leads_ask (F := fun info => ∃ n, w₀.files .config = some n ∧ info = n.toStat)
    rfl (stable_alike w₀) hI ?_ hw) (fun info v hv => ?_) fun _ _ hv => ⟨hv.1, nofun⟩
  · intro c info _ hv hinfo
    rw [Op.perform, World.node, show (c.interfere w).files .config = _ from hv.config] at hinfo
    cases hn : w₀.files .config with
    | none => rw [hn] at hinfo; cases hinfo
    | some n => rw [hn] at hinfo; exact ⟨n, rfl, (Except.ok.inj hinfo).symm⟩
  obtain ⟨n, hn, rfl⟩ := hv.2 info rfl
  refine leads_look hI trivial hv.1 (fun _ u hu => ?_) fun _ _ => nofun
  refine leads_bind _ (leads_ask (F := (· = n.xattrs)) rfl (stable_alike w₀) hI ?_ hu)
    (fun _ x hx => ⟨hx.1, ?_⟩) fun _ _ hx => ⟨hx.1, nofun⟩
  · intro c xattrs _ hx hxattrs
    rw [Op.perform, World.node, show (c.interfere u).files .config = _ from hx.config, hn] at hxattrs
    exact (Except.ok.inj hxattrs).symm
  · rintro _ ⟨⟩
    exact ⟨n, hn, by rw [hx.2 _ rfl]⟩

/-- What the preflight returns of the manifest and the units. -/
theorem leads_check (hw : Alike w₀ (ground w)) :
    Leads Alone I check (fun r v => Alike w₀ (ground v) ∧ ∀ manifest config states,
      r = .ok (manifest, config, states) →
        (∀ commit, sourceCommit manifest = .ok commit → ∃ s, commit = .str s) ∧
          states = statesOf w₀) w := by
  have hcheck : ∀ c, (perform (.check c) : Script Json).uses fun o => Aside o := fun _ => by
    exact uses_perform.mpr (by rfl)
  refine leads_bind _ (leads_ask
    (F := fun manifest => ∀ commit, sourceCommit manifest = .ok commit → ∃ s, commit = .str s)
    rfl (stable_alike w₀) hI (fun c manifest hc _ h commit => hc.documented.commit manifest commit h) hw)
    (fun manifest v hv => ?_) fun _ _ hv => ⟨hv.1, nofun⟩
  obtain ⟨hv, hmanifest⟩ := hv
  refine leads_look hI (hcheck _) hv (fun _ v hv => ?_) fun _ _ => nofun
  refine leads_look hI (hcheck _) hv (fun _ v hv => ?_) fun _ _ => nofun
  refine leads_look hI (hcheck _) hv (fun _ v hv => ?_) fun _ _ => nofun
  refine leads_look hI (hcheck _) hv (fun _ v hv => ?_) fun _ _ => nofun
  refine leads_look hI trivial hv (fun _ v hv => ?_) fun _ _ => nofun
  refine leads_look hI (hcheck _) hv (fun _ v hv => ?_) fun _ _ => nofun
  refine leads_look hI (uses_metadataAt (fun _ => aside_of_scratch) _) hv (fun _ v hv => ?_)
    fun _ _ => nofun
  refine leads_look hI (uses_readJson (fun _ => aside_of_scratch) _) hv (fun _ v hv => ?_)
    fun _ _ => nofun
  refine leads_look hI (hcheck _) hv (fun _ v hv => ?_) fun _ _ => nofun
  refine leads_look hI (hcheck _) hv (fun _ v hv => ?_) fun _ _ => nofun
  refine leads_look hI trivial hv (fun _ v hv => ?_) fun _ _ => nofun
  refine leads_bind _ (leads_serviceState hI hv) (fun states v hv => ?_) fun _ _ hv => ⟨hv.1, nofun⟩
  refine leads_look hI trivial hv.1 (fun _ u hu => ⟨hu, ?_⟩) fun _ _ => nofun
  rintro _ _ _ ⟨⟩
  exact ⟨hmanifest _ rfl, hv.2 _ rfl⟩

/-- What `apply` captures is the configuration. -/
theorem leads_capture (config : Json) (hw : Alike w₀ (ground w)) :
    Leads Alone I (capture config) (fun r v => Alike w₀ (ground v) ∧
      ∀ original metadata replacement, r = .ok (original, metadata, replacement) →
        ∃ n, w₀.files .config = some n ∧ n.data = some original ∧
          metadata = metadataOf n.toStat n.xattrs) w := by
  have hscratch : ∀ o : Op, Scratch o → Aside o := fun _ => aside_of_scratch
  refine leads_look hI trivial hw (fun _ v hv => ?_) fun _ _ => nofun
  refine leads_look hI trivial hv (fun _ v hv => ?_) fun _ _ => nofun
  refine leads_bind _ (leads_ask (F := fun original => ∃ n, w₀.files .config = some n ∧
    n.data = some original) rfl (stable_alike w₀) hI ?_ hv) (fun original v hv => ?_)
    fun _ _ hv => ⟨hv.1, nofun⟩
  · intro c original _ hv horiginal
    rw [Op.perform, World.node, show (c.interfere v).files .config = _ from hv.config] at horiginal
    exact Option.bind_eq_some_iff.mp (Deny.contents_eq_ok.mp horiginal)
  obtain ⟨hv, horiginal⟩ := hv
  refine leads_look hI trivial hv (fun captured v hv => ?_) fun _ _ => nofun
  refine leads_bind _ (leads_configMetadata hI hv) (fun metadata v hv => ?_)
    fun _ _ hv => ⟨hv.1, nofun⟩
  obtain ⟨hv, hmetadata⟩ := hv
  refine leads_look hI ?_ hv (fun _ v hv => ?_) fun _ _ => nofun
  · refine uses_ite (uses_bind (uses_call hscratch (by rfl)) fun _ => ?_) trivial
    exact uses_ite (uses_bind (uses_metadataAt hscratch _) fun _ => trivial) trivial
  refine leads_look hI trivial hv (fun _ v hv => ?_) fun _ _ => nofun
  refine leads_look hI trivial hv (fun _ v hv => ⟨hv, ?_⟩) fun _ _ => nofun
  rintro _ _ _ ⟨⟩
  obtain ⟨n, hn, hdata⟩ := horiginal original rfl
  obtain ⟨n', hn', rfl⟩ := hmetadata metadata rfl
  cases hn.symm.trans hn'
  exact ⟨n, hn, hdata, rfl⟩

/-- **The record that `apply` prepares** holds the state it started from. -/
theorem leads_prepare (hsane : ∀ n, w₀.files .config = some n → Sane n) (hw : Alike w₀ (ground w)) :
    Leads Alone I (prepare parents) (fun r v => Alike w₀ (ground v) ∧ ∀ t, r = .ok t →
      Baseline w₀ t.record ∧
        Json.find "status".toList t.record = some (.str "prepared".toList)) w := by
  have hscratch : ∀ o : Op, Scratch o → Aside o := fun _ => aside_of_scratch
  refine leads_bind _ (leads_check hI hw) ?_ fun _ _ hv => ⟨hv.1, nofun⟩
  rintro ⟨manifest, config, states⟩ v ⟨hv, hchecked⟩
  obtain ⟨hmanifest, rfl⟩ := hchecked _ _ _ rfl
  refine leads_bind _ (leads_capture hI config hv) ?_ fun _ _ hv => ⟨hv.1, nofun⟩
  rintro ⟨original, metadata, replacement⟩ v ⟨hv, hcaptured⟩
  obtain ⟨n, hn, hdata, rfl⟩ := hcaptured _ _ _ rfl
  refine leads_look hI (uses_journal hscratch (fun _ => by rfl) _ _) hv (fun _ v hv => ?_)
    fun _ _ => nofun
  refine leads_look hI (uses_archive hscratch fun _ _ => by rfl) hv (fun _ v hv => ?_) fun _ _ => nofun
  refine leads_look hI (uses_perform.mpr (by rfl)) hv (fun id v hv => ?_) fun _ _ => nofun
  rcases hcommit : sourceCommit manifest with e | commit
  · exact ⟨hv, nofun⟩
  obtain ⟨s, rfl⟩ := hmanifest commit hcommit
  refine leads_known rfl ?_
  refine leads_bind _ (leads_ask (F := fun sha => ∃ s, sha = Json.str s) rfl (stable_alike w₀) hI
    (fun c sha hc _ h => hc.documented.digest sha h) hv) (fun sha v hv => ⟨hv.1, ?_⟩)
    fun _ _ hv => ⟨hv.1, nofun⟩
  obtain ⟨s', rfl⟩ := hv.2 sha rfl
  rintro _ ⟨⟩
  refine ⟨⟨?_, ⟨n, original, _, hn, hdata, rfl, rfl, Deny.records_metadataOf (hsane n hn).2⟩,
    statesOf w₀, rfl, fun unit => ?_⟩, rfl⟩
  · exact isRecord_baseline (show Json.Plain _ (.str s) from trivial)
      (show Json.Plain _ (.str s') from trivial) (Deny.plain_metadataOf _ _ _) (plain_statesOf w₀) ..
  · exact ⟨_, subscript_statesOf w₀ unit, unitEntry_enabled .., unitEntry_active ..⟩

end Preparation

/-! ## What the journal promises -/

/-- The record says that its transaction is over and undone. -/
def Ended (record : Fields) : Prop :=
  Json.find "status".toList record = some (.str "rolled-back".toList) ∨
    Json.find "status".toList record = some (.str "failed-restored".toList)

/-- The journal holds `w₀`, and if it says that the transaction is undone, it is. -/
def Sound (w₀ w : World) : Prop :=
  ∃ record, Baseline w₀ record ∧ Journaled record w ∧ (Ended record → RestoredTo w₀ w)

theorem lasting_journaled (record : Fields) : Lasting (Journaled record) :=
  fun _ _ h => h.current.trans

theorem lasting_restoredTo (w₀ : World) : Lasting (RestoredTo w₀) := by
  rintro v v' h ⟨⟨n₀, data, hn₀, hdata, n, hn, hdressed⟩, hunits⟩
  refine ⟨⟨n₀, data, hn₀, hdata, n, h.config.trans hn, hdressed⟩, fun unit => ?_⟩
  rw [h.enabled, h.active]
  exact hunits unit

theorem lasting_sound (w₀ : World) : Lasting (Sound w₀) := fun v v' h ⟨record, hb, hj, hended⟩ =>
  ⟨record, hb, lasting_journaled record v v' h hj, fun he => lasting_restoredTo w₀ v v' h (hended he)⟩

theorem not_ended {status : String} (hstatus : status ∉ ["rolled-back", "failed-restored"])
    (h : Json.find "status".toList record = some (.str status.toList)) : ¬Ended record := by
  simp only [List.mem_cons, List.not_mem_nil, or_false, not_or] at hstatus
  simp only [Ended, h, Option.some.injEq, Json.str.injEq, String.toList_inj]
  exact not_or.mpr hstatus

theorem restoredTo_put (hw : RestoredTo w₀ w) (n : Node) : RestoredTo w₀ (w.put .current n) := by
  obtain ⟨⟨n₀, data, hn₀, hdata, m, hm, hdressed⟩, hunits⟩ := hw
  exact ⟨⟨n₀, data, hn₀, hdata, m, by simpa [World.put] using hm, hdressed⟩, hunits⟩

/-- Saving a record, over one that is in the journal already. -/
theorem leads_rewrite {record record' : Fields} (hb : Baseline w₀ record) (hended : ¬Ended record)
    (hb' : Baseline w₀ record') (hended' : Ended record' → RestoredTo w₀ w)
    (hI : ∀ v, Sound w₀ v → I v) (hw : Journaled record w) :
    Leads Alone I (save record') (fun r v => (r.isOk → Journaled record' v) ∧
      (Ended record' → RestoredTo w₀ v) ∧ (Journaled record v ∨ Journaled record' v)) w := by
  let kept := fun v => Ended record' → RestoredTo w₀ v
  have hkept : Lasting kept := fun v v' h hv he => lasting_restoredTo w₀ v v' h (hv he)
  refine (leads_atomicWrite (P := fun v => Journaled record v ∧ kept v)
    (R := fun v => Journaled record' v ∧ kept v) privateTemps_alone
    (stable_alone fun v v' h hv => ⟨lasting_journaled _ v v' h hv.1, hkept v v' h hv.2⟩)
    (stable_alone fun v v' h hv => ⟨lasting_journaled _ v v' h hv.1, hkept v v' h hv.2⟩)
    (fun v hv => hI v ⟨record, hb, hv.1, fun h => absurd h hended⟩)
    (fun v hv => hI v ⟨record', hb', hv.1, hv.2⟩)
    (fun v hv => ⟨by simp [Journaled, World.put], fun he => restoredTo_put (hv.2 he) _⟩)
    ⟨hw, fun he => ?_⟩).mono fun r v hv => ?_
  · exact lasting_restoredTo w₀ w (ground w) (alike_ground.mpr (.refl w)) (hended' he)
  · have hback : Lasting (RestoredTo w₀) := lasting_restoredTo w₀
    have hground : ∀ v, RestoredTo w₀ (ground v) → RestoredTo w₀ v := fun v =>
      hback (ground v) v ⟨rfl, rfl, rfl, rfl⟩
    refine ⟨fun hr => (hv.1 hr).1, fun he => hground v ?_, hv.2.imp And.left And.left⟩
    rcases hv.2 with h | h
    · exact h.2 he
    · exact h.2 he

/-! ## The transaction -/

/-- What the handler adds to the record tells nothing of its end. -/
theorem ended_settled {record' : Fields} (e : Exn) :
    Ended (assign (noteRecovery record' e) "error" e.text) ↔ Ended record' := by
  have hnote : Json.find "status".toList (noteRecovery record' e) =
      Json.find "status".toList record' := by
    cases e with
    | drift p => exact find_assign_ne (by decide) ..
    | refusal message busy => rfl
    | raised kind message => rfl
  rw [Ended, Ended, find_assign_ne (by decide), hnote]

section Transaction
variable {live : Fields} {t : Transaction} {e : Exn} (hlive : Baseline w₀ live)
  (hended : ¬Ended live) (hI : ∀ v, Sound w₀ v → I v)
include hlive hended hI

/-- A script that leaves the record of the transaction alone. -/
theorem leads_live {p : Script α} (hp : p.uses SparesCurrent) (hw : Journaled live w) :
    Leads Alone I p (fun _ v => Journaled live v) w :=
  leads_uses (P := Journaled live) hp (stable_alone (lasting_journaled live))
    (fun _ v ho hv => (files_perform ho v).trans hv)
    (fun v hv => hI v ⟨live, hlive, hv, fun h => absurd h hended⟩) hw

/-- The handler says that it restored the baseline only if it did. -/
theorem leads_undo_sound (hb : Baseline w₀ record) (hsane : ∀ n, w₀.files .config = some n → Sane n)
    (data : Bytes) (hw : Journaled live w) :
    Leads Alone I (undo record e data) (fun r v => Journaled live v ∧ ∀ record', r = .ok record' →
      Baseline w₀ record' ∧ (Ended record' → RestoredTo w₀ v)) w := by
  let body : Script Fields := do
    require (!e.isDrift) "publication displaced unexpected config; manual recovery required"
    require (← isRecorded record data) "config drift during failed activation; manual recovery required"
    restore record
    pure (Migrate.assign record "status" "failed-restored")
  have huses : body.uses SparesCurrent := by
    refine uses_bind trivial fun _ =>
      uses_bind (uses_isRecorded (fun _ => sparesCurrent_of_scratch) _ _) fun _ => ?_
    refine uses_bind trivial fun _ => uses_bind ?_ fun _ => trivial
    exact uses_restore (fun _ => sparesCurrent_of_scratch) (by rfl) (fun _ _ => by rfl)
      (fun _ => by rfl) (fun _ => by rfl) (fun _ => by rfl) record
  have hrestored : Leads Alone (fun _ => True) body (fun r v => r.isOk → RestoredTo w₀ v) w :=
    leads_returning fun _ v => leads_returning fun _ v => leads_returning fun _ v =>
      leads_bind_ok _ (leads_restore hb hsane) fun _ _ hv _ => hv rfl
  have hreturns : body.returns (· = Migrate.assign record "status" "failed-restored") := by
    have hany : ∀ {β : Type} (p : Script β), p.returns fun _ => True :=
      returns_of_forall fun _ => trivial
    refine returns_bind (hany _) fun _ _ => returns_bind (hany _) fun _ _ => ?_
    refine returns_bind (hany _) fun _ _ => returns_bind (hany _) fun _ _ => ?_
    rintro _ ⟨⟩
    rfl
  refine leads_recover _ (wp_returns hreturns (wp_and (leads_live hlive hended hI huses hw) hrestored))
    ?_ ?_
  · rintro record' v ⟨⟨hv, hok⟩, hrecord'⟩
    refine ⟨hv, ?_⟩
    rintro _ ⟨⟩
    rw [hrecord' record' rfl]
    exact ⟨hb.assign _ (by simp), fun _ => hok rfl⟩
  · rintro recovery v ⟨⟨hv, -⟩, -⟩
    refine ⟨hv, ?_⟩
    rintro _ ⟨⟩
    exact ⟨hb.noteFailure recovery, fun h =>
      absurd h (not_ended (by simp) (notesFailure hb.isRecord recovery).status)⟩

/-- The handler, with the record that it saves. -/
theorem leads_failed (hb : Baseline w₀ record) (hsane : ∀ n, w₀.files .config = some n → Sane n)
    (hw : Journaled live w) :
    Leads Alone I (failed record e) (fun _ v => Sound w₀ v) w := by
  have hsound : ∀ v, Journaled live v → Sound w₀ v := fun v hv =>
    ⟨live, hlive, hv, fun h => absurd h hended⟩
  refine leads_bind (fun r v => Journaled live v ∧ ∀ settled, r = .ok settled →
    Baseline w₀ settled ∧ (Ended settled → RestoredTo w₀ v)) ?_ (fun settled v hv => ?_)
    fun _ v hv => hsound v hv.1
  · refine leads_bind _ (leads_live hlive hended hI (uses_perform.mpr (by rfl)) hw)
      (fun data v hv => ?_) fun _ _ hv => ⟨hv, nofun⟩
    refine leads_bind _ (leads_undo_sound hlive hended hI hb hsane data hv) (fun record' u hu => ?_)
      fun _ _ hu => ⟨hu.1, nofun⟩
    obtain ⟨hb', hrestored⟩ := hu.2 record' rfl
    refine ⟨hu.1, ?_⟩
    rintro _ ⟨⟩
    exact ⟨(hb'.noteRecovery e).assign _ (by simp),
      fun h => hrestored ((ended_settled e).mp h)⟩
  · obtain ⟨hb', hrestored⟩ := hv.2 settled rfl
    have hpost : ∀ (r : Except Exn Unit) (u : World), (r.isOk → Journaled settled u) ∧
        (Ended settled → RestoredTo w₀ u) ∧ (Journaled live u ∨ Journaled settled u) → Sound w₀ u := by
      rintro r u ⟨-, hrestored, hu | hu⟩
      · exact hsound u hu
      · exact ⟨settled, hb', hu, hrestored⟩
    exact leads_bind _ (leads_rewrite hlive hended hb' hrestored hI hv.1)
      (fun _ u hu => hpost (.ok ()) u hu) fun e u hu => hpost (.error e) u hu

end Transaction

/-- A transaction leaves a journal that is sound, wherever it is killed. -/
theorem leads_transact {t : Transaction} (hb : Baseline w₀ t.record)
    (hstatus : Json.find "status".toList t.record = some (.str "prepared".toList))
    (hsane : ∀ n, w₀.files .config = some n → Sane n) (hI : ∀ v, Sound w₀ v → I v)
    (hw : Journaled t.record w) : Leads Alone I (transact t) (fun _ v => Sound w₀ v) w := by
  have hprepared : ¬Ended t.record := not_ended (by simp) hstatus
  have hb' : Baseline w₀ (assign t.record "status" "applied") := hb.assign _ (by simp)
  have happlied : ¬Ended (assign t.record "status" "applied") :=
    not_ended (by simp) (find_assign_self ..)
  -- The record that the handler finds is the prepared or the applied one.
  let inFlight := fun (_ : Except Exn Fields) v =>
    Journaled t.record v ∨ Journaled (assign t.record "status" "applied") v
  refine wp_recover (P := inFlight) ?_ ?_ ?_
  · refine leads_bind _ (leads_live hb hprepared hI (sparesCurrent_switch t) hw) (fun _ v hv => ?_)
      fun _ _ => .inl
    exact leads_bind _ (leads_rewrite hb hprepared hb' (absurd · happlied) hI hv)
      (fun _ _ hu => hu.2.2) fun _ _ hu => hu.2.2
  · rintro _ v (hv | hv)
    · exact ⟨_, hb, hv, (absurd · hprepared)⟩
    · exact ⟨_, hb', hv, (absurd · happlied)⟩
  · rintro e v (hv | hv)
    · exact leads_failed hb hprepared hI hb hsane hv
    · exact leads_failed hb' happlied hI hb hsane hv

/-- **What `apply` leaves behind**, wherever it is killed: the state that it started
from, or a sound journal of that state. -/
theorem leads_apply (hsane : ∀ n, w₀.files .config = some n → Sane n) (hw : Alike w₀ (ground w)) :
    Leads Alone (fun v => Alike w₀ v ∨ Sound w₀ v) (apply parents)
      (fun _ v => Alike w₀ (ground v) ∨ Sound w₀ (ground v)) w := by
  have hback : ∀ v, Sound w₀ v → Sound w₀ (ground v) := fun v =>
    lasting_sound w₀ v _ (alike_ground.mpr (.refl v))
  refine leads_bind _ (leads_prepare (fun _ => .inl) hsane hw) (fun t v hv => ?_)
    fun _ _ hv => .inl hv.1
  obtain ⟨hv, ht⟩ := hv
  obtain ⟨hb, hstatus⟩ := ht t rfl
  have hprepared : ¬Ended t.record := not_ended (by simp) hstatus
  have hsound : ∀ v, Journaled t.record v → Sound w₀ v := fun v hv =>
    ⟨_, hb, hv, (absurd · hprepared)⟩
  refine leads_bind _ (leads_atomicWrite (P := Alike w₀) (R := Journaled t.record) privateTemps_alone
    (stable_alike w₀) (stable_alone (lasting_journaled _)) (fun _ => .inl)
    (fun v hv => .inr (hsound v hv)) (fun v _ => by simp [Journaled, World.put]) hv)
    (fun _ u hu => ?_) fun _ u hu => hu.2.imp id (hsound _)
  exact (leads_transact hb hstatus hsane (fun _ => Or.inr) (show Journaled t.record u from hu.1 rfl)).mono
    fun _ x hx => Or.inr (hback x hx)

end Migrate
