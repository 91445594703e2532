import BazziteTower.Migrate.Apply

/-!
# What a rollback leaves behind

Over a sound journal a rollback keeps the journal sound wherever it is killed, and it has
undone the recorded migration if it returns.  Without a record it does nothing.

## Main results

* `leads_rollback` — a rollback keeps the journal sound, and restores if it returns.
* `leads_rollback_none` — a rollback without a record fails, and changes nothing.
-/

open Prog hiding perform
open Deny (PrivateTemps Records Dressed)

namespace Migrate

variable {w w₀ b : World} {record : Fields} {I P : World → Prop} {parents : Except Exn Unit}
  {α : Type}

/-! ## The recorded transaction -/

theorem not_ended_of_activeRecord {value : Json} (h : activeRecord value = .ok record) :
    value = .obj record ∧ ¬Ended record := by
  simp only [activeRecord, Except.bind_eq_ok, refuseUnless_eq_ok] at h
  obtain ⟨schema, -, status, hstatus, -, hactive, -, -, -, -, -, -, -, -, -, -, -, -, -, -,
    hvalue⟩ := h
  obtain ⟨ms, rfl⟩ : ∃ ms, value = .obj ms := by
    cases value <;> first | exact ⟨_, rfl⟩ | cases hvalue
  obtain rfl : ms = record := Except.ok.inj hvalue
  obtain ⟨word, hword, hfound⟩ := List.any_eq_true.mp hactive
  obtain rfl := Json.pyEq_of_str.mp hfound
  refine ⟨rfl, ?_⟩
  split at hstatus
  · -- The status that was read is the status of the record.
    have hget : (Json.find "status".toList ms).getD .null = .str word.toList := Except.ok.inj hstatus
    have hfind : Json.find "status".toList ms = some (.str word.toList) := by
      cases hf : Json.find "status".toList ms with
      | none => rw [hf] at hget; cases hget
      | some v => rw [hf] at hget; exact congrArg some hget
    refine not_ended ?_ hfind
    revert hword
    simp only [List.mem_cons, List.not_mem_nil, or_false]
    rintro (rfl | rfl | rfl) <;> decide
  · cases hstatus

section Reload
variable {ok : Op → Choice Exn World → World → Prop} (hP : Keeps ok P) (hI : ∀ v, P v → I v)
  (hcurrent : ∀ v, P v → v.files .current = w₀.files .current)
include hP hI hcurrent

theorem leads_readCurrent (hw : P (ground w)) :
    Leads ok I (readJson .current) (fun r v => P (ground v) ∧ ∀ value, r = .ok value →
      recorded w₀ = some value) w := by
  refine leads_bind _ (leads_ask (F := fun data => w₀.bytes .current = some data) rfl
    hP.stable hI ?_ hw) (fun data v hv => ⟨hv.1, ?_⟩) fun _ _ hv => ⟨hv.1, nofun⟩
  · intro c data _ hv hdata
    rw [Op.perform, World.node,
      show (c.interfere w).files .current = _ from hcurrent (ground (c.interfere w)) hv] at hdata
    exact Deny.contents_eq_ok.mp hdata
  · intro value hvalue
    rw [recorded, hv.2 data rfl, Option.bind_some, hvalue]
    rfl

/-- The record that a rollback goes by is the one in the journal, and not over. -/
theorem leads_reload (hw : P (ground w)) :
    Leads ok I (reload parents) (fun r v => P (ground v) ∧ ∀ record, r = .ok record →
      recorded w₀ = some (.obj record) ∧ ¬Ended record) w := by
  have hscratch : ∀ o : Op, Scratch o → Background o := fun _ => background_of_scratch
  have hask : ∀ {o : Op}, Scratch o → (perform o : Script o.Res).uses fun o => Background o :=
    fun ho => uses_perform.mpr (background_of_scratch ho)
  refine leads_after (uses_journal hscratch (fun _ => by rfl) _ _) hP hI hw (fun _ v hv => ?_)
    fun _ _ => nofun
  refine leads_after ?_ hP hI hv (fun _ v hv => ?_) fun _ _ => nofun
  · exact uses_bind (hask (by rfl)) fun _ => uses_ite (uses_bind (hask (by rfl)) fun _ => trivial) trivial
  refine leads_after trivial hP hI hv (fun _ v hv => ?_) fun _ _ => nofun
  refine leads_after (hask (by rfl)) hP hI hv (fun _ v hv => ?_) fun _ _ => nofun
  refine leads_after trivial hP hI hv (fun _ v hv => ?_) fun _ _ => nofun
  refine leads_bind _ (leads_readCurrent hP hI hcurrent hv) (fun value v hv => ?_)
    fun _ _ hv => ⟨hv.1, nofun⟩
  obtain ⟨hv, hrecorded⟩ := hv
  rcases hactive : activeRecord value with e | record
  · exact ⟨hv, nofun⟩
  obtain ⟨rfl, hended⟩ := not_ended_of_activeRecord hactive
  refine leads_known rfl ?_
  refine leads_after (hask (by rfl)) hP hI hv (fun _ v hv => ?_) fun _ _ => nofun
  refine leads_after (hask (by rfl)) hP hI hv (fun _ v hv => ?_) fun _ _ => nofun
  refine leads_after trivial hP hI hv (fun _ v hv => ?_) fun _ _ => nofun
  refine leads_after trivial hP hI hv (fun _ v hv => ?_) fun _ _ => nofun
  refine leads_after (hask (by rfl)) hP hI hv (fun _ v hv => ?_) fun _ _ => nofun
  refine leads_after (uses_isRecorded hscratch _ _) hP hI hv (fun _ v hv => ?_) fun _ _ => nofun
  refine leads_after trivial hP hI hv (fun _ v hv => ?_) fun _ _ => nofun
  refine leads_after (hask (by rfl)) hP hI hv (fun _ v hv => ?_) fun _ _ => nofun
  refine leads_after (hask (by rfl)) hP hI hv (fun _ v hv => ?_) fun _ _ => nofun
  refine leads_after trivial hP hI hv (fun _ v hv => ?_) fun _ _ => nofun
  refine leads_after (hask (by rfl)) hP hI hv (fun _ v hv => ?_) fun _ _ => nofun
  refine leads_after (hask (by rfl)) hP hI hv (fun _ v hv => ?_) fun _ _ => nofun
  refine leads_after (uses_serviceState hscratch) hP hI hv (fun _ v hv => ?_) fun _ _ => nofun
  refine leads_after trivial hP hI hv (fun _ v hv => ?_) fun _ _ => nofun
  refine leads_after trivial hP hI hv (fun _ v hv => ?_) fun _ _ => nofun
  refine leads_after trivial hP hI hv (fun _ v hv => ⟨hv, ?_⟩) fun _ _ => nofun
  rintro _ ⟨⟩
  exact ⟨hrecorded _ rfl, hended⟩

end Reload

/-! ## `rollback` -/

theorem ended_sortMembers (h : IsRecord record) : Ended (Json.sortMembers record) ↔ Ended record := by
  have hstr : ∀ word : Text, (Json.find "status".toList record).map Json.sortKeys = some (.str word) ↔
      Json.find "status".toList record = some (.str word) := fun word => by
    rcases Json.find "status".toList record with _ | v
    · simp
    · cases v <;> simp [Json.sortKeys]
  rw [Ended, Ended, Json.find_sortMembers h.keys, hstr, hstr]

/-- **A rollback keeps the journal sound**, wherever it is killed, and if it returns, it
restored the state that the journal holds. -/
theorem leads_rollback (hsound : Sound b w₀) (hsane : ∀ n, b.files .config = some n → Sane n)
    (hw : Alike w₀ (ground w)) :
    Leads Alone (Sound b) (rollback parents)
      (fun r v => Sound b v ∧ (r.isOk → RestoredTo b v)) w := by
  have hI : ∀ v, Alike w₀ v → Sound b v := fun v hv => lasting_sound b _ _ hv hsound
  have hback : ∀ v, Sound b (ground v) → Sound b v := fun v =>
    lasting_sound b _ _ ⟨rfl, rfl, rfl, rfl⟩
  refine leads_bind _ (leads_reload (lasting_alike w₀).keeps hI (fun _ h => h.current) hw)
    (fun record v hv => ?_) fun _ v hv => ⟨hback v (hI _ hv.1), nofun⟩
  obtain ⟨hv, hrecord⟩ := hv
  obtain ⟨hrecorded, hended⟩ := hrecord record rfl
  obtain ⟨live, hb, hj, -⟩ := hsound
  rw [recorded_of_journaled hb.isRecord hj] at hrecorded
  cases hrecorded
  rw [ended_sortMembers hb.isRecord] at hended
  have hlive : Journaled live v := hv.current.trans hj
  have hsorted := hb.sorted
  have hsound : ∀ u, Journaled live u → Sound b u := fun u hu =>
    ⟨live, hb, hu, (absurd · hended)⟩
  have huses : (restore (Json.sortMembers live)).uses SparesCurrent :=
    uses_restore (fun _ => sparesCurrent_of_scratch) (by rfl) (fun _ _ => by rfl) (fun _ => by rfl)
      (fun _ => by rfl) (fun _ => by rfl) _
  -- The record is rewritten, and the journal is sound before and after.
  have hrewrite : ∀ {record' : Fields} {u : World}, Baseline b record' →
      (Ended record' → RestoredTo b u) → Journaled live u →
      Leads Alone (Sound b) (save record') (fun _ x => Sound b x ∧ (Ended record' → RestoredTo b x)) u :=
    fun hb' hended' hu => (leads_rewrite hb hended hb' hended' (fun _ h => h) hu).mono fun _ x hx =>
      ⟨hx.2.2.elim (hsound x) fun hx' => ⟨_, hb', hx', hx.2.1⟩, hx.2.1⟩
  refine leads_bind (fun r u => Sound b u ∧ (r.isOk → Journaled live u ∧ RestoredTo b u)) ?_ ?_
    fun _ u hu => ⟨hu.1, nofun⟩
  · refine leads_recover _ (wp_and (leads_live hb hended (fun _ h => h) huses hlive)
      (leads_restore hsorted hsane)) (fun _ u hu => ⟨hsound u hu.1, fun _ => ⟨hu.1, hu.2 rfl⟩⟩) ?_
    intro e u hu
    have hfailed : ¬Ended (noteFailure (Json.sortMembers live) e) :=
      not_ended (by simp) (notesFailure hsorted.isRecord e).status
    exact leads_bind _ (hrewrite (hsorted.noteFailure e) (absurd · hfailed) hu.1)
      (fun _ x hx => ⟨hx.1, nofun⟩) fun _ x hx => ⟨hx.1, nofun⟩
  · intro _ u hu
    obtain ⟨hu, hrestored⟩ := hu.2 rfl
    have hrolled : Ended (assign (Json.sortMembers live) "status" "rolled-back") :=
      .inl (find_assign_self ..)
    exact leads_bind _ (hrewrite (hsorted.assign _ (by simp)) (fun _ => hrestored) hu)
      (fun _ x hx => ⟨hx.1, fun _ => hx.2 hrolled⟩) fun _ x hx => ⟨hx.1, nofun⟩

/-- Without a record there is nothing to roll back. -/
theorem leads_rollback_none (hnone : w₀.files .current = none) (hw : Alike w₀ (ground w)) :
    Leads Alone (Alike w₀) (rollback parents) (fun r v => Alike w₀ (ground v) ∧ ¬r.isOk) w := by
  refine leads_bind _ (leads_reload (lasting_alike w₀).keeps (fun _ h => h) (fun _ h => h.current) hw)
    (fun record v hv => ?_) fun _ v hv => ⟨hv.1, nofun⟩
  have hrecorded := (hv.2 record rfl).1
  rw [recorded, World.bytes, hnone] at hrecorded
  cases hrecorded

end Migrate
