import BazziteTower.Migrate.Sessions

/-!
# The history of migrations

`apply` archives the record of an ended transaction and then saves its own.  The archive
step changes no archive that is there already, and it succeeds unless the last thing that
was written to the journal is an archive: the trace of a run that was interrupted between
the two.

## Main definitions

* `OwnJournal` — nobody else writes to the journal.
* `lastJournal` — the journal file that was written last.
* `Chronicle` — what the journal of a reachable state is like.

## Main results

* `chronicle_put`, `chronicle_archive` — what a record and an archive add to it.
* `leads_archive` — the archive step, from any such journal.
-/

open Prog hiding perform
open Deny (PrivateTemps)

namespace Migrate

variable {w w₀ : World} {record : Fields} {I P : World → Prop} {parents : Except Exn Unit}
  {α : Type}

/-! ## The journal -/

/-- The files of the journal that records are written to. -/
def isJournal : HostPath → Bool
  | .current | .archive _ => true
  | _ => false

/-- The journal file that was written last. -/
def lastJournal (w : World) : Option HostPath :=
  w.history.findSome? fun
    | .put p _ => if isJournal p then some p else none
    | _ => none

/-- The journal is the same, and identifiers may have been drawn. -/
structure SameJournal (w v : World) : Prop where
  files : ∀ p, isJournal p → v.files p = w.files p
  last : lastJournal v = lastJournal w
  drawn : w.drawn ≤ v.drawn

theorem SameJournal.refl (w : World) : SameJournal w w := ⟨fun _ _ => rfl, rfl, le_refl _⟩

theorem SameJournal.trans {u v : World} (h : SameJournal w v) (h' : SameJournal v u) :
    SameJournal w u :=
  ⟨fun p hp => (h'.files p hp).trans (h.files p hp), h'.last.trans h.last, h.drawn.trans h'.drawn⟩

/-- Nobody else writes to the journal or to the temporary files. -/
structure OwnJournal (c : Choice Exn World) (w : World) : Prop where
  temps : (c.interfere w).temps = w.temps
  same : SameJournal w (c.interfere w)
  documented : Documented (c.interfere w)

/-- Any call may fail. -/
def Keeping : Op → Choice Exn World → World → Prop := fun _ c w => OwnJournal c w

theorem privateTemps_keeping : PrivateTemps Keeping := fun _ _ _ h => h.temps

/-- What does not depend on anything but the journal. -/
def Chronicled (P : World → Prop) : Prop := ∀ v v', SameJournal v v' → P v → P v'

theorem sameJournal_ground (w : World) : SameJournal w (ground w) := ⟨fun _ _ => rfl, rfl, le_refl _⟩

theorem sameJournal_of_ground (w : World) : SameJournal (ground w) w := ⟨fun _ _ => rfl, rfl, le_refl _⟩

theorem stable_keeping (hP : Chronicled P) : Stable Keeping P := fun _ _ _ h =>
  hP _ _ ⟨h.same.files, h.same.last, h.same.drawn⟩

/-- A call that writes to no journal file. -/
def OffJournal : Op → Bool
  | .replace _ p | .exchange _ p | .unlink (.file p) | .mkdirs p _ | .chmod p _ => !isJournal p
  | .rename p q => !isJournal p && !isJournal q
  | _ => true

theorem offJournal_of_scratch {o : Op} (ho : Scratch o) : OffJournal o := by
  cases o with
  | unlink l => cases l <;> simp_all [Scratch, OffJournal]
  | _ => simp_all [Scratch, OffJournal]

theorem lastJournal_put {p : HostPath} (hp : isJournal p = false) (w : World) (n : Node) :
    lastJournal (w.put p n) = lastJournal w := by
  simp only [lastJournal, World.put]
  split
  · rfl
  · simp [hp]

theorem lastJournal_put_self {p : HostPath} (hp : isJournal p) (w : World) (n : Node) :
    lastJournal (w.put p n) = some p := by
  have hne : p ≠ .snapshot := by rintro rfl; simp [isJournal] at hp
  simp [lastJournal, World.put, hne, hp]

/-- A call that writes to no journal file leaves the journal as it is. -/
theorem sameJournal_perform {o : Op} (ho : OffJournal o) (w : World) :
    SameJournal w (o.perform w).2 := by
  have hspares : ∀ p, isJournal p → Spares p o := by
    intro p hp
    have hne : ∀ q, isJournal q = false → q ≠ p := by
      intro q hq h
      rw [h, hp] at hq
      cases hq
    cases o with
    | unlink l =>
      cases l with
      | file q => simpa [Spares] using hne q (by simpa [OffJournal] using ho)
      | temp t => rfl
    | openLock => simpa [Spares] using (hne .lock rfl).symm
    | rename q r =>
      simp only [OffJournal, Bool.and_eq_true, Bool.not_eq_true'] at ho
      simpa [Spares] using ⟨hne q ho.1, hne r ho.2⟩
    | replace t q => simpa [Spares] using hne q (by simpa [OffJournal] using ho)
    | exchange t q => simpa [Spares] using hne q (by simpa [OffJournal] using ho)
    | mkdirs q mode => simpa [Spares] using hne q (by simpa [OffJournal] using ho)
    | chmod q mode => simpa [Spares] using hne q (by simpa [OffJournal] using ho)
    | _ => rfl
  have hmodify : ∀ t f, lastJournal (w.modifyTemp t f).2 = lastJournal w ∧
      w.drawn ≤ (w.modifyTemp t f).2.drawn := by
    intro t f
    unfold World.modifyTemp
    split <;> exact ⟨rfl, le_refl _⟩
  have hlast : lastJournal (o.perform w).2 = lastJournal w ∧ w.drawn ≤ (o.perform w).2.drawn := by
    cases o with
    | write t data => exact hmodify ..
    | fchown t uid gid => exact hmodify ..
    | fchmod t mode => exact hmodify ..
    | uuid => exact ⟨rfl, Nat.le_succ _⟩
    | replace t p =>
      simp only [Op.perform]
      split
      · exact ⟨rfl, le_refl _⟩
      · split
        · exact ⟨rfl, le_refl _⟩
        · exact ⟨lastJournal_put (by simpa [OffJournal] using ho) .., le_refl _⟩
    | exchange t p =>
      simp only [Op.perform]
      split
      · exact ⟨lastJournal_put (by simpa [OffJournal] using ho) .., le_refl _⟩
      · exact ⟨rfl, le_refl _⟩
    | rename p q =>
      simp only [OffJournal, Bool.and_eq_true, Bool.not_eq_true'] at ho
      simp only [Op.perform]
      split
      · exact ⟨rfl, le_refl _⟩
      · exact ⟨lastJournal_put ho.2 .., le_refl _⟩
    | _ =>
      simp only [Op.perform]
      repeat' split
      all_goals first | exact ⟨trivial, le_refl _⟩ | exact ⟨rfl, le_refl _⟩ | exact hmodify ..
  exact ⟨fun p hp => files_perform (hspares p hp) w, hlast.1, hlast.2⟩

theorem offJournal_of_background {o : Op} (ho : Background o) : OffJournal o := by
  by_cases hs : Scratch o
  · exact offJournal_of_scratch hs
  · cases o <;> simp_all [Background, Scratch, OffJournal, isJournal]

theorem Chronicled.step (hP : Chronicled P) (o : Op) (v : World) (ho : OffJournal o)
    (hv : P (ground v)) : P (ground (o.perform v).2) := by
  have h := sameJournal_perform ho v
  exact hP (ground v) _ ⟨h.files, h.last, h.drawn⟩ hv

theorem Chronicled.keeps (hP : Chronicled P) : Keeps Keeping P where
  stable := stable_keeping hP
  step o v ho := hP.step o v (offJournal_of_background ho)

theorem Chronicled.and {R : World → Prop} (hP : Chronicled P) (hR : Chronicled R) :
    Chronicled fun v => P v ∧ R v :=
  fun v v' h hv => ⟨hP v v' h hv.1, hR v v' h hv.2⟩

theorem leads_offJournal {p : Script α} (hp : p.uses fun o => OffJournal o) (hP : Chronicled P)
    (hI : ∀ v, P v → I v) (hw : P (ground w)) :
    Leads Keeping I p (fun _ v => P (ground v)) w :=
  leads_uses hp (stable_keeping hP) hP.step hI hw

/-! ## Identifiers -/

theorem digitChar_inj {m n : ℕ} (hm : m < 16) (hn : n < 16) (h : Nat.digitChar m = Nat.digitChar n) :
    m = n := by
  have hvalue := congrArg Json.hexValue h
  rw [Json.hexValue_digitChar hm, Json.hexValue_digitChar hn] at hvalue
  exact Option.some.inj hvalue

/-- No two drawn identifiers are equal. -/
theorem uuidHex_injective : Function.Injective uuidHex := by
  intro m
  induction m using Nat.strong_induction_on with
  | _ m ih =>
    intro n h
    simp only [uuidHex] at h
    by_cases hm : m < 16
    · by_cases hn : n < 16
      · rw [Nat.toDigits_of_lt_base hm, Nat.toDigits_of_lt_base hn] at h
        exact digitChar_inj hm hn (List.singleton_inj.mp h)
      · rw [Nat.toDigits_of_lt_base hm, Nat.toDigits_of_base_le (by decide) (by omega)] at h
        have hlength := congrArg List.length h
        have hpos : 0 < (Nat.toDigits 16 (n / 16)).length := Nat.length_toDigits_pos
        simp only [List.length_append, List.length_singleton] at hlength
        omega
    · rw [Nat.toDigits_of_base_le (by decide) (show 16 ≤ m by omega)] at h
      by_cases hn : n < 16
      · rw [Nat.toDigits_of_lt_base hn] at h
        have hlength := congrArg List.length h
        have hpos : 0 < (Nat.toDigits 16 (m / 16)).length := Nat.length_toDigits_pos
        simp only [List.length_append, List.length_singleton] at hlength
        omega
      · rw [Nat.toDigits_of_base_le (by decide) (show 16 ≤ n by omega)] at h
        obtain ⟨hdiv, hmod⟩ := List.append_inj' h rfl
        have hquotient := ih (m / 16) (by omega) hdiv
        have hdigit := digitChar_inj (Nat.mod_lt m (by decide)) (Nat.mod_lt n (by decide))
          (List.singleton_inj.mp hmod)
        omega

theorem find_id_sortMembers (h : IsRecord record) {id : Text}
    (hid : Json.find "id".toList record = some (.str id)) :
    Json.find "id".toList (Json.sortMembers record) = some (.str id) := by
  rw [Json.find_sortMembers h.keys, hid]
  rfl

/-! ## The chronicle -/

/-- The last thing that was written to the journal is an archive. -/
def Interrupted (w : World) : Prop := ∃ id, lastJournal w = some (.archive id)

/-- The journal holds this record.  If a run was interrupted after that, the transaction is
over and its record is archived, and otherwise it is not. -/
structure Filed (record : Fields) (k : ℕ) (w : World) : Prop where
  journaled : Journaled record w
  isRecord : IsRecord record
  id : Json.find "id".toList record = some (.str (uuidHex k))
  drawn : k < w.drawn
  archived : Interrupted w → Ended record ∧
    w.files (.archive (uuidHex k)) = some (privateFile (recordBytes record))
  free : ¬Interrupted w → w.files (.archive (uuidHex k)) = none

/-- No record of a transaction that is over would be lost with the current file. -/
def Shelved (w : World) : Prop :=
  w.files .current = none ∨ Interrupted w ∨ ∃ live k, Filed live k w ∧ ¬Ended live

/-- Archives have ids that were drawn, the current record, if there is one, is filed, and
what was archived or over in `w₀` was not lost. -/
structure Chronicle (w₀ w : World) : Prop where
  drawn : ∀ id, (w.files (.archive id)).isSome → ∃ k < w.drawn, id = uuidHex k
  current : (w.files .current = none ∧ ¬Interrupted w) ∨ ∃ record k, Filed record k w
  kept : ∀ id n, w₀.files (.archive id) = some n → w.files (.archive id) = some n
  history : ∀ record k, Filed record k w₀ → Ended record →
    w.files .current = w₀.files .current ∨ w.files (.archive (uuidHex k)) = w₀.files .current

theorem SameJournal.interrupted {v : World} (h : SameJournal w v) : Interrupted v ↔ Interrupted w := by
  rw [Interrupted, Interrupted, h.last]

theorem chronicled_filed (record : Fields) (k : ℕ) : Chronicled (Filed record k) := by
  intro v v' h hv
  refine ⟨(h.files .current rfl).trans hv.journaled, hv.isRecord, hv.id, ?_, ?_, ?_⟩
  · exact lt_of_lt_of_le hv.drawn h.drawn
  · intro hi
    rw [h.files (.archive (uuidHex k)) rfl]
    exact hv.archived (h.interrupted.mp hi)
  · intro hi
    rw [h.files (.archive (uuidHex k)) rfl]
    exact hv.free (mt h.interrupted.mpr hi)

theorem chronicled_shelved : Chronicled Shelved := by
  intro v v' h hv
  refine hv.imp (h.files .current rfl).trans (Or.imp h.interrupted.mpr ?_)
  rintro ⟨live, k, hfiled, hended⟩
  exact ⟨live, k, chronicled_filed live k v v' h hfiled, hended⟩

theorem chronicled_chronicle (w₀ : World) : Chronicled (Chronicle w₀) := by
  intro v v' h hv
  refine ⟨fun id hid => ?_, hv.current.imp ?_ ?_, fun id n hn => ?_, fun record k hfiled hended => ?_⟩
  · rw [h.files (.archive id) rfl] at hid
    obtain ⟨k, hk, rfl⟩ := hv.drawn id hid
    exact ⟨k, lt_of_lt_of_le hk h.drawn, rfl⟩
  · rintro ⟨hnone, hi⟩
    exact ⟨(h.files .current rfl).trans hnone, mt h.interrupted.mp hi⟩
  · rintro ⟨record, k, hfiled⟩
    exact ⟨record, k, chronicled_filed record k v v' h hfiled⟩
  · exact (h.files (.archive id) rfl).trans (hv.kept id n hn)
  · exact (hv.history record k hfiled hended).imp (h.files .current rfl).trans
      (h.files (.archive _) rfl).trans

/-- What was reached goes on from there. -/
theorem Chronicle.refl (hw : Chronicle w₀ w) : Chronicle w w :=
  ⟨hw.drawn, hw.current, fun _ _ hn => hn, fun _ _ _ _ => .inl rfl⟩

/-- The file of a record tells its number and whether it is over. -/
theorem filed_same {v : World} {record' : Fields} {k k' : ℕ} (h : Filed record k w)
    (h' : Filed record' k' v) (hfiles : v.files .current = w.files .current) :
    k = k' ∧ (Ended record ↔ Ended record') := by
  have hrecorded : recorded v = recorded w := by rw [recorded, recorded, World.bytes, World.bytes, hfiles]
  rw [recorded_of_journaled h.isRecord h.journaled, recorded_of_journaled h'.isRecord h'.journaled,
    Option.some.injEq, Json.obj.injEq] at hrecorded
  constructor
  · have hid := find_id_sortMembers h.isRecord h.id
    rw [← hrecorded, find_id_sortMembers h'.isRecord h'.id, Option.some.injEq, Json.str.injEq] at hid
    exact (uuidHex_injective hid).symm
  · rw [← ended_sortMembers h.isRecord, ← hrecorded, ended_sortMembers h'.isRecord]

theorem put_files_ne {p q : HostPath} (h : q ≠ p) (w : World) (n : Node) :
    (w.put p n).files q = w.files q := by
  simp [World.put, h]

/-- Saving a record of a transaction whose record is not archived. -/
theorem filed_put {k : ℕ} (h : IsRecord record)
    (hid : Json.find "id".toList record = some (.str (uuidHex k))) (hk : k < w.drawn)
    (hfree : w.files (.archive (uuidHex k)) = none) :
    Filed record k (w.put .current (privateFile (recordBytes record))) := by
  have hlast : ¬Interrupted (w.put .current (privateFile (recordBytes record))) := by
    rintro ⟨id, hid⟩
    rw [lastJournal_put_self rfl] at hid
    cases hid
  refine ⟨by simp [Journaled, World.put], h, hid, hk, fun hi => absurd hi hlast, fun _ => ?_⟩
  exact (put_files_ne (by simp) ..).trans hfree

theorem chronicle_put {k : ℕ} (hw : Chronicle w₀ w) (hshelved : Shelved w) (h : IsRecord record)
    (hid : Json.find "id".toList record = some (.str (uuidHex k))) (hk : k < w.drawn)
    (hfree : w.files (.archive (uuidHex k)) = none) :
    Chronicle w₀ (w.put .current (privateFile (recordBytes record))) := by
  refine ⟨fun id hid => ?_, .inr ⟨record, k, filed_put h hid hk hfree⟩, fun id n hn => ?_,
    fun record₀ k₀ hfiled hended => .inr ?_⟩
  · rw [put_files_ne (by simp)] at hid
    exact hw.drawn id hid
  · rw [put_files_ne (by simp)]
    exact hw.kept id n hn
  · rw [put_files_ne (by simp)]
    rcases hw.history record₀ k₀ hfiled hended with hcurrent | harchived
    · -- The record that is overwritten is the one of `w₀`.
      rcases hshelved with hnone | hi | ⟨live, k', hlive, hnot⟩
      · rw [hfiled.journaled, hnone] at hcurrent
        cases hcurrent
      · rcases hw.current with ⟨-, hnot⟩ | ⟨live, k', hlive⟩
        · exact absurd hi hnot
        · obtain ⟨rfl, -⟩ := filed_same hfiled hlive hcurrent
          rw [← hcurrent, hlive.journaled]
          exact (hlive.archived hi).2
      · exact absurd ((filed_same hfiled hlive hcurrent).2.mp hended) hnot
    · exact harchived

/-- Archiving the record of an ended transaction. -/
theorem filed_archive {k : ℕ} (hw : Filed record k w) (hended : Ended record) :
    Filed record k (w.put (.archive (uuidHex k)) (privateFile (recordBytes record))) := by
  refine ⟨?_, hw.isRecord, hw.id, hw.drawn, fun _ => ⟨hended, by simp [World.put]⟩, fun hlast => ?_⟩
  · exact (put_files_ne (by simp) ..).trans hw.journaled
  · exact absurd ⟨_, lastJournal_put_self rfl ..⟩ hlast

theorem chronicle_archive {k : ℕ} (hw : Chronicle w₀ w) (hfiled : Filed record k w)
    (hended : Ended record) (hfree : w.files (.archive (uuidHex k)) = none) :
    Chronicle w₀ (w.put (.archive (uuidHex k)) (privateFile (recordBytes record))) := by
  have hkept : ∀ id n, w.files (.archive id) = some n →
      (w.put (.archive (uuidHex k)) (privateFile (recordBytes record))).files (.archive id) = some n := by
    intro id n hn
    have hne : id ≠ uuidHex k := by
      rintro rfl
      rw [hfree] at hn
      cases hn
    rw [put_files_ne (by simpa using hne)]
    exact hn
  refine ⟨fun id hid => ?_, .inr ⟨record, k, filed_archive hfiled hended⟩,
    fun id n hn => hkept id n (hw.kept id n hn), fun record₀ k₀ hfiled₀ hended₀ => ?_⟩
  · by_cases h : id = uuidHex k
    · exact ⟨k, hfiled.drawn, h⟩
    · rw [put_files_ne (by simpa using h)] at hid
      exact hw.drawn id hid
  · refine (hw.history record₀ k₀ hfiled₀ hended₀).imp (put_files_ne (by simp) ..).trans fun h => ?_
    rw [hfiled₀.journaled] at h ⊢
    exact hkept _ _ h

/-! ## The archive step -/

theorem archiveOf_sortMembers (h : IsRecord record) {id : Text}
    (hid : Json.find "id".toList record = some (.str id)) :
    archiveOf (.obj (Json.sortMembers record)) = .ok (.archive id) := by
  simp only [archiveOf, Json.subscript, find_id_sortMembers h hid]
  rfl

theorem isEnded_sortMembers (h : IsRecord record) {status : Json}
    (hstatus : (Json.obj (Json.sortMembers record)).get "status" = .ok status) :
    isEnded status ↔ Ended record := by
  rw [← ended_sortMembers h]
  have hget : (Json.find "status".toList (Json.sortMembers record)).getD .null = status :=
    Except.ok.inj hstatus
  rw [isEnded, Bool.or_eq_true, Json.pyEq_of_str, Json.pyEq_of_str, Ended]
  rcases hfind : Json.find "status".toList (Json.sortMembers record) with _ | v
  · rw [hfind] at hget
    subst hget
    simp
  · rw [hfind] at hget
    simp [← hget]

section Step
variable {k : ℕ}

/-- The part of `archive` that follows the checks of the record. -/
def shelve (archived : HostPath) : Script Unit := do
  require (!(← perform (.lexists (.file archived)))) "migration history already archived"
  atomicWrite archived (← perform (.read (.file .current)))

/-- What the archive step does with a filed record, from what follows its checks. -/
theorem leads_archive_filed {Q : Except Exn Unit → World → Prop} (hP : Chronicled P)
    (hI : ∀ v, P v → I v) (hfiled : ∀ v, P v → Filed record k v) (hw : P (ground w))
    (hshelve : ∀ v, P (ground v) → Ended record →
      Leads Keeping I (shelve (.archive (uuidHex k))) Q v)
    (herror : ∀ e v, P (ground v) → Q (.error e) v) : Leads Keeping I archive Q w := by
  have hrecord := (hfiled _ hw).isRecord
  have hcurrent : ∀ v, P v → v.files .current = (ground w).files .current := fun v hv =>
    (hfiled v hv).journaled.trans (hfiled _ hw).journaled.symm
  refine leads_bind _ (leads_ask (F := (· = true)) rfl hP.keeps.stable hI ?_ hw) (fun _ v hv => ?_)
    fun e v hv => herror e v hv.1
  · rintro c _ - hv ⟨⟩
    exact Option.isSome_iff_exists.mpr ⟨_, (hfiled _ hv).journaled⟩
  obtain rfl := hv.2 _ rfl
  refine leads_bind _ (leads_readCurrent hP.keeps hI hcurrent hv.1) (fun previous v hv => ?_)
    fun e v hv => herror e v hv.1
  have hprevious := (hv.2 previous rfl).symm.trans
    (recorded_of_journaled hrecord (hfiled _ hw).journaled)
  obtain rfl := Option.some.inj hprevious
  refine leads_known (show (Json.obj (Json.sortMembers record)).get "status" = .ok _ from rfl) ?_
  have hended : isEnded ((Json.find "status".toList (Json.sortMembers record)).getD .null) ↔
      Ended record := isEnded_sortMembers hrecord rfl
  by_cases hover : Ended record
  · refine leads_known (congrArg (refuseUnless · _) (hended.mpr hover)) ?_
    exact leads_known (archiveOf_sortMembers hrecord (hfiled _ hw).id) (hshelve v hv.1 hover)
  · have hrefused := eq_false_of_ne_true (mt hended.mp hover)
    rw [require, hrefused]
    exact herror _ v hv.1

/-- The archive step of a filed record that is archived already. -/
theorem leads_archive_interrupted (hP : Chronicled P) (hI : ∀ v, P v → I v)
    (hfiled : ∀ v, P v → Filed record k v ∧ Interrupted v) (hw : P (ground w)) :
    Leads Keeping I archive (fun r v => P (ground v) ∧ ¬r.isOk) w := by
  refine leads_archive_filed hP hI (fun v hv => (hfiled v hv).1) hw (fun v hv _ => ?_)
    fun e v hv => ⟨hv, nofun⟩
  refine leads_bind _ (leads_ask (F := (· = true)) rfl hP.keeps.stable hI ?_ hv) (fun _ u hu => ?_)
    fun e u hu => ⟨hu.1, nofun⟩
  · rintro c _ - hu ⟨⟩
    obtain ⟨hfiled, hinterrupted⟩ := hfiled _ hu
    exact Option.isSome_iff_exists.mpr ⟨_, (hfiled.archived hinterrupted).2⟩
  · obtain rfl := hu.2 _ rfl
    exact ⟨hu.1, nofun⟩

/-- The archive step of a filed record that is not archived yet. -/
theorem leads_archive_free (hw : Chronicle w₀ (ground w)) (hfiled : Filed record k (ground w))
    (hfree : ¬Interrupted (ground w)) :
    Leads Keeping (Chronicle w₀) archive
      (fun r v => Chronicle w₀ (ground v) ∧ (r.isOk → Shelved (ground v))) w := by
  let before := fun v => (Chronicle w₀ v ∧ Filed record k v) ∧ ¬Interrupted v
  let after := fun v => (Chronicle w₀ v ∧ Filed record k v) ∧ Interrupted v
  have hchronicled := (chronicled_chronicle w₀).and (chronicled_filed record k)
  have hbefore : Chronicled before := hchronicled.and fun v v' h => mt h.interrupted.mp
  have hafter : Chronicled after := hchronicled.and fun v v' h => h.interrupted.mpr
  refine leads_archive_filed hbefore (fun v hv => hv.1.1) (fun v hv => hv.1.2) ⟨⟨hw, hfiled⟩, hfree⟩
    (fun v hv hended => ?_) fun e v hv => ⟨hv.1.1, nofun⟩
  refine leads_bind _ (leads_background (P := before) (uses_perform.mpr (by rfl)) hbefore.keeps
    (fun v hv => hv.1.1) hv) (fun _ v hv => ?_) fun e v hv => ⟨hv.1.1, nofun⟩
  refine leads_bind _ (leads_background (P := before) trivial hbefore.keeps (fun v hv => hv.1.1) hv)
    (fun _ v hv => ?_) fun e v hv => ⟨hv.1.1, nofun⟩
  refine leads_bind _ (leads_ask (F := (· = recordBytes record)) rfl hbefore.keeps.stable
    (fun v hv => hv.1.1) ?_ hv) (fun data v hv => ?_) fun e v hv => ⟨hv.1.1.1, nofun⟩
  · intro c data _ hv hdata
    rw [Op.perform, World.node,
      show (c.interfere v).files .current = _ from hv.1.2.journaled] at hdata
    exact (Except.ok.inj hdata).symm
  obtain rfl := hv.2 data rfl
  refine (leads_atomicWrite (P := before) (R := after) privateTemps_keeping hbefore.keeps.stable
    hafter.keeps.stable (fun v hv => hv.1.1) (fun v hv => hv.1.1) (fun v hv => ?_) hv.1).mono
    fun r v hv => ⟨hv.2.elim (·.1.1) (·.1.1), fun hr => .inr (.inl (hv.1 hr).2)⟩
  refine ⟨⟨chronicle_archive hv.1.1 hv.1.2 hended (hv.1.2.free hv.2), filed_archive hv.1.2 hended⟩, ?_⟩
  exact ⟨_, lastJournal_put_self rfl ..⟩

/-- The archive step of a fresh journal. -/
theorem leads_archive_none (hP : Chronicled P) (hI : ∀ v, P v → I v)
    (hnone : ∀ v, P v → v.files .current = none) (hw : P (ground w)) :
    Leads Keeping I archive (fun _ v => P (ground v)) w := by
  refine leads_bind _ (leads_ask (F := (· = false)) rfl hP.keeps.stable hI ?_ hw) (fun _ v hv => ?_)
    fun e v hv => hv.1
  · rintro c _ - hv ⟨⟩
    simp [World.node, show (c.interfere w).files .current = _ from hnone (ground (c.interfere w)) hv]
  · obtain rfl := hv.2 _ rfl
    exact hv.1

/-- **The archive step** keeps the chronicle, and if it returns, the current record may be
overwritten. -/
theorem leads_archive (hw : Chronicle w₀ (ground w)) :
    Leads Keeping (Chronicle w₀) archive
      (fun r v => Chronicle w₀ (ground v) ∧ (r.isOk → Shelved (ground v))) w := by
  rcases hw.current with ⟨hnone, -⟩ | ⟨record, k, hfiled⟩
  · have hfresh : Chronicled fun v => Chronicle w₀ v ∧ v.files .current = none :=
      (chronicled_chronicle w₀).and fun _ _ h => (h.files .current rfl).trans
    exact (leads_archive_none hfresh (fun _ h => h.1) (fun _ h => h.2) ⟨hw, hnone⟩).mono fun _ _ hv =>
      ⟨hv.1, fun _ => .inl hv.2⟩
  · by_cases hi : Interrupted (ground w)
    · have hshelved : Chronicled fun v => Chronicle w₀ v ∧ (Filed record k v ∧ Interrupted v) :=
        (chronicled_chronicle w₀).and ((chronicled_filed record k).and fun _ _ h => h.interrupted.mpr)
      exact (leads_archive_interrupted hshelved (fun _ h => h.1) (fun _ h => h.2)
        ⟨hw, hfiled, hi⟩).mono fun _ _ hv => ⟨hv.1.1, fun hr => absurd hr hv.2⟩
    · exact leads_archive_free hw hfiled hi

end Step

end Migrate
