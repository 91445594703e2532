import BazziteTower.Deny.Publication
import BazziteTower.Migrate.Model

/-!
# What the migration leaves alone

Most calls of the migration change nothing but temporary files.  `ground` is the
state without those, and `Leads` is the weakest precondition of a script in which
every state that it may be killed in satisfies a crash invariant.

## Main definitions

* `ground`, `Scratch` — the lasting part of the state, and the calls that keep it.
* `Leads` — outcomes and crash invariant together.

## Main results

* `leads_scratch` — what a script of scratch calls keeps.
* `leads_atomicWrite` — a private file is put in place, or nothing changed.
-/

open Prog hiding perform
open Deny (PrivateTemps)

namespace Migrate

variable {α β : Type} {w : World}

/-! ## The lasting state -/

/-- The state without its temporary files. -/
def ground (w : World) : World := { w with temps := fun _ => none, nextTemp := 0 }

@[simp] theorem ground_put (w : World) (p : HostPath) (n : Node) :
    ground (w.put p n) = (ground w).put p n := rfl

@[simp] theorem ground_setTemp (w : World) (t : ℕ) (n : Option Node) :
    ground (w.setTemp t n) = ground w := rfl

@[simp] theorem ground_modifyTemp (w : World) (t : ℕ) (f : Node → Node) :
    ground (w.modifyTemp t f).2 = ground w := by
  unfold World.modifyTemp
  split <;> rfl

/-- A call that leaves the lasting state alone. -/
def Scratch : Op → Bool
  | .lstat _ | .xattrs _ | .read _ | .lexists _ | .mkstemp _ | .write _ _ | .fchown _ _ _
  | .fchmod _ _ | .setxattr _ _ _ | .fsync _ | .syncDirectory _ | .unlink (.temp _) | .isActive _
  | .isEnabled _ | .check _ | .now | .bootId | .uniqueAside _ => true
  | _ => false

theorem ground_perform {o : Op} (ho : Scratch o) (w : World) : ground (o.perform w).2 = ground w := by
  cases o with
  | write t data => exact ground_modifyTemp ..
  | fchown t uid gid => exact ground_modifyTemp ..
  | fchmod t mode => exact ground_modifyTemp ..
  | setxattr t name value =>
    simp only [Op.perform]
    split
    · exact ground_modifyTemp ..
    · rfl
  | unlink l =>
    cases l with
    | file p => simp [Scratch] at ho
    | temp t =>
      simp only [Op.perform]
      split
      · rfl
      · split <;> rfl
  | lstat l => rfl
  | xattrs l => rfl
  | read l => rfl
  | lexists l => rfl
  | mkstemp dir => rfl
  | fsync t => rfl
  | syncDirectory dir => rfl
  | isActive s => rfl
  | isEnabled s => rfl
  | check c => rfl
  | now => rfl
  | bootId => rfl
  | uniqueAside stamp => rfl
  | _ => simp [Scratch] at ho

theorem ground_act {o : Op} (ho : Scratch o) (c : Choice Exn World) (w : World) :
    ground (host.act c o w).2 = ground (c.interfere w) := by
  unfold Host.act
  split
  · exact ground_perform ho _
  · rfl
  · exact ground_perform ho _

/-! ## Outcomes and crashes -/

variable {ok : Op → Choice Exn World → World → Prop} {I P : World → Prop}

/-- Every outcome satisfies `Q`, and every state after a call satisfies `I`. -/
def Leads (ok : Op → Choice Exn World → World → Prop) (I : World → Prop) (p : Script α)
    (Q : Except Exn α → World → Prop) (w : World) : Prop :=
  p.wp host ok (fun _ v => I (ground v)) Q w

/-- The environment keeps an assertion about the lasting state. -/
def Stable (ok : Op → Choice Exn World → World → Prop) (P : World → Prop) : Prop :=
  ∀ o c w, ok o c w → P (ground w) → P (ground (c.interfere w))

theorem Leads.mono {p : Script α} {Q Q' : Except Exn α → World → Prop} (hp : Leads ok I p Q w)
    (hQ : ∀ r v, Q r v → Q' r v) : Leads ok I p Q' w :=
  wp_mono hp hQ

@[simp] theorem leads_done {r : Except Exn α} {Q : Except Exn α → World → Prop} :
    Leads ok I (.done r) Q w ↔ Q r w := Iff.rfl

@[simp] theorem leads_pure {a : α} {Q : Except Exn α → World → Prop} :
    Leads ok I (pure a) Q w ↔ Q (.ok a) w := Iff.rfl

@[simp] theorem leads_throw {e : Exn} {Q : Except Exn α → World → Prop} :
    Leads ok I (throw e : Script α) Q w ↔ Q (.error e) w := Iff.rfl

@[simp] theorem leads_lift {r : Except Exn α} {Q : Except Exn α → World → Prop} :
    Leads ok I (lift r) Q w ↔ Q r w := Iff.rfl

theorem leads_handle {p : Script α} {f : Except Exn α → Script β} {Q : Except Exn β → World → Prop}
    (R : Except Exn α → World → Prop) (hp : Leads ok I p R w)
    (hf : ∀ r v, R r v → Leads ok I (f r) Q v) : Leads ok I (p.handle f) Q w :=
  wp_handle.mpr (wp_mono hp hf)

theorem leads_bind {p : Script α} {f : α → Script β} {Q : Except Exn β → World → Prop}
    (R : Except Exn α → World → Prop) (hp : Leads ok I p R w)
    (hok : ∀ a v, R (.ok a) v → Leads ok I (f a) Q v)
    (herr : ∀ e v, R (.error e) v → Q (.error e) v) : Leads ok I (p >>= f) Q w :=
  wp_bind hp hok herr

/-- A step of which only the return matters. -/
theorem leads_bind_ok {p : Script α} {f : α → Script β} {Q : World → Prop}
    (R : Except Exn α → World → Prop) (hp : Leads ok I p R w)
    (hok : ∀ a v, R (.ok a) v → Leads ok I (f a) (fun r v => r.isOk → Q v) v) :
    Leads ok I (p >>= f) (fun r v => r.isOk → Q v) w :=
  leads_bind R hp hok (by rintro _ _ _ ⟨⟩)

theorem leads_known {r : Except Exn α} {a : α} {f : α → Script β} {Q : Except Exn β → World → Prop}
    (hr : r = .ok a) (hf : Leads ok I (f a) Q w) : Leads ok I (lift r >>= f) Q w := by
  rw [hr]
  exact hf

theorem leads_recover {p : Script α} {f : Exn → Script α} {Q : Except Exn α → World → Prop}
    (R : Except Exn α → World → Prop) (hp : Leads ok I p R w)
    (hok : ∀ a v, R (.ok a) v → Q (.ok a) v)
    (herr : ∀ e v, R (.error e) v → Leads ok I (f e) Q v) : Leads ok I (tryCatch p f) Q w :=
  wp_recover hp hok herr

theorem leads_ensuring {p : Script α} {f : Script Unit} {Q : Except Exn α → World → Prop}
    (R : Except Exn α → World → Prop) (hp : Leads ok I p R w)
    (hf : ∀ r v, R r v →
      Leads ok I f (fun r' v => Q (match r' with | .ok _ => r | .error e => .error e) v) v) :
    Leads ok I (p.ensuring f) Q w :=
  wp_ensuring hp hf (fun _ _ h => h) fun _ _ _ h => h

/-- A single call: struck before it, after it, or not at all. -/
theorem leads_perform {o : Op} {Q : Except Exn o.Res → World → Prop}
    (H : ∀ c, ok o c w → let v := c.interfere w
      I (ground v) ∧ (∀ e, Q (.error e) v) ∧ I (ground (o.perform v).2) ∧
        (∀ e, Q (.error e) (o.perform v).2) ∧ Q (o.perform v).1 (o.perform v).2) :
    Leads ok I (perform o) Q w := by
  intro c hc
  obtain ⟨hI, hbefore, hI', hafter, hnone⟩ := H c hc
  unfold Host.act
  cases c.fault with
  | none => exact ⟨hI', hnone⟩
  | before e => exact ⟨hI, hbefore e⟩
  | after e => exact ⟨hI', hafter e⟩

/-- **Adequacy**: what `Leads` says holds in every admitted run, killed ones included. -/
theorem leads_run {p : Script α} {Q : Except Exn α → World → Prop} (hp : Leads ok I p Q w)
    (hI : Stable ok I) {cs : List (Choice Exn World)}
    (hok : ∀ s ∈ p.steps host cs w, ok s.op s.choice s.world) (hw : I (ground w)) :
    I (ground (p.run host cs w).2) ∧
      ∀ r, (p.run host cs w).1 = some r → Q r (p.run host cs w).2 :=
  wp_run (I := fun v => I (ground v)) hI (fun _ _ hv _ => hv) hp hok hw

/-- **Scratch calls keep what the environment keeps.** -/
theorem leads_scratch {p : Script α} (hp : p.uses fun o => Scratch o) (hP : Stable ok P)
    (hI : ∀ v, P v → I v) (hw : P (ground w)) : Leads ok I p (fun _ v => P (ground v)) w := by
  refine wp_of_uses (P := fun v => P (ground v)) hp ?_ hw fun _ _ h => h
  intro o c v ho hc hv
  rw [ground_act ho]
  have hv' := hP o c v hc hv
  exact ⟨hI _ hv', hv'⟩

/-- Calls that keep an assertion keep it together. -/
theorem leads_uses {A : Op → Prop} {p : Script α} (hp : p.uses A) (hP : Stable ok P)
    (hstep : ∀ o v, A o → P (ground v) → P (ground (o.perform v).2)) (hI : ∀ v, P v → I v)
    (hw : P (ground w)) : Leads ok I p (fun _ v => P (ground v)) w := by
  refine wp_of_uses (P := fun v => P (ground v)) hp ?_ hw fun _ _ h => h
  intro o c v ho hc hv
  have hv' := hP o c v hc hv
  have hafter := hstep o _ ho hv'
  unfold Host.act
  split
  · exact ⟨hI _ hafter, hafter⟩
  · exact ⟨hI _ hv', hv'⟩
  · exact ⟨hI _ hafter, hafter⟩

/-- A scratch call, and what it answers in a state that satisfies the assertion. -/
theorem leads_ask {o : Op} (ho : Scratch o) (hP : Stable ok P) (hI : ∀ v, P v → I v)
    {F : o.Res → Prop} (hF : ∀ c a, ok o c w → P (ground (c.interfere w)) →
      (o.perform (c.interfere w)).1 = .ok a → F a) (hw : P (ground w)) :
    Leads ok I (perform o) (fun r v => P (ground v) ∧ ∀ a, r = .ok a → F a) w := by
  refine leads_perform fun c hc => ?_
  have hv := hP o c w hc hw
  simp only [ground_perform ho]
  exact ⟨hI _ hv, fun _ => ⟨hv, nofun⟩, hI _ hv, fun _ => ⟨hv, nofun⟩, hv, fun a => hF c a hc hv⟩

/-- A list of answers, one for every element. -/
theorem leads_mapM {f : α → Script β} {g : α → β}
    (hf : ∀ x v, P (ground v) →
      Leads ok I (f x) (fun r v => P (ground v) ∧ ∀ b, r = .ok b → b = g x) v)
    (xs : List α) (hw : P (ground w)) :
    Leads ok I (xs.mapM f) (fun r v => P (ground v) ∧ ∀ bs, r = .ok bs → bs = xs.map g) w := by
  induction xs generalizing w with
  | nil => exact ⟨hw, by rintro _ ⟨⟩; rfl⟩
  | cons x xs ih =>
    rw [mapM_cons]
    refine leads_bind _ (hf x w hw) (fun b v hv => ?_) fun e v hv => ⟨hv.1, nofun⟩
    refine leads_bind _ (ih hv.1) (fun bs u hu => ⟨hu.1, ?_⟩) fun e u hu => ⟨hu.1, nofun⟩
    rintro _ ⟨⟩
    rw [hv.2 b rfl, hu.2 bs rfl]
    rfl

/-! ## One file -/

/-- A call that leaves this file alone. -/
def Spares (p : HostPath) : Op → Bool
  | .replace _ q | .exchange _ q | .unlink (.file q) | .mkdirs q _ | .chmod q _ => q ≠ p
  | .rename q r => q ≠ p && r ≠ p
  | .openLock => p ≠ .lock
  | _ => true

theorem files_perform {p : HostPath} {o : Op} (ho : Spares p o) (w : World) :
    (o.perform w).2.files p = w.files p := by
  have hmodify : ∀ t f, (w.modifyTemp t f).2.files p = w.files p := by
    intro t f
    unfold World.modifyTemp
    split <;> rfl
  cases o with
  | mkdirs q mode =>
    have hne : p ≠ q := Ne.symm (by simpa [Spares] using ho)
    simp only [Op.perform]
    split
    · exact Function.update_of_ne hne ..
    · rfl
  | chmod q mode =>
    have hne : p ≠ q := Ne.symm (by simpa [Spares] using ho)
    simp only [Op.perform]
    split
    · rfl
    · split
      · rfl
      · exact Function.update_of_ne hne ..
  | write t data => exact hmodify ..
  | fchown t uid gid => exact hmodify ..
  | fchmod t mode => exact hmodify ..
  | setxattr t name value =>
    simp only [Op.perform]
    split
    · exact hmodify ..
    · rfl
  | replace t q =>
    have hne : p ≠ q := Ne.symm (by simpa [Spares] using ho)
    simp only [Op.perform]
    split
    · rfl
    · split
      · rfl
      · exact Function.update_of_ne hne ..
  | exchange t q =>
    have hne : p ≠ q := Ne.symm (by simpa [Spares] using ho)
    simp only [Op.perform]
    split
    · exact Function.update_of_ne hne ..
    · rfl
  | unlink l =>
    simp only [Op.perform]
    split
    · rfl
    · split
      · rfl
      · cases l with
        | file q => exact Function.update_of_ne (Ne.symm (by simpa [Spares] using ho)) ..
        | temp t => rfl
  | rename q r =>
    simp only [Spares, Bool.and_eq_true, decide_eq_true_eq] at ho
    simp only [Op.perform]
    split
    · rfl
    · exact (Function.update_of_ne (Ne.symm ho.2) ..).trans (Function.update_of_ne (Ne.symm ho.1) ..)
  | openLock =>
    have hne : p ≠ .lock := by simpa [Spares] using ho
    simp only [Op.perform]
    split
    · exact Function.update_of_ne hne ..
    · rfl
  | flock wait => simp only [Op.perform]; split <;> rfl
  | startTimer minutes calendar => simp only [Op.perform]; split <;> rfl
  | _ => rfl

theorem spares_of_scratch {p : HostPath} {o : Op} (ho : Scratch o) : Spares p o := by
  cases o with
  | unlink l => cases l <;> simp_all [Scratch, Spares]
  | _ => simp_all [Scratch, Spares]

/-! ## Background calls -/

/-- A call that changes no more than temporary files, locks and what was drawn. -/
def Background (o : Op) : Bool :=
  Scratch o || match o with
    | .mkdirs p _ => p = .journalDir
    | .uuid | .openLock | .flock _ | .closeLock => true
    | _ => false

theorem background_of_scratch {o : Op} (ho : Scratch o) : Background o := by simp [Background, ho]

/-- The environment and the background calls keep an assertion about the lasting state. -/
structure Keeps (ok : Op → Choice Exn World → World → Prop) (P : World → Prop) : Prop where
  stable : Stable ok P
  step : ∀ o v, Background o → P (ground v) → P (ground (o.perform v).2)

theorem Keeps.and {R : World → Prop} (hP : Keeps ok P) (hR : Keeps ok R) :
    Keeps ok fun v => P v ∧ R v where
  stable o c v hc hv := ⟨hP.stable o c v hc hv.1, hR.stable o c v hc hv.2⟩
  step o v ho hv := ⟨hP.step o v ho hv.1, hR.step o v ho hv.2⟩

theorem Keeps.imp {c : Prop} (hP : Keeps ok P) : Keeps ok fun v => c → P v where
  stable o c v hc hv h := hP.stable o c v hc (hv h)
  step o v ho hv h := hP.step o v ho (hv h)

theorem leads_background {p : Script α} (hp : p.uses fun o => Background o) (hP : Keeps ok P)
    (hI : ∀ v, P v → I v) (hw : P (ground w)) : Leads ok I p (fun _ v => P (ground v)) w :=
  leads_uses hp hP.stable hP.step hI hw

/-- The rest of a script, after background calls. -/
theorem leads_after {p : Script α} {f : α → Script β} {F : Except Exn β → World → Prop}
    (hp : p.uses fun o => Background o) (hP : Keeps ok P) (hI : ∀ v, P v → I v) (hw : P (ground w))
    (hf : ∀ a v, P (ground v) → Leads ok I (f a) (fun r v => P (ground v) ∧ F r v) v)
    (he : ∀ e v, F (.error e) v) : Leads ok I (p >>= f) (fun r v => P (ground v) ∧ F r v) w :=
  leads_bind _ (leads_background hp hP hI hw) hf fun e v hv => ⟨hv, he e v⟩

/-! ## What the scripts call -/

theorem scratch_removeTemporary (t : ℕ) : (do
    if ← perform (.lexists (.temp t)) then perform (.unlink (.temp t)) : Script Unit).uses
      fun o => Scratch o :=
  uses_bind (uses_perform.mpr (by rfl)) fun _ => uses_ite (uses_perform.mpr (by rfl)) trivial

section Uses
variable {A : Op → Prop} (hs : ∀ o, Scratch o → A o)
include hs

theorem uses_call {o : Op} (ho : Scratch o) : (perform o).uses A := uses_perform.mpr (hs o ho)

theorem uses_metadataAt (l : Loc) : (metadataAt l).uses A :=
  uses_bind (uses_call hs (by rfl)) fun _ => uses_bind trivial fun _ =>
    uses_bind (uses_call hs (by rfl)) fun _ => trivial

theorem uses_applyMetadata (t : ℕ) (metadata : Json) : (applyMetadata t metadata).uses A :=
  uses_mono (Deny.dresses_applyMetadata t metadata) fun o ho => hs o (by
    cases o <;> simp_all [Deny.Dresses, Scratch])

theorem uses_serviceState : serviceState.uses A :=
  uses_mapM fun _ _ => uses_bind (uses_call hs (by rfl)) fun _ => uses_bind (uses_call hs (by rfl))
    fun _ => uses_bind trivial fun _ => uses_bind trivial fun _ => trivial

theorem uses_legacyAbsent : legacyAbsent.uses A :=
  uses_bind (uses_call hs (by rfl)) fun _ => uses_bind trivial fun _ =>
    uses_bind (uses_call hs (by rfl)) fun _ => trivial

theorem uses_configIs (data : Bytes) (metadata : Json) :
    (configIs data metadata).uses A :=
  uses_bind (uses_call hs (by rfl)) fun _ => uses_ite
    (uses_bind (uses_metadataAt hs _) fun _ => trivial) trivial

theorem uses_recordedMetadata (record : Fields) : (recordedMetadata record).uses A :=
  uses_bind (uses_metadataAt hs (.file .config)) fun _ => uses_bind trivial fun _ => trivial

theorem uses_isRecorded (record : Fields) (data : Bytes) : (isRecorded record data).uses A :=
  uses_bind trivial fun _ => uses_ite (uses_recordedMetadata hs record) trivial

theorem uses_matchesBaseline (t : ℕ) (metadata : Json) (expected : Bytes) :
    (matchesBaseline t metadata expected).uses A :=
  uses_recover (uses_bind (uses_metadataAt hs _) fun _ => uses_ite
    (uses_bind (uses_call hs (by rfl)) fun _ => trivial) trivial) fun _ => uses_ite trivial trivial

theorem uses_readJson (p : HostPath) : (readJson p).uses A :=
  uses_bind (uses_call hs (by rfl)) fun _ => trivial

theorem uses_atomicWrite {p : HostPath} (hp : ∀ t, A (.replace t p)) (data : Bytes) :
    (atomicWrite p data).uses A := by
  refine uses_bind (uses_call hs (by rfl)) fun t => uses_ensuring ?_
    (uses_mono (scratch_removeTemporary t) hs)
  refine uses_bind (uses_call hs (by rfl)) fun _ => uses_bind (uses_call hs (by rfl)) fun _ => ?_
  refine uses_bind (uses_call hs (by rfl)) fun _ => uses_bind (uses_perform.mpr (hp t)) fun _ => ?_
  exact uses_call hs (by rfl)

theorem uses_journal (hdir : ∀ mode, A (.mkdirs .journalDir mode)) (parents : Except Exn Unit)
    (create : Bool) : (journal parents create).uses A := by
  refine uses_bind trivial fun _ => uses_bind (uses_ite (uses_perform.mpr (hdir _)) trivial) fun _ => ?_
  refine uses_bind (uses_call hs (by rfl)) fun _ => uses_bind trivial fun _ => ?_
  exact uses_bind (uses_call hs (by rfl)) fun _ => uses_ite
    (uses_bind (uses_call hs (by rfl)) fun _ => trivial) trivial

/-- Only an archive is written before the record of a transaction. -/
theorem uses_archive (harchive : ∀ t id, A (.replace t (.archive id))) : archive.uses A := by
  have hwrite : ∀ id, (do
      require (!(← perform (.lexists (.file (.archive id))))) "migration history already archived"
      atomicWrite (.archive id) (← perform (.read (.file .current))) : Script Unit).uses A := fun id =>
    uses_bind (uses_call hs (by rfl)) fun _ => uses_bind trivial fun _ =>
      uses_bind (uses_call hs (by rfl)) fun data => uses_atomicWrite hs (harchive · id) data
  refine uses_bind (uses_call hs (by rfl)) fun _ => uses_ite ?_ trivial
  refine uses_bind (uses_readJson hs _) fun previous => uses_bind trivial fun _ =>
    uses_bind trivial fun _ => ?_
  rcases hp : archiveOf previous with e | p
  · trivial
  obtain ⟨id, rfl⟩ : ∃ id, p = .archive id := by
    obtain ⟨id, -, hid⟩ := Except.bind_eq_ok.mp hp
    cases id <;> first | exact ⟨_, (Except.ok.inj hid).symm⟩ | cases hid
  exact hwrite id

section Replacing
variable (huuid : A .uuid) (hdisplaced : ∀ t id, A (.replace t (.displaced id)))
  (hexchange : ∀ t, A (.exchange t .config))
include huuid hdisplaced

theorem uses_retain (t : ℕ) : (retain t).uses A :=
  uses_bind (uses_perform.mpr huuid) fun _ => uses_bind (uses_perform.mpr (hdisplaced _ _)) fun _ =>
    uses_bind (uses_call hs (by rfl)) fun _ => trivial

theorem uses_inspectDisplaced (t : ℕ) (data : Bytes) (metadata : Json) (expected : Bytes) :
    (inspectDisplaced t data metadata expected).uses A := by
  refine uses_bind (uses_call hs (by rfl)) fun _ =>
    uses_bind (uses_matchesBaseline hs t metadata expected) fun matched => uses_ite ?_ ?_
  · refine uses_bind (uses_configIs hs data metadata) fun _ => uses_bind trivial fun _ => ?_
    exact uses_bind (uses_call hs (by rfl)) fun _ => uses_call hs (by rfl)
  · refine uses_bind (uses_retain hs huuid hdisplaced t) fun _ => ?_
    exact uses_bind (uses_call hs (by rfl)) fun _ => trivial

include hexchange

theorem uses_conditionalConfigWrite (data : Bytes) (metadata : Json) (expected : Bytes) :
    (conditionalConfigWrite data metadata expected).uses A := by
  refine uses_bind (uses_call hs (by rfl)) fun t => uses_handle ?_ fun r => ?_
  · refine uses_bind (uses_call hs (by rfl)) fun _ =>
      uses_bind (uses_applyMetadata hs t metadata) fun _ => ?_
    exact uses_bind (uses_call hs (by rfl)) fun _ => uses_perform.mpr (hexchange t)
  · cases r with
    | error e =>
      exact uses_ensuring trivial (uses_mono (scratch_removeTemporary t) hs)
    | ok _ =>
      refine uses_ensuring (uses_inspectDisplaced hs huuid hdisplaced t data metadata expected) ?_
      exact uses_bind (uses_call hs (by rfl)) fun _ => uses_ite
        (uses_bind (uses_retain hs huuid hdisplaced t) fun _ => trivial) trivial

variable (hstart : ∀ ss, A (.start ss)) (hstop : ∀ ss, A (.stop ss))
include hstart hstop

theorem uses_restore (record : Fields) : (restore record).uses A := by
  refine uses_bind (uses_perform.mpr (hstop _)) fun _ => uses_bind (uses_call hs (by rfl)) fun _ => ?_
  refine uses_bind (uses_isRecorded hs _ _) fun _ => uses_bind trivial fun _ => ?_
  refine uses_bind trivial fun data => uses_bind trivial fun metadata => uses_bind
    (uses_conditionalConfigWrite hs huuid hdisplaced hexchange data metadata _) fun _ => ?_
  refine uses_bind (uses_forM fun unit _ => uses_bind trivial fun _ => uses_bind trivial fun _ =>
    uses_ite (uses_perform.mpr (hstart _)) trivial) fun _ => ?_
  exact uses_bind (uses_serviceState hs) fun _ => uses_bind trivial fun _ => trivial

theorem uses_undo (record : Fields) (e : Exn) (live : Bytes) : (undo record e live).uses A := by
  refine uses_recover (uses_bind trivial fun _ => ?_) fun _ => trivial
  refine uses_bind (uses_isRecorded hs _ _) fun _ => uses_bind trivial fun _ => ?_
  exact uses_bind (uses_restore hs huuid hdisplaced hexchange hstart hstop record) fun _ => trivial

theorem uses_switch (t : Transaction) : (switch t).uses A := by
  refine uses_bind (uses_perform.mpr (hstop _)) fun _ => uses_bind (uses_legacyAbsent hs) fun _ => ?_
  refine uses_bind (uses_configIs hs _ _) fun _ => uses_bind trivial fun _ => ?_
  refine uses_bind (uses_conditionalConfigWrite hs huuid hdisplaced hexchange _ _ _) fun _ => ?_
  refine uses_bind (uses_configIs hs _ _) fun _ => uses_bind trivial fun _ => ?_
  refine uses_bind (uses_perform.mpr (hstart _)) fun _ => uses_bind (uses_perform.mpr (hstart _))
    fun _ => ?_
  exact uses_bind (uses_perform.mpr (hstart _)) fun _ => uses_bind (uses_call hs (by rfl)) fun _ =>
    trivial

end Replacing

end Uses

/-! ## Temporary files -/

/-- The temporary file is there and satisfies `D`. -/
abbrev Holds (t : ℕ) (D : Node → Prop) (w : World) : Prop := Deny.Holds t D w

/-- A private file of root. -/
def privateFile (data : Bytes) : Node := ⟨⟨.regular, 0, 0, 0o600⟩, [], some data⟩

section Temporary
variable {D E : Node → Prop} {t : ℕ} (htemps : PrivateTemps ok) (hP : Stable ok P)
  (hI : ∀ v, P v → I v)
include htemps hP hI

/-- A call that may change the temporary file, as far as it goes through. -/
theorem leads_temporary {o : Op} (ho : Scratch o)
    (hD : ∀ v n, v.temps t = some n → D n → (o.perform v).1.isOk → Holds t E (o.perform v).2)
    (hw : P (ground w) ∧ Holds t D w) :
    Leads ok I (perform o) (fun r v => P (ground v) ∧ (r.isOk → Holds t E v)) w := by
  refine leads_perform fun c hc => ?_
  obtain ⟨hw, n, hn, hDn⟩ := hw
  have hv := hP o c w hc hw
  have hn' : (c.interfere w).temps t = some n := by rw [htemps _ c w hc, hn]
  simp only [ground_perform ho]
  exact ⟨hI _ hv, fun _ => ⟨hv, nofun⟩, hI _ hv, fun _ => ⟨hv, nofun⟩, hv, hD _ n hn' hDn⟩

end Temporary

/-- A fresh temporary file. -/
theorem leads_mkstemp (hP : Stable ok P) (hI : ∀ v, P v → I v) (dir : HostPath)
    (hw : P (ground w)) :
    Leads ok I (perform (.mkstemp dir))
      (fun r v => P (ground v) ∧ ∀ t, r = .ok t → v.temps t = some (.empty 0o600)) w := by
  refine leads_perform fun c hc => ?_
  have hv := hP _ c w hc hw
  simp only [ground_perform (o := .mkstemp dir) rfl]
  refine ⟨hI _ hv, fun _ => ⟨hv, nofun⟩, hI _ hv, fun _ => ⟨hv, nofun⟩, hv, fun t ht => ?_⟩
  cases ht
  simp [Op.perform, World.setTemp]

/-! ## Atomic writes -/

/-- **An atomic write** puts a private file in place or leaves everything alone, and if it
returns, the file is in place. -/
theorem leads_atomicWrite {R : World → Prop} {p : HostPath} {data : Bytes}
    (htemps : PrivateTemps ok) (hP : Stable ok P) (hR : Stable ok R) (hPI : ∀ v, P v → I v)
    (hRI : ∀ v, R v → I v) (hput : ∀ v, P v → R (v.put p (privateFile data)))
    (hw : P (ground w)) :
    Leads ok I (atomicWrite p data)
      (fun r v => (r.isOk → R (ground v)) ∧ (P (ground v) ∨ R (ground v))) w := by
  refine leads_bind _ (leads_mkstemp hP hPI p.parent hw) (fun t v hv => ?_)
    fun e v hv => ⟨by rintro ⟨⟩, .inl hv.1⟩
  refine leads_ensuring (fun r v => (r.isOk → R (ground v)) ∧ (P (ground v) ∨ R (ground v))) ?_ ?_
  · have hempty : P (ground v) ∧ Holds t (· = .empty 0o600) v := ⟨hv.1, _, hv.2 t rfl, rfl⟩
    refine leads_bind _ (leads_temporary (E := (· = privateFile data)) htemps hP hPI
      (o := .write t data) rfl ?_ hempty) (fun _ u hu => ?_) fun e u hu => ⟨by rintro ⟨⟩, .inl hu.1⟩
    · rintro x n hn rfl -
      exact Deny.holds_modifyTemp hn rfl
    refine leads_bind _ (leads_temporary (E := (· = privateFile data)) htemps hP hPI
      (o := .fchmod t 0o600) rfl ?_ ⟨hu.1, hu.2 rfl⟩) (fun _ u hu => ?_)
      fun e u hu => ⟨by rintro ⟨⟩, .inl hu.1⟩
    · rintro x n hn rfl -
      exact Deny.holds_modifyTemp hn rfl
    refine leads_bind _ (leads_temporary (E := (· = privateFile data)) htemps hP hPI
      (o := .fsync t) rfl (fun x n hn h _ => ⟨n, hn, h⟩) ⟨hu.1, hu.2 rfl⟩) (fun _ u hu => ?_)
      fun e u hu => ⟨by rintro ⟨⟩, .inl hu.1⟩
    refine leads_bind (fun r x => (r.isOk → R (ground x)) ∧ (P (ground x) ∨ R (ground x))) ?_ ?_
      fun e x hx => hx
    · refine leads_perform fun c hc => ?_
      have hx := hP _ c u hc hu.1
      obtain ⟨n, hn, rfl⟩ := hu.2 rfl
      have hn' : (c.interfere u).temps t = some (privateFile data) := by rw [htemps _ c u hc, hn]
      have hafter := hput _ hx
      simp only [Op.perform, hn']
      split
      · exact ⟨hPI _ hx, fun _ => ⟨by rintro ⟨⟩, .inl hx⟩, hPI _ hx,
          fun _ => ⟨by rintro ⟨⟩, .inl hx⟩, by rintro ⟨⟩, .inl hx⟩
      · simp only [ground_put, ground_setTemp]
        exact ⟨hPI _ hx, fun _ => ⟨by rintro ⟨⟩, .inl hx⟩, hRI _ hafter,
          fun _ => ⟨by rintro ⟨⟩, .inr hafter⟩, fun _ => hafter, .inr hafter⟩
    · intro _ x hx
      exact (leads_scratch (uses_perform.mpr (by rfl)) hR hRI (hx.1 rfl)).mono
        fun r y hy => ⟨fun _ => hy, .inr hy⟩
  · rintro r x ⟨hok, hx⟩
    have hscratch := scratch_removeTemporary t
    rcases hx with hx | hx
    · by_cases hr : r.isOk
      · refine (leads_scratch hscratch hR hRI (hok hr)).mono ?_
        rintro (_ | _) y hy
        · exact ⟨by rintro ⟨⟩, .inr hy⟩
        · exact ⟨fun _ => hy, .inr hy⟩
      · refine (leads_scratch hscratch hP hPI hx).mono ?_
        rintro (_ | _) y hy
        · exact ⟨by rintro ⟨⟩, .inl hy⟩
        · exact ⟨fun h => absurd h hr, .inl hy⟩
    · refine (leads_scratch hscratch hR hRI hx).mono ?_
      rintro (_ | _) y hy
      · exact ⟨by rintro ⟨⟩, .inr hy⟩
      · exact ⟨fun _ => hy, .inr hy⟩

/-! ## A machine -/

/-- A profile with this address. -/
def profile (address : String) : Json :=
  .obj [("Server".toList, .obj [("Address".toList, .str address.toList)]),
    ("DefaultAction".toList, .str "allow".toList), ("ProcMonitorMethod".toList, .str "proc".toList)]

/-- The bytes of the legacy profile. -/
def legacyConfig : Bytes := Text.encode ((profile "127.0.0.1:50051").render none 0)

/-- What the checks of the shared module return on a machine with the legacy profile. -/
def legacyFacts : Check → Json
  | .immutable => .obj [("source".toList, .obj [("commit".toList, .str "c0ffee".toList)])]
  | .unitContract => .obj [("MainPID".toList, .str "412".toList)]
  | .manifestDigest => .str "5ca1ab1e".toList
  | .legacyReference => profile "127.0.0.1:50051"
  | .systemReference => profile "unix:opensnitchd.sock"
  | _ => .null

/-- A machine with the legacy profile, which was never migrated. -/
def legacyHost : World where
  files
    | .config => some ⟨⟨.regular, 0, 0, 0o644⟩, [], some legacyConfig⟩
    | .configDir | .lockDir => some (.directory 0o755)
    | .journalDir => some (.directory 0o700)
    | _ => none
  temps _ := none
  nextTemp := 0
  corruptBound := 0
  timer := false
  active
    | .bridge => .inactive
    | _ => .active
  enabled _ := .enabled
  loaded := some legacyConfig
  holder := .nobody
  bootId := some ['1']
  clock := 63900000000000000
  drawn := 7
  settable _ _ := true
  facts c := .ok (legacyFacts c)
  history := []

end Migrate
