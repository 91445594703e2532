import BazziteTower.Migrate.Rollback

/-!
# Sessions of the migration helper

In any session of the helper, with runs that fail or are killed anywhere, the journal
is sound: it holds a state in which a run of `apply` began, and when it says that the
migration is undone, the configuration and the units are as in that state.

## Main definitions

* `Calls` — the calls of the helper.
* `Sessions` — the states that runs of the helper reach, with where these runs began.
* `Recorded` — the journal holds one of the states in which an `apply` began.

## Main results

* `Recorded.run` — one run, cut short anywhere.
* `sound_of_sessions` — the journal of every reachable state.
* `rollback_restores` — a rollback that exits with status 0.
-/

open Prog hiding perform

namespace Migrate

variable {w w₀ b : World} {record : Fields} {I P : World → Prop} {parents : Except Exn Unit}
  {α : Type}

/-! ## The calls of the helper -/

/-- A call of the helper. -/
def Calls (o : Op) : Bool :=
  Aside o || match o with
    | .replace _ .current | .replace _ (.displaced _) | .exchange _ .config => true
    | .start _ | .stop _ => true
    | _ => false

theorem calls_of_aside {o : Op} (ho : Aside o) : Calls o := by simp [Calls, ho]

theorem calls_of_background {o : Op} (ho : Background o) : Calls o :=
  calls_of_aside (aside_of_background ho)

theorem calls_of_scratch {o : Op} (ho : Scratch o) : Calls o := calls_of_aside (aside_of_scratch ho)

theorem background_check : check.uses fun o => Background o := by
  have hscratch : ∀ o : Op, Scratch o → Background o := fun _ => background_of_scratch
  have hcheck : ∀ c, (perform (.check c) : Script Json).uses fun o => Background o := fun c =>
    uses_perform.mpr (by rfl)
  refine uses_bind (hcheck _) fun _ => uses_bind (hcheck _) fun _ => uses_bind (hcheck _) fun _ => ?_
  refine uses_bind (hcheck _) fun _ => uses_bind (hcheck _) fun _ => uses_bind trivial fun _ => ?_
  refine uses_bind (hcheck _) fun _ => uses_bind (uses_metadataAt hscratch _) fun _ => ?_
  refine uses_bind (uses_readJson hscratch _) fun _ => uses_bind (hcheck _) fun _ => ?_
  refine uses_bind (hcheck _) fun _ => uses_bind trivial fun _ => ?_
  exact uses_bind (uses_serviceState hscratch) fun _ => uses_bind trivial fun _ => trivial

theorem background_capture (config : Json) : (capture config).uses fun o => Background o := by
  have hscratch : ∀ o : Op, Scratch o → Background o := fun _ => background_of_scratch
  refine uses_bind trivial fun _ => uses_bind trivial fun _ => ?_
  refine uses_bind (uses_call hscratch (by rfl)) fun _ => uses_bind trivial fun _ => ?_
  refine uses_bind (uses_metadataAt hscratch _) fun _ => uses_bind ?_ fun _ => uses_bind trivial fun _ =>
    uses_bind trivial fun _ => trivial
  refine uses_ite (uses_bind (uses_call hscratch (by rfl)) fun _ => ?_) trivial
  exact uses_ite (uses_bind (uses_metadataAt hscratch _) fun _ => trivial) trivial

theorem aside_prepare (parents : Except Exn Unit) : (prepare parents).uses fun o => Aside o := by
  have hscratch : ∀ o : Op, Scratch o → Aside o := fun _ => aside_of_scratch
  refine uses_bind (uses_mono background_check fun _ => aside_of_background) fun checked =>
    uses_bind (uses_mono (background_capture _) fun _ => aside_of_background) fun captured => ?_
  refine uses_bind (uses_journal hscratch (fun _ => by rfl) _ _) fun _ =>
    uses_bind (uses_archive hscratch fun _ _ => by rfl) fun _ => ?_
  refine uses_bind (uses_perform.mpr (by rfl)) fun _ => uses_bind trivial fun _ => ?_
  exact uses_bind (uses_call hscratch (by rfl)) fun _ => trivial

theorem calls_save (record : Fields) : (save record).uses fun o => Calls o :=
  uses_atomicWrite (fun _ => calls_of_scratch) (fun _ => by rfl) _

theorem calls_restore (record : Fields) : (restore record).uses fun o => Calls o :=
  uses_restore (fun _ => calls_of_scratch) (by rfl) (fun _ _ => by rfl) (fun _ => by rfl)
    (fun _ => by rfl) (fun _ => by rfl) record

theorem calls_apply (parents : Except Exn Unit) : (apply parents).uses fun o => Calls o := by
  refine uses_bind (uses_mono (aside_prepare parents) fun _ => calls_of_aside) fun t =>
    uses_bind (calls_save _) fun _ => uses_recover ?_ fun e => ?_
  · exact uses_bind (uses_switch (fun _ => calls_of_scratch) (by rfl) (fun _ _ => by rfl)
      (fun _ => by rfl) (fun _ => by rfl) (fun _ => by rfl) t) fun _ =>
        uses_bind (calls_save _) fun _ => trivial
  · refine uses_bind (uses_bind (uses_perform.mpr (by rfl)) fun live => uses_bind ?_ fun _ => trivial)
      fun _ => uses_bind (calls_save _) fun _ => trivial
    exact uses_undo (fun _ => calls_of_scratch) (by rfl) (fun _ _ => by rfl) (fun _ => by rfl)
      (fun _ => by rfl) (fun _ => by rfl) _ e live

theorem aside_reload (parents : Except Exn Unit) : (reload parents).uses fun o => Aside o := by
  have hscratch : ∀ o : Op, Scratch o → Aside o := fun _ => aside_of_scratch
  have hask : ∀ {o : Op}, Scratch o → (perform o : Script o.Res).uses fun o => Aside o := fun ho =>
    uses_perform.mpr (aside_of_scratch ho)
  refine uses_bind (uses_journal hscratch (fun _ => by rfl) _ _) fun _ => uses_bind ?_ fun _ => ?_
  · exact uses_bind (hask (by rfl)) fun _ => uses_ite (uses_bind (hask (by rfl)) fun _ => trivial) trivial
  refine uses_bind trivial fun _ => uses_bind (hask (by rfl)) fun _ => uses_bind trivial fun _ => ?_
  refine uses_bind (uses_readJson hscratch _) fun _ => uses_bind trivial fun _ => ?_
  refine uses_bind (hask (by rfl)) fun _ => uses_bind (hask (by rfl)) fun _ => uses_bind trivial fun _ => ?_
  refine uses_bind trivial fun _ => uses_bind (hask (by rfl)) fun _ => ?_
  refine uses_bind (uses_isRecorded hscratch _ _) fun _ => uses_bind trivial fun _ => ?_
  refine uses_bind (hask (by rfl)) fun _ => uses_bind (hask (by rfl)) fun _ => uses_bind trivial fun _ => ?_
  refine uses_bind (hask (by rfl)) fun _ => uses_bind (hask (by rfl)) fun _ => ?_
  refine uses_bind (uses_serviceState hscratch) fun _ => uses_bind trivial fun _ => ?_
  exact uses_bind trivial fun _ => uses_bind trivial fun _ => trivial

theorem calls_rollback (parents : Except Exn Unit) : (rollback parents).uses fun o => Calls o := by
  refine uses_bind (uses_mono (aside_reload parents) fun _ => calls_of_aside) fun record => ?_
  refine uses_bind (uses_recover (calls_restore _) fun e => uses_bind (calls_save _) fun _ => trivial)
    fun _ => ?_
  exact uses_bind (calls_save _) fun _ => trivial

theorem background_report (record : Fields) : (report record).uses fun o => Background o :=
  uses_bind trivial fun _ => uses_bind trivial fun _ => uses_bind
    (uses_readJson (fun _ => background_of_scratch) _) fun _ => uses_bind trivial fun _ => trivial

theorem background_lockNow : lockNow.uses fun o => Background o :=
  uses_recover (uses_perform.mpr (by rfl)) fun _ => uses_ite trivial trivial

theorem calls_main (parents : Except Exn Unit) (k : Action) : (main parents k).uses fun o => Calls o := by
  have hlocked : ∀ {body : Script Fields}, (body.uses fun o => Calls o) →
      (locked body).uses fun o => Calls o := fun hbody =>
    uses_bind (uses_perform.mpr (by rfl)) fun _ => uses_ensuring
      (uses_bind trivial fun _ =>
        uses_bind (uses_mono background_lockNow fun _ => calls_of_background) fun _ =>
          uses_bind hbody fun _ => uses_mono (background_report _) fun _ => calls_of_background)
      (uses_perform.mpr (by rfl))
  refine uses_recover (uses_bind ?_ fun _ => trivial) fun _ => uses_ite trivial trivial
  cases k with
  | check =>
    exact uses_bind (uses_mono background_check fun _ => calls_of_background) fun _ =>
      uses_bind trivial fun _ => uses_bind trivial fun _ => trivial
  | apply => exact hlocked (calls_apply parents)
  | rollback => exact hlocked (calls_rollback parents)

/-! ## Sane files -/

/-- The configuration and the temporary files are as the kernel reports files. -/
structure SaneFiles (w : World) : Prop where
  config : ∀ n, w.files .config = some n → Sane n
  temps : ∀ t n, w.temps t = some n → Sane n

theorem sane_mode {n : Node} (h : Sane n) (mode : ℤ) :
    Sane { n with mode := .ofNat (mode % 4096).toNat } := by
  refine ⟨?_, h.2⟩
  change (UInt32.ofNat (mode % 4096).toNat).toNat < 4096
  rw [UInt32.toNat_ofNat']
  omega

theorem sane_setxattr {n : Node} (h : Sane n) (name : Text) (value : Bytes) :
    Sane { n with xattrs := n.xattrs.filter (fun x => x.1 ≠ name) ++ [(name, value)] } := by
  refine ⟨h.1, ?_⟩
  rw [List.map_append, List.nodup_append]
  refine ⟨h.2.sublist (List.filter_sublist.map _), by simp, ?_⟩
  simp only [List.mem_map, List.mem_filter, List.map_cons, List.map_nil, List.mem_singleton]
  rintro _ ⟨x, ⟨-, hx⟩, rfl⟩ _ rfl
  simpa using hx

theorem sane_setTemp {t : ℕ} {m : Option Node} (hw : SaneFiles w) (hm : ∀ n, m = some n → Sane n) :
    SaneFiles (w.setTemp t m) := by
  refine ⟨hw.config, fun t' n hn => ?_⟩
  by_cases ht : t' = t
  · subst ht
    exact hm n (by simpa [World.setTemp] using hn)
  · exact hw.temps t' n (by simpa [World.setTemp, ht] using hn)

theorem sane_modifyTemp {t : ℕ} {f : Node → Node} (hf : ∀ n, Sane n → Sane (f n)) (hw : SaneFiles w) :
    SaneFiles (w.modifyTemp t f).2 := by
  unfold World.modifyTemp
  split
  · exact hw
  · rename_i n hn
    exact sane_setTemp hw (by rintro _ ⟨⟩; exact hf n (hw.temps t n hn))

/-- A file other than the configuration is put in place. -/
theorem sane_put {p : HostPath} (hp : p ≠ .config) (hw : SaneFiles w) (n : Node) :
    SaneFiles (w.put p n) :=
  ⟨fun m hm => hw.config m (by simpa [World.put, hp.symm] using hm), hw.temps⟩

theorem sane_replace {t : ℕ} {p : HostPath} (hp : p ≠ .config) (hw : SaneFiles w) :
    SaneFiles ((Op.replace t p).perform w).2 := by
  simp only [Op.perform]
  split
  · exact hw
  · split
    · exact hw
    · exact sane_put hp (sane_setTemp (m := none) hw (by rintro _ ⟨⟩)) _

theorem sane_exchange {t : ℕ} (hw : SaneFiles w) :
    SaneFiles ((Op.exchange t .config).perform w).2 := by
  simp only [Op.perform]
  split
  · rename_i n m hn hm
    refine ⟨fun x hx => ?_, (sane_setTemp hw (m := some m) ?_).temps⟩
    · obtain rfl : n = x := by simpa [World.put] using hx
      exact hw.temps t n hn
    · rintro _ ⟨⟩
      exact hw.config m hm
  · exact hw

/-- The helper keeps files sane. -/
theorem sane_perform {o : Op} (ho : Calls o) (hw : SaneFiles w) : SaneFiles (o.perform w).2 := by
  cases o with
  | write t data => exact sane_modifyTemp (fun n h => h) hw
  | fchown t uid gid => exact sane_modifyTemp (fun n h => h) hw
  | fchmod t mode => exact sane_modifyTemp (fun n h => sane_mode h mode) hw
  | setxattr t name value =>
    simp only [Op.perform]
    split
    · exact sane_modifyTemp (fun n h => sane_setxattr h name value) hw
    · exact hw
  | mkstemp dir =>
    refine ⟨hw.config, (sane_setTemp (t := w.nextTemp) hw (m := some (.empty 0o600)) ?_).temps⟩
    rintro _ ⟨⟩
    exact ⟨by decide, List.nodup_nil⟩
  | replace t p =>
    refine sane_replace ?_ hw
    rintro rfl
    simp [Calls, Aside, Scratch] at ho
  | exchange t p =>
    cases p <;> simp only [Calls, Aside, Scratch, Bool.or_self, Bool.false_eq_true] at ho
    exact sane_exchange hw
  | unlink l =>
    cases l with
    | file p => simp [Calls, Aside, Scratch] at ho
    | temp t =>
      simp only [Op.perform]
      split
      · exact hw
      · split
        · exact hw
        · exact sane_setTemp (m := none) hw (by rintro _ ⟨⟩)
  | mkdirs p mode =>
    obtain rfl : p = .journalDir := by simpa [Calls, Aside, Scratch] using ho
    simp only [Op.perform]
    split
    · exact ⟨fun n hn => hw.config n (by simpa using hn), hw.temps⟩
    · exact hw
  | openLock =>
    simp only [Op.perform]
    split
    · exact ⟨fun n hn => hw.config n (by simpa using hn), hw.temps⟩
    · exact hw
  | flock wait =>
    simp only [Op.perform]
    split
    · exact ⟨hw.config, hw.temps⟩
    · exact hw
  | chmod p mode => simp [Calls, Aside, Scratch] at ho
  | rename p q => simp [Calls, Aside, Scratch] at ho
  | restart s => simp [Calls, Aside, Scratch] at ho
  | startTimer minutes calendar => simp [Calls, Aside, Scratch] at ho
  | stopTimer => simp [Calls, Aside, Scratch] at ho
  | _ => exact ⟨hw.config, hw.temps⟩

/-! ## The command line -/

section Command
variable {ok : Op → Choice Exn World → World → Prop} {R S : World → Prop} (hI : Keeps ok I)
  (hR : Keeps ok R) (hS : Keeps ok S) (hstart : ∀ v, S v → I v)
include hI hR hS hstart

/-- What a command leads to, it leads to under the policy lock. -/
theorem leads_locked {body : Script Fields} (hbody : ∀ v, S (ground v) →
      Leads ok I body (fun r u => I (ground u) ∧ (r.isOk → R (ground u))) v) (hw : S (ground w)) :
    Leads ok I (locked body) (fun r u => I (ground u) ∧ (r.isOk → R (ground u))) w := by
  refine leads_bind _ (leads_background (uses_perform.mpr (by rfl)) hS hstart hw)
    (fun info v hv => ?_) fun _ _ hv => ⟨hstart _ hv, nofun⟩
  refine leads_ensuring (fun r u => I (ground u) ∧ (r.isOk → R (ground u))) ?_ fun r u hu => ?_
  · refine leads_bind _ (leads_background trivial hS hstart hv) (fun _ v hv => ?_)
      fun _ _ hv => ⟨hstart _ hv, nofun⟩
    refine leads_bind _ (leads_background background_lockNow hS hstart hv) (fun _ v hv => ?_)
      fun _ _ hv => ⟨hstart _ hv, nofun⟩
    refine leads_bind _ (hbody v hv) (fun record u hu => ?_) fun _ _ hu => ⟨hu.1, nofun⟩
    exact (leads_background (background_report record) (hI.and hR) (fun _ hx => hx.1)
      ⟨hu.1, hu.2 rfl⟩).mono fun _ x hx => ⟨hx.1, fun _ => hx.2⟩
  · refine (leads_background (uses_perform.mpr (by rfl)) (hI.and (hR.imp (c := r.isOk)))
      (fun _ hx => hx.1) hu).mono ?_
    rintro (_ | _) x hx
    · exact ⟨hx.1, nofun⟩
    · exact hx

end Command

theorem leads_main {ok : Op → Choice Exn World → World → Prop} {k : Action} {R : World → Prop}
    (hk : Leads ok I (actionScript parents k)
      (fun r u => I (ground u) ∧ (r.isOk → R (ground u))) w) :
    Leads ok I (main parents k) (fun r u => I (ground u) ∧ (r = .ok 0 → R (ground u))) w := by
  refine leads_recover (fun r u => I (ground u) ∧ (r.isOk → R (ground u))) ?_
    (fun n u hu => ⟨hu.1, fun _ => hu.2 rfl⟩) ?_
  · exact leads_bind _ hk (fun _ u hu => ⟨hu.1, fun _ => hu.2 rfl⟩) fun _ u hu => ⟨hu.1, nofun⟩
  · intro e u hu
    split
    · exact ⟨hu.1, nofun⟩
    · exact ⟨hu.1, nofun⟩

/-- A run of the preflight. -/
theorem leads_main_check {ok : Op → Choice Exn World → World → Prop} (hP : Keeps ok P)
    (hI : ∀ v, P v → I v) (hw : P (ground w)) :
    Leads ok I (main parents .check) (fun _ v => P (ground v)) w :=
  leads_background (uses_recover (uses_bind (uses_bind background_check fun _ =>
    uses_bind trivial fun _ => uses_bind trivial fun _ => trivial) fun _ => trivial)
    fun _ => uses_ite trivial trivial) hP hI hw

/-- A run of `apply`. -/
theorem leads_main_apply (hsane : ∀ n, w.files .config = some n → Sane n) :
    Leads Alone (fun v => Alike w v ∨ Sound w v) (main parents .apply)
      (fun _ v => Alike w (ground v) ∨ Sound w (ground v)) w := by
  have hI : Lasting fun v => Alike w v ∨ Sound w v := fun v v' h hv =>
    hv.imp (lasting_alike w v v' h) (lasting_sound w v v' h)
  refine (leads_main (R := fun _ => True) (leads_locked (R := fun _ => True) hI.keeps
    (Lasting.keeps fun _ _ _ h => h) (lasting_alike w).keeps (fun _ => Or.inl) (fun _ hv => ?_)
    (alike_ground.mpr (.refl w)))).mono fun _ _ hv => hv.1
  exact (leads_apply hsane hv).mono fun _ _ hu => ⟨hu, fun _ => trivial⟩

/-- A run of `rollback` over a sound journal. -/
theorem leads_main_rollback (hsound : Sound b w) (hsane : ∀ n, b.files .config = some n → Sane n) :
    Leads Alone (Sound b) (main parents .rollback)
      (fun r v => Sound b (ground v) ∧ (r = .ok 0 → RestoredTo b (ground v))) w := by
  refine leads_main (leads_locked (lasting_sound b).keeps (lasting_restoredTo b).keeps
    (lasting_alike w).keeps (fun _ h => lasting_sound b _ _ h hsound) (fun _ hv => ?_)
    (alike_ground.mpr (.refl w)))
  have halike : ∀ v : World, Alike v (ground v) := fun v => alike_ground.mpr (.refl v)
  exact (leads_rollback hsound hsane hv).mono fun _ u hu =>
    ⟨lasting_sound b _ _ (halike u) hu.1, fun hr => lasting_restoredTo b _ _ (halike u) (hu.2 hr)⟩

/-- A run of `rollback` without a record. -/
theorem leads_main_rollback_none (hnone : w.files .current = none) :
    Leads Alone (Alike w) (main parents .rollback)
      (fun r v => Alike w (ground v) ∧ (r = .ok 0 → False)) w := by
  refine leads_main (R := fun _ => False) (leads_locked (R := fun _ => False) (lasting_alike w).keeps
    (Lasting.keeps fun _ _ _ h => h) (lasting_alike w).keeps (fun _ h => h) (fun _ hv => ?_)
    (alike_ground.mpr (.refl w)))
  exact (leads_rollback_none hnone hv).mono fun _ _ hu => ⟨hu.1, fun h => absurd h hu.2⟩

/-! ## Sessions -/

/-- A run of the helper: what the check of the directories above the journal raises, and
the action. -/
abbrev Run := Except Exn Unit × Action

variable {begun : List (Run × World)}

/-- Nobody disturbs the run; any of its calls may fail, and it may be killed. -/
def Admitted (k : Run) (cs : List (Choice Exn World)) (w : World) : Prop :=
  ∀ s ∈ (main k.1 k.2).steps host cs w, Undisturbed s.choice s.world

/-- Nobody touches the configuration, the journal and the units between two runs. -/
structure Between (w w' : World) : Prop extends Alike w w' where
  temps : w'.temps = w.temps

/-- The states that runs of the helper reach, with the runs so far and the states in which
they began. -/
abbrev Sessions (w₀ : World) (begun : List (Run × World)) (w : World) : Prop :=
  Trail host (fun k : Run => main k.1 k.2) Admitted Between w₀ begun w

theorem sane_of_session (hw : Session host (fun k : Run => main k.1 k.2) Admitted Between w₀ w)
    (h₀ : SaneFiles w₀) : SaneFiles w := by
  refine hw.invariant (fun k cs v hcs hv => ?_) (fun v v' h hv => ?_) h₀
  · have hkeeps : ∀ o c v, Alone o c v → SaneFiles v → SaneFiles (c.interfere v) := fun o c v h hv =>
      ⟨fun n hn => hv.config n (h.config ▸ hn), fun t n hn => hv.temps t n (h.temps ▸ hn)⟩
    have hwp : (main k.1 k.2).wp host Alone (fun _ v => SaneFiles v) (fun _ => SaneFiles) v := by
      refine wp_of_uses (calls_main k.1 k.2) (fun o c v ho hc hv => ?_) hv fun _ _ h => h
      have hv' := hkeeps o c v hc hv
      unfold Host.act
      split
      · exact ⟨sane_perform ho hv', sane_perform ho hv'⟩
      · exact ⟨hv', hv'⟩
      · exact ⟨sane_perform ho hv', sane_perform ho hv'⟩
    exact (wp_run hkeeps (fun _ _ h _ => h) hwp hcs hv).1
  · exact ⟨fun n hn => hv.config n (h.config ▸ hn), fun t n hn => hv.temps t n (h.temps ▸ hn)⟩

/-! ## A migrated machine -/

theorem facts_perform (o : Op) (w : World) : (o.perform w).2.facts = w.facts := by
  have hmodify : ∀ t f, (w.modifyTemp t f).2.facts = w.facts := by
    intro t f
    unfold World.modifyTemp
    split <;> rfl
  cases o with
  | write t data => exact hmodify ..
  | fchown t uid gid => exact hmodify ..
  | fchmod t mode => exact hmodify ..
  | _ =>
    simp only [Op.perform]
    repeat' split
    all_goals first | rfl | exact hmodify ..

theorem documented_perform (o : Op) (hw : Documented w) : Documented (o.perform w).2 :=
  ⟨fun m c h => hw.commit m c (facts_perform o w ▸ h), fun sha h => hw.digest sha (facts_perform o w ▸ h)⟩

/-- Runs without any failure, and what they leave of the facts. -/
theorem calm_steps (k : Run) (n : ℕ) (hw : Documented w) :
    ∀ s ∈ (main k.1 k.2).steps host (List.replicate n .calm) w,
      s.choice = .calm ∧ Documented s.world := by
  refine fun s hs => ⟨List.eq_of_mem_replicate (choice_mem_of_mem_steps host hs), ?_⟩
  refine forall_steps host (fun o c v hc hv => ?_) hw s hs
  obtain rfl := List.eq_of_mem_replicate hc
  exact documented_perform o hv

theorem admitted_calm (k : Run) (n : ℕ) (hw : Documented w) :
    Admitted k (List.replicate n .calm) w := by
  intro s hs
  obtain ⟨hcalm, hdocumented⟩ := calm_steps k n hw s hs
  rw [hcalm]
  exact ⟨rfl, rfl, rfl, rfl, rfl, hdocumented⟩

/-- The machine after a number of calls of a run. -/
def after (k : Run) (n : ℕ) (w : World) : World :=
  ((main k.1 k.2).run host (List.replicate n .calm) w).2

theorem sessions_after (k : Run) (n : ℕ) (hw : Sessions w₀ begun w) (hdoc : Documented w) :
    Sessions w₀ ((k, w) :: begun) (after k n w) :=
  .run k _ hw (admitted_calm k n hdoc)

theorem documented_after (k : Run) (n : ℕ) (hw : Documented w) : Documented (after k n w) := by
  have hwp : (main k.1 k.2).wp host (fun _ c _ => c = .calm) (fun _ v => Documented v)
      (fun _ => Documented) w := by
    refine wp_of_uses (calls_main k.1 k.2) ?_ hw fun _ _ h => h
    rintro o c v - rfl hv
    exact ⟨documented_perform o hv, documented_perform o hv⟩
  refine (wp_run (I := Documented) (fun _ _ _ hc hv => ?_) (fun _ _ h _ => h) hwp (fun s hs => ?_) hw).1
  · subst hc
    exact hv
  · exact List.eq_of_mem_replicate (choice_mem_of_mem_steps host hs)

theorem documented_legacyHost : Documented legacyHost where
  commit := by
    rintro _ _ ⟨⟩ ⟨⟩
    exact ⟨_, rfl⟩
  digest := by
    rintro _ ⟨⟩
    exact ⟨_, rfl⟩

theorem saneFiles_legacyHost : SaneFiles legacyHost where
  config := by
    rintro _ ⟨⟩
    exact ⟨by decide, List.nodup_nil⟩
  temps := nofun

/-- The machine of `legacyHost` after a migration. -/
def migratedHost : World := after (.ok (), .apply) 78 legacyHost

/-- Its one run. -/
def migration : List (Run × World) := [((.ok (), .apply), legacyHost)]

theorem sessions_migratedHost : Sessions legacyHost migration migratedHost :=
  sessions_after _ _ .start documented_legacyHost

/-! ## Undoing -/

/-- There is no record, or the journal holds one of the states in which a run of `apply` began. -/
def Recorded (begun : List (Run × World)) (w : World) : Prop :=
  w.files .current = none ∨ ∃ parents b, ((parents, .apply), b) ∈ begun ∧ Sound b w

/-- What is recorded stays so while nothing of it is touched, also among further runs. -/
theorem Recorded.alike {v : World} {later : List (Run × World)} (h : Recorded begun w)
    (hv : Alike w v) (hlater : begun ⊆ later) : Recorded later v := by
  refine h.imp (fun hnone => hv.current.trans hnone) ?_
  rintro ⟨parents, b, hb, hsound⟩
  exact ⟨parents, b, hlater hb, lasting_sound b _ _ hv hsound⟩

/-- One run, cut short anywhere: `check` touches nothing, `apply` records the state in which it
begins or touches nothing, and `rollback` keeps what is recorded. -/
theorem Recorded.run (h₀ : SaneFiles w₀) (hw : Sessions w₀ begun w) (h : Recorded begun w) {k : Run}
    {cs : List (Choice Exn World)} (hcs : Admitted k cs w) :
    Recorded ((k, w) :: begun) ((main k.1 k.2).run host cs w).2 := by
  obtain ⟨parents, k⟩ := k
  have halike : Alike w (ground w) := alike_ground.mpr (.refl w)
  have hground : ∀ b v, Sound b (ground v) → Sound b v := fun b v =>
    lasting_sound b _ v ⟨rfl, rfl, rfl, rfl⟩
  cases k with
  | check =>
    have hend := leads_run (leads_main_check (lasting_alike w).keeps (fun _ h => h) halike)
      (stable_alike w) hcs halike
    exact h.alike (alike_ground.mp hend.1) (List.subset_cons_self ..)
  | apply =>
    have hlasting : Lasting fun v => Alike w v ∨ Sound w v := fun v v' hv hor =>
      hor.imp (lasting_alike w v v' hv) (lasting_sound w v v' hv)
    have hend := leads_run (leads_main_apply (sane_of_session hw.session h₀).config)
      (stable_alone hlasting) hcs (.inl halike)
    rcases hend.1 with hv | hsound
    · exact h.alike (alike_ground.mp hv) (List.subset_cons_self ..)
    · exact .inr ⟨parents, w, List.mem_cons_self .., hground w _ hsound⟩
  | rollback =>
    rcases h with hnone | ⟨parents', b, hb, hsound⟩
    · have hend := leads_run (leads_main_rollback_none hnone) (stable_alike w) hcs halike
      exact .inl (hend.1.current.trans hnone)
    · have hsane := (sane_of_session (hw.session_of_mem hb) h₀).config
      have hend := leads_run (leads_main_rollback hsound hsane) (stable_alone (lasting_sound b)) hcs
        (lasting_sound b _ _ halike hsound)
      exact .inr ⟨parents', b, List.mem_cons_of_mem _ hb, hground b _ hend.1⟩

theorem recorded_of_sessions (h₀ : SaneFiles w₀) (hnone : w₀.files .current = none)
    (hw : Sessions w₀ begun w) : Recorded begun w := by
  induction hw with
  | start => exact .inl hnone
  | run k cs before admitted ih => exact ih.run h₀ before admitted
  | move before moved ih => exact ih.alike moved.toAlike (List.Subset.refl _)

/-- **The journal of every state that a session reaches** holds a state in which a run of
`apply` of the session began, and if it says that the migration is undone, it is. -/
theorem sound_of_sessions (h₀ : SaneFiles w₀) (hnone : w₀.files .current = none)
    (hw : Sessions w₀ begun w) : w.files .current = none ∨
      ∃ parents b, ((parents, .apply), b) ∈ begun ∧ Sound b w :=
  recorded_of_sessions h₀ hnone hw

theorem sound_of_sessions_migratedHost : migratedHost.files .current = none ∨
    ∃ parents b, ((parents, .apply), b) ∈ migration ∧ Sound b migratedHost :=
  sound_of_sessions saneFiles_legacyHost rfl sessions_migratedHost

/-- **A rollback with exit status 0** leaves the configuration and the units as in a state in
which a run of `apply` began, namely the one that the journal holds. -/
theorem rollback_restores (h₀ : SaneFiles w₀) (hnone : w₀.files .current = none)
    (hw : Sessions w₀ begun w) {cs : List (Choice Exn World)} (hcs : Admitted (parents, .rollback) cs w)
    (hr : ((main parents .rollback).run host cs w).1 = some (.ok 0)) :
    ∃ parents' b, ((parents', .apply), b) ∈ begun ∧ Sound b w ∧
      RestoredTo b ((main parents .rollback).run host cs w).2 := by
  rcases recorded_of_sessions h₀ hnone hw with hnone' | ⟨parents', b, hb, hsound⟩
  · have hrun := leads_run (leads_main_rollback_none hnone') (stable_alike w) hcs
      (alike_ground.mpr (.refl w))
    exact ((hrun.2 _ hr).2 rfl).elim
  · have hsane := (sane_of_session (hw.session_of_mem hb) h₀).config
    have hrun := leads_run (leads_main_rollback hsound hsane) (stable_alone (lasting_sound b)) hcs
      (lasting_sound b _ _ (alike_ground.mpr (.refl w)) hsound)
    exact ⟨parents', b, hb, hsound, lasting_restoredTo b (ground _) _ ⟨rfl, rfl, rfl, rfl⟩
      ((hrun.2 _ hr).2 rfl)⟩

theorem main_rollback_migratedHost :
    ((main (.ok ()) .rollback).run host (List.replicate 66 .calm) migratedHost).1 = some (.ok 0) := by
  decide +kernel

theorem rollback_restores_migratedHost : ∃ parents b, ((parents, .apply), b) ∈ migration ∧
    Sound b migratedHost ∧ RestoredTo b (after (.ok (), .rollback) 66 migratedHost) :=
  rollback_restores saneFiles_legacyHost rfl sessions_migratedHost
    (admitted_calm (.ok (), .rollback) 66 (documented_after _ _ documented_legacyHost))
    main_rollback_migratedHost

end Migrate
