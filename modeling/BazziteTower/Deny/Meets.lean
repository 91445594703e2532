import BazziteTower.Deny.Reads
import BazziteTower.Deny.Record

/-!
# Weakest preconditions over the core

`Meets` is the weakest precondition of a script whose guarantee and whose
assertions speak of the core only.  Silent scripts keep every assertion that the
environment keeps, and an atomic publication either puts the file in place or
leaves the core alone.

## Main results

* `meets_bind`, `meets_recover`, `meets_ensuring` — composition.
* `meets_reads` — silent scripts.
* `meets_publish` — atomic publication, with every failure and the cleanup.
-/

open Prog hiding perform

namespace Deny

variable {ok : Op → Choice Exn World → World → Prop} {G : Core → Core → Prop} {α β : Type}

/-- The weakest precondition of a script, in terms of the core. -/
def Meets (ok : Op → Choice Exn World → World → Prop) (G : Core → Core → Prop) (p : Script α)
    (Q : Except Exn α → Core → Prop) (w : World) : Prop :=
  p.wp host ok (fun v v' => G (core v) (core v')) (fun r v => Q r (core v)) w

/-- The environment keeps an assertion about the core. -/
def Keeps (ok : Op → Choice Exn World → World → Prop) (I : Core → Prop) : Prop :=
  ∀ o c w, ok o c w → I (core w) → I (core (c.interfere w))

/-- The calls that follow the replacement in a publication. -/
def Finishing : Op → Bool
  | .syncDirectory _ | .lexists (.temp _) | .unlink (.temp _) => true
  | _ => false

/-- The environment keeps an assertion about the core at the end of a publication. -/
def KeepsLast (ok : Op → Choice Exn World → World → Prop) (I : Core → Prop) : Prop :=
  ∀ o c w, Finishing o → ok o c w → I (core w) → I (core (c.interfere w))

theorem Keeps.last {I : Core → Prop} (h : Keeps ok I) : KeepsLast ok I := fun o c w _ => h o c w

/-- The environment does not touch the temporary files of the script. -/
def PrivateTemps (ok : Op → Choice Exn World → World → Prop) : Prop :=
  ∀ o c w, ok o c w → (c.interfere w).temps = w.temps

/-! ## Composition -/

theorem Meets.mono {p : Script α} {Q Q' : Except Exn α → Core → Prop} {w : World}
    (hp : Meets ok G p Q w) (hQ : ∀ r c, Q r c → Q' r c) : Meets ok G p Q' w :=
  wp_mono hp fun r v => hQ r (core v)

@[simp] theorem meets_done {r : Except Exn α} {Q : Except Exn α → Core → Prop} {w : World} :
    Meets ok G (.done r) Q w ↔ Q r (core w) := Iff.rfl

@[simp] theorem meets_pure {a : α} {Q : Except Exn α → Core → Prop} {w : World} :
    Meets ok G (pure a) Q w ↔ Q (.ok a) (core w) := Iff.rfl

@[simp] theorem meets_throw {e : Exn} {Q : Except Exn α → Core → Prop} {w : World} :
    Meets ok G (throw e) Q w ↔ Q (.error e) (core w) := Iff.rfl

@[simp] theorem meets_lift {r : Except Exn α} {Q : Except Exn α → Core → Prop} {w : World} :
    Meets ok G (lift r) Q w ↔ Q r (core w) := Iff.rfl

theorem meets_handle {p : Script α} {f : Except Exn α → Script β} {Q : Except Exn β → Core → Prop}
    {w : World} (P : Except Exn α → Core → Prop) (hp : Meets ok G p P w)
    (hf : ∀ r v, P r (core v) → Meets ok G (f r) Q v) : Meets ok G (p.handle f) Q w :=
  wp_handle.mpr (wp_mono hp fun r v => hf r v)

theorem meets_bind {p : Script α} {f : α → Script β} {Q : Except Exn β → Core → Prop} {w : World}
    (P : Except Exn α → Core → Prop) (hp : Meets ok G p P w)
    (hok : ∀ a v, P (.ok a) (core v) → Meets ok G (f a) Q v)
    (herr : ∀ e c, P (.error e) c → Q (.error e) c) : Meets ok G (p >>= f) Q w :=
  wp_bind hp hok fun e v => herr e (core v)

theorem meets_recover {p : Script α} {f : Exn → Script α} {Q : Except Exn α → Core → Prop}
    {w : World} (P : Except Exn α → Core → Prop) (hp : Meets ok G p P w)
    (hok : ∀ a c, P (.ok a) c → Q (.ok a) c)
    (herr : ∀ e v, P (.error e) (core v) → Meets ok G (f e) Q v) :
    Meets ok G (tryCatch p f) Q w :=
  wp_recover hp (fun a v => hok a (core v)) herr

theorem meets_ensuring {p : Script α} {f : Script Unit} {Q : Except Exn α → Core → Prop}
    {w : World} (P : Except Exn α → Core → Prop) (hp : Meets ok G p P w)
    (hf : ∀ r v, P r (core v) →
      Meets ok G f (fun r' c => Q (match r' with | .ok _ => r | .error e => .error e) c) v) :
    Meets ok G (p.ensuring f) Q w :=
  wp_ensuring hp hf (fun _ _ h => h) fun _ _ _ h => h

/-- A single call: struck before it, after it, or not at all. -/
theorem wp_perform {o : Op} {Q : Except Exn o.Res → World → Prop} {w : World}
    (hG : ∀ c, G c c)
    (H : ∀ c, ok o c w → let v := c.interfere w
      (∀ e, Q (.error e) v) ∧ G (core v) (core (o.perform v).2) ∧
      (∀ e, Q (.error e) (o.perform v).2) ∧ Q (o.perform v).1 (o.perform v).2) :
    (perform o).wp host ok (fun v v' => G (core v) (core v')) Q w :=
  wp_call (k := .done) (fun v => hG (core v)) fun c hc =>
    let ⟨hbefore, hstep, hafter, hnone⟩ := H c hc
    ⟨fun e => hbefore e, hstep, fun e => hafter e, hnone⟩

theorem meets_perform {o : Op} {Q : Except Exn o.Res → Core → Prop} {w : World}
    (hG : ∀ c, G c c)
    (H : ∀ c, ok o c w → let v := c.interfere w
      (∀ e, Q (.error e) (core v)) ∧ G (core v) (core (o.perform v).2) ∧
      (∀ e, Q (.error e) (core (o.perform v).2)) ∧ Q (o.perform v).1 (core (o.perform v).2)) :
    Meets ok G (perform o) Q w :=
  wp_perform hG H

/-! ## Silent scripts -/

theorem silent_of_finishing {o : Op} (ho : Finishing o) : Silent o := by
  cases o with
  | unlink l => cases l <;> simp_all [Finishing, Silent]
  | _ => simp_all [Finishing, Silent]

theorem finishing_removeTemporary (t : ℕ) : (removeTemporary t).uses fun o => Finishing o :=
  uses_bind (uses_perform.mpr (by rfl)) fun _ => uses_ite (uses_perform.mpr (by rfl)) trivial

/-- **A silent script keeps what the environment keeps.** -/
theorem meets_reads {p : Script α} {I : Core → Prop} {w : World} (hp : Reads p)
    (hG : ∀ c, G c c) (hI : Keeps ok I) (hw : I (core w)) : Meets ok G p (fun _ => I) w := by
  refine wp_of_uses (P := fun v => I (core v)) hp ?_ hw fun _ _ h => h
  intro o c v ho hc hv
  rw [core_act ho]
  exact ⟨hG _, hI o c v hc hv⟩

/-- The last calls of a publication keep what the environment keeps there. -/
theorem meets_finishing {p : Script α} {I : Core → Prop} {w : World}
    (hp : p.uses fun o => Finishing o) (hG : ∀ c, G c c) (hI : KeepsLast ok I)
    (hw : I (core w)) : Meets ok G p (fun _ => I) w := by
  refine wp_of_uses (P := fun v => I (core v)) hp ?_ hw fun _ _ h => h
  intro o c v ho hc hv
  rw [core_act (silent_of_finishing ho)]
  exact ⟨hG _, hI o c v ho hc hv⟩

/-- A silent call returns what the state holds, unless it is struck. -/
theorem meets_read {o : Op} {I : Core → Prop} {Q : Except Exn o.Res → Core → Prop} {w : World}
    (ho : Silent o) (hG : ∀ c, G c c) (hI : Keeps ok I) (hw : I (core w))
    (herr : ∀ e c, I c → Q (.error e) c)
    (hok : ∀ v, I (core v) → Q (o.perform v).1 (core v)) : Meets ok G (perform o) Q w := by
  refine meets_perform hG fun c hc => ?_
  have hv := hI o c w hc hw
  simp only [core_perform ho]
  exact ⟨fun e => herr e _ hv, hG _, fun e => herr e _ hv, hok _ hv⟩

/-! ## Publication -/

/-- What a temporary file holds when it is put in place. -/
structure Published (data : Bytes) (mode : ℤ) (metadata : Json) (n : Node) : Prop where
  data_eq : n.data = some data
  kind : n.kind = .regular
  fresh : metadata.truthy = false → n.uid = 0 ∧ n.mode = .ofNat (mode % 4096).toNat

/-- The calls between the writing of a temporary file and its replacement. -/
def Dresses : Op → Bool
  | .fchown _ _ _ | .fchmod _ _ | .setxattr _ _ _ | .fsync _ | .read _ => true
  | _ => false

theorem silent_of_dresses {o : Op} (ho : Dresses o) : Silent o := by
  cases o <;> simp_all [Dresses, Silent]

/-- Dressing a temporary file keeps its kind and its bytes. -/
theorem temps_dresses {o : Op} (ho : Dresses o) {w : World} {t : ℕ} {n : Node}
    (hn : w.temps t = some n) :
    ∃ n', (o.perform w).2.temps t = some n' ∧ n'.kind = n.kind ∧ n'.data = n.data := by
  have hmodify : ∀ (t' : ℕ) (f : Node → Node), (∀ m, (f m).kind = m.kind ∧ (f m).data = m.data) →
      ∃ n', (w.modifyTemp t' f).2.temps t = some n' ∧ n'.kind = n.kind ∧ n'.data = n.data := by
    intro t' f hf
    unfold World.modifyTemp
    split
    · exact ⟨n, hn, rfl, rfl⟩
    · rename_i m hm
      by_cases htt : t = t'
      · subst htt
        obtain rfl : m = n := Option.some.inj (hm.symm.trans hn)
        exact ⟨f m, by simp [World.setTemp], hf m⟩
      · exact ⟨n, by simp [World.setTemp, htt, hn], rfl, rfl⟩
  cases o with
  | fchown t' uid gid => exact hmodify t' _ fun m => ⟨rfl, rfl⟩
  | fchmod t' mode => exact hmodify t' _ fun m => ⟨rfl, rfl⟩
  | setxattr t' name value =>
    simp only [Op.perform]
    split
    · exact hmodify t' _ fun m => ⟨rfl, rfl⟩
    · exact ⟨n, hn, rfl, rfl⟩
  | fsync t' => exact ⟨n, hn, rfl, rfl⟩
  | read l => exact ⟨n, hn, rfl, rfl⟩
  | _ => simp [Dresses] at ho

/-- Dressing a temporary file, whatever strikes it, keeps its kind and its bytes. -/
theorem wp_dresses {p : Script α} {I : Core → Prop} {w : World} {t : ℕ} {data : Bytes}
    (hp : p.uses fun o => Dresses o) (hG : ∀ c, G c c) (hI : Keeps ok I) (htemps : PrivateTemps ok)
    (hw : I (core w) ∧ ∃ n, w.temps t = some n ∧ n.kind = .regular ∧ n.data = some data) :
    p.wp host ok (fun v v' => G (core v) (core v'))
      (fun _ v => I (core v) ∧ ∃ n, v.temps t = some n ∧ n.kind = .regular ∧ n.data = some data) w := by
  refine wp_of_uses hp ?_ hw fun _ _ h => h
  rintro o c v ho hc ⟨hv, n, hn, hkind, hdata⟩
  have hn' : (c.interfere v).temps t = some n := by rw [htemps o c v hc, hn]
  obtain ⟨n', hn'', hkind', hdata'⟩ := temps_dresses ho hn'
  rw [core_act (silent_of_dresses ho)]
  refine ⟨hG _, hI o c v hc hv, ?_⟩
  unfold Host.act
  split
  · exact ⟨n', hn'', hkind'.trans hkind, hdata'.trans hdata⟩
  · exact ⟨n, hn', hkind, hdata⟩
  · exact ⟨n', hn'', hkind'.trans hkind, hdata'.trans hdata⟩

theorem dresses_applyMetadata (t : ℕ) (metadata : Json) :
    (applyMetadata t metadata).uses fun o => Dresses o := by
  refine uses_bind trivial fun uid => uses_bind trivial fun gid => uses_bind trivial fun _ => ?_
  refine uses_bind trivial fun _ => uses_bind (uses_perform.mpr (by rfl)) fun _ => ?_
  refine uses_bind trivial fun mode => uses_bind trivial fun _ => ?_
  refine uses_bind (uses_perform.mpr (by rfl)) fun _ => uses_bind trivial fun xattrs => ?_
  refine uses_bind trivial fun items => uses_forM fun x _ => uses_bind trivial fun _ => ?_
  exact uses_perform.mpr (by rfl)

section Publish
variable {D : Node → Prop} {I J : Core → Prop} {p : HostPath} {data : Bytes} {mode : ℤ}
  {metadata : Json} {t : ℕ} {w : World}

/-- The temporary file is there and satisfies `D`. -/
def Holds (t : ℕ) (D : Node → Prop) (w : World) : Prop := ∃ n, w.temps t = some n ∧ D n

/-- The temporary file is ready to be put in place. -/
def Ready (t : ℕ) (data : Bytes) (mode : ℤ) (metadata : Json) (w : World) : Prop :=
  ∃ n, w.temps t = some n ∧ Published data mode metadata n

/-- A call that changes nothing at all. -/
theorem wp_inert {o : Op} (ho : ∀ w, (o.perform w).2 = w) (hG : ∀ c, G c c) (hI : Keeps ok I)
    (htemps : PrivateTemps ok) (hw : I (core w) ∧ Holds t D w) :
    (perform o).wp host ok (fun v v' => G (core v) (core v'))
      (fun _ v => I (core v) ∧ Holds t D v) w := by
  refine wp_perform hG fun c hc => ?_
  have hv : I (core (c.interfere w)) ∧ Holds t D (c.interfere w) := by
    obtain ⟨hI', n, hn, hp⟩ := hw
    exact ⟨hI o c w hc hI', n, by rw [htemps o c w hc, hn], hp⟩
  simp only [ho]
  exact ⟨fun _ => hv, hG _, fun _ => hv, hv⟩

/-- Writing a fresh temporary file. -/
theorem wp_write (hG : ∀ c, G c c) (hI : Keeps ok I) (htemps : PrivateTemps ok)
    (hw : I (core w) ∧ w.temps t = some (.empty 0o600)) :
    (perform (.write t data)).wp host ok (fun v v' => G (core v) (core v'))
      (fun r v => I (core v) ∧ (r.isOk → v.temps t =
        some { Node.empty 0o600 with data := some data })) w := by
  refine wp_perform hG fun c hc => ?_
  have hv := hI _ c w hc hw.1
  have ht : (c.interfere w).temps t = some (.empty 0o600) := by rw [htemps _ c w hc, hw.2]
  simp only [core_perform (o := .write t data) rfl]
  refine ⟨fun _ => ⟨hv, nofun⟩, hG _, fun _ => ⟨hv, nofun⟩, hv, fun _ => ?_⟩
  simp [Op.perform, World.modifyTemp, ht, World.setTemp]

/-- Writing and dressing make a temporary file ready. -/
theorem wp_prepare (hG : ∀ c, G c c) (hI : Keeps ok I) (htemps : PrivateTemps ok)
    (hw : I (core w) ∧ w.temps t = some (.empty 0o600)) :
    (prepare t data mode metadata).wp host ok (fun v v' => G (core v) (core v'))
      (fun r v => I (core v) ∧ (r.isOk → Ready t data mode metadata v)) w := by
  refine wp_bind (wp_write hG hI htemps hw) ?_ fun e v h => ⟨h.1, nofun⟩
  rintro _ v ⟨hv, ht⟩
  have ht := ht rfl
  split
  · rename_i htruthy
    refine wp_mono (wp_dresses (dresses_applyMetadata t metadata) hG hI htemps
      ⟨hv, _, ht, rfl, rfl⟩) ?_
    rintro r u ⟨hu, n, hn, hkind, hdata⟩
    exact ⟨hu, fun _ => ⟨n, hn, hdata, hkind, fun hfalse => by simp [htruthy] at hfalse⟩⟩
  · refine wp_perform hG fun c hc => ?_
    have hv' := hI _ c v hc hv
    have ht' := (congrFun (htemps _ c v hc) t).trans ht
    simp only [core_perform (o := .fchmod t mode) rfl]
    refine ⟨fun _ => ⟨hv', nofun⟩, hG _, fun _ => ⟨hv', nofun⟩, hv', fun _ => ?_⟩
    exact ⟨_, by simp [Op.perform, World.modifyTemp, ht', World.setTemp]; rfl, rfl, rfl,
      fun _ => ⟨rfl, rfl⟩⟩

theorem wp_checkExpected (hG : ∀ c, G c c) (hI : Keeps ok I) (htemps : PrivateTemps ok)
    (expected : Option Bytes) (hw : I (core w) ∧ Holds t D w) :
    (checkExpected p expected).wp host ok (fun v v' => G (core v) (core v'))
      (fun _ v => I (core v) ∧ Holds t D v) w := by
  cases expected with
  | none => exact hw
  | some bytes =>
    exact wp_bind (wp_inert (fun _ => rfl) hG hI htemps hw) (fun _ _ h => h) fun _ _ h => h

/-- Replacing and syncing put a ready file in place, or leave the core alone. -/
theorem wp_replace (hG : ∀ c, G c c) (hI : Keeps ok I) (hJ : KeepsLast ok J)
    (htemps : PrivateTemps ok) (hput : ∀ c n, I c → D n → G c (c.put p n) ∧ J (c.put p n))
    (hw : I (core w) ∧ Holds t D w) :
    (do perform (.replace t p)
        perform (.syncDirectory p.parent) : Script Unit).wp host ok
      (fun v v' => G (core v) (core v'))
      (fun r v => (r.isOk → J (core v)) ∧ (I (core v) ∨ J (core v))) w := by
  refine wp_bind (P := fun r v => (r.isOk → J (core v)) ∧ (I (core v) ∨ J (core v))) ?_ ?_
    fun e v h => h
  · refine wp_perform hG fun c hc => ?_
    have hv := hI _ c w hc hw.1
    obtain ⟨-, n, hn, hpub⟩ := hw
    have hn' : (c.interfere w).temps t = some n := by rw [htemps _ c w hc, hn]
    obtain ⟨hstep, hafter⟩ := hput _ n hv hpub
    simp only [Op.perform, hn']
    split
    · exact ⟨fun _ => ⟨by rintro ⟨⟩, .inl hv⟩, hG _, fun _ => ⟨by rintro ⟨⟩, .inl hv⟩, by rintro ⟨⟩, .inl hv⟩
    · simp only [core_put, core_setTemp]
      exact ⟨fun _ => ⟨by rintro ⟨⟩, .inl hv⟩, hstep, fun _ => ⟨by rintro ⟨⟩, .inr hafter⟩, fun _ => hafter,
        .inr hafter⟩
  · rintro _ v ⟨hv, -⟩
    have hv := hv rfl
    refine wp_mono (meets_finishing (uses_perform.mpr (by rfl)) hG hJ hv) ?_
    exact fun r u hu => ⟨fun _ => hu, .inr hu⟩

end Publish

/-- Atomic publication of whatever the preparation makes of a temporary file. -/
theorem meets_publish_of_prepare {D : Node → Prop} {I J : Core → Prop} {p : HostPath} {data : Bytes}
    {mode : ℤ} {metadata : Json} {expected : Option Bytes} {w : World}
    (hparent : tracked p.parent = false) (hG : ∀ c, G c c) (hI : Keeps ok I) (hJ : KeepsLast ok J)
    (htemps : PrivateTemps ok)
    (hprepare : ∀ t u, I (core u) ∧ u.temps t = some (.empty 0o600) →
      (prepare t data mode metadata).wp host ok (fun v v' => G (core v) (core v'))
        (fun r v => I (core v) ∧ (r.isOk → Holds t D v)) u)
    (hput : ∀ c n, I c → D n → G c (c.put p n) ∧ J (c.put p n)) (hw : I (core w)) :
    Meets ok G (publish p data mode metadata expected)
      (fun r c => (r.isOk → J c) ∧ (I c ∨ J c)) w := by
  have hmkdirs : Silent (.mkdirs p.parent 0o755) := by simp [Silent, hparent]
  refine meets_bind (fun _ => I) (meets_reads (reads_perform hmkdirs) hG hI hw) (fun _ v hv => ?_)
    fun _ c h => ⟨by rintro ⟨⟩, .inl h⟩
  refine wp_bind (P := fun r u => I (core u) ∧ ∀ t, r = .ok t → u.temps t = some (.empty 0o600))
    ?_ ?_ fun e u h => ⟨by rintro ⟨⟩, .inl h.1⟩
  · refine wp_perform hG fun c hc => ?_
    have hu := hI _ c v hc hv
    simp only [core_perform (o := .mkstemp p.parent) rfl]
    refine ⟨fun _ => ⟨hu, by rintro _ ⟨⟩⟩, hG _, fun _ => ⟨hu, by rintro _ ⟨⟩⟩, hu, fun t ht => ?_⟩
    cases ht
    simp [Op.perform, World.setTemp]
  · rintro t u ⟨hu, ht⟩
    have ht := ht t rfl
    refine meets_ensuring (Q := fun r c => (r.isOk → J c) ∧ (I c ∨ J c))
      (fun r c => (r.isOk → J c) ∧ (I c ∨ J c)) ?_ ?_
    · refine wp_bind (hprepare t u ⟨hu, ht⟩) (fun _ x hx => ?_) fun e x hx =>
        ⟨by rintro ⟨⟩, .inl hx.1⟩
      have hfsync : ∀ w, ((Op.fsync t).perform w).2 = w := fun _ => rfl
      refine wp_bind (wp_inert hfsync hG hI htemps ⟨hx.1, hx.2 rfl⟩) (fun _ y hy => ?_)
        fun e y hy => ⟨by rintro ⟨⟩, .inl hy.1⟩
      refine wp_bind (wp_checkExpected hG hI htemps expected hy) (fun _ z hz => ?_)
        fun e z hz => ⟨by rintro ⟨⟩, .inl hz.1⟩
      exact wp_replace hG hI hJ htemps hput hz
    · rintro r x ⟨hx, hx'⟩
      rcases hx' with hx' | hx'
      · refine (meets_finishing (I := fun c => I c ∧ (r.isOk → J c)) (finishing_removeTemporary t)
          hG ?_ ⟨hx', hx⟩).mono ?_
        · exact fun o c w ho hc h => ⟨hI o c w hc h.1, fun hr => hJ o c w ho hc (h.2 hr)⟩
        · rintro (_ | _) c ⟨hc, hc'⟩
          · exact ⟨by rintro ⟨⟩, .inl hc⟩
          · exact ⟨hc', .inl hc⟩
      · refine (meets_finishing (finishing_removeTemporary t) hG hJ hx').mono ?_
        rintro (_ | _) c hc
        · exact ⟨by rintro ⟨⟩, .inr hc⟩
        · exact ⟨fun _ => hc, .inr hc⟩

/-- **Atomic publication.**  It puts the file in place or leaves the core alone, and
if it returns, the file is in place. -/
theorem meets_publish {I J : Core → Prop} {p : HostPath} {data : Bytes} {mode : ℤ} {metadata : Json}
    {expected : Option Bytes} {w : World} (hparent : tracked p.parent = false)
    (hG : ∀ c, G c c) (hI : Keeps ok I) (hJ : KeepsLast ok J) (htemps : PrivateTemps ok)
    (hput : ∀ c n, I c → Published data mode metadata n → G c (c.put p n) ∧ J (c.put p n))
    (hw : I (core w)) :
    Meets ok G (publish p data mode metadata expected)
      (fun r c => (r.isOk → J c) ∧ (I c ∨ J c)) w :=
  meets_publish_of_prepare hparent hG hI hJ htemps (fun _ _ hu => wp_prepare hG hI htemps hu) hput hw

end Deny
