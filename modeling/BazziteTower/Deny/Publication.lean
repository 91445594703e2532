import BazziteTower.Deny.Exact
import BazziteTower.Lib.JsonRoundTrip

/-!
# Publications with recorded metadata

A publication with recorded metadata gives the file exactly the owner, the mode and
the attributes of the record, whatever strikes it on the way, and it goes through
where nothing is in its way.

## Main definitions

* `Records` — what a metadata value records.
* `Dressed` — a file with recorded bytes, owner, mode and attributes.
* `opened` — the state once a temporary file was used.

## Main results

* `meets_publish_records` — under failures.
* `exec_publish` — without one.
-/

open Prog hiding perform

namespace Deny

/-! ## Recorded metadata -/

/-- A member of a dictionary of attributes. -/
def member (x : Text × Bytes) : Text × Json := (x.1, encoded x.2)

/-- The value records this status and these attributes, in any order. -/
structure Records (metadata : Json) (info : Stat) (xattrs : List (Text × Bytes)) : Prop where
  truthy : metadata.truthy
  uid : metadata.subscript "uid" = .ok (.int info.uid.toNat)
  gid : metadata.subscript "gid" = .ok (.int info.gid.toNat)
  mode : metadata.subscript "mode" = .ok (.int info.mode.toNat)
  xattrs : ∃ ys : List (Text × Bytes), ys.Perm xattrs ∧
    metadata.subscript "xattrs" = .ok (.obj (ys.map member))

/-- The dictionary of the attributes of a file. -/
theorem attributes_eq {xattrs : List (Text × Bytes)} (h : (xattrs.map Prod.fst).Nodup) :
    attributes xattrs = xattrs.map member := by
  suffices hfold : ∀ ms : Fields, ((ms.map Prod.fst) ++ xattrs.map Prod.fst).Nodup →
      xattrs.foldl (fun ms x => Json.insert x.1 (encoded x.2) ms) ms = ms ++ xattrs.map member from
    hfold [] (by simpa using h)
  clear h
  induction xattrs with
  | nil => simp
  | cons x xs ih =>
    intro ms h
    have hfresh : x.1 ∉ ms.map Prod.fst := fun hmem =>
      (List.nodup_append.mp h).2.2 _ hmem _ (List.mem_cons_self ..) rfl
    rw [List.foldl_cons, Json.insert_of_not_mem hfresh, ih _ (by simpa using h)]
    simp [member]

theorem records_metadataOf {info : Stat} {xattrs : List (Text × Bytes)}
    (h : (xattrs.map Prod.fst).Nodup) : Records (metadataOf info xattrs) info xattrs where
  truthy := rfl
  uid := rfl
  gid := rfl
  mode := rfl
  xattrs := ⟨xattrs, .refl _, by rw [← attributes_eq h]; rfl⟩

theorem insertSorted_member (y : Text × Bytes) (ys : List (Text × Bytes)) :
    ∃ zs : List (Text × Bytes), zs.Perm (y :: ys) ∧
      Json.insertSorted (member y) (ys.map member) = zs.map member := by
  induction ys with
  | nil => exact ⟨[y], .refl _, rfl⟩
  | cons x xs ih =>
    obtain ⟨zs, hperm, hzs⟩ := ih
    rw [List.map_cons, Json.insertSorted]
    split
    · exact ⟨y :: x :: xs, .refl _, rfl⟩
    · exact ⟨x :: zs, (hperm.cons x).trans (.swap ..), by rw [hzs]; rfl⟩

/-- Sorting a dictionary of attributes reorders it. -/
theorem sortMembers_member (ys : List (Text × Bytes)) :
    ∃ zs : List (Text × Bytes), zs.Perm ys ∧ Json.sortMembers (ys.map member) = zs.map member := by
  induction ys with
  | nil => exact ⟨[], .refl _, rfl⟩
  | cons y ys ih =>
    obtain ⟨zs, hperm, hzs⟩ := ih
    obtain ⟨us, hperm', hus⟩ := insertSorted_member y zs
    refine ⟨us, hperm'.trans (hperm.cons y), ?_⟩
    rw [← hus, ← hzs]
    rfl

theorem subscript_sortMembers {ms : Fields} (h : (ms.map Prod.fst).Nodup) {key : String} {v : Json}
    (hv : (Json.obj ms).subscript key = .ok v) :
    (Json.obj (Json.sortMembers ms)).subscript key = .ok v.sortKeys := by
  simp only [Json.subscript] at hv ⊢
  rw [Json.find_sortMembers h]
  split at hv
  · rename_i u hu
    rw [hu, ← Except.ok.inj hv]
    rfl
  · cases hv

/-- A state on disk records the same metadata, with its keys sorted. -/
theorem Records.sorted {ms : Fields} {info : Stat} {xattrs : List (Text × Bytes)}
    (hkeys : (ms.map Prod.fst).Nodup) (h : Records (.obj ms) info xattrs) :
    Records (Json.obj (Json.sortMembers ms)) info xattrs where
  truthy := by
    have hlength := (Json.keys_sortMembers ms).length_eq
    have hne := h.truthy
    simp only [Json.truthy, List.length_map, Bool.not_eq_true', List.isEmpty_eq_false_iff] at *
    rw [← List.length_pos_iff] at hne ⊢
    omega
  uid := subscript_sortMembers hkeys h.uid
  gid := subscript_sortMembers hkeys h.gid
  mode := subscript_sortMembers hkeys h.mode
  xattrs := by
    obtain ⟨ys, hperm, hys⟩ := h.xattrs
    obtain ⟨zs, hperm', hzs⟩ := sortMembers_member ys
    refine ⟨zs, hperm'.trans hperm, ?_⟩
    rw [subscript_sortMembers hkeys hys, Json.sortKeys, hzs]

/-! ## Dressing -/

/-- A file with these bytes, and the recorded owner, mode and attributes. -/
structure Dressed (data : Bytes) (info : Stat) (xattrs : List (Text × Bytes)) (n : Node) : Prop where
  data_eq : n.data = some data
  kind : n.kind = .regular
  uid : n.uid = info.uid
  gid : n.gid = info.gid
  mode : n.mode = info.mode
  xattrs : n.xattrs.Perm xattrs

/-- The calls that recorded metadata stands for. -/
def dress (t : ℕ) (info : Stat) (ys : List (Text × Bytes)) : Script Unit := do
  perform (.fchown t info.uid.toNat info.gid.toNat)
  perform (.fchmod t info.mode.toNat)
  ys.forM fun y => perform (.setxattr t y.1 y.2)

theorem forM_member (t : ℕ) (ys : List (Text × Bytes)) :
    ((ys.map member).forM fun (name, value) => do
      perform (.setxattr t name (← lift value.fromBase64)) : Script Unit) =
      ys.forM fun y => perform (.setxattr t y.1 y.2) := by
  induction ys with
  | nil => rfl
  | cons y ys ih =>
    have hvalue : (encoded y.2).fromBase64 = .ok y.2 := by
      simp only [encoded, Json.fromBase64, Base64.decode_encode]
    have hstep : ∀ f : Text × Json → Script PUnit,
        ((y :: ys).map member).forM f = (f (member y)).bind fun _ => (ys.map member).forM f :=
      fun _ => rfl
    rw [hstep, ih]
    simp only [member, hvalue]
    rfl

theorem toId_uint32 (n : UInt32) : (Json.int n.toNat).toId = .ok (n.toNat : ℤ) := by
  have hlt := n.toNat_lt
  have hrange : -1 ≤ (n.toNat : ℤ) ∧ (n.toNat : ℤ) < 2 ^ 32 := by omega
  exact Except.bind_eq_ok.mpr ⟨_, rfl, if_pos hrange⟩

theorem toMode_uint32 {n : UInt32} (h : n < 4096) : (Json.int n.toNat).toMode = .ok (n.toNat : ℤ) := by
  have hlt : n.toNat < 4096 := h
  have hrange : -2 ^ 31 ≤ (n.toNat : ℤ) ∧ (n.toNat : ℤ) < 2 ^ 31 := by omega
  exact Except.bind_eq_ok.mpr ⟨_, rfl, if_pos hrange⟩

/-- What `applyMetadata` does with a value that has all its parts. -/
theorem applyMetadata_eq {metadata uid gid mode : Json} {u g m : ℤ} {items : Fields}
    (huid : metadata.subscript "uid" = .ok uid) (hu : uid.toId = .ok u)
    (hgid : metadata.subscript "gid" = .ok gid) (hg : gid.toId = .ok g)
    (hmode : metadata.subscript "mode" = .ok mode) (hm : mode.toMode = .ok m)
    (hitems : metadata.subscript "xattrs" = .ok (.obj items)) (t : ℕ) :
    applyMetadata t metadata = (do
      perform (.fchown t u g)
      perform (.fchmod t m)
      items.forM fun (name, value) => do
        perform (.setxattr t name (← lift value.fromBase64)) : Script Unit) := by
  rw [applyMetadata, huid, hgid, hmode, hitems]
  simp only [lift, bind_eq, bind_ok, hu, hg, hm]
  rfl

theorem applyMetadata_records {metadata : Json} {info : Stat} {xattrs : List (Text × Bytes)}
    (h : Records metadata info xattrs) (hmode : info.mode < 4096) (t : ℕ) :
    ∃ ys : List (Text × Bytes), ys.Perm xattrs ∧ applyMetadata t metadata = dress t info ys := by
  obtain ⟨ys, hperm, hys⟩ := h.xattrs
  refine ⟨ys, hperm, ?_⟩
  rw [applyMetadata_eq h.uid (toId_uint32 _) h.gid (toId_uint32 _) h.mode (toMode_uint32 hmode) hys,
    forM_member]
  rfl

section Dressing
variable {ok : Op → Choice Exn World → World → Prop} {G : Core → Core → Prop} {I : Core → Prop}
  {D E : Node → Prop} {t : ℕ} {w : World}

/-- A call that changes the temporary file, if it returns. -/
theorem wp_modify {o : Op} (ho : Silent o) (hG : ∀ c, G c c) (hI : Keeps ok I)
    (htemps : PrivateTemps ok)
    (hD : ∀ v n, v.temps t = some n → D n → (o.perform v).1.isOk → Holds t E (o.perform v).2)
    (hw : I (core w) ∧ Holds t D w) :
    (perform o).wp host ok (fun v v' => G (core v) (core v'))
      (fun r v => I (core v) ∧ (r.isOk → Holds t E v)) w := by
  refine wp_perform hG fun c hc => ?_
  obtain ⟨hw, n, hn, hDn⟩ := hw
  have hv := hI _ c w hc hw
  have hn' : (c.interfere w).temps t = some n := by rw [htemps _ c w hc, hn]
  simp only [core_perform ho]
  exact ⟨fun _ => ⟨hv, nofun⟩, hG _, fun _ => ⟨hv, nofun⟩, hv, hD _ n hn' hDn⟩

theorem holds_modifyTemp {v : World} {n : Node} (hn : v.temps t = some n) {f : Node → Node}
    (hf : E (f n)) : Holds t E (v.modifyTemp t f).2 :=
  ⟨f n, by simp [World.modifyTemp, hn, World.setTemp], hf⟩

/-- Setting attributes that the file does not have yet. -/
theorem wp_setxattrs (hG : ∀ c, G c c) (hI : Keeps ok I) (htemps : PrivateTemps ok)
    {B : Node → Prop} (hB : ∀ n xattrs, B n → B { n with xattrs := xattrs })
    {l ys : List (Text × Bytes)} (hnames : ((l ++ ys).map Prod.fst).Nodup)
    (hw : I (core w) ∧ Holds t (fun n => B n ∧ n.xattrs = l) w) :
    (ys.forM fun y => perform (.setxattr t y.1 y.2) : Script Unit).wp host ok
      (fun v v' => G (core v) (core v'))
      (fun r v => I (core v) ∧ (r.isOk → Holds t (fun n => B n ∧ n.xattrs = l ++ ys) v)) w := by
  induction ys generalizing l w with
  | nil => exact ⟨hw.1, fun _ => by simpa using hw.2⟩
  | cons y ys ih =>
    have hfresh : ∀ x ∈ l, x.1 ≠ y.1 := by
      rw [List.map_append, List.nodup_append] at hnames
      exact fun x hx => hnames.2.2 _ (List.mem_map_of_mem hx) _ (by simp)
    refine wp_bind (wp_modify (E := fun n => B n ∧ n.xattrs = l ++ [y]) rfl hG hI htemps ?_ hw)
      (fun _ v hv => ?_) fun e v hv => ⟨hv.1, nofun⟩
    · rintro v n hn ⟨hBn, hl⟩ hok
      simp only [Op.perform] at hok ⊢
      split at hok
      · rw [if_pos ‹_›]
        refine holds_modifyTemp hn ⟨hB n _ hBn, ?_⟩
        rw [hl, List.filter_eq_self.mpr fun x hx => by simpa using hfresh x hx]
      · cases hok
    · have hnext := ih (l := l ++ [y]) (by simpa using hnames) ⟨hv.1, hv.2 rfl⟩
      simpa using hnext

/-- Dressing a written file with recorded metadata. -/
theorem wp_dress (hG : ∀ c, G c c) (hI : Keeps ok I) (htemps : PrivateTemps ok) {data : Bytes}
    {info : Stat} (hmode : info.mode < 4096) {ys : List (Text × Bytes)}
    (hnames : (ys.map Prod.fst).Nodup)
    (hw : I (core w) ∧ w.temps t = some { Node.empty 0o600 with data := some data }) :
    (dress t info ys).wp host ok (fun v v' => G (core v) (core v'))
      (fun r v => I (core v) ∧ (r.isOk → Holds t (Dressed data info ys) v)) w := by
  -- What each of the three parts adds to the file.
  let owned := fun n : Node => n.data = some data ∧ n.kind = .regular ∧ n.uid = info.uid ∧
    n.gid = info.gid
  let moded := fun n : Node => owned n ∧ n.mode = info.mode
  refine wp_bind (wp_modify (D := (· = { Node.empty 0o600 with data := some data }))
    (E := fun n => owned n ∧ n.xattrs = []) rfl hG hI htemps ?_ ⟨hw.1, _, hw.2, rfl⟩)
    (fun _ v hv => ?_) fun e v hv => ⟨hv.1, nofun⟩
  · rintro v n hn rfl -
    refine holds_modifyTemp hn ⟨⟨rfl, rfl, ?_, ?_⟩, rfl⟩
    · simp only [if_neg (show (info.uid.toNat : ℤ) ≠ -1 by omega), Int.toNat_natCast,
        UInt32.ofNat_toNat]
    · simp only [if_neg (show (info.gid.toNat : ℤ) ≠ -1 by omega), Int.toNat_natCast,
        UInt32.ofNat_toNat]
  · refine wp_bind (wp_modify (E := fun n => moded n ∧ n.xattrs = []) rfl hG hI htemps ?_
      ⟨hv.1, hv.2 rfl⟩) (fun _ u hu => ?_) fun e u hu => ⟨hu.1, nofun⟩
    · rintro v n hn ⟨howned, hxattrs⟩ -
      refine holds_modifyTemp hn ⟨⟨howned, ?_⟩, hxattrs⟩
      have hlt : info.mode.toNat < 4096 := hmode
      have hmod : (info.mode.toNat : ℤ) % 4096 = info.mode.toNat := by omega
      simp only [hmod, Int.toNat_natCast, UInt32.ofNat_toNat]
    · refine wp_mono (wp_setxattrs (B := moded) (l := []) hG hI htemps (fun _ _ h => h)
        hnames ⟨hu.1, hu.2 rfl⟩) fun r x hx => ⟨hx.1, fun hok => ?_⟩
      obtain ⟨n, hn, ⟨⟨hdata, hkind, huid, hgid⟩, hmode⟩, hxattrs⟩ := hx.2 hok
      exact ⟨n, hn, hdata, hkind, huid, hgid, hmode, hxattrs ▸ .refl _⟩

theorem wp_prepare_records (hG : ∀ c, G c c) (hI : Keeps ok I) (htemps : PrivateTemps ok)
    {data : Bytes} {mode : ℤ} {metadata : Json} {info : Stat} {xattrs : List (Text × Bytes)}
    (h : Records metadata info xattrs) (hmode : info.mode < 4096)
    (hnames : (xattrs.map Prod.fst).Nodup) (hw : I (core w) ∧ w.temps t = some (.empty 0o600)) :
    (prepare t data mode metadata).wp host ok (fun v v' => G (core v) (core v'))
      (fun r v => I (core v) ∧ (r.isOk → Holds t (Dressed data info xattrs) v)) w := by
  obtain ⟨ys, hperm, hys⟩ := applyMetadata_records h hmode t
  refine wp_bind (wp_write hG hI htemps hw) (fun _ v hv => ?_) fun e v hv => ⟨hv.1, nofun⟩
  rw [if_pos h.truthy, hys]
  refine wp_mono (wp_dress hG hI htemps hmode ((hperm.map _).nodup_iff.mpr hnames) ⟨hv.1, hv.2 rfl⟩)
    fun r u hu => ⟨hu.1, fun hok => ?_⟩
  obtain ⟨n, hn, hdressed⟩ := hu.2 hok
  exact ⟨n, hn, { hdressed with xattrs := hdressed.xattrs.trans hperm }⟩

/-- **A publication with recorded metadata** puts a file in place that has exactly that
metadata, or leaves the core alone. -/
theorem meets_publish_records {J : Core → Prop} {p : HostPath} {data : Bytes} {mode : ℤ}
    {metadata : Json} {expected : Option Bytes} {info : Stat} {xattrs : List (Text × Bytes)}
    (h : Records metadata info xattrs) (hmode : info.mode < 4096)
    (hnames : (xattrs.map Prod.fst).Nodup) (hparent : tracked p.parent = false)
    (hG : ∀ c, G c c) (hI : Keeps ok I) (hJ : KeepsLast ok J) (htemps : PrivateTemps ok)
    (hput : ∀ c n, I c → Dressed data info xattrs n → G c (c.put p n) ∧ J (c.put p n))
    (hw : I (core w)) :
    Meets ok G (publish p data mode metadata expected)
      (fun r c => (r.isOk → J c) ∧ (I c ∨ J c)) w :=
  meets_publish_of_prepare hparent hG hI hJ htemps
    (fun _ _ hu => wp_prepare_records hG hI htemps h hmode hnames hu) hput hw

end Dressing

/-! ## Without a failure -/

section Faultless
variable {w : World} {t : ℕ}

/-- Without a failure the script only changes the temporary file. -/
def Amends (w : World) (t : ℕ) (p : Script Unit) : Prop :=
  ∀ n, ∃ n', p.exec host (w.setTemp t (some n)) = (.ok (), w.setTemp t (some n'))

theorem amends_bind {p q : Script Unit} (hp : Amends w t p) (hq : Amends w t q) :
    Amends w t (p.bind fun _ => q) := by
  intro n
  obtain ⟨n', hn'⟩ := hp n
  obtain ⟨m, hm⟩ := hq n'
  exact ⟨m, (exec_bind_ok hn').trans hm⟩

theorem amends_modify {p : Script Unit} {f : Node → Node}
    (hp : ∀ n, p.exec host (w.setTemp t (some n)) = (w.setTemp t (some n)).modifyTemp t f) :
    Amends w t p :=
  fun n => ⟨f n, (hp n).trans (by simp [World.modifyTemp, World.setTemp])⟩

theorem amends_setxattr {name : Text} {value : Bytes} (h : w.settable name value) :
    Amends w t (perform (.setxattr t name value)) :=
  amends_modify fun _ => if_pos h

theorem amends_setxattrs {ys : List (Text × Bytes)} (h : ∀ y ∈ ys, w.settable y.1 y.2) :
    Amends w t (ys.forM fun y => perform (.setxattr t y.1 y.2) : Script Unit) := by
  induction ys with
  | nil => exact fun n => ⟨n, rfl⟩
  | cons y ys ih =>
    exact amends_bind (amends_setxattr (h y (List.mem_cons_self ..)))
      (ih fun x hx => h x (List.mem_cons_of_mem _ hx))

theorem amends_dress {info : Stat} {ys : List (Text × Bytes)} (h : ∀ y ∈ ys, w.settable y.1 y.2) :
    Amends w t (dress t info ys) :=
  amends_bind (amends_modify fun _ => rfl) (amends_bind (amends_modify fun _ => rfl)
    (amends_setxattrs h))

/-- What a preparation makes of the file is known from its runs under failures. -/
theorem exec_of_amends {p : Script Unit} {D : Node → Prop} (hp : Amends w t p)
    (hwp : ∀ u, u.temps t = some (.empty 0o600) → p.wp host Calm (fun _ _ => True)
      (fun r v => True ∧ (r.isOk → Holds t D v)) u) :
    ∃ n, D n ∧ p.exec host (w.setTemp t (some (.empty 0o600))) = (.ok (), w.setTemp t (some n)) := by
  obtain ⟨n, hn⟩ := hp (.empty 0o600)
  have hresult := wp_exec (hwp (w.setTemp t (some (.empty 0o600))) (by simp [World.setTemp]))
    fun _ _ => rfl
  rw [hn] at hresult
  obtain ⟨n', hn', hD⟩ := hresult.2 rfl
  obtain rfl : n = n' := by simpa [World.setTemp] using hn'
  exact ⟨n, hD, hn⟩

/-- Preparing a file with recorded metadata. -/
theorem exec_prepare_records {data : Bytes} {mode : ℤ} {metadata : Json} {info : Stat}
    {xattrs : List (Text × Bytes)} (h : Records metadata info xattrs) (hmode : info.mode < 4096)
    (hnames : (xattrs.map Prod.fst).Nodup) (hset : ∀ y ∈ xattrs, w.settable y.1 y.2) :
    ∃ n, Dressed data info xattrs n ∧ (prepare t data mode metadata).exec host
      (w.setTemp t (some (.empty 0o600))) = (.ok (), w.setTemp t (some n)) := by
  refine exec_of_amends ?_ fun u hu => wp_prepare_records (G := fun _ _ => True)
    (I := fun _ => True) (fun _ => trivial) (fun _ _ _ _ h => h) quiet_calm.privateTemps h hmode hnames
    ⟨trivial, hu⟩
  obtain ⟨ys, hperm, hys⟩ := applyMetadata_records h hmode t
  refine amends_bind (amends_modify fun _ => rfl) ?_
  rw [if_pos h.truthy, hys]
  exact amends_dress fun y hy => hset y (hperm.mem_iff.mp hy)

/-- Preparing a file of root with a mode. -/
theorem exec_prepare_mode (data : Bytes) (mode : ℤ) :
    ∃ n, Published data mode .null n ∧ (prepare t data mode .null).exec host
      (w.setTemp t (some (.empty 0o600))) = (.ok (), w.setTemp t (some n)) :=
  exec_of_amends (amends_bind (amends_modify fun _ => rfl) (amends_modify fun _ => rfl))
    fun _ hu => wp_prepare (G := fun _ _ => True) (I := fun _ => True) (fun _ => trivial)
      (fun _ _ _ _ h => h) quiet_calm.privateTemps ⟨trivial, hu⟩

theorem exec_call {α : Type} {o : Op} {v : World} {a : o.Res} {f : o.Res → Script α}
    (h : o.perform w = (.ok a, v)) : ((perform o).bind f).exec host w = (f a).exec host v :=
  exec_bind_ok h

/-- The state once the directory of a file is there and a temporary file was used. -/
def opened (w : World) (p : HostPath) : World :=
  { w with
    files := if (w.files p.parent).isSome then w.files
      else Function.update w.files p.parent (some (.directory 0o755))
    temps := Function.update w.temps w.nextTemp none
    nextTemp := w.nextTemp + 1 }

/-- Nothing is in the way of a publication. -/
structure Free (w : World) (p : HostPath) (expected : Option Bytes) : Prop where
  parent : (w.files p.parent).isSome → w.isDir p.parent
  file : ∀ m, w.files p = some m → m.kind ≠ .directory
  expected : ∀ data, expected = some data → w.bytes p = some data

theorem mkdirs_opened {p : HostPath} (hparent : (w.files p.parent).isSome → w.isDir p.parent) :
    (Op.mkdirs p.parent 0o755).perform w = (.ok (), { w with files := (opened w p).files }) := by
  cases hm : w.files p.parent with
  | none => simp [Op.perform, opened, hm]
  | some m =>
    have hdir : w.isDir p.parent := hparent (by rw [hm]; rfl)
    simp [Op.perform, opened, hm, hdir]

theorem mkstemp_opened (p : HostPath) :
    (Op.mkstemp p.parent).perform { w with files := (opened w p).files } =
      (.ok w.nextTemp, (opened w p).setTemp w.nextTemp (some (.empty 0o600))) := by
  simp [Op.perform, World.setTemp, opened]

theorem files_opened {p q : HostPath} (hne : q ≠ p.parent) : (opened w p).files q = w.files q := by
  simp only [opened]
  split
  · rfl
  · exact Function.update_of_ne hne ..

theorem files_opened_put {p q : HostPath} (hne : q ≠ p) (hparent : q ≠ p.parent) (n : Node) :
    ((opened w p).put p n).files q = w.files q :=
  (Function.update_of_ne hne ..).trans (files_opened hparent)

theorem exec_checkExpected_opened {p : HostPath} (hne : p.parent ≠ p) {expected : Option Bytes}
    (hexpected : ∀ data, expected = some data → w.bytes p = some data) (n : Node) :
    (checkExpected p expected).exec host ((opened w p).setTemp w.nextTemp (some n)) =
      (.ok (), (opened w p).setTemp w.nextTemp (some n)) := by
  cases expected with
  | none => rfl
  | some bytes =>
    have hread : (Op.read (.file p)).perform ((opened w p).setTemp w.nextTemp (some n)) =
        (.ok bytes, (opened w p).setTemp w.nextTemp (some n)) := by
      refine Prod.ext ?_ rfl
      change contents ((opened w p).files p) = .ok bytes
      rw [files_opened hne.symm, contents_eq_ok]
      exact hexpected bytes rfl
    refine (exec_call hread).trans ?_
    simp [require, refuseUnless, lift]

/-- **A publication goes through**, where nothing is in its way. -/
theorem exec_publish {p : HostPath} (hne : p.parent ≠ p) {data : Bytes} {mode : ℤ} {metadata : Json}
    {expected : Option Bytes} {n : Node} (hfree : Free w p expected)
    (hprepare : (prepare w.nextTemp data mode metadata).exec host
      ((opened w p).setTemp w.nextTemp (some (.empty 0o600))) =
        (.ok (), (opened w p).setTemp w.nextTemp (some n))) :
    (publish p data mode metadata expected).exec host w = (.ok (), (opened w p).put p n) := by
  have hreplace : (Op.replace w.nextTemp p).perform ((opened w p).setTemp w.nextTemp (some n)) =
      (.ok (), (opened w p).put p n) := by
    have hdir : ¬ ((opened w p).files p).any fun m => m.kind = .directory := by
      rw [files_opened hne.symm]
      cases hm : w.files p with
      | none => simp
      | some m => simpa using hfree.file m hm
    simp only [Op.perform, World.setTemp, Function.update_self, Function.update_idem]
    rw [if_neg hdir]
    simp [opened]
  have hfrom : (publishFrom w.nextTemp p data mode metadata expected).exec host
      ((opened w p).setTemp w.nextTemp (some (.empty 0o600))) = (.ok (), (opened w p).put p n) := by
    refine (exec_bind_ok hprepare).trans ?_
    refine (exec_call (o := .fsync _) rfl).trans ?_
    refine (exec_bind_ok (exec_checkExpected_opened hne hfree.expected n)).trans ?_
    exact (exec_call hreplace).trans rfl
  have hremove : (removeTemporary w.nextTemp).exec host ((opened w p).put p n) =
      (.ok (), (opened w p).put p n) := by
    have hgone : ((opened w p).put p n).temps w.nextTemp = none := by
      simp [opened, World.put]
    have hlexists : (Op.lexists (.temp w.nextTemp)).perform ((opened w p).put p n) =
        (.ok false, (opened w p).put p n) := by
      simp [Op.perform, World.node, hgone]
    exact (exec_call hlexists).trans rfl
  exact (exec_call (mkdirs_opened hfree.parent)).trans
    ((exec_call (mkstemp_opened p)).trans (exec_ensuring hfrom hremove))

end Faultless

end Deny
