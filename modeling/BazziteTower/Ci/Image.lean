import BazziteTower.Ci.Artifact

/-!
# The identity of an image archive

What `image_identity` of `r13-publication.py` establishes of an archive that it accepts:
one manifest is selected, and the manifest, its config and its layers are there under
their digests.  Two archives with one manifest digest therefore carry the same bytes,
whatever else is in them.

## Main definitions

* `bare`, `isRoot` — the name of an entry without a leading `./`, and the root entries.
* `Present`, `Closed` — a descriptor that is met, and everything a manifest references.

## Main results

* `image_bound` — an accepted archive is closed, and its digest determines the bytes.
-/

namespace Artifact

/-! ## Entries -/

/-- `member.name.removeprefix('./')`. -/
def Member.bare (m : Member) : Text := if "./".toList.isPrefixOf m.name then m.name.drop 2 else m.name

/-- An entry of the root of the archive, which is passed over. -/
def Member.isRoot (m : Member) : Bool := m.bare = [] || m.bare = ['.']

/-- The entries by their names, without those of the root. -/
def named (entries : List Member) : List (Text × Member) :=
  (entries.filter fun m => !m.isRoot).map fun m => (m.bare, m)

/-- An entry that the layout of an image admits. -/
structure Member.Safe (m : Member) : Prop where
  root : m.isRoot → m.kind = .directory
  relative : m.isRoot = false → m.bare.head? ≠ some '/' ∧ ['.', '.'] ∉ m.bare.splitOn '/'
  plain : m.isRoot = false → imageName m.bare ∧ (m.kind = .directory ∨ m.kind = .regular)

theorem addMember_eq_ok {members members' : List (Text × Member)} {m : Member}
    (h : addMember members m = .ok members') :
    m.Safe ∧ members' = members ++ named [m] ∧
      ((members.map Prod.fst).Nodup → (members'.map Prod.fst).Nodup) := by
  change (if m.bare = [] ∨ m.bare = ['.'] then _ else _) = _ at h
  by_cases hroot : m.bare = [] ∨ m.bare = ['.']
  · have hisRoot : m.isRoot = true := by simpa [Member.isRoot] using hroot
    rw [if_pos hroot] at h
    obtain ⟨_, hkind, h⟩ := Except.bind_eq_ok.mp h
    obtain rfl := Except.ok.inj h
    rw [Refresh.require_eq_ok, decide_eq_true_eq] at hkind
    exact ⟨⟨fun _ => hkind, by simp [hisRoot], by simp [hisRoot]⟩, by simp [named, hisRoot], id⟩
  · have hisRoot : m.isRoot = false := by simpa [Member.isRoot] using hroot
    rw [if_neg hroot] at h
    simp only [Except.bind_eq_ok, Refresh.require_eq_ok] at h
    obtain ⟨_, hname, _, hkind, _, himage, _, -, h⟩ := h
    obtain rfl := Except.ok.inj h
    simp only [Bool.and_eq_true, Bool.not_eq_true', List.contains_eq_mem, decide_eq_false_iff_not,
      decide_eq_true_eq] at hname
    obtain ⟨⟨hnew, habsolute⟩, hdots⟩ := hname
    refine ⟨⟨by simp [hisRoot], fun _ => ⟨habsolute, hdots⟩, fun _ => ⟨himage, ?_⟩⟩,
      by simp [named, hisRoot, Member.bare], fun hnodup => ?_⟩
    · simpa using hkind
    · rw [List.map_append, List.map_singleton]
      exact List.nodup_append'.mpr ⟨hnodup, List.nodup_singleton _, by simpa using hnew⟩

theorem named_cons (m : Member) (entries : List Member) :
    named (m :: entries) = named [m] ++ named entries := by
  cases h : m.isRoot <;> simp [named, h]

/-- The loop over an archive collects its entries by their names, each of them once. -/
theorem foldlM_addMember {entries : List Member} {members members' : List (Text × Member)}
    (h : entries.foldlM addMember members = .ok members') :
    (∀ m ∈ entries, m.Safe) ∧ members' = members ++ named entries ∧
      ((members.map Prod.fst).Nodup → (members'.map Prod.fst).Nodup) := by
  induction entries generalizing members with
  | nil =>
    obtain rfl := Except.ok.inj h
    exact ⟨by simp, by simp [named], id⟩
  | cons m entries ih =>
    rw [List.foldlM_cons, Except.bind_eq_ok] at h
    obtain ⟨members₁, hm, h⟩ := h
    obtain ⟨hsafe, rfl, hnodup⟩ := addMember_eq_ok hm
    obtain ⟨hrest, rfl, hnodup'⟩ := ih h
    refine ⟨List.forall_mem_cons.mpr ⟨hsafe, hrest⟩, ?_, fun hn => hnodup' (hnodup hn)⟩
    rw [named_cons m entries, List.append_assoc]

theorem mem_of_lookup {entries : List Member} {name : Text} {m : Member}
    (h : (named entries).lookup name = some m) : m ∈ entries ∧ m.bare = name := by
  induction entries with
  | nil => cases h
  | cons n entries ih =>
    cases hroot : n.isRoot with
    | true =>
      obtain ⟨hm, hname⟩ := ih (by simpa [named, hroot] using h)
      exact ⟨List.mem_cons_of_mem _ hm, hname⟩
    | false =>
      simp only [named, List.filter_cons, hroot, Bool.not_false, if_true, List.map_cons,
        List.lookup_cons] at h
      split at h
      · rename_i hname
        obtain rfl := Option.some.inj h
        exact ⟨List.mem_cons_self .., (beq_iff_eq.mp hname).symm⟩
      · obtain ⟨hm, hname⟩ := ih h
        exact ⟨List.mem_cons_of_mem _ hm, hname⟩

/-! ## Descriptors -/

/-- A descriptor whose blob is in the archive, with these bytes. -/
structure Present (entries : List Member) (item : Json) (value : Text) (data : Bytes) : Prop where
  selects : ∃ v, item.subscript "digest" = .ok v ∧ digest v = .ok value
  regular : ∃ m ∈ entries, m.bare = blobName value ∧ m.kind = .regular ∧ m.data = data
  size : ∃ v, item.subscript "size" = .ok v ∧ (Json.int data.length).pyEq v
  sha : "sha256:".toList ++ sha256 data = value

/-- The archive selects one manifest and has everything that it references. -/
structure Closed (entries : List Member) (selected : Text) (manifest config : Bytes)
    (layers : List Bytes) : Prop where
  index : ∃ m index descriptor, m ∈ entries ∧ m.bare = "index.json".toList ∧ m.kind = .regular ∧
    decode m.data = .ok index ∧ getOr (.arr []) "manifests" index = .ok (.arr [descriptor]) ∧
    Present entries descriptor selected manifest
  references : ∃ v item items, decode manifest = .ok v ∧ v.subscript "config" = .ok item ∧
    v.subscript "layers" = .ok (.arr items) ∧ (∃ value, Present entries item value config) ∧
    List.Forall₂ (fun item data => ∃ value, Present entries item value data) items layers

theorem blob_eq_ok {entries : List Member} {name : Text} {expected : Option Text} {v : Json}
    (h : blob (named entries) name expected = .ok v) :
    ∃ m, (named entries).lookup name = some m ∧ m.kind = .regular ∧ decode m.data = .ok v ∧
      ∀ e ∈ expected, "sha256:".toList ++ sha256 m.data = e := by
  unfold blob at h
  split at h
  · rename_i m hm
    obtain ⟨_, hkind, h⟩ := Except.bind_eq_ok.mp h
    simp only [Refresh.require_eq_ok, Bool.and_eq_true, decide_eq_true_eq] at hkind
    cases expected with
    | none => exact ⟨m, hm, hkind.1, h, by simp⟩
    | some e =>
      obtain ⟨_, he, h⟩ := Except.bind_eq_ok.mp h
      rw [Refresh.require_eq_ok, decide_eq_true_eq] at he
      exact ⟨m, hm, hkind.1, h, by simpa using he⟩
  · cases h

theorem present_of_checkBlob {entries : List Member} {item : Json} {u : Unit}
    (h : checkBlob (named entries) item = .ok u) :
    ∃ value data, Present entries item value data := by
  simp only [checkBlob, Except.bind_eq_ok] at h
  obtain ⟨v, hv, value, hvalue, h⟩ := h
  split at h
  · rename_i m hm
    simp only [Except.bind_eq_ok, Refresh.require_eq_ok, Bool.and_eq_true, decide_eq_true_eq] at h
    obtain ⟨size, hsize, _, ⟨hkind, hlength⟩, hsha⟩ := h
    obtain ⟨hmem, hname⟩ := mem_of_lookup hm
    exact ⟨value, m.data, ⟨v, hv, hvalue⟩, ⟨m, hmem, hname, hkind, rfl⟩, ⟨size, hsize, hlength⟩, hsha⟩
  · cases h

theorem blobsOf_eq_ok {item items : Json} {blobs : List Json} (h : blobsOf item items = .ok blobs) :
    ∃ ls, items = .arr ls ∧ blobs = item :: ls := by
  cases items with
  | arr ls => exact ⟨ls, rfl, (Except.ok.inj h).symm⟩
  | _ => cases h

theorem exists_forall₂ {α β : Type} {R : α → β → Prop} {xs : List α} (h : ∀ x ∈ xs, ∃ y, R x y) :
    ∃ ys, List.Forall₂ R xs ys := by
  induction xs with
  | nil => exact ⟨[], .nil⟩
  | cons x xs ih =>
    obtain ⟨y, hy⟩ := h x (List.mem_cons_self ..)
    obtain ⟨ys, hys⟩ := ih fun x' hx' => h x' (List.mem_cons_of_mem _ hx')
    exact ⟨y :: ys, .cons hy hys⟩

/-- What an accepted archive selects, and what that references, is in it. -/
theorem closed_of_imageIdentity {readTar : Bytes → Except Exn (List Member)} {archive : Bytes}
    {entries : List Member} {selected : Text} (hread : readTar archive = .ok entries)
    (h : imageIdentity readTar archive = .ok selected) :
    ((∀ m ∈ entries, m.Safe) ∧ ((named entries).map Prod.fst).Nodup) ∧
      ∃ manifest config layers, Closed entries selected manifest config layers := by
  simp only [imageIdentity, hread, Except.bind_eq_ok, Except.ok.injEq, exists_eq_left'] at h
  obtain ⟨members, hmembers, layout, -, _, -, index, hindex, version, -, manifests, hmanifests, h⟩ := h
  obtain ⟨hsafe, hnamed, hnodup⟩ := foldlM_addMember hmembers
  obtain rfl : members = named entries := hnamed
  refine ⟨⟨hsafe, hnodup List.nodup_nil⟩, ?_⟩
  split at h
  · rename_i descriptor
    simp only [Except.bind_eq_ok] at h
    obtain ⟨_, -, v, hv, value, hvalue, h⟩ := h
    split at h
    · rename_i m hm
      simp only [Except.bind_eq_ok, Refresh.require_eq_ok, List.forM_eq_forM, Except.forM_eq_ok] at h
      obtain ⟨size, hsize, _, hlength, manifest, hmanifest, _, -, _, -, item, hitem, cv, hcv, configDigest,
        hconfigDigest, platform, hplatform, _, -, _, -, _, -, items, hitems, blobs, hblobs, _, hforM, h⟩ := h
      obtain rfl : value = selected := Except.ok.inj h
      obtain ⟨i, hi, hikind, hidecode, -⟩ := blob_eq_ok hindex
      obtain ⟨m', hm', hkind, hdecode, hsha⟩ := blob_eq_ok hmanifest
      obtain rfl := Option.some.inj (hm.symm.trans hm')
      obtain ⟨hmem, hname⟩ := mem_of_lookup hm
      obtain ⟨himem, hiname⟩ := mem_of_lookup hi
      have hpresent : Present entries descriptor value m.data :=
        ⟨⟨v, hv, hvalue⟩, ⟨m, hmem, hname, hkind, rfl⟩, ⟨size, hsize, hlength⟩, hsha value rfl⟩
      obtain ⟨ls, rfl, rfl⟩ := blobsOf_eq_ok hblobs
      have hblob (x : Json) (hx : x ∈ item :: ls) : ∃ data value, Present entries x value data := by
        obtain ⟨value, data, hpresent⟩ := present_of_checkBlob (hforM x hx)
        exact ⟨data, value, hpresent⟩
      obtain ⟨config, hconfig⟩ := hblob item (List.mem_cons_self ..)
      obtain ⟨layers, hlayers⟩ := exists_forall₂ fun x hx => hblob x (List.mem_cons_of_mem _ hx)
      exact ⟨m.data, config, layers,
        ⟨i, index, descriptor, himem, hiname, hikind, hidecode, hmanifests, hpresent⟩,
        ⟨manifest, item, ls, hdecode, hitem, hitems, hconfig, hlayers⟩⟩
    · obtain ⟨_, h, -⟩ := Except.bind_eq_ok.mp h
      cases h
  · cases h

/-! ## Two archives -/

/-- Two entries of these archives with one name have one digest only if they are equal. -/
def NoCollision (A B : List Member) : Prop :=
  ∀ m ∈ A, ∀ m' ∈ B, m.bare = m'.bare → sha256 m.data = sha256 m'.data → m.data = m'.data

section Two
variable {A B : List Member}

/-- One descriptor is met by the same bytes in both archives. -/
theorem Present.unique {item : Json} {value value' : Text} {data data' : Bytes}
    (hfree : NoCollision A B) (h : Present A item value data) (h' : Present B item value' data') :
    data = data' := by
  obtain ⟨v, hv, hvalue⟩ := h.selects
  obtain ⟨v', hv', hvalue'⟩ := h'.selects
  obtain rfl : v = v' := Except.ok.inj (hv.symm.trans hv')
  obtain rfl : value = value' := Except.ok.inj (hvalue.symm.trans hvalue')
  obtain ⟨m, hm, hname, -, rfl⟩ := h.regular
  obtain ⟨m', hm', hname', -, rfl⟩ := h'.regular
  exact hfree m hm m' hm' (hname.trans hname'.symm) (List.append_cancel_left (h.sha.trans h'.sha.symm))

theorem forall₂_unique {items : List Json} {layers layers' : List Bytes} (hfree : NoCollision A B)
    (h : List.Forall₂ (fun item data => ∃ value, Present A item value data) items layers)
    (h' : List.Forall₂ (fun item data => ∃ value, Present B item value data) items layers') :
    layers = layers' := by
  induction h generalizing layers' with
  | nil =>
    cases h'
    rfl
  | cons hx _ ih =>
    cases h' with
    | cons hx' hxs' =>
      obtain ⟨_, hx⟩ := hx
      obtain ⟨_, hx'⟩ := hx'
      rw [hx.unique hfree hx', ih hxs']

/-- The selected digest determines the bytes. -/
theorem Closed.unique {selected : Text} {manifest config manifest' config' : Bytes}
    {layers layers' : List Bytes} (hfree : NoCollision A B)
    (h : Closed A selected manifest config layers) (h' : Closed B selected manifest' config' layers') :
    manifest = manifest' ∧ config = config' ∧ layers = layers' := by
  obtain ⟨_, _, _, -, -, -, -, -, hm⟩ := h.index
  obtain ⟨_, _, _, -, -, -, -, -, hm'⟩ := h'.index
  obtain ⟨m, hmem, hname, -, rfl⟩ := hm.regular
  obtain ⟨m', hmem', hname', -, rfl⟩ := hm'.regular
  have hdata : m.data = m'.data := hfree m hmem m' hmem' (hname.trans hname'.symm)
    (List.append_cancel_left (hm.sha.trans hm'.sha.symm))
  obtain ⟨v, item, items, hv, hitem, hitems, ⟨_, hconfig⟩, hlayers⟩ := h.references
  obtain ⟨v', item', items', hv', hitem', hitems', ⟨_, hconfig'⟩, hlayers'⟩ := h'.references
  rw [← hdata] at hv'
  obtain rfl : v = v' := Except.ok.inj (hv.symm.trans hv')
  obtain rfl : item = item' := Except.ok.inj (hitem.symm.trans hitem')
  obtain rfl : items = items' := Json.arr.inj (Except.ok.inj (hitems.symm.trans hitems'))
  exact ⟨hdata, hconfig.unique hfree hconfig', forall₂_unique hfree hlayers hlayers'⟩

end Two

/-- An accepted archive has safe entries, no two of one name apart from its root, and the
selected manifest with all that it references.  Any accepted archive with this manifest
digest has the same manifest, config and layers. -/
theorem image_bound {readTar : Bytes → Except Exn (List Member)} {archive archive' : Bytes}
    {A B : List Member} {selected : Text} (hA : readTar archive = .ok A)
    (hB : readTar archive' = .ok B) (h : imageIdentity readTar archive = .ok selected)
    (h' : imageIdentity readTar archive' = .ok selected) (hfree : NoCollision A B) :
    ((∀ m ∈ A, m.Safe) ∧ ((named A).map Prod.fst).Nodup) ∧
      ∃ manifest config layers, Closed A selected manifest config layers ∧
        Closed B selected manifest config layers := by
  obtain ⟨hsafe, manifest, config, layers, hclosed⟩ := closed_of_imageIdentity hA h
  obtain ⟨-, manifest', config', layers', hclosed'⟩ := closed_of_imageIdentity hB h'
  obtain ⟨rfl, rfl, rfl⟩ := hclosed.unique hfree hclosed'
  exact ⟨hsafe, manifest, config, layers, hclosed, hclosed'⟩

/-! ## A sample -/

/-- The members of the sample image. -/
def sampleMembers : List Member :=
  [⟨"oci-layout".toList, .regular, compact (Refresh.object [("imageLayoutVersion", Refresh.text "1.0.0")])⟩,
    ⟨"index.json".toList, .regular, sampleIndex⟩,
    ⟨(blobFile sampleManifest).1, .regular, sampleManifest⟩,
    ⟨(blobFile sampleConfig).1, .regular, sampleConfig⟩]

/-- The members with two entries of the root before them. -/
def rootedMembers : List Member :=
  ⟨['.'], .directory, []⟩ :: ⟨['.'], .directory, []⟩ :: sampleMembers

/-- The members in the opposite order, with prefixes. -/
def prefixedMembers : List Member :=
  sampleMembers.reverse.map fun m => { m with name := "./".toList ++ m.name }

theorem imageIdentity_samples : ∀ members ∈ [rootedMembers, prefixedMembers],
    (imageIdentity (fun _ => .ok members) []).toOption =
      some ("sha256:".toList ++ sha256 sampleManifest) := by
  decide +kernel

theorem imageIdentity_sample {members : List Member} (h : members ∈ [rootedMembers, prefixedMembers]) :
    imageIdentity (fun _ => .ok members) [] = .ok ("sha256:".toList ++ sha256 sampleManifest) := by
  have hsome := imageIdentity_samples members h
  cases hi : imageIdentity (fun _ => .ok members) [] with
  | error e => rw [hi] at hsome; cases hsome
  | ok s => rw [hi] at hsome; exact congrArg _ (Option.some.inj hsome)

theorem noCollision_samples : NoCollision rootedMembers prefixedMembers := by
  have hdata : ∀ m ∈ rootedMembers, ∀ m' ∈ prefixedMembers, m.bare = m'.bare → m.data = m'.data := by
    decide +kernel
  exact fun m hm m' hm' hbare _ => hdata m hm m' hm' hbare

/-- Two archives of the sample image, in another order and with other names. -/
theorem image_bound_samples : ((∀ m ∈ rootedMembers, m.Safe) ∧
    ((named rootedMembers).map Prod.fst).Nodup) ∧ ∃ manifest config layers,
      Closed rootedMembers ("sha256:".toList ++ sha256 sampleManifest) manifest config layers ∧
        Closed prefixedMembers ("sha256:".toList ++ sha256 sampleManifest) manifest config layers :=
  @image_bound (fun archive => .ok (if archive = [] then rootedMembers else prefixedMembers)) [] [0] _ _ _
    rfl rfl (imageIdentity_sample (by simp)) (imageIdentity_sample (by simp)) noCollision_samples

/-- The entries of the root may repeat. -/
theorem not_nodup_names : ¬ ∀ (readTar : Bytes → Except Exn (List Member)) archive entries selected,
    readTar archive = .ok entries → imageIdentity readTar archive = .ok selected →
      (entries.map Member.name).Nodup := by
  intro h
  have hnodup := h _ _ rootedMembers _ rfl (@imageIdentity_sample rootedMembers (by simp))
  simp [rootedMembers] at hnodup

end Artifact
