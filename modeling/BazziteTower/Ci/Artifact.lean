import BazziteTower.Ci.Inventory
import BazziteTower.Lib.JsonRoundTrip

/-!
# The refresh artifact

What `base-refresh.py` checks of an artifact before it is published: an image archive,
the package inventory and its document, the evidence of the installed product, and the
provenance that ties them together.  What the validating job learns from executing the
image is a parameter of `validate`; the publisher only reads.

How an archive is unpacked into members is up to `tarfile`, so `readTar` is a
parameter, as are `parseCreated` and `isDecimal`.

## Main definitions

* `Directory`, `Tree` — an artifact, and the files of the control checkout.
* `decode`, `imageIdentity`, `evidence`, `activePolicy` — what the checks read.
* `validate`, `revalidate` — the checks.

## Main results

* `evidence_bound` — the provenance determines the other files, and the hashes of the
  validating job all of them.
-/

namespace Artifact

open Refresh (Profile require object text equals hasKeys hexValue dest)

/-! ## Files -/

/-- A file of the artifact or of the control checkout. -/
structure Entry where
  kind : FileKind
  data : Bytes

/-- The control checkout. -/
abbrev Tree := String → Option Entry

/-- An artifact directory. -/
structure Directory where
  entries : List (String × Entry)
  nodup : (entries.map Prod.fst).Nodup

def Directory.file (d : Directory) (name : String) : Option Entry := d.entries.lookup name

def sizeLimit : ℕ := 16 * 1024 * 1024

/-- `read(path, limit)`. -/
def read (limit : ℕ) : Option Entry → Except Exn Bytes
  | some ⟨.regular, data⟩ => do
    require (data.length ≤ limit) "invalid data file"
    return data
  | _ => .error (.raised .value "invalid data file")

/-- `file_sha(path)`. -/
def fileSha : Option Entry → Except Exn Text
  | some ⟨.regular, data⟩ => .ok (sha256 data)
  | _ => .error (.raised .value "invalid artifact file")

/-- `decode(data)`. -/
def decode (data : Bytes) : Except Exn Json := do
  require (data.length ≤ sizeLimit) "oversized JSON"
  decoded (Json.loadsHook Json.uniqueKeys data)

/-- `digest(value)`. -/
def digest : Json → Except Exn Text
  | .str value => do
    require ("sha256:".toList.isPrefixOf value) "invalid image digest"
    hexValue 64 (.str (value.drop 7))
    return value
  | _ => .error (.raised .value "invalid image digest")

/-- `value.get(key, default)`. -/
def getOr (default : Json) (key : String) : Json → Except Exn Json
  | .obj ms => .ok ((Json.find key.toList ms).getD default)
  | _ => .error (.raised .attribute "object has no attribute 'get'")

/-! ## The image -/

/-- An entry of the archive. -/
structure Member where
  name : Text
  kind : FileKind
  data : Bytes

/-- A name that the layout of an image admits. -/
def imageName (name : Text) : Bool :=
  ["index.json", "oci-layout", "blobs", "blobs/sha256"].any (fun n => n.toList = name) ||
    "blobs/sha256/".toList.isPrefixOf name && (name.drop 13).length = 64 &&
      (name.drop 13).all fun c => c.isDigit || ('a' ≤ c && c ≤ 'f')

/-- One round of the loop over the archive. -/
def addMember (members : List (Text × Member)) (m : Member) :
    Except Exn (List (Text × Member)) := do
  let name := if "./".toList.isPrefixOf m.name then m.name.drop 2 else m.name
  if name = [] ∨ name = ['.'] then
    require (m.kind = .directory) "unsafe OCI root entry"
    return members
  else
    require (!(members.map Prod.fst).contains name && name.head? ≠ some '/' &&
      !(name.splitOn '/').contains ['.', '.']) "unsafe/duplicate OCI entry"
    require (m.kind = .directory || m.kind = .regular) "OCI link/special entry"
    require (imageName name) "unexpected OCI entry"
    let members := members ++ [(name, m)]
    require (members.length ≤ 10000) "oversized OCI inventory"
    return members

/-- `blob(name, expected)`. -/
def blob (members : List (Text × Member)) (name : Text) (expected : Option Text) :
    Except Exn Json := do
  match members.lookup name with
  | some m =>
    require (m.kind = .regular && m.data.length ≤ sizeLimit) "invalid OCI metadata"
    match expected with
    | some e => require ("sha256:".toList ++ sha256 m.data = e) "OCI metadata hash mismatch"
    | none => pure ()
    decode m.data
  | none => .error (.raised .value "invalid OCI metadata")

def blobName (digest : Text) : Text := "blobs/sha256/".toList ++ digest.drop 7

/-- `[manifest['config']] + manifest['layers']`. -/
def blobsOf (config : Json) : Json → Except Exn (List Json)
  | .arr layers => .ok (config :: layers)
  | _ => .error (.raised .type "can only concatenate list")

/-- A blob that the manifest names. -/
def checkBlob (members : List (Text × Member)) (item : Json) : Except Exn Unit := do
  let value ← digest (← item.subscript "digest")
  match members.lookup (blobName value) with
  | some m =>
    require (m.kind = .regular && (Json.int m.data.length).pyEq (← item.subscript "size"))
      "missing OCI blob"
    require ("sha256:".toList ++ sha256 m.data = value) "OCI blob hash mismatch"
  | none => .error (.raised .value "missing OCI blob")

/-- What `image_identity` returns for the manifest with this digest. -/
def identityOf (selected : Text) : Json :=
  object [("manifestDigest", .str selected), ("indexDigest", .null), ("platformDigest", .str selected),
    ("platform", text "linux/amd64")]

section Tar
variable (readTar : Bytes → Except Exn (List Member))

/-- `image_identity(archive)`, with the digest of the manifest it selects. -/
def imageIdentity (archive : Bytes) : Except Exn Text := do
  let members ← (← readTar archive).foldlM addMember []
  require ((← blob members "oci-layout".toList none).pyEq
    (object [("imageLayoutVersion", text "1.0.0")])) "invalid OCI layout"
  let index ← blob members "index.json".toList none
  let version ← index.get "schemaVersion"
  match ← getOr (.arr []) "manifests" index with
  | .arr [descriptor] =>
    require (version.pyEq (.int 2)) "one immutable image required"
    let selected ← digest (← descriptor.subscript "digest")
    match members.lookup (blobName selected) with
    | some m =>
      require ((Json.int m.data.length).pyEq (← descriptor.subscript "size"))
        "OCI descriptor size mismatch"
    | none => throw (.raised .key (String.ofList (blobName selected)))
    let manifest ← blob members (blobName selected) (some selected)
    let mediaType ← manifest.get "mediaType"
    require (mediaType.pyEq (text "application/vnd.oci.image.manifest.v1+json") ||
      mediaType.pyEq (text "application/vnd.docker.distribution.manifest.v2+json"))
      "multi-platform index HOLD"
    let config ← manifest.subscript "config"
    let configDigest ← digest (← config.subscript "digest")
    let platform ← blob members (blobName configDigest) (some configDigest)
    require ((← platform.get "architecture").pyEq (text "amd64") &&
      (← platform.get "os").pyEq (text "linux")) "wrong platform"
    (← blobsOf config (← manifest.subscript "layers")).forM (checkBlob members)
    return selected
  | _ => throw (.raised .value "one immutable image required")

end Tar

/-! ## Evidence -/

/-- What a job is started with, apart from its directory. -/
structure Job where
  root : Tree
  /-- `GITHUB_SHA`, `GITHUB_RUN_ID` and `GITHUB_RUN_ATTEMPT`. -/
  controlCommit : Text
  runId : ℕ
  runAttempt : ℕ
  profile : Profile
  base : Text
  version : Text

def policyPath : String := ".github/base-refresh-policy.json"

/-- `TRUST`. -/
def trustFiles : List (String × String) :=
  [("cosign.pub", "cosign.pub"),
    ("policy.json", "system_files/usr/share/bazzite-tower/containers/policy.json"),
    ("bazzite-tower.yaml",
      "system_files/usr/share/bazzite-tower/containers/registries.d/bazzite-tower.yaml")]

/-- `immutable_base(value, p)`. -/
def immutableBase (value : Text) : Except Exn Unit := do
  let start := Refresh.upstream.toList ++ "@sha256:".toList
  require (start.isPrefixOf value) "mutable/wrong upstream base"
  let _ ← digest (.str (value.dropWhile (· ≠ '@')).tail)

/-- `inventory_kernel(records)`. -/
def inventoryKernel (records : List Inventory.Rpm) : Except Exn Text :=
  let kernels := records.filter fun r => r.name = "kernel-core".toList && r.epoch = ['0'] &&
    r.arch = "x86_64".toList
  match kernels with
  | [r] => .ok (r.version ++ '-' :: r.release)
  | _ => .error (.raised .value "one installed x86_64 kernel required")

/-- `evidence(p, profile, base, version, image, sbom_hash, kernel)`. -/
def evidence (p : Json) (job : Job) (image sbomHash kernel : Text) :
    Except Exn (List (String × Json)) := do
  immutableBase job.base
  require (decide ((← Refresh.baseVersion (← p.subscript "minimumBaseVersion")) ≤
    (← Refresh.baseVersion (.str job.version)))) "Bazzite downgrade below accepted floor"
  require (decide ((← Refresh.kernelVersion (← p.subscript "minimumKernel")) ≤
    (← Refresh.kernelVersion (.str kernel)))) "kernel downgrade below accepted floor"
  let policySha ← fileSha (job.root policyPath)
  let commit ← p.subscript "sourceCommit"
  let tree ← p.subscript "sourceTree"
  return [("schemaVersion", .int 1), ("kind", text "accepted-source-base-refresh"),
    ("repository", text Refresh.repository), ("workflow", text Refresh.workflow),
    ("ref", text Refresh.mainRef), ("controlCommit", .str job.controlCommit),
    ("runId", .int job.runId), ("runAttempt", .int job.runAttempt), ("policySha256", .str policySha),
    ("sourceCommit", commit), ("sourceTree", tree), ("profile", text job.profile.name),
    ("imageTag", text job.profile.imageTag), ("channels", .arr (job.profile.channels.map text)),
    ("baseImage", .str job.base), ("baseVersion", .str job.version), ("kernel", .str kernel),
    ("image", identityOf image), ("sbomSha256", .str sbomHash)]

/-- `active_policy(root, data)`. -/
def activePolicy (root : Tree) (data : Bytes) : Except Exn Unit := do
  let requested ← decode (← read sizeLimit
    (root "system_files/usr/share/bazzite-tower/containers/policy.json"))
  let current ← decode data
  let reject := Json.arr [object [("type", text "reject")]]
  let default ← requested.subscript "default"
  require ((← current.get "default").pyEq default && default.pyEq reject)
    "active policy global default substitution"
  let docker ← getOr (.obj []) "docker" (← getOr (.obj []) "transports" current)
  let expected := Json.arr [object [("type", text "sigstoreSigned"),
    ("keyPath", text "/etc/pki/containers/bazzite-tower-cosign.pub"),
    ("signedIdentity", object [("type", text "matchRepository")])]]
  let scope ← (← (← requested.subscript "transports").subscript "docker").subscript dest
  require ((← docker.get dest).pyEq scope && scope.pyEq expected)
    "active policy repository identity substitution"
  require (!(← docker.items).any fun m => dest.toList.isPrefixOf m.1 && m.1 ≠ dest.toList &&
    [':', '@', '/'].any fun c => m.1.drop dest.toList.length |>.head? |>.any (· = c))
    "active policy more-specific repository override"

/-! ## The checks -/

/-- `FILES`, sorted. -/
def files : List String :=
  ["build-provenance.json", "image.oci.tar", "installed.json", "rpms.tsv", "sbom.json"]

def limitOf (name : String) : ℕ :=
  if name = "image.oci.tar" then 40 * 1024 ^ 3 else sizeLimit

section Validate
variable (parseCreated : Json → Except Exn Json) (isDecimal : Char → Bool)
  (readTar : Bytes → Except Exn (List Member))

/-- The installed native programs of the system product. -/
def checkManifest (p installed : Json) (kind binary source : String) : Except Exn Unit := do
  let manifest ← installed.subscript kind
  require ((← equals manifest "profile" (text "system")) &&
    (← manifest.subscript "source").pyEq (← p.subscript source)) "installed native source substitution"
  let program ← manifest.subscript "binary"
  require (← equals program "path" (text binary)) "installed native binary path substitution"
  hexValue 64 (← program.subscript "sha256")

/-- The checks of `installed.json`. -/
def checkInstalled (p : Json) (job : Job) (installed : Json) : Except Exn Unit := do
  let trust ← trustFiles.mapM fun t => do return (t.1, Json.str (← fileSha (job.root t.2)))
  require ((← equals installed "profile" (text job.profile.name)) &&
    (← equals installed "trust" (object trust))) "installed profile/trust mismatch"
  require (← hasKeys (["profile", "trust", "activePolicy", "activePolicySha256"] ++
    match job.profile with
    | .system => ["bridge", "daemon"]
    | .legacy => []) installed) "invalid installed evidence inventory"
  let raw ← match ← installed.subscript "activePolicy" with
    | .str s => .ok (Text.encode s)
    | _ => .error (.raised .attribute "object has no attribute 'encode'")
  require (← equals installed "activePolicySha256" (.str (sha256 raw)))
    "active installed policy hash mismatch"
  activePolicy job.root raw
  if job.profile = .system then
    checkManifest p installed "bridge" "/usr/bin/snitchwatch-bridge-cli" "nativeSource"
    checkManifest p installed "daemon" "/usr/bin/opensnitchd" "daemonSource"
    let patch ← (← installed.subscript "daemon").subscript "patch"
    require ((← patch.subscript "sha256").pyEq (← p.subscript "daemonPatchSha256"))
      "installed daemon patch substitution"

/-- The text of a string of the policy. -/
def stringOf : Json → Except Exn Text
  | .str s => .ok s
  | _ => .error (.raised .type "expected a string")

/-- What loading the image and looking into it adds, given the proof, the installed
evidence and the inventory. -/
abbrev Execute := List (String × Json) → Json → List Inventory.Rpm → Except Exn Unit

/-- Not executing the image. -/
def dataOnly : Execute := fun _ _ _ => .ok ()

/-- `validate(root, data, profile, base, version)`: the proof and the hashes. -/
def validate (execute : Execute) (job : Job) (d : Directory) :
    Except Exn (List (String × Json) × List (String × Text)) := do
  let p ← Refresh.policy parseCreated (← decode (← read sizeLimit (job.root policyPath)))
  require (d.entries.all (fun e => files.contains e.1) && files.all fun n => (d.file n).isSome)
    "unexpected artifact inventory"
  require (d.entries.all fun e => e.2.kind = .regular && e.2.data.length ≤ limitOf e.1)
    "unsafe/oversized artifact"
  let records ← Inventory.parseInventory isDecimal (← read (limitOf "rpms.tsv") (d.file "rpms.tsv"))
  let created ← stringOf (← p.subscript "sourceCreated")
  let sbom ← read sizeLimit (d.file "sbom.json")
  require ((← decode sbom).pyEq (Inventory.makeDocument records created)) "RPM/SPDX substitution"
  let archive ← read (limitOf "image.oci.tar") (d.file "image.oci.tar")
  let proof ← evidence p job (← imageIdentity readTar archive) (sha256 sbom)
    (← inventoryKernel records)
  let raw ← read sizeLimit (d.file "installed.json")
  let installed ← decode raw
  checkInstalled p job installed
  let proof := proof ++ [("installedSha256", .str (sha256 raw))]
  let provenance ← read sizeLimit (d.file "build-provenance.json")
  require ((← decode provenance).pyEq (object proof)) "base/source/profile/provenance substitution"
  execute proof installed records
  let hashes ← files.mapM fun name => do return (name, ← fileSha (d.file name))
  return (proof, hashes)

/-- `json.dumps(hashes, separators=(',', ':'))`, which the validating job puts out. -/
def dumpsHashes (hashes : List (String × Text)) : Text :=
  Json.dumpsStrings (hashes.map fun h => (h.1.toList, h.2))

/-- `revalidate`, with what the validating job put out. -/
def revalidate (job : Job) (validatedHashes validatedDigest : Text) (d : Directory) :
    Except Exn (List (String × Json)) := do
  let (proof, hashes) ← validate parseCreated isDecimal readTar dataOnly job d
  require ((object (hashes.map fun h => (h.1, .str h.2))).pyEq
    (← decode (Text.encode validatedHashes))) "validated artifact bytes changed"
  let image ← (object proof).subscript "image"
  require ((← image.subscript "manifestDigest").pyEq (.str validatedDigest)) "validated digest changed"
  return proof

end Validate

/-! ## What equal values have in common -/

/-- A member of an object is found in every decoded value that equals the object. -/
theorem exists_find_of_pyEq {v w : Json} {ns : Fields} {k : Text} (hv : Json.Distinct v)
    (h : v.pyEq (.obj ns)) (hk : Json.find k ns = some w) :
    ∃ ms u, v = .obj ms ∧ Json.find k ms = some u ∧ u.pySame w ∧ Json.Distinct u := by
  cases hv with
  | scalar hs => cases v <;> simp [Json.isScalar, Json.pyEq, Json.number] at hs h
  | arr hs => simp [Json.pyEq, Json.number] at h
  | @obj ms hnodup hs =>
    obtain ⟨_, hns, hmembers⟩ := Json.pyEq_obj h
    obtain rfl := Json.obj.inj hns
    have hlength : ms.length = ns.length := by
      rw [Json.pyEq, Bool.and_eq_true, beq_iff_eq] at h
      exact h.1
    have hsubset : ms.map Prod.fst ⊆ ns.map Prod.fst := by
      intro key hkey
      obtain ⟨m, hm, rfl⟩ := List.mem_map.mp hkey
      obtain ⟨v', hv', -⟩ := Json.pyEqMembers_find hmembers (Json.find_eq_some_of_mem hnodup hm)
      exact List.mem_map.mpr ⟨_, Json.mem_of_find hv', rfl⟩
    have hperm : (ms.map Prod.fst).Perm (ns.map Prod.fst) :=
      (List.subperm_of_subset hnodup hsubset).perm_of_length_le (by simp [hlength])
    obtain ⟨m, hm, rfl⟩ := List.mem_map.mp
      (hperm.symm.subset (List.mem_map.mpr ⟨_, Json.mem_of_find hk, rfl⟩))
    have hfind := Json.find_eq_some_of_mem hnodup hm
    obtain ⟨w', hw', heq⟩ := Json.pyEqMembers_find hmembers hfind
    obtain rfl : w' = w := Option.some.inj (hw'.symm.trans hk)
    exact ⟨ms, m.2, rfl, hfind, heq, hs m hm⟩

theorem distinct_of_decode {data : Bytes} {v : Json} (h : decode data = .ok v) : Json.Distinct v := by
  obtain ⟨_, -, h⟩ := Except.bind_eq_ok.mp h
  exact Json.distinct_of_loadsHook (decoded_eq_ok.mp h)

/-- Two equal decoded values carry equal values for what both owe to an object. -/
theorem values_of_pyEq {v w s t : Json} {ms ns : Fields} {k : Text} (hv : Json.Distinct v)
    (hw : Json.Distinct w) (hvw : v.pyEq w) (hms : v.pyEq (.obj ms)) (hns : w.pyEq (.obj ns))
    (hs : Json.find k ms = some s) (ht : Json.find k ns = some t) :
    ∃ a b, a.pySame b ∧ a.pySame s ∧ b.pySame t ∧ Json.Distinct a ∧ Json.Distinct b := by
  obtain ⟨vs, a, rfl, ha, has, hda⟩ := exists_find_of_pyEq hv hms hs
  obtain ⟨ws, b, rfl, hb, hbt, hdb⟩ := exists_find_of_pyEq hw hns ht
  obtain ⟨_, hws, hmembers⟩ := Json.pyEq_obj hvw
  obtain rfl := Json.obj.inj hws
  obtain ⟨x, hx, hax⟩ := Json.pyEqMembers_find hmembers ha
  obtain rfl : b = x := Option.some.inj (hb.symm.trans hx)
  exact ⟨a, b, hax, has, hbt, hda, hdb⟩

/-- In particular the same string. -/
theorem string_eq_of_pyEq {v w : Json} {ms ns : Fields} {k s t : Text} (hv : Json.Distinct v)
    (hw : Json.Distinct w) (hvw : v.pyEq w) (hms : v.pyEq (.obj ms)) (hns : w.pyEq (.obj ns))
    (hs : Json.find k ms = some (.str s)) (ht : Json.find k ns = some (.str t)) : s = t := by
  obtain ⟨a, b, hab, has, hbt, -, -⟩ := values_of_pyEq hv hw hvw hms hns hs ht
  rw [Json.pySame_str, Json.pyEq_of_str] at has hbt
  rw [has, hbt, Json.pySame_str, Json.pyEq_str, Json.str.injEq] at hab
  exact hab.symm

/-- One decoded value carries only one string. -/
theorem string_unique {v : Json} {ms ns : Fields} {k s t : Text} (hv : Json.Distinct v)
    (hms : v.pyEq (.obj ms)) (hns : v.pyEq (.obj ns)) (hs : Json.find k ms = some (.str s))
    (ht : Json.find k ns = some (.str t)) : s = t := by
  obtain ⟨vs, a, rfl, ha, has, -⟩ := exists_find_of_pyEq hv hms hs
  obtain ⟨ws, b, hws, hb, hbt, -⟩ := exists_find_of_pyEq hv hns ht
  obtain rfl := Json.obj.inj hws
  obtain rfl := Option.some.inj (ha.symm.trans hb)
  rw [Json.pySame_str, Json.pyEq_of_str] at has hbt
  exact Json.str.inj (has.symm.trans hbt)

/-! ## The binding -/

/-- The bytes of a file. -/
def Directory.bytes (d : Directory) (name : String) : Bytes := ((d.file name).map Entry.data).getD []

section Binding
variable (parseCreated : Json → Except Exn Json) (isDecimal : Char → Bool)
  (readTar : Bytes → Except Exn (List Member))

/-- `p['sourceCreated']`. -/
def createdOf (job : Job) : Except Exn Text := do
  let p ← Refresh.policy parseCreated (← decode (← read sizeLimit (job.root policyPath)))
  stringOf (← p.subscript "sourceCreated")

/-- The members of a proof. -/
def members (proof : List (String × Json)) : Fields := proof.map fun m => (m.1.toList, m.2)

/-- What a check of the artifact establishes. -/
structure Accepted (job : Job) (d : Directory) (proof : List (String × Json))
    (hashes : List (String × Text)) (records : List Inventory.Rpm) (time selected : Text)
    (spdx attested : Json) : Prop where
  inventory : Inventory.parseInventory isDecimal (d.bytes "rpms.tsv") = .ok records
  created : createdOf parseCreated job = .ok time
  document : decode (d.bytes "sbom.json") = .ok spdx
  documents : spdx.pyEq (Inventory.makeDocument records time)
  image : imageIdentity readTar (d.bytes "image.oci.tar") = .ok selected
  identity : Json.find "image".toList (members proof) = some (identityOf selected)
  sbom : Json.find "sbomSha256".toList (members proof) = some (.str (sha256 (d.bytes "sbom.json")))
  installed : Json.find "installedSha256".toList (members proof) =
    some (.str (sha256 (d.bytes "installed.json")))
  provenance : decode (d.bytes "build-provenance.json") = .ok attested
  proves : attested.pyEq (.obj (members proof))
  hashes : hashes = files.map fun name => (name, sha256 (d.bytes name))

variable {parseCreated isDecimal readTar}

theorem bytes_of_read {limit : ℕ} {d : Directory} {name : String} {data : Bytes}
    (h : read limit (d.file name) = .ok data) : d.bytes name = data := by
  unfold read at h
  split at h
  · obtain ⟨_, -, h⟩ := Except.bind_eq_ok.mp h
    rename_i hfile _ _
    rw [Directory.bytes, hfile]
    exact Except.ok.inj h
  · cases h

theorem bytes_of_fileSha {d : Directory} {name : String} {digest : Text}
    (h : fileSha (d.file name) = .ok digest) : digest = sha256 (d.bytes name) := by
  unfold fileSha at h
  split at h
  · rename_i hfile
    rw [Directory.bytes, hfile]
    exact (Except.ok.inj h).symm
  · cases h

theorem find_members (key : String) (proof : List (String × Json)) :
    Json.find key.toList (members proof) = proof.lookup key := by
  induction proof with
  | nil => rfl
  | cons m proof ih =>
    by_cases h : m.1 = key
    · simp [members, Json.find, List.lookup, h]
    · have hbeq : (key == m.1) = false := beq_false_of_ne (Ne.symm h)
      rw [List.lookup, hbeq, ← ih]
      simp [members, Json.find, String.toList_inj, h]

/-- The evidence ends with the image and the digest of the document. -/
theorem find_of_evidence {p : Json} {job : Job} {image sbomHash kernel : Text}
    {proof : List (String × Json)} (h : evidence p job image sbomHash kernel = .ok proof)
    (digest : Text) :
    Json.find "image".toList (members (proof ++ [("installedSha256", .str digest)])) =
        some (identityOf image) ∧
      Json.find "sbomSha256".toList (members (proof ++ [("installedSha256", .str digest)])) =
        some (.str sbomHash) ∧
      Json.find "installedSha256".toList (members (proof ++ [("installedSha256", .str digest)])) =
        some (.str digest) := by
  simp only [evidence, Except.bind_eq_ok] at h
  obtain ⟨_, -, _, -, _, -, _, -, _, -, _, -, _, -, _, -, _, -, _, -, _, -, _, -, h⟩ := h
  obtain rfl := Except.ok.inj h
  rw [find_members, find_members, find_members]
  simp [List.lookup]

theorem mapM_eq_ok {α β : Type} {f : α → Except Exn β} {g : α → β} {xs : List α} {ys : List β}
    (hf : ∀ x y, f x = .ok y → y = g x) (h : xs.mapM f = .ok ys) : ys = xs.map g := by
  induction xs generalizing ys with
  | nil => exact (Except.ok.inj h).symm
  | cons x xs ih =>
    rw [List.mapM_cons, Except.bind_eq_ok] at h
    obtain ⟨y, hy, h⟩ := h
    obtain ⟨zs, hzs, h⟩ := Except.bind_eq_ok.mp h
    obtain rfl := Except.ok.inj h
    rw [hf x y hy, ih hzs, List.map_cons]

theorem mapM_of_ok {α β : Type} {f : α → Except Exn β} {g : α → β} {xs : List α}
    (h : ∀ x ∈ xs, f x = .ok (g x)) : xs.mapM f = .ok (xs.map g) := by
  induction xs with
  | nil => rfl
  | cons x xs ih =>
    have hxs := ih fun y hy => h y (List.mem_cons_of_mem x hy)
    simp [List.mapM_cons, h x, hxs, bind, Except.bind, pure, Except.pure]

theorem accepted_of_validate {execute : Execute} {job : Job} {d : Directory}
    {proof : List (String × Json)} {hashes : List (String × Text)}
    (h : validate parseCreated isDecimal readTar execute job d = .ok (proof, hashes)) :
    ∃ records time selected spdx attested, Accepted parseCreated isDecimal readTar job d proof
      hashes records time selected spdx attested := by
  simp only [validate, Except.bind_eq_ok, Refresh.require_eq_ok] at h
  obtain ⟨data, hdata, value, hvalue, p, hp, _, -, _, -, table, htable, records, hrecords, created,
    hcreated, time, htime, sbom, hsbom, spdx, hspdx, _, hdocument, archive, harchive, selected, himage,
    kernel, -, start, hevidence, raw, hraw, installed, -, _, -, provenance, hprovenance, attested,
    hattested, _, hproof, _, -, digests, hdigests, h⟩ := h
  obtain ⟨rfl, rfl⟩ := Prod.mk.inj (Except.ok.inj h)
  obtain rfl := bytes_of_read htable
  obtain rfl := bytes_of_read hsbom
  obtain rfl := bytes_of_read harchive
  obtain rfl := bytes_of_read hraw
  obtain rfl := bytes_of_read hprovenance
  obtain ⟨hidentity, hsbomDigest, hinstalled⟩ := find_of_evidence hevidence
    (sha256 (d.bytes "installed.json"))
  have htime' : createdOf parseCreated job = .ok time := by
    simp [createdOf, hdata, hvalue, hp, hcreated, htime, bind, Except.bind]
  have hhashes : digests = files.map fun name => (name, sha256 (d.bytes name)) := by
    apply mapM_eq_ok _ hdigests
    intro name entry hentry
    obtain ⟨digest, hdigest, hentry⟩ := Except.bind_eq_ok.mp hentry
    rw [← Except.ok.inj hentry, bytes_of_fileSha hdigest]
  exact ⟨records, time, selected, spdx, attested, hrecords, htime', hspdx, hdocument, himage,
    hidentity, hsbomDigest, hinstalled, hattested, hproof, hhashes⟩

/-! ### Digests -/

/-- What is hashed for two artifacts, their files and the text of their inventories, has
one digest in the same place only if it is the same. -/
structure CollisionFree (parseCreated : Json → Except Exn Json) (isDecimal : Char → Bool) (job : Job)
    (A B : Directory) : Prop where
  bytes : ∀ name ∈ files, sha256 (A.bytes name) = sha256 (B.bytes name) → A.bytes name = B.bytes name
  inventory : ∀ created a b, createdOf parseCreated job = .ok created →
    Inventory.parseInventory isDecimal (A.bytes "rpms.tsv") = .ok a →
    Inventory.parseInventory isDecimal (B.bytes "rpms.tsv") = .ok b →
    sha256 (Text.encode (Inventory.canonical a created)) =
      sha256 (Text.encode (Inventory.canonical b created)) →
    Text.encode (Inventory.canonical a created) = Text.encode (Inventory.canonical b created)

/-- The provenance of both decodes to the same object. -/
def SameProvenance (A B : Directory) : Prop :=
  ∃ v w, decode (A.bytes "build-provenance.json") = .ok v ∧
    decode (B.bytes "build-provenance.json") = .ok w ∧ v.pyEq w

/-- What the provenance is evidence of. -/
structure SameEvidence (isDecimal : Char → Bool) (readTar : Bytes → Except Exn (List Member))
    (A B : Directory) : Prop where
  inventory : Inventory.parseInventory isDecimal (A.bytes "rpms.tsv") =
    Inventory.parseInventory isDecimal (B.bytes "rpms.tsv")
  sbom : A.bytes "sbom.json" = B.bytes "sbom.json"
  installed : A.bytes "installed.json" = B.bytes "installed.json"
  image : imageIdentity readTar (A.bytes "image.oci.tar") =
    imageIdentity readTar (B.bytes "image.oci.tar")

section Pair
variable {job : Job} {A B : Directory} {proofA proofB : List (String × Json)}
  {hashesA hashesB : List (String × Text)} {recordsA recordsB : List Inventory.Rpm}
  {timeA timeB selectedA selectedB : Text} {spdxA spdxB attestedA attestedB : Json}

/-- Two accepted artifacts with one provenance agree on a digest that it carries. -/
theorem sha_eq_of_sameProvenance
    (hA : Accepted parseCreated isDecimal readTar job A proofA hashesA recordsA timeA selectedA spdxA
      attestedA)
    (hB : Accepted parseCreated isDecimal readTar job B proofB hashesB recordsB timeB selectedB spdxB
      attestedB)
    (hsame : SameProvenance A B) {key : String} {s t : Text}
    (hs : Json.find key.toList (members proofA) = some (.str s))
    (ht : Json.find key.toList (members proofB) = some (.str t)) : s = t := by
  obtain ⟨v, w, hv, hw, hvw⟩ := hsame
  obtain rfl := Except.ok.inj (hA.provenance.symm.trans hv)
  obtain rfl := Except.ok.inj (hB.provenance.symm.trans hw)
  exact string_eq_of_pyEq (distinct_of_decode hv) (distinct_of_decode hw) hvw hA.proves hB.proves hs ht

/-- They agree on the manifest. -/
theorem selected_eq_of_sameProvenance
    (hA : Accepted parseCreated isDecimal readTar job A proofA hashesA recordsA timeA selectedA spdxA
      attestedA)
    (hB : Accepted parseCreated isDecimal readTar job B proofB hashesB recordsB timeB selectedB spdxB
      attestedB)
    (hsame : SameProvenance A B) : selectedA = selectedB := by
  obtain ⟨v, w, hv, hw, hvw⟩ := hsame
  obtain rfl := Except.ok.inj (hA.provenance.symm.trans hv)
  obtain rfl := Except.ok.inj (hB.provenance.symm.trans hw)
  obtain ⟨a, b, hab, ha, hb, hda, hdb⟩ := values_of_pyEq (distinct_of_decode hv)
    (distinct_of_decode hw) hvw hA.proves hB.proves hA.identity hB.identity
  have hfind (selected : Text) : ∃ ms, identityOf selected = .obj ms ∧
      Json.find "manifestDigest".toList ms = some (.str selected) :=
    ⟨_, rfl, (find_members "manifestDigest" _).trans rfl⟩
  obtain ⟨ms, hms, hselectedA⟩ := hfind selectedA
  obtain ⟨ns, hns, hselectedB⟩ := hfind selectedB
  rw [hms, Json.pySame_obj] at ha
  rw [hns, Json.pySame_obj] at hb
  obtain ⟨bs, _, rfl, -⟩ := exists_find_of_pyEq hdb hb hselectedB
  rw [Json.pySame_obj] at hab
  exact string_eq_of_pyEq hda hdb hab ha hb hselectedA hselectedB

/-- The document of an inventory carries the digest of the inventory. -/
theorem records_eq_of_sbom_eq
    (hA : Accepted parseCreated isDecimal readTar job A proofA hashesA recordsA timeA selectedA spdxA
      attestedA)
    (hB : Accepted parseCreated isDecimal readTar job B proofB hashesB recordsB timeB selectedB spdxB
      attestedB)
    (hfree : CollisionFree parseCreated isDecimal job A B)
    (hsbom : A.bytes "sbom.json" = B.bytes "sbom.json") : recordsA = recordsB := by
  obtain rfl : timeA = timeB := Except.ok.inj (hA.created.symm.trans hB.created)
  have hspdx : decode (A.bytes "sbom.json") = .ok spdxB := hsbom ▸ hB.document
  obtain rfl : spdxA = spdxB := Except.ok.inj (hA.document.symm.trans hspdx)
  have hfind (records : List Inventory.Rpm) : ∃ ms, Inventory.makeDocument records timeA = .obj ms ∧
      Json.find "documentNamespace".toList ms = some (.str (Inventory.namespaceOf records timeA)) :=
    ⟨_, rfl, (find_members "documentNamespace" _).trans rfl⟩
  obtain ⟨ms, hms, hnamespaceA⟩ := hfind recordsA
  obtain ⟨ns, hns, hnamespaceB⟩ := hfind recordsB
  have hnamespace := string_unique (distinct_of_decode hA.document) (hms ▸ hA.documents)
    (hns ▸ hB.documents) hnamespaceA hnamespaceB
  have hcanonical := hfree.inventory _ _ _ hA.created hA.inventory hB.inventory
    (List.append_cancel_left hnamespace)
  exact Inventory.canonical_injective (Inventory.tabular_parseInventory hA.inventory)
    (Inventory.tabular_parseInventory hB.inventory) (Text.encode_injective hcanonical)

/-- Two accepted artifacts with one provenance are evidence of one build. -/
theorem sameEvidence_of_sameProvenance
    (hA : Accepted parseCreated isDecimal readTar job A proofA hashesA recordsA timeA selectedA spdxA
      attestedA)
    (hB : Accepted parseCreated isDecimal readTar job B proofB hashesB recordsB timeB selectedB spdxB
      attestedB)
    (hfree : CollisionFree parseCreated isDecimal job A B)
    (hsame : SameProvenance A B) : SameEvidence isDecimal readTar A B := by
  have hsbom := hfree.bytes _ (by decide) (sha_eq_of_sameProvenance hA hB hsame hA.sbom hB.sbom)
  have hinstalled := hfree.bytes _ (by decide)
    (sha_eq_of_sameProvenance hA hB hsame hA.installed hB.installed)
  refine ⟨?_, hsbom, hinstalled, ?_⟩
  · rw [hA.inventory, hB.inventory, records_eq_of_sbom_eq hA hB hfree hsbom]
  · rw [hA.image, hB.image, selected_eq_of_sameProvenance hA hB hsame]

end Pair

/-- What the validating job puts out decodes to its hashes. -/
theorem decode_dumpsHashes {hashes : List (String × Text)} {v : Json} (hne : hashes ≠ [])
    (h : decode (Text.encode (dumpsHashes hashes)) = .ok v) :
    v = object (hashes.map fun h => (h.1, .str h.2)) := by
  obtain ⟨_, -, h⟩ := Except.bind_eq_ok.mp h
  have hload := decoded_eq_ok.mp h
  rw [dumpsHashes, Json.loadsHook_dumpsStrings (by simpa using hne)] at hload
  unfold Json.uniqueKeys at hload
  split at hload
  · rw [← Except.ok.inj hload]
    simp [Json.ofStrings, object, Function.comp_def]
  · cases hload

/-- The published artifact has the files whose hashes the validating job put out. -/
theorem bytes_eq_of_revalidate {job : Job} {A B : Directory} {proofB : List (String × Json)}
    {digest : Text}
    (hfree : CollisionFree parseCreated isDecimal job A B)
    (h : revalidate parseCreated isDecimal readTar job
      (dumpsHashes (files.map fun name => (name, sha256 (A.bytes name)))) digest B = .ok proofB) :
    ∀ name ∈ files, A.bytes name = B.bytes name := by
  simp only [revalidate, Except.bind_eq_ok, Refresh.require_eq_ok] at h
  obtain ⟨⟨proof, hashes⟩, hvalid, v, hv, _, hhashes, -⟩ := h
  obtain ⟨_, _, _, _, _, hB⟩ := accepted_of_validate hvalid
  obtain rfl := decode_dumpsHashes (by simp [files]) hv
  intro name hname
  have hfind {d : Directory} : Json.find name.toList
      (members ((files.map fun n => (n, sha256 (d.bytes n))).map fun h => (h.1, Json.str h.2))) =
        some (.str (sha256 (d.bytes name))) := by
    rw [find_members, List.map_map]
    exact List.lookup_graph (fun n => Json.str (sha256 (d.bytes n))) hname
  obtain ⟨_, hobj, hmembers⟩ := Json.pyEq_obj hhashes
  obtain ⟨w, hw, heq⟩ := Json.pyEqMembers_find hmembers (hB.hashes ▸ hfind)
  obtain rfl := Json.obj.inj hobj
  obtain rfl := Option.some.inj (hfind.symm.trans hw)
  rw [Json.str_pySame, Json.pyEq_str, Json.str.injEq] at heq
  exact hfree.bytes name hname heq

/-- The provenance of an accepted artifact determines the inventory, the document, the
evidence of the installed product and the image.  What the publisher accepts has in
every file the bytes that the validating job saw. -/
theorem evidence_bound {execute : Execute} {job : Job} {A B : Directory}
    {proof : List (String × Json)} {hashes : List (String × Text)}
    (hA : validate parseCreated isDecimal readTar execute job A = .ok (proof, hashes))
    (hfree : CollisionFree parseCreated isDecimal job A B) :
    (∀ execute' proof' hashes',
        validate parseCreated isDecimal readTar execute' job B = .ok (proof', hashes') →
          SameProvenance A B → SameEvidence isDecimal readTar A B) ∧
      ∀ digest proof', revalidate parseCreated isDecimal readTar job (dumpsHashes hashes) digest B =
          .ok proof' →
        SameEvidence isDecimal readTar A B ∧ ∀ name ∈ files, A.bytes name = B.bytes name := by
  obtain ⟨_, _, _, _, _, hA⟩ := accepted_of_validate hA
  constructor
  · intro execute' proof' hashes' hB hsame
    obtain ⟨_, _, _, _, _, hB⟩ := accepted_of_validate hB
    exact sameEvidence_of_sameProvenance hA hB hfree hsame
  · intro digest proof' hB
    have hbytes := bytes_eq_of_revalidate hfree (hA.hashes ▸ hB)
    refine ⟨⟨?_, ?_, ?_, ?_⟩, hbytes⟩
    all_goals rw [hbytes _ (by decide)]

end Binding

/-! ## A sample -/

/-- A number in the header of an archive member. -/
def octal (width n : ℕ) : Bytes :=
  (List.range width).reverse.map fun i => UInt8.ofNat (48 + n / 8 ^ i % 8)

/-- The header of a regular file, with this checksum field. -/
def ustarHeader (name : Text) (size : ℕ) (checksum : Bytes) : Bytes :=
  let field (width : ℕ) (data : Bytes) : Bytes := data ++ List.replicate (width - data.length) 0
  field 100 (Text.encode name) ++ field 8 (octal 7 0o644) ++ field 8 (octal 7 0) ++
    field 8 (octal 7 0) ++ field 12 (octal 11 size) ++ field 12 (octal 11 0) ++ checksum ++
    [48] ++ List.replicate 100 0 ++ Text.encode "ustar".toList ++ [0, 48, 48] ++
    List.replicate 247 0

/-- An archive with these regular files. -/
def ustar (files : List (Text × Bytes)) : Bytes :=
  files.flatMap fun f =>
    let sum := ((ustarHeader f.1 f.2.length (List.replicate 8 32)).map UInt8.toNat).sum
    ustarHeader f.1 f.2.length (octal 6 sum ++ [0, 32]) ++ f.2 ++
      List.replicate ((512 - f.2.length % 512) % 512) 0

/-- A reader of such archives, which knows regular files and directories. -/
def readUstar : ℕ → Bytes → Except Exn (List Member)
  | 0, _ | _, [] => .ok []
  | fuel + 1, data =>
    let name := (data.take 100).takeWhile (· ≠ 0)
    let size := ((data.drop 124).take 11).foldl (fun n b => 8 * n + (b.toNat - 48)) 0
    let kind := if (data.drop 156).head? = some 53 then FileKind.directory else .regular
    (readUstar fuel ((data.drop 512).drop (512 * ((size + 511) / 512)))).map fun members =>
      ⟨name.map fun b => Char.ofNat b.toNat, kind, (data.drop 512).take size⟩ :: members

def compact (v : Json) : Bytes := Text.encode (Json.render none 0 v)

def fileOf (data : Bytes) : Entry := ⟨.regular, data⟩

theorem decode_compact {v : Json} (hv : Json.Written Json.recursionLimit v)
    (hsize : (compact v).length ≤ sizeLimit) : decode (compact v) = .ok v := by
  have hends : Json.EndsNumber [] := by simp [Json.EndsNumber]
  have hskip := Json.skipSpace_render hv none 0 []
  have hvalue := Json.readValue_render Json.keepsDistinct_uniqueKeys none 0 v hv hends
    (Nat.le_succ (Json.render none 0 v).length)
  rw [List.append_nil] at hskip hvalue
  have hread : Json.loadsHook Json.uniqueKeys (compact v) = .ok v := by
    rw [Json.loadsHook, compact, Json.decodeDetected_encode (Json.sevenBit_render none 0 v hv)]
    simp only [Json.readDocument, hskip, hvalue]
    rfl
  rw [decode, hread]
  simp [hsize, bind, Except.bind]
  rfl

theorem read_fileOf {limit : ℕ} {data : Bytes} (h : data.length ≤ limit) :
    read limit (some (fileOf data)) = .ok data := by
  simp [read, fileOf, h, bind, Except.bind, Refresh.require]
  rfl

def sampleConfig : Bytes :=
  compact (object [("architecture", text "amd64"), ("os", text "linux")])

def shaOf (data : Bytes) : Json := .str ("sha256:".toList ++ sha256 data)

def sampleManifest : Bytes :=
  compact (object [("mediaType", text "application/vnd.oci.image.manifest.v1+json"),
    ("config", object [("digest", shaOf sampleConfig), ("size", .int sampleConfig.length)]),
    ("layers", .arr [])])

def sampleIndex : Bytes :=
  compact (object [("schemaVersion", .int 2), ("manifests", .arr
    [object [("digest", shaOf sampleManifest), ("size", .int sampleManifest.length)]])])

def blobFile (data : Bytes) : Text × Bytes := ("blobs/sha256/".toList ++ sha256 data, data)

def sampleImage : Bytes :=
  ustar [("oci-layout".toList, compact (object [("imageLayoutVersion", text "1.0.0")])),
    ("index.json".toList, sampleIndex), blobFile sampleManifest, blobFile sampleConfig]

def sampleScope : Json := .arr [object [("type", text "sigstoreSigned"),
  ("keyPath", text "/etc/pki/containers/bazzite-tower-cosign.pub"),
  ("signedIdentity", object [("type", text "matchRepository")])]]

def samplePolicy : Bytes :=
  compact (object [("default", .arr [object [("type", text "reject")]]),
    ("transports", object [("docker", object [(dest, sampleScope)])])])

/-- A control checkout with the reviewed policy. -/
def sampleTree : Tree := fun path =>
  if path = policyPath then some (fileOf (compact Refresh.reviewedPolicy))
  else if path = "cosign.pub" then some (fileOf [1])
  else if path = "system_files/usr/share/bazzite-tower/containers/policy.json" then
    some (fileOf samplePolicy)
  else if path = "system_files/usr/share/bazzite-tower/containers/registries.d/bazzite-tower.yaml"
    then some (fileOf [2])
  else none

def sampleJob : Job where
  root := sampleTree
  controlCommit := "8c1f".toList
  runId := 7
  runAttempt := 1
  profile := .legacy
  base := (Refresh.upstream ++ "@sha256:").toList ++ List.replicate 64 '0'
  version := "44.20261103".toList

def sampleRecord : Inventory.Rpm where
  name := "kernel-core".toList
  epoch := ['0']
  version := "7.2.9".toList
  release := "ogc3.1.fc44".toList
  arch := "x86_64".toList

def sampleSbom : Bytes :=
  compact (Inventory.makeDocument [sampleRecord] "2026-11-07T01:33:27Z".toList)

def sampleInstalled : Bytes :=
  compact (object [("profile", text "legacy"),
    ("trust", object [("cosign.pub", .str (sha256 [1])), ("policy.json", .str (sha256 samplePolicy)),
      ("bazzite-tower.yaml", .str (sha256 [2]))]),
    ("activePolicy", .str (samplePolicy.map fun b => Char.ofNat b.toNat)),
    ("activePolicySha256", .str (sha256 samplePolicy))])

def sampleProof : List (String × Json) :=
  [("schemaVersion", .int 1), ("kind", text "accepted-source-base-refresh"),
    ("repository", text Refresh.repository), ("workflow", text Refresh.workflow),
    ("ref", text Refresh.mainRef), ("controlCommit", .str sampleJob.controlCommit),
    ("runId", .int 7), ("runAttempt", .int 1),
    ("policySha256", text "9f43a456c4e9c0f9ecfb472969ba78976e64365a6c00267185f861ef9fa42f45"),
    ("sourceCommit", text "07f48addb866ce74797ba620f7883ee4b4271984"),
    ("sourceTree", text "6b879cdb58db1ae60e4c3b849164404fee34e8e2"), ("profile", text "legacy"),
    ("imageTag", text "latest"), ("channels", .arr [text "stable", text "latest"]),
    ("baseImage", .str sampleJob.base), ("baseVersion", text "44.20261103"),
    ("kernel", text "7.2.9-ogc3.1.fc44"),
    ("image", identityOf
      "sha256:378642c002d10af76e1b1333755436fe522bb8d91b1abf015007c18b0bfee281".toList),
    ("sbomSha256", text "864969e13038717cb55d14c3656a3dbd4c7811a12bea5a69afdd9e47038736f2"),
    ("installedSha256", text "b106c4b840a0de64c0d08728b6648ba2df7868cf012d093d59740a97d0d550fc")]

def sampleProvenance : Bytes := compact (object sampleProof)

/-- An artifact with these line ends in its inventory. -/
def sampleArtifact (lineEnd : List Char) : Directory where
  entries := [("build-provenance.json", fileOf sampleProvenance), ("image.oci.tar", fileOf sampleImage),
    ("installed.json", fileOf sampleInstalled), ("rpms.tsv", fileOf (Text.encode
      (['\t'].intercalate sampleRecord.fields ++ lineEnd))), ("sbom.json", fileOf sampleSbom)]
  nodup := by simp

/-- What the files of the sample weigh, their digests, and the checks of their contents. -/
theorem weights_sample :
    ((compact Refresh.reviewedPolicy).length ≤ sizeLimit ∧ sha256 (compact Refresh.reviewedPolicy) =
        "9f43a456c4e9c0f9ecfb472969ba78976e64365a6c00267185f861ef9fa42f45".toList) ∧
      (sampleSbom.length ≤ sizeLimit ∧ sha256 sampleSbom =
        "864969e13038717cb55d14c3656a3dbd4c7811a12bea5a69afdd9e47038736f2".toList) ∧
      (sampleInstalled.length ≤ sizeLimit ∧ sha256 sampleInstalled =
        "b106c4b840a0de64c0d08728b6648ba2df7868cf012d093d59740a97d0d550fc".toList) ∧
      sampleProvenance.length ≤ sizeLimit ∧ (sampleImage.length ≤ limitOf "image.oci.tar" ∧
        imageIdentity (readUstar 9) sampleImage =
          .ok "sha256:378642c002d10af76e1b1333755436fe522bb8d91b1abf015007c18b0bfee281".toList) :=
  ⟨by decide +kernel, by decide +kernel, by decide +kernel, by decide +kernel, by decide +kernel⟩

theorem written_sample : Json.Written Json.recursionLimit Refresh.reviewedPolicy ∧
    Json.Written Json.recursionLimit (object sampleProof) := by
  have hdigits : 1 < 10 ^ Json.maxDigits ∧ 7 < 10 ^ Json.maxDigits :=
    ⟨Nat.one_lt_pow (by decide) (by decide),
      (by decide : 7 < 10 ^ 1).trans_le (Nat.pow_le_pow_right (by decide) (by decide))⟩
  constructor
  · simp [Json.Written, Json.WrittenItems, Json.WrittenMembers, Refresh.reviewedPolicy, object, text,
      Json.recursionLimit, Refresh.profiles, Refresh.bootstrap, hdigits]
  · simp [Json.Written, Json.WrittenItems, Json.WrittenMembers, sampleProof, object, text, sampleJob,
      identityOf, Json.recursionLimit, hdigits]

theorem written_documents : Json.Written Json.recursionLimit
      (Inventory.makeDocument [sampleRecord] "2026-11-07T01:33:27Z".toList) ∧
    Json.Written Json.recursionLimit (object [("profile", text "legacy"),
      ("trust", object [("cosign.pub", .str (sha256 [1])), ("policy.json", .str (sha256 samplePolicy)),
        ("bazzite-tower.yaml", .str (sha256 [2]))]),
      ("activePolicy", .str (samplePolicy.map fun b => Char.ofNat b.toNat)),
      ("activePolicySha256", .str (sha256 samplePolicy))]) := by
  constructor
  · simp [Json.Written, Json.WrittenItems, Json.WrittenMembers, Inventory.makeDocument,
      Inventory.packageOf, Inventory.relationshipOf, object, text, Json.recursionLimit]
  · simp [Json.Written, Json.WrittenMembers, object, text, Json.recursionLimit]

theorem eq_of_policy {parseCreated : Json → Except Exn Json} {v p : Json}
    (h : Refresh.policy parseCreated v = .ok p) : p = v := by
  simp only [Refresh.policy] at h
  repeat obtain ⟨_, -, h⟩ := Except.bind_eq_ok.mp h
  exact (Except.ok.inj h).symm

theorem checks_sample : (Refresh.policy .ok Refresh.reviewedPolicy).isOk ∧
    inventoryKernel [sampleRecord] = .ok "7.2.9-ogc3.1.fc44".toList ∧
    immutableBase sampleJob.base = .ok () ∧
    (Refresh.baseVersion (text "44.20261023") = .ok [44, 20261023] ∧
      Refresh.baseVersion (.str sampleJob.version) = .ok [44, 20261103]) ∧
    Refresh.kernelVersion (text "7.2.9-ogc3.1.fc44") = .ok [7, 2, 9, 3, 1, 44] ∧
    checkInstalled Refresh.reviewedPolicy sampleJob (object [("profile", text "legacy"),
      ("trust", object [("cosign.pub", .str (sha256 [1])), ("policy.json", .str (sha256 samplePolicy)),
        ("bazzite-tower.yaml", .str (sha256 [2]))]),
      ("activePolicy", .str (samplePolicy.map fun b => Char.ofNat b.toNat)),
      ("activePolicySha256", .str (sha256 samplePolicy))]) = .ok () ∧
    (object sampleProof).pyEq (object sampleProof) ∧
    (Inventory.makeDocument [sampleRecord] "2026-11-07T01:33:27Z".toList).pyEq
      (Inventory.makeDocument [sampleRecord] "2026-11-07T01:33:27Z".toList) := by
  exact ⟨by decide +kernel, by decide +kernel, by decide +kernel, by decide +kernel, by decide +kernel,
    by decide +kernel, by decide +kernel, by decide +kernel⟩

theorem policy_reviewedPolicy : Refresh.policy .ok Refresh.reviewedPolicy = .ok Refresh.reviewedPolicy := by
  have h := checks_sample.1
  cases hp : Refresh.policy .ok Refresh.reviewedPolicy with
  | error e => rw [hp] at h; cases h
  | ok p => rw [eq_of_policy hp]

theorem evidence_sample : evidence Refresh.reviewedPolicy sampleJob
    "sha256:378642c002d10af76e1b1333755436fe522bb8d91b1abf015007c18b0bfee281".toList
    (sha256 sampleSbom) "7.2.9-ogc3.1.fc44".toList = .ok (sampleProof.take 19) := by
  obtain ⟨⟨-, hpolicy⟩, ⟨-, hsbom⟩, -⟩ := weights_sample
  obtain ⟨-, -, hbase, ⟨hminimum, hversion⟩, hkernel, -⟩ := checks_sample
  have hfile : fileSha (sampleJob.root policyPath) = .ok (sha256 (compact Refresh.reviewedPolicy)) := rfl
  have hmin : Refresh.reviewedPolicy.subscript "minimumBaseVersion" = .ok (text "44.20261023") ∧
      Refresh.reviewedPolicy.subscript "minimumKernel" = .ok (text "7.2.9-ogc3.1.fc44") ∧
      Refresh.reviewedPolicy.subscript "sourceCommit" =
        .ok (text "07f48addb866ce74797ba620f7883ee4b4271984") ∧
      Refresh.reviewedPolicy.subscript "sourceTree" =
        .ok (text "6b879cdb58db1ae60e4c3b849164404fee34e8e2") := by
    simp [Refresh.reviewedPolicy, object, Json.subscript, Json.find]
  have hle : ([44, 20261023] : List ℕ) ≤ [44, 20261103] := by decide
  change Refresh.kernelVersion (.str "7.2.9-ogc3.1.fc44".toList) = _ at hkernel
  simp only [evidence, hbase, hversion, hkernel, hmin, hfile, hpolicy, hsbom]
  simp only [bind, Except.bind, hminimum, hle, Refresh.require]
  rfl

theorem parse_sampleArtifact : ∀ lineEnd ∈ [['\n'], ['\r', '\n']],
    ((sampleArtifact lineEnd).bytes "rpms.tsv").length ≤ sizeLimit ∧
    Inventory.parseInventory Char.isDigit ((sampleArtifact lineEnd).bytes "rpms.tsv") =
      .ok [sampleRecord] := by
  decide +kernel

theorem validate_sampleArtifact (lineEnd : List Char) (hl : lineEnd ∈ [['\n'], ['\r', '\n']]) :
    ∃ hashes, validate .ok Char.isDigit (readUstar 9) dataOnly sampleJob (sampleArtifact lineEnd) =
      .ok (sampleProof, hashes) := by
  obtain ⟨⟨hpolicySize, -⟩, ⟨hsbomSize, -⟩, ⟨hinstalledSize, hinstalled⟩, hprovenanceSize, himageSize,
    himage⟩ := weights_sample
  obtain ⟨-, hkernel, -, -, -, hcheck, hproof, hdocument⟩ := checks_sample
  obtain ⟨hrowsSize, hrows⟩ := parse_sampleArtifact lineEnd hl
  have hfile : sampleJob.root policyPath = some (fileOf (compact Refresh.reviewedPolicy)) := rfl
  have hrpms : (sampleArtifact lineEnd).file "rpms.tsv" =
      some (fileOf ((sampleArtifact lineEnd).bytes "rpms.tsv")) := rfl
  have hsbom : (sampleArtifact lineEnd).file "sbom.json" = some (fileOf sampleSbom) := rfl
  have himageFile : (sampleArtifact lineEnd).file "image.oci.tar" = some (fileOf sampleImage) := rfl
  have hraw : (sampleArtifact lineEnd).file "installed.json" = some (fileOf sampleInstalled) := rfl
  have hprovenance : (sampleArtifact lineEnd).file "build-provenance.json" =
    some (fileOf sampleProvenance) := rfl
  have hcreated : Refresh.reviewedPolicy.subscript "sourceCreated" = .ok (text "2026-11-07T01:33:27Z") := by
    simp [Refresh.reviewedPolicy, object, Json.subscript, Json.find]
  have hnames : (sampleArtifact lineEnd).entries.all (fun e => files.contains e.1) &&
      files.all fun n => ((sampleArtifact lineEnd).file n).isSome := by
    rw [files]
    simp [sampleArtifact, Directory.file]
  have hsizes : (sampleArtifact lineEnd).entries.all fun e =>
      e.2.kind = .regular && e.2.data.length ≤ limitOf e.1 := by
    have hlarge : sizeLimit ≤ limitOf "image.oci.tar" := by decide
    have hrows' : (Text.encode (['\t'].intercalate sampleRecord.fields ++ lineEnd)).length ≤ sizeLimit :=
      hrowsSize
    simp [sampleArtifact, limitOf, fileOf, hprovenanceSize, hinstalledSize, hsbomSize, hrows']
    exact himageSize
  have hdecodePolicy := decode_compact written_sample.1 hpolicySize
  have hdecodeProvenance : decode sampleProvenance = _ := decode_compact written_sample.2 hprovenanceSize
  have hdecodeSbom : decode sampleSbom = _ := decode_compact written_documents.1 hsbomSize
  have hdecodeInstalled : decode sampleInstalled = _ := decode_compact written_documents.2 hinstalledSize
  have htime : stringOf (text "2026-11-07T01:33:27Z") = .ok "2026-11-07T01:33:27Z".toList := rfl
  have hlimit : limitOf "rpms.tsv" = sizeLimit := rfl
  have hall : sampleProof.take 19 ++ [("installedSha256", .str (sha256 sampleInstalled))] = sampleProof := by
    rw [hinstalled]
    rfl
  have hhashes : files.mapM (fun name => do
      return (name, ← fileSha ((sampleArtifact lineEnd).file name)) : String → Except Exn (String × Text)) =
      .ok (files.map fun name => (name, sha256 ((sampleArtifact lineEnd).bytes name))) := by
    refine mapM_of_ok ?_
    rw [files]
    simp [fileSha, sampleArtifact, Directory.file, Directory.bytes, fileOf, bind, Except.bind, pure,
      Except.pure, List.lookup]
  refine ⟨files.map fun name => (name, sha256 ((sampleArtifact lineEnd).bytes name)), ?_⟩
  unfold validate
  refine Except.bind_eq_ok.mpr ⟨_, read_fileOf hpolicySize, ?_⟩
  refine Except.bind_eq_ok.mpr ⟨_, hdecodePolicy, ?_⟩
  refine Except.bind_eq_ok.mpr ⟨_, policy_reviewedPolicy, ?_⟩
  refine Except.bind_eq_ok.mpr ⟨(), by rw [hnames]; rfl, ?_⟩
  refine Except.bind_eq_ok.mpr ⟨(), by rw [hsizes]; rfl, ?_⟩
  refine Except.bind_eq_ok.mpr ⟨_, by rw [hrpms, hlimit]; exact read_fileOf hrowsSize, ?_⟩
  refine Except.bind_eq_ok.mpr ⟨_, hrows, ?_⟩
  refine Except.bind_eq_ok.mpr ⟨_, hcreated, ?_⟩
  refine Except.bind_eq_ok.mpr ⟨_, htime, ?_⟩
  refine Except.bind_eq_ok.mpr ⟨_, by rw [hsbom]; exact read_fileOf hsbomSize, ?_⟩
  refine Except.bind_eq_ok.mpr ⟨_, hdecodeSbom, ?_⟩
  refine Except.bind_eq_ok.mpr ⟨(), by rw [hdocument]; rfl, ?_⟩
  refine Except.bind_eq_ok.mpr ⟨_, by rw [himageFile]; exact read_fileOf himageSize, ?_⟩
  refine Except.bind_eq_ok.mpr ⟨_, himage, ?_⟩
  refine Except.bind_eq_ok.mpr ⟨_, hkernel, ?_⟩
  refine Except.bind_eq_ok.mpr ⟨_, evidence_sample, ?_⟩
  refine Except.bind_eq_ok.mpr ⟨_, by rw [hraw]; exact read_fileOf hinstalledSize, ?_⟩
  refine Except.bind_eq_ok.mpr ⟨_, hdecodeInstalled, ?_⟩
  refine Except.bind_eq_ok.mpr ⟨(), hcheck, ?_⟩
  refine Except.bind_eq_ok.mpr ⟨_, by rw [hprovenance]; exact read_fileOf hprovenanceSize, ?_⟩
  refine Except.bind_eq_ok.mpr ⟨_, hdecodeProvenance, ?_⟩
  rw [hall]
  refine Except.bind_eq_ok.mpr ⟨(), by rw [hproof]; rfl, ?_⟩
  refine Except.bind_eq_ok.mpr ⟨(), rfl, ?_⟩
  exact Except.bind_eq_ok.mpr ⟨_, hhashes, rfl⟩

theorem collisionFree_sampleArtifact : CollisionFree .ok Char.isDigit sampleJob
    (sampleArtifact ['\n']) (sampleArtifact ['\r', '\n']) where
  bytes := by
    rw [files]
    simp only [List.forall_mem_cons]
    exact ⟨fun _ => rfl, fun _ => rfl, fun _ => rfl, by decide +kernel, fun _ => rfl, by simp⟩
  inventory := by
    intro created a b _ ha hb _
    rw [(parse_sampleArtifact _ (by simp)).2] at ha hb
    rw [← Except.ok.inj ha, ← Except.ok.inj hb]

theorem sameProvenance_sampleArtifact (l l' : List Char) :
    SameProvenance (sampleArtifact l) (sampleArtifact l') := by
  have hdecode : decode sampleProvenance = .ok (object sampleProof) :=
    decode_compact written_sample.2 weights_sample.2.2.2.1
  exact ⟨_, _, hdecode, hdecode, checks_sample.2.2.2.2.2.2.1⟩

/-- An artifact whose inventory has other line ends is evidence of the same build. -/
theorem evidence_bound_sample : SameEvidence Char.isDigit (readUstar 9) (sampleArtifact ['\n'])
    (sampleArtifact ['\r', '\n']) := by
  obtain ⟨_, hA⟩ := validate_sampleArtifact ['\n'] (by simp)
  obtain ⟨_, hB⟩ := validate_sampleArtifact ['\r', '\n'] (by simp)
  exact (evidence_bound hA collisionFree_sampleArtifact).1 _ _ _ hB (sameProvenance_sampleArtifact _ _)

end Artifact
