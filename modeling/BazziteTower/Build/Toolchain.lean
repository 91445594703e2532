import BazziteTower.Host
import BazziteTower.Lib.Records
import BazziteTower.Lib.Sha256
import BazziteTower.Lib.Strings
import Mathlib.Data.List.Sort

/-!
# The toolchain digest

`snitchwatch-system-scanner-build.py` records one digest of the files of the pinned
packages when they are installed, and builds only if the digest is still the same.

## Main definitions

* `PyString`, `encode` — strings with lone surrogates, which do not encode.
* `toolchainDigest`, `installedToolchainDigest`, `requireToolchainDigest` — the program.
* `CollisionFree` — what is hashed for two states of the files does not collide.

## Main results

* `message_injective` — what is hashed determines what stands at every path.
* `toolchainDigest_faithful` — so does the digest, whatever the order of the paths.
* `unchanged_of_require` — a build starts only on the files that were installed.
-/

namespace Toolchain

/-! ## Strings -/

/-- A code point of a string: a character, or a lone surrogate, which stands for a byte
that did not decode. -/
inductive CodePoint
  | char (c : Char)
  | lone (n : Fin 0x800)
  deriving DecidableEq

abbrev PyString := List CodePoint

def CodePoint.number : CodePoint → ℕ
  | .char c => c.toNat
  | .lone n => 0xD800 + n

def CodePoint.char? : CodePoint → Option Char
  | .char c => some c
  | .lone _ => none

/-- A string without surrogates. -/
def ofText (t : Text) : PyString := t.map .char

/-- `str.encode()`. -/
def encode (s : PyString) : Except Exn Bytes :=
  match s.mapM CodePoint.char? with
  | some t => .ok (Text.encode t)
  | none => .error (.raised .value "surrogates not allowed")

/-! ## The digest -/

/-- What stands at a path.  No target of a link contains NUL. -/
inductive Node
  | link (target : PyString) (sound : .char '\x00' ∉ target)
  /-- A regular file, with what reading it does. -/
  | file (content : Except Exn Bytes)
  | missing
  /-- A directory or a special file. -/
  | other

/-- The files, as the paths lead to them. -/
abbrev Files := PyString → Node

/-- The entry of a path, or none where the loop continues. -/
def entry : Node → Except Exn (Option PyString)
  | .link target _ => .ok (some (ofText "link:".toList ++ target))
  | .file content => do return some (ofText "file:".toList ++ ofText (sha256 (← content)))
  | .other => .ok none
  | .missing => .ok (some (ofText "missing".toList))

/-- `sorted(str(p) for p in paths)`. -/
def sorted (paths : List PyString) : List PyString :=
  paths.insertionSort fun p q => p.map CodePoint.number ≤ q.map CodePoint.number

/-- `('%s\0%s\n' % (path, entry)).encode()`, for the paths that have an entry. -/
def update (files : Files) (path : PyString) : Except Exn Bytes := do
  match ← entry (files path) with
  | some e => encode (path ++ .char '\x00' :: (e ++ [.char '\n']))
  | none => return []

/-- What is hashed. -/
def message (files : Files) (paths : List PyString) : Except Exn Bytes := do
  return (← (sorted paths).mapM (update files)).flatten

/-- `toolchain_digest(paths)`. -/
def toolchainDigest (files : Files) (paths : List PyString) : Except Exn Text := do
  return sha256 (← message files paths)

/-- The paths of the packages with these names, given what listing the files of one prints,
or how it fails. -/
def installedPaths (names : List String) (listing : String → Except String Text) :
    Except Exn (List Text) := do
  let lines ← names.mapM fun name =>
    match listing name with
    | .ok text => .ok ((Text.splitlines text).filter fun line => line.head? = some '/')
    | .error error => .error (.raised .value ("cannot list files of pinned toolchain package "
        ++ name ++ " (rpm -ql): " ++ error))
  return lines.flatten

/-- `installed_toolchain_digest(pins)`. -/
def installedToolchainDigest (names : List String) (listing : String → Except String Text)
    (files : Files) : Except Exn Text := do
  let paths ← installedPaths names listing
  if paths = [] then .error (.raised .value "pinned toolchain lists no files")
  else toolchainDigest files (paths.map ofText)

/-- `require_toolchain_digest(record, actual)`, given what the record holds if it is a
file. -/
def requireToolchainDigest (record : String) (content : Option Text) (actual : Text) :
    Except Exn Unit :=
  match content with
  | none => .error (.raised .value ("toolchain digest was not recorded after install: " ++ record))
  | some text =>
    if Text.strip text ≠ actual then
      .error (.raised .value "toolchain changed since install (digest mismatch); refusing")
    else .ok ()

/-! ## Encoding -/

theorem mapM_char_eq_some {s : PyString} {t : Text} (h : s.mapM CodePoint.char? = some t) :
    s = ofText t := by
  induction s generalizing t with
  | nil =>
    obtain rfl := Option.some.inj h
    rfl
  | cons c s ih =>
    rw [List.mapM_cons] at h
    obtain ⟨d, hd, h⟩ := Option.bind_eq_some_iff.mp h
    obtain ⟨u, hu, h⟩ := Option.bind_eq_some_iff.mp h
    obtain rfl := Option.some.inj h
    cases c with
    | char c =>
      obtain rfl := Option.some.inj hd
      rw [ih hu]
      rfl
    | lone n => cases hd

theorem encode_eq_ok {s : PyString} {data : Bytes} (h : encode s = .ok data) :
    ∃ t, s = ofText t ∧ data = Text.encode t := by
  unfold encode at h
  split at h
  · rename_i t ht
    exact ⟨t, mapM_char_eq_some ht, (Except.ok.inj h).symm⟩
  · cases h

theorem encode_append (t u : Text) : Text.encode (t ++ u) = Text.encode t ++ Text.encode u := by
  simp [Text.encode]

theorem ofText_append (t u : Text) : ofText (t ++ u) = ofText t ++ ofText u := by
  simp [ofText]

theorem ofText_injective : Function.Injective ofText :=
  List.map_injective_iff.mpr fun _ _ h => CodePoint.char.inj h

theorem nul_notMem_ofText {t : Text} (h : '\x00' ∉ t) : .char '\x00' ∉ ofText t := by
  simpa [ofText] using h

/-! ## Records -/

/-- The records that the files put into the stream. -/
def recordsOf (files : Files) (paths : List PyString) : List (PyString × PyString) :=
  paths.flatMap fun path =>
    match entry (files path) with
    | .ok (some e) => [(path, e)]
    | _ => []

theorem mem_recordsOf {files : Files} {paths : List PyString} {r : PyString × PyString} :
    r ∈ recordsOf files paths ↔ r.1 ∈ paths ∧ entry (files r.1) = .ok (some r.2) := by
  rw [recordsOf, List.mem_flatMap]
  constructor
  · rintro ⟨path, hpath, hr⟩
    split at hr
    · rename_i e he
      obtain rfl := List.mem_singleton.mp hr
      exact ⟨hpath, he⟩
    · cases hr
  · rintro ⟨hpath, he⟩
    refine ⟨r.1, hpath, ?_⟩
    rw [he]
    exact List.mem_singleton_self r

theorem recordsOf_cons {files : Files} {path : PyString} {e : Option PyString}
    (paths : List PyString) (he : entry (files path) = .ok e) : recordsOf files (path :: paths) =
      e.toList.map (fun e => (path, e)) ++ recordsOf files paths := by
  rw [recordsOf, List.flatMap_cons, he]
  cases e <;> rfl

/-- No entry contains NUL: neither the digits of a digest nor a target does. -/
theorem nul_notMem_entry {n : Node} {e : PyString} (h : entry n = .ok (some e)) :
    .char '\x00' ∉ e := by
  cases n with
  | link target hsound =>
    obtain rfl := Option.some.inj (Except.ok.inj h)
    rw [List.mem_append, not_or]
    exact ⟨nul_notMem_ofText (by decide), hsound⟩
  | file content =>
    obtain ⟨data, -, h⟩ := Except.bind_eq_ok.mp h
    obtain rfl := Option.some.inj (Except.ok.inj h)
    have hdigest : '\x00' ∉ sha256 data := by
      intro hmem
      exact absurd (mem_of_mem_sha256 hmem) (by decide)
    rw [List.mem_append, not_or]
    exact ⟨nul_notMem_ofText (by decide), nul_notMem_ofText hdigest⟩
  | missing =>
    obtain rfl := Option.some.inj (Except.ok.inj h)
    exact nul_notMem_ofText (by decide)
  | other => cases h

/-- Neither NUL nor a newline is part of the path. -/
def Plain (path : PyString) : Prop := .char '\x00' ∉ path ∧ .char '\n' ∉ path

instance (path : PyString) : Decidable (Plain path) := inferInstanceAs (Decidable (_ ∧ _))

theorem sound_recordsOf {files : Files} {paths : List PyString} (hpaths : ∀ p ∈ paths, Plain p)
    {r : PyString × PyString} (hr : r ∈ recordsOf files paths) :
    Records.Sound (.char '\x00') (.char '\n') r := by
  obtain ⟨hpath, he⟩ := mem_recordsOf.mp hr
  exact ⟨(hpaths _ hpath).1, (hpaths _ hpath).2, nul_notMem_entry he⟩

/-- What is hashed encodes the stream of the records, and every path is inspected. -/
theorem stream_of_mapM_update {files : Files} {paths : List PyString} {chunks : List Bytes}
    (h : paths.mapM (update files) = .ok chunks) :
    ∃ t, Records.stream (.char '\x00') (.char '\n') (recordsOf files paths) = ofText t ∧
      chunks.flatten = Text.encode t ∧ ∀ p ∈ paths, ∃ e, entry (files p) = .ok e := by
  induction paths generalizing chunks with
  | nil =>
    obtain rfl := Except.ok.inj h
    exact ⟨[], rfl, rfl, by simp⟩
  | cons path paths ih =>
    rw [List.mapM_cons] at h
    obtain ⟨chunk, hchunk, h⟩ := Except.bind_eq_ok.mp h
    obtain ⟨rest, hrest, h⟩ := Except.bind_eq_ok.mp h
    obtain rfl := Except.ok.inj h
    obtain ⟨t, hstream, hflatten, hall⟩ := ih hrest
    obtain ⟨e, he, hchunk⟩ := Except.bind_eq_ok.mp hchunk
    have hrecords := recordsOf_cons paths he
    have hcons := List.forall_mem_cons.mpr ⟨⟨e, he⟩, hall⟩
    cases e with
    | none =>
      obtain rfl := Except.ok.inj hchunk
      exact ⟨t, by rw [hrecords]; exact hstream, by simpa using hflatten, hcons⟩
    | some e =>
      obtain ⟨u, hu, rfl⟩ := encode_eq_ok hchunk
      refine ⟨u ++ t, ?_, ?_, hcons⟩
      · rw [hrecords, ofText_append, ← hu, ← hstream]
        simp [Records.stream, Records.render]
      · rw [encode_append, ← hflatten, List.flatten_cons]

/-! ## The digest determines the files -/

theorem mem_sorted {paths : List PyString} {p : PyString} : p ∈ sorted paths ↔ p ∈ paths :=
  (List.perm_insertionSort _ _).mem_iff

/-- What is hashed determines the entry of every path. -/
theorem message_injective {files files' : Files} {paths : List PyString} {data : Bytes}
    (hpaths : ∀ p ∈ paths, Plain p) (h : message files paths = .ok data)
    (h' : message files' paths = .ok data) {p : PyString} (hp : p ∈ paths) :
    ∃ e, entry (files p) = .ok e ∧ entry (files' p) = .ok e := by
  obtain ⟨chunks, hchunks, h⟩ := Except.bind_eq_ok.mp h
  obtain ⟨chunks', hchunks', h'⟩ := Except.bind_eq_ok.mp h'
  obtain ⟨t, hstream, hflatten, hall⟩ := stream_of_mapM_update hchunks
  obtain ⟨t', hstream', hflatten', hall'⟩ := stream_of_mapM_update hchunks'
  have htexts : t = t' := by
    apply Text.encode_injective
    rw [← hflatten, ← hflatten', Except.ok.inj h, Except.ok.inj h']
  have hsorted (q : PyString) (hq : q ∈ sorted paths) : Plain q := hpaths q (mem_sorted.mp hq)
  have hrecords : recordsOf files (sorted paths) = recordsOf files' (sorted paths) :=
    Records.stream_injective (by decide) (fun _ => sound_recordsOf hsorted)
      (fun _ => sound_recordsOf hsorted) (by rw [hstream, hstream', htexts])
  have hp := mem_sorted.mpr hp
  obtain ⟨e, he⟩ := hall p hp
  obtain ⟨e', he'⟩ := hall' p hp
  have hmem (x : PyString) : e = some x ↔ e' = some x := by
    have hiff : (p, x) ∈ recordsOf files (sorted paths) ↔ (p, x) ∈ recordsOf files' (sorted paths) := by
      rw [hrecords]
    simpa [mem_recordsOf, hp, he, he'] using hiff
  exact ⟨e, he, Option.ext hmem ▸ he'⟩

/-- Nothing that is hashed for the two states of the files collides. -/
structure CollisionFree (files files' : Files) (paths : List PyString) : Prop where
  contents : ∀ p ∈ paths, ∀ data data', files p = .file (.ok data) → files' p = .file (.ok data') →
    sha256 data = sha256 data' → data = data'
  messages : ∀ data data', message files paths = .ok data → message files' paths = .ok data' →
    sha256 data = sha256 data' → data = data'

/-- The letter at which the entries of the kinds differ. -/
def initial : Node → Option CodePoint
  | .link _ _ => some (.char 'l')
  | .file _ => some (.char 'f')
  | .missing => some (.char 'm')
  | .other => none

theorem head_of_entry {n : Node} {e : Option PyString} (h : entry n = .ok e) :
    e.bind List.head? = initial n := by
  cases n with
  | file content =>
    obtain ⟨data, -, h⟩ := Except.bind_eq_ok.mp h
    obtain rfl := Except.ok.inj h
    rfl
  | link target hsound =>
    obtain rfl := Except.ok.inj h
    rfl
  | missing =>
    obtain rfl := Except.ok.inj h
    rfl
  | other =>
    obtain rfl := Except.ok.inj h
    rfl

theorem eq_of_entry_eq {n n' : Node} {e : Option PyString} (h : entry n = .ok e)
    (h' : entry n' = .ok e) (hfree : ∀ data data', n = .file (.ok data) → n' = .file (.ok data') →
      sha256 data = sha256 data' → data = data') : n = n' := by
  have hinitial : initial n = initial n' := (head_of_entry h).symm.trans (head_of_entry h')
  cases n <;> cases n' <;> simp only [initial, Option.some.injEq, CodePoint.char.injEq, Char.reduceEq,
    reduceCtorEq] at hinitial
  case link.link target hsound target' hsound' =>
    obtain rfl := Except.ok.inj h
    obtain rfl := List.append_cancel_left (Option.some.inj (Except.ok.inj h'))
    rfl
  case file.file content content' =>
    obtain ⟨data, rfl, h⟩ := Except.bind_eq_ok.mp h
    obtain ⟨data', rfl, h'⟩ := Except.bind_eq_ok.mp h'
    obtain rfl := Except.ok.inj h
    have hdigests := ofText_injective (List.append_cancel_left (Option.some.inj (Except.ok.inj h')))
    rw [hfree data data' rfl rfl hdigests.symm]
  case missing.missing => rfl
  case other.other => rfl

/-- **The digest determines the files**: if it is the same for two states of the files, at
every path stands the same thing in both. -/
theorem files_eq_of_digest {files files' : Files} {paths : List PyString} {digest : Text}
    (hpaths : ∀ p ∈ paths, Plain p) (hfree : CollisionFree files files' paths)
    (h : toolchainDigest files paths = .ok digest) (h' : toolchainDigest files' paths = .ok digest) :
    ∀ p ∈ paths, files p = files' p := by
  intro p hp
  obtain ⟨data, hdata, h⟩ := Except.bind_eq_ok.mp h
  obtain ⟨data', hdata', h'⟩ := Except.bind_eq_ok.mp h'
  have hsame : data = data' :=
    hfree.messages _ _ hdata hdata' ((Except.ok.inj h).trans (Except.ok.inj h').symm)
  obtain ⟨e, he, he'⟩ := message_injective hpaths hdata (hsame ▸ hdata') hp
  exact eq_of_entry_eq he he' (hfree.contents p hp)

/-! ## The order of the paths -/

theorem number_injective : Function.Injective CodePoint.number := by
  have hrange (c : Char) (n : Fin 0x800) : c.toNat ≠ 0xD800 + n := by
    have hvalid : c.toNat < 0xD800 ∨ 0xDFFF < c.toNat ∧ c.toNat < 0x110000 := c.valid
    omega
  intro a b h
  cases a with
  | char c =>
    cases b with
    | char d => rw [Char.toNat_inj.mp h]
    | lone n => exact absurd h (hrange c n)
  | lone n =>
    cases b with
    | char d => exact absurd h.symm (hrange d n)
    | lone m =>
      have hnm : 0xD800 + (n : ℕ) = 0xD800 + m := h
      rw [Fin.ext (by omega : (n : ℕ) = m)]

theorem sorted_eq_of_perm {paths paths' : List PyString} (h : paths.Perm paths') :
    sorted paths = sorted paths' := by
  have : Std.Total fun p q : PyString => p.map CodePoint.number ≤ q.map CodePoint.number :=
    ⟨fun p q => Std.le_total⟩
  have : IsTrans PyString fun p q => p.map CodePoint.number ≤ q.map CodePoint.number :=
    ⟨fun _ _ _ => Std.le_trans⟩
  have hpairwise (ps : List PyString) :
      (sorted ps).Pairwise fun p q => p.map CodePoint.number ≤ q.map CodePoint.number :=
    List.pairwise_insertionSort _ ps
  have hperm (ps : List PyString) : (sorted ps).Perm ps := List.perm_insertionSort _ _
  refine List.Perm.eq_of_pairwise (fun p q _ _ hpq hqp => ?_) (hpairwise paths) (hpairwise paths')
    ((hperm paths).trans (h.trans (hperm paths').symm))
  exact List.map_injective_iff.mpr number_injective (Std.le_antisymm hpq hqp)

/-- **The digest** determines what stands at every path, and does not depend on the order of
the paths. -/
theorem toolchainDigest_faithful {paths : List PyString} (hpaths : ∀ p ∈ paths, Plain p) :
    (∀ files files' : Files, CollisionFree files files' paths → ∀ digest,
      toolchainDigest files paths = .ok digest → toolchainDigest files' paths = .ok digest →
        ∀ p ∈ paths, files p = files' p) ∧
      ∀ paths', paths.Perm paths' → ∀ files,
        toolchainDigest files paths = toolchainDigest files paths' := by
  constructor
  · intro files files' hfree digest h h'
    exact files_eq_of_digest hpaths hfree h h'
  · intro paths' hperm files
    rw [toolchainDigest, toolchainDigest, message, message, sorted_eq_of_perm hperm]

/-- A link whose target holds a newline, a directory, and a regular file. -/
def sampleFiles (version : Text) : Files := fun path =>
  if path = ofText "/usr/bin/cargo".toList then .link (ofText "rustup\nold".toList) (by decide)
  else if path = ofText "/usr/lib/rustlib".toList then .other
  else if path = ofText "/usr/bin/rustc".toList then .file (.ok (Text.encode "rustc".toList))
  else if path = ofText "/etc/release".toList then .link (ofText (version.filter (· ≠ '\x00')))
    (nul_notMem_ofText (by simp))
  else .missing

def samplePaths : List PyString :=
  [ofText "/usr/lib/rustlib".toList, ofText "/usr/bin/cargo".toList, ofText "/usr/bin/rustc".toList]

theorem toolchainDigest_faithful_sample : ofText "/usr/bin/rustc".toList ∈ samplePaths ∧
    sampleFiles "44".toList (ofText "/usr/bin/rustc".toList) =
      sampleFiles "45".toList (ofText "/usr/bin/rustc".toList) := by
  have hmessage : message (sampleFiles "44".toList) samplePaths =
      message (sampleFiles "45".toList) samplePaths := rfl
  have hok : (message (sampleFiles "45".toList) samplePaths).isOk := by decide +kernel
  have hfree : CollisionFree (sampleFiles "44".toList) (sampleFiles "45".toList) samplePaths := by
    constructor
    · intro p _ data data' hdata hdata' _
      unfold sampleFiles at hdata hdata'
      split_ifs at hdata hdata'
      exact Except.ok.inj (Node.file.inj (hdata.symm.trans hdata'))
    · intro data data' hdata hdata' _
      rw [hmessage] at hdata
      exact Except.ok.inj (hdata.symm.trans hdata')
  cases hdata : message (sampleFiles "45".toList) samplePaths with
  | error e =>
    rw [hdata] at hok
    cases hok
  | ok data =>
    have hdigest : toolchainDigest (sampleFiles "45".toList) samplePaths = .ok (sha256 data) := by
      rw [toolchainDigest, hdata]
      rfl
    have hdigest' : toolchainDigest (sampleFiles "44".toList) samplePaths = .ok (sha256 data) := by
      rw [toolchainDigest, hmessage]
      exact hdigest
    have hrustc : ofText "/usr/bin/rustc".toList ∈ samplePaths := by decide +kernel
    exact ⟨hrustc,
      (toolchainDigest_faithful (by decide +kernel)).1 _ _ hfree _ hdigest' hdigest _ hrustc⟩

/-! ## The installed packages -/

theorem strip_sha256 (data : Bytes) : Text.strip (sha256 data ++ ['\n']) = sha256 data := by
  have hword (c : Char) (hc : c ∈ sha256 data) : Text.isSpace c = false := by
    have hdigits : ((List.range 16).map Nat.digitChar).all fun d => !Text.isSpace d := by decide
    simpa using List.all_eq_true.mp hdigits c (mem_of_mem_sha256 hc)
  have hfront : (sha256 data ++ ['\n']).dropWhile Text.isSpace = sha256 data ++ ['\n'] ∨
      sha256 data = [] := by
    cases h : sha256 data with
    | nil => exact .inr rfl
    | cons c cs => simp [hword c (h ▸ List.mem_cons_self)]
  rcases hfront with hfront | hnil
  · have hnewline : Text.isSpace '\n' = true := by decide
    rw [Text.strip, hfront, List.rdropWhile_concat_pos _ _ _ hnewline, List.rdropWhile_eq_self_iff]
    intro hne
    simp [hword _ (List.getLast_mem hne)]
  · rw [hnil]
    decide

theorem plain_of_installedPaths {names : List String} {listing : String → Except String Text}
    {paths : List Text} (h : installedPaths names listing = .ok paths)
    (hnul : ∀ path ∈ paths, '\x00' ∉ path) : ∀ p ∈ paths.map ofText, Plain p := by
  obtain ⟨lines, hlines, h⟩ := Except.bind_eq_ok.mp h
  obtain rfl := Except.ok.inj h
  intro p hp
  obtain ⟨line, hline, rfl⟩ := List.mem_map.mp hp
  obtain ⟨piece, hpiece, hmem⟩ := List.mem_flatten.mp hline
  obtain ⟨name, -, hname⟩ := Except.exists_of_mem_mapM hlines hpiece
  have hnewline : '\n' ∉ line := by
    split at hname
    · obtain rfl := Except.ok.inj hname
      exact Text.not_mem_of_mem_splitlines (List.mem_of_mem_filter hmem) (by decide)
    · cases hname
  exact ⟨nul_notMem_ofText (hnul line hline), by simpa [ofText] using hnewline⟩

theorem digest_of_installed {names : List String} {listing : String → Except String Text}
    {files : Files} {paths : List Text} {digest : Text} (hpaths : installedPaths names listing = .ok paths)
    (h : installedToolchainDigest names listing files = .ok digest) :
    toolchainDigest files (paths.map ofText) = .ok digest := by
  obtain ⟨paths', hpaths', h⟩ := Except.bind_eq_ok.mp h
  obtain rfl := Except.ok.inj (hpaths.symm.trans hpaths')
  split_ifs at h
  exact h

/-- A build that starts after the record of the install was found to hold finds at every
installed path what was installed. -/
theorem unchanged_of_require {names : List String} {listing : String → Except String Text}
    {files files' : Files} {record : String} {recorded actual : Text} {paths : List Text}
    (hpaths : installedPaths names listing = .ok paths) (hnul : ∀ path ∈ paths, '\x00' ∉ path)
    (hfree : CollisionFree files files' (paths.map ofText))
    (hrecorded : installedToolchainDigest names listing files = .ok recorded)
    (hactual : installedToolchainDigest names listing files' = .ok actual)
    (hrequire : requireToolchainDigest record (some (recorded ++ ['\n'])) actual = .ok ()) :
    ∀ path ∈ paths, files (ofText path) = files' (ofText path) := by
  have hdigest := digest_of_installed hpaths hrecorded
  have hdigest' := digest_of_installed hpaths hactual
  have hsame : recorded = actual := by
    obtain ⟨data, -, hdata⟩ := Except.bind_eq_ok.mp hdigest
    obtain rfl := Except.ok.inj hdata
    simp only [requireToolchainDigest] at hrequire
    split_ifs at hrequire with hne
    rw [strip_sha256] at hne
    exact not_not.mp hne
  intro path hpath
  exact files_eq_of_digest (plain_of_installedPaths hpaths hnul) hfree hdigest (hsame ▸ hdigest')
    _ (List.mem_map_of_mem hpath)

end Toolchain
