import BazziteTower.Host
import BazziteTower.Lib.Tree
import Mathlib.Data.List.AList

/-!
# The hand-off between build stages

`snitchwatch-system-handoff.py`: `export` copies the allowlisted files of a kind into a
new directory, and `check` is what the receiving stage accepts.

A tree is given with what the checker can see of it: an entry that `lstat` fails on, a
directory that cannot be listed, and extended attributes that cannot be listed are all
possible.  The constants of the trusted daemon verifier are a parameter.

## Main definitions

* `Kind`, `allowlist`, `ancestors` — the files of a kind, and the directories above them.
* `check` — the receiving side.
* `Disk`, `export` — the sending side, on the file system of the destination.
* `Exact`, `Inspectable` — a tree of exactly these files, all of which can be seen.

## Main results

* `check_iff` — `check` accepts exactly those trees.
* `handoff_agrees` — and it accepts what `export` made.
-/

namespace Handoff

open RelPath (parts)

/-! ## Entries -/

/-- What listing the extended attributes of an entry yields. -/
inductive Xattrs
  | names (present : List String)
  | unsupported
  | failed (error : String)
  deriving DecidableEq, Repr

/-- An entry of a tree.  `visible` says whether `lstat` works on it, `listable` whether a
directory can be listed. -/
structure Entry extends Stat where
  links : ℕ
  xattrs : Xattrs
  data : Bytes
  visible : Bool
  listable : Bool
  deriving DecidableEq, Repr

def Entry.isDirectory (e : Entry) : Bool := e.kind = .directory

/-- A directory that `os.walk` looks into. -/
def Entry.walked (e : Entry) : Bool := e.isDirectory && e.listable

/-! ## Allowlists -/

inductive Kind
  | scanner | bridge | bridgeRebuild | daemon
  deriving DecidableEq, Repr

def Kind.name : Kind → String
  | scanner => "scanner"
  | bridge => "bridge"
  | bridgeRebuild => "bridge-rebuild"
  | daemon => "daemon"

/-- The pins: `bridgeVersion` as `%s` puts it. -/
structure Pins where
  bridgeVersion : Option Text

/-- The constants of the daemon verifier. -/
structure DaemonVerifier where
  candidate : Text
  verifier : Text
  manifest : Text
  required : List Text

/-- Relative paths with their exact modes. -/
abbrev Allowlist := AList fun _ : Text => UInt32

/-- `expected.get(rel)`. -/
def Allowlist.mode (expected : Allowlist) (rel : Text) : Option UInt32 := expected.lookup rel

/-- The dictionary with these entries; a later one replaces an earlier one. -/
def dictionary (entries : List (Text × UInt32)) : Allowlist :=
  entries.foldl (fun d e => d.insert e.1 e.2) ∅

def scannerBinaries : List Text :=
  ["snitchwatch-scanner-privileged".toList, "snitchwatch-scanner-broker".toList]

def scannerFiles : List Text :=
  ["provenance.json".toList, "source-inputs.json".toList, "dependency-closure.json".toList,
    "THIRD-PARTY-LICENSES.md".toList, "LICENSE".toList, "build.log".toList, "repro.log".toList,
    "test.log".toList] ++ scannerBinaries.map fun name => name ++ ".ldd".toList

/-- `bridge_tarball(pins)`. -/
def bridgeTarball : Option Pins → Except Exn Text
  | some ⟨some version⟩ => .ok ("snitchwatch-bridge-".toList ++ version ++ "-x86_64.tar.gz".toList)
  | some ⟨none⟩ => .error (.raised .key "bridgeVersion")
  | none => .error (.raised .type "object is not subscriptable")

/-- `name.lstrip('/')`. -/
def lstripSlash (name : Text) : Text := name.dropWhile (· = '/')

/-- `allowlist(kind, pins, daemon_verifier)`. -/
def allowlist (kind : Kind) (pins : Option Pins) (verifier : Option DaemonVerifier) :
    Except Exn Allowlist := do
  match kind with
  | .scanner =>
    return dictionary (scannerBinaries.map (·, 0o755) ++ scannerFiles.map (·, 0o644))
  | .bridge =>
    let tarball ← bridgeTarball pins
    return dictionary [(tarball, 0o644), (tarball ++ ".sha256".toList, 0o644),
      ("build.log".toList, 0o644), ("repro.log".toList, 0o644)]
  | .bridgeRebuild => return dictionary [(← bridgeTarball pins, 0o644)]
  | .daemon =>
    match verifier with
    | none => throw (.refusal "daemon allowlist needs the trusted daemon verifier" false)
    | some v => return dictionary ((v.required ++ [v.manifest]).map fun name =>
        (lstripSlash name, if name = v.candidate ∨ name = v.verifier then 0o755 else 0o644))

/-- The components of the parents of a name, the dot apart, the shortest first. -/
def parentParts (name : Text) : List (List Text) :=
  (parts name).inits.filter fun p => p ≠ [] && p ≠ parts name

/-- `str(parent)` for the parents of a name, the dot apart. -/
def parents (name : Text) : List Text := (parentParts name).map ['/'].intercalate

/-- `ancestors(names)`. -/
def ancestors (names : List Text) : List Text := names.flatMap parents

/-! ## The receiving side -/

def refusedXattrs : List String :=
  ["security.capability", "system.posix_acl_access", "system.posix_acl_default"]

/-- `raise Refusal(message)` unless the condition holds. -/
def require (condition : Bool) (message : String) : Except Exn Unit :=
  if condition then .ok () else .error (.refusal message false)

@[simp] theorem require_eq_ok {condition : Bool} {message : String} {u : Unit} :
    require condition message = .ok u ↔ condition := by
  cases condition <;> simp [require]

/-- `'%o' % mode`. -/
def octal (mode : UInt32) : String := String.ofList (Nat.toDigits 8 mode.toNat)

/-- `os.path.relpath`. -/
def relText (p : RelPath) : Text := if p = [] then ['.'] else p.join

/-- `require_no_refused_xattrs`. -/
def requireNoRefusedXattrs (rel : String) : Xattrs → Except Exn Unit
  | .unsupported => .ok ()
  | .failed error => .error (.refusal
      ("cannot list extended attributes of " ++ rel ++ ": " ++ error) false)
  | .names present => present.forM fun name => require (!refusedXattrs.contains name)
      (rel ++ " carries refused extended attribute " ++ name)

/-- One round of the loop in `check`. -/
def examine (kind : Kind) (expected : Allowlist) (owner : UInt32 × UInt32) (found : List Text)
    (entry : RelPath × Entry) : Except Exn (List Text) := do
  let info := entry.2
  let rel := String.ofList (relText entry.1)
  let what := kind.name ++ " handoff "
  require ((info.uid, info.gid) = owner) (what ++ "entry " ++ rel ++ " is owned by " ++
    toString info.uid ++ ":" ++ toString info.gid ++ ", want " ++ toString owner.1 ++ ":" ++
    toString owner.2)
  require (info.mode &&& 0o7000 = 0) (what ++ "entry " ++ rel ++
    " has a setuid/setgid/sticky bit (mode " ++ octal info.mode ++ ")")
  requireNoRefusedXattrs rel info.xattrs
  match info.kind with
  | .directory =>
    require (entry.1 = [] || (ancestors expected.keys).contains (relText entry.1))
      ("unexpected directory in " ++ kind.name ++ " handoff: " ++ rel)
    require (info.mode &&& 0o022 = 0) (what ++ "directory " ++ rel ++
      " is group/other writable (mode " ++ octal info.mode ++ ")")
    return found
  | .regular =>
    match expected.mode (relText entry.1) with
    | none => throw (.refusal ("unexpected file in " ++ kind.name ++ " handoff: " ++ rel) false)
    | some mode =>
      require (info.mode = mode) (what ++ "file " ++ rel ++ " has mode " ++ octal info.mode ++
        ", want " ++ octal mode)
      require (info.links = 1) (what ++ "file " ++ rel ++ " is hard-linked (" ++
        toString info.links ++ " links)")
      return relText entry.1 :: found
  | _ => throw (.refusal (what ++ "entry " ++ rel ++ " is a symlink or special file") false)

/-- `os.lstat` of an entry. -/
def lstat (entry : Entry) : Except Exn Unit :=
  if entry.visible then .ok () else .error (.raised .os "cannot stat")

def sorted (names : List Text) : List Text := names.insertionSort (· ≤ ·)

/-- `check(kind, root, pins, daemon_verifier, owner)`, for the tree at `path`. -/
def check (kind : Kind) (path : String) (pins : Option Pins) (verifier : Option DaemonVerifier)
    (owner : UInt32 × UInt32) (root : Entry) (inside : Listing Entry) : Except Exn (List Text) := do
  let expected ← allowlist kind pins verifier
  lstat root
  require root.isDirectory (kind.name ++ " handoff root is not a real directory: " ++ path)
  let entries := if root.listable then inside.walk Entry.walked [] else []
  entries.forM fun e => lstat e.2
  let found ← (([], root) :: entries).foldlM (examine kind expected owner) []
  let missing := sorted (expected.keys.filter fun name => !found.contains name)
  require missing.isEmpty (kind.name ++ " handoff is missing: " ++
    String.ofList (", ".toList.intercalate missing))
  return sorted found

/-! ## The sending side -/

/-- A place in the file system of the destination, the innermost name first. -/
abbrev Place := List Text

/-- The file system of the destination; the place of the root is empty. -/
abbrev Disk := Place → Option Entry

/-- Who exports, with the attributes that every new file gets. -/
structure Creator where
  uid : UInt32
  gid : UInt32
  umask : UInt32
  labels : List String
  unrefused : ∀ name ∈ labels, name ∉ refusedXattrs

def Entry.setGid (e : Entry) : Bool := e.mode &&& 0o2000 ≠ 0

def Entry.defaultAcl (e : Entry) : Bool :=
  match e.xattrs with
  | .names present => present.contains "system.posix_acl_default"
  | _ => false

/-- What a new file or directory starts as, with what its directory hands down. -/
def Creator.fresh (who : Creator) (parent : Entry) (kind : FileKind) (mode : UInt32) : Entry where
  kind := kind
  uid := who.uid
  gid := if parent.setGid then parent.gid else who.gid
  mode := (mode &&& ~~~ who.umask) ||| if kind = .directory ∧ parent.setGid then 0o2000 else 0
  links := 1
  xattrs := .names (who.labels ++ if parent.defaultAcl then
    "system.posix_acl_access" :: if kind = .directory then ["system.posix_acl_default"] else [] else [])
  data := []
  visible := true
  listable := true

def Disk.put (fs : Disk) (p : Place) (e : Entry) : Disk := Function.update fs p (some e)

/-- A new file or directory. -/
def create (who : Creator) (kind : FileKind) (mode : UInt32) (data : Bytes) (fs : Disk) :
    Place → Except Exn Disk
  | [] => .error (.raised .os "File exists")
  | name :: parent =>
    if (fs (name :: parent)).isSome then .error (.raised .os "File exists")
    else
      match fs parent with
      | none => .error (.raised .fileNotFound "No such file or directory")
      | some d =>
        if d.isDirectory then
          .ok (fs.put (name :: parent) { who.fresh d kind mode with data })
        else .error (.raised .notADirectory "Not a directory")

/-- `os.mkdir`. -/
def mkdir (who : Creator) : Disk → Place → Except Exn Disk := create who .directory 0o777 []

/-- What `exist_ok` makes of a failure. -/
def existing (fs : Disk) (p : Place) (error : Exn) : Except Exn Disk :=
  if (fs p).any Entry.isDirectory then .ok fs else .error error

/-- `mkdir(parents=True, exist_ok=True)`. -/
def makeParents (who : Creator) (fs : Disk) : Place → Except Exn Disk
  | [] => existing fs [] (.raised .os "File exists")
  | name :: parent =>
    match mkdir who fs (name :: parent) with
    | .ok fs => .ok fs
    | .error error =>
      if error.isFileNotFound then do mkdir who (← makeParents who fs parent) (name :: parent)
      else existing fs (name :: parent) error

/-- `dest.mkdir(parents=True)`. -/
def makeDest (who : Creator) (fs : Disk) (dest : Place) : Except Exn Disk :=
  match mkdir who fs dest with
  | .ok fs => .ok fs
  | .error error =>
    if error.isFileNotFound then do mkdir who (← makeParents who fs dest.tail) dest
    else .error error

def chmod (mode : UInt32) (fs : Disk) (p : Place) : Except Exn Disk :=
  match fs p with
  | some e => .ok (fs.put p { e with mode })
  | none => .error (.raised .fileNotFound "No such file or directory")

/-- The place that these components lead to; each one but the last is a directory. -/
def locate (fs : Disk) : Place → List Text → Except Exn Place
  | base, [] => .ok base
  | base, component :: components =>
    if (fs base).any Entry.isDirectory then
      locate fs (if component = ['.', '.'] then base.tail else component :: base) components
    else .error (.raised .notADirectory "Not a directory")

/-- What opening a source without following a link yields. -/
abbrev Source := Text → Except String Entry

/-- `read_regular(kind, origin, rel)`. -/
def readRegular (kind : Kind) (source : Source) (rel : Text) : Except Exn Bytes := do
  let what := kind.name ++ " export source " ++ String.ofList rel
  match source rel with
  | .error strerror =>
    throw (.refusal (what ++ " cannot be opened without following links: " ++ strerror) false)
  | .ok info =>
    require (info.kind = .regular) (what ++ " is not a regular file")
    require (info.links = 1) (what ++ " is hard-linked (" ++ toString info.links ++ " links)")
    return info.data

/-- `mkdir(exist_ok=True)`. -/
def mkdirExistOk (who : Creator) (fs : Disk) (p : Place) : Except Exn Disk :=
  match mkdir who fs p with
  | .ok fs => .ok fs
  | .error error => existing fs p error

/-- `(dest / parent).mkdir(exist_ok=True)` and `(dest / parent).chmod(0o755)`. -/
def addParent (who : Creator) (dest : Place) (fs : Disk) (parent : List Text) : Except Exn Disk := do
  let p ← locate fs dest parent
  let fs ← mkdirExistOk who fs p
  chmod 0o755 fs p

/-- One round of the loop in `export`. -/
def copy (kind : Kind) (who : Creator) (source : Source) (dest : Place) (fs : Disk)
    (item : Text × UInt32) : Except Exn Disk := do
  let data ← readRegular kind source item.1
  let fs ← (parentParts item.1).foldlM (addParent who dest) fs
  let target ← locate fs dest (parts item.1)
  let fs ← create who .regular 0o666 data fs target
  chmod item.2 fs target

/-- `sorted(expected.items())`. -/
def Allowlist.sortedItems (expected : Allowlist) : List (Text × UInt32) :=
  (sorted expected.keys).filterMap fun name => (expected.mode name).map (name, ·)

/-- `export(kind, source, dest, pins, daemon_verifier)`. -/
def exportTo (kind : Kind) (pins : Option Pins) (verifier : Option DaemonVerifier) (who : Creator)
    (source : Source) (dest : Place) (fs : Disk) : Except Exn (List Text × Disk) := do
  let expected ← allowlist kind pins verifier
  require (fs dest).isNone (kind.name ++ " handoff destination already exists: " ++
    String.ofList ('/' :: ['/'].intercalate dest.reverse))
  let fs ← makeDest who fs dest
  let fs ← chmod 0o755 fs dest
  let fs ← expected.sortedItems.foldlM (copy kind who source dest) fs
  return (sorted expected.keys, fs)

/-! ## Dictionaries -/

theorem dictionary_append (entries : List (Text × UInt32)) (e : Text × UInt32) :
    dictionary (entries ++ [e]) = (dictionary entries).insert e.1 e.2 := by
  simp [dictionary]

theorem mem_keys_dictionary {entries : List (Text × UInt32)} {name : Text} :
    name ∈ (dictionary entries).keys ↔ name ∈ entries.map Prod.fst := by
  induction entries using List.reverseRecOn with
  | nil => simp [dictionary]
  | append_singleton entries e ih =>
    rw [dictionary_append, ← AList.mem_keys, AList.mem_insert, AList.mem_keys, ih, List.map_append,
      List.mem_append, List.map_singleton, List.mem_singleton, or_comm]

theorem mem_of_mode {entries : List (Text × UInt32)} {name : Text} {mode : UInt32}
    (h : (dictionary entries).mode name = some mode) : (name, mode) ∈ entries := by
  induction entries using List.reverseRecOn with
  | nil => simp [dictionary, Allowlist.mode] at h
  | append_singleton entries e ih =>
    rw [dictionary_append, Allowlist.mode] at h
    by_cases hname : name = e.1
    · subst hname
      rw [AList.lookup_insert] at h
      obtain rfl := Option.some.inj h
      simp
    · rw [AList.lookup_insert_ne hname] at h
      exact List.mem_append_left _ (ih h)

theorem mode_isSome {expected : Allowlist} {name : Text} :
    name ∈ expected.keys ↔ ∃ mode, expected.mode name = some mode := by
  rw [← AList.mem_keys, ← AList.lookup_isSome, Option.isSome_iff_exists]
  rfl

/-- Every kind has files, and every file one of two modes. -/
theorem of_allowlist {kind : Kind} {pins : Option Pins} {verifier : Option DaemonVerifier}
    {expected : Allowlist} (h : allowlist kind pins verifier = .ok expected) :
    ∃ entries, entries ≠ [] ∧ (∀ e ∈ entries, e.2 = 0o755 ∨ e.2 = 0o644) ∧
      expected = dictionary entries := by
  cases kind with
  | scanner =>
    obtain rfl := Except.ok.inj h
    refine ⟨_, by simp [scannerBinaries], ?_, rfl⟩
    simp [or_imp, forall_and]
  | bridge =>
    obtain ⟨tarball, -, h⟩ := Except.bind_eq_ok.mp h
    obtain rfl := Except.ok.inj h
    exact ⟨_, by simp, by simp, rfl⟩
  | bridgeRebuild =>
    obtain ⟨tarball, -, h⟩ := Except.bind_eq_ok.mp h
    obtain rfl := Except.ok.inj h
    exact ⟨_, by simp, by simp, rfl⟩
  | daemon =>
    cases verifier with
    | none => cases h
    | some v =>
      obtain rfl := Except.ok.inj h
      refine ⟨_, by simp, ?_, rfl⟩
      intro e he
      obtain ⟨name, -, rfl⟩ := List.mem_map.mp he
      dsimp only
      split <;> simp

theorem exists_mem_keys {kind : Kind} {pins : Option Pins} {verifier : Option DaemonVerifier}
    {expected : Allowlist} (h : allowlist kind pins verifier = .ok expected) :
    ∃ name, name ∈ expected.keys := by
  obtain ⟨entries, hne, -, rfl⟩ := of_allowlist h
  obtain ⟨e, he⟩ := List.exists_mem_of_ne_nil _ hne
  exact ⟨e.1, mem_keys_dictionary.mpr (List.mem_map_of_mem he)⟩

/-! ## Trees that consist of exactly an allowlist -/

/-- What an entry at a path may be. -/
structure Permitted (expected : Allowlist) (owner : UInt32 × UInt32) (p : RelPath) (e : Entry) :
    Prop where
  owned : (e.uid, e.gid) = owner
  noSetId : e.mode &&& 0o7000 = 0
  xattrs : ∀ present, e.xattrs = .names present → ∀ name ∈ present, name ∉ refusedXattrs
  shape : e.kind = .directory ∧ (p = [] ∨ p.join ∈ ancestors expected.keys) ∧ e.mode &&& 0o022 = 0 ∨
    e.kind = .regular ∧ p ≠ [] ∧ expected.mode p.join = some e.mode ∧ e.links = 1

/-- The tree has the allowlisted files, and otherwise only the directories above them. -/
structure Exact (expected : Allowlist) (owner : UInt32 × UInt32) (root : Entry)
    (inside : Listing Entry) : Prop where
  directory : root.kind = .directory
  root : Permitted expected owner [] root
  entries : ∀ p e, inside.find Entry.isDirectory p = some e → Permitted expected owner p e
  complete : ∀ name ∈ expected.keys, ∃ p e, inside.find Entry.isDirectory p = some e ∧
    e.kind = .regular ∧ p.join = name

/-- An entry that can be looked at, and listed if it is a directory. -/
structure Entry.Inspectable (e : Entry) : Prop where
  visible : e.visible
  listable : e.isDirectory → e.listable
  xattrs : ∀ error, e.xattrs ≠ .failed error

/-- Every entry can be looked at. -/
structure Inspectable (root : Entry) (inside : Listing Entry) : Prop where
  root : root.Inspectable
  entries : ∀ p e, inside.find Entry.isDirectory p = some e → e.Inspectable

/-! ### One entry -/

theorem requireNoRefusedXattrs_eq_ok {rel : String} {x : Xattrs} {u : Unit} :
    requireNoRefusedXattrs rel x = .ok u ↔ (∀ error, x ≠ .failed error) ∧
      ∀ present, x = .names present → ∀ name ∈ present, name ∉ refusedXattrs := by
  cases x with
  | names present => simp [requireNoRefusedXattrs, Except.forM_eq_ok]
  | unsupported => simp [requireNoRefusedXattrs]
  | failed error => simp [requireNoRefusedXattrs]

theorem relText_of_ne {p : RelPath} (h : p ≠ []) : relText p = p.join := if_neg h

/-- A directory passes just if it is the root or stands above an allowlisted file. -/
theorem examine_directory {kind : Kind} {expected : Allowlist} {owner : UInt32 × UInt32}
    {found found' : List Text} {p : RelPath} {e : Entry} (he : e.kind = .directory) :
    examine kind expected owner found (p, e) = .ok found' ↔
      Permitted expected owner p e ∧ (∀ error, e.xattrs ≠ .failed error) ∧ found' = found := by
  have hrel : (p = [] ∨ relText p ∈ ancestors expected.keys) ↔
      (p = [] ∨ p.join ∈ ancestors expected.keys) := by
    by_cases hp : p = []
    · simp [hp]
    · rw [relText_of_ne hp]
  simp only [examine, Except.bind_eq_ok, require_eq_ok, requireNoRefusedXattrs_eq_ok, he,
    decide_eq_true_eq, Bool.or_eq_true, List.contains_iff_mem, hrel, pure, Except.pure,
    Except.ok.injEq]
  constructor
  · rintro ⟨_, howned, _, hmode, _, ⟨hlisted, hnames⟩, _, hdir, _, hwritable, rfl⟩
    exact ⟨⟨howned, hmode, hnames, .inl ⟨he, hdir, hwritable⟩⟩, hlisted, rfl⟩
  · rintro ⟨⟨howned, hmode, hnames, hshape⟩, hlisted, rfl⟩
    obtain ⟨-, hdir, hwritable⟩ | ⟨hregular, -⟩ := hshape
    · exact ⟨(), howned, (), hmode, (), ⟨hlisted, hnames⟩, (), hdir, (), hwritable, rfl⟩
    · cases he.symm.trans hregular

/-- Anything below the root passes just if it is permitted, and a file is found by it. -/
theorem examine_eq_ok {kind : Kind} {expected : Allowlist} {owner : UInt32 × UInt32}
    {found found' : List Text} {p : RelPath} {e : Entry} (hp : p ≠ []) :
    examine kind expected owner found (p, e) = .ok found' ↔
      Permitted expected owner p e ∧ (∀ error, e.xattrs ≠ .failed error) ∧
        found' = if e.kind = .regular then p.join :: found else found := by
  cases hkind : e.kind with
  | directory => simpa using examine_directory hkind
  | regular =>
    simp only [examine, Except.bind_eq_ok, require_eq_ok, requireNoRefusedXattrs_eq_ok, hkind,
      decide_eq_true_eq, relText_of_ne hp]
    constructor
    · rintro ⟨_, howned, _, hmode, _, ⟨hlisted, hnames⟩, h⟩
      split at h
      · cases h
      · rename_i mode hlookup
        simp only [Except.bind_eq_ok, require_eq_ok, decide_eq_true_eq] at h
        obtain ⟨_, rfl, _, hlinks, h⟩ := h
        exact ⟨⟨howned, hmode, hnames, .inr ⟨hkind, hp, hlookup, hlinks⟩⟩, hlisted,
          (Except.ok.inj h).symm⟩
    · rintro ⟨⟨howned, hmode, hnames, hshape⟩, hlisted, rfl⟩
      obtain ⟨hdirectory, -⟩ | ⟨-, -, hlookup, hlinks⟩ := hshape
      · cases hkind.symm.trans hdirectory
      · refine ⟨(), howned, (), hmode, (), ⟨hlisted, hnames⟩, ?_⟩
        rw [hlookup]
        simp [require, hlinks, bind, Except.bind, pure, Except.pure]
  | _ =>
    constructor
    · intro h
      simp only [examine, Except.bind_eq_ok, hkind] at h
      obtain ⟨_, -, _, -, _, -, h⟩ := h
      cases h
    · rintro ⟨hpermitted, -, -⟩
      obtain ⟨h, -⟩ | ⟨h, -⟩ := hpermitted.shape <;> cases hkind.symm.trans h

theorem lstat_eq_ok {e : Entry} {u : Unit} : lstat e = .ok u ↔ e.visible := by
  unfold lstat
  split <;> simp_all

theorem missing_isEmpty {expected : Allowlist} {found : List Text} :
    (sorted (expected.keys.filter fun name => !found.contains name)).isEmpty ↔
      ∀ name ∈ expected.keys, name ∈ found := by
  have hperm := List.perm_insertionSort (· ≤ ·) (expected.keys.filter fun name => !found.contains name)
  rw [sorted, List.isEmpty_iff, ← List.length_eq_zero_iff, hperm.length_eq, List.length_eq_zero_iff,
    List.filter_eq_nil_iff]
  simp

/-! ### The loop -/

/-- The loop accepts just if every entry passes, and has then found the regular files. -/
theorem foldlM_examine {kind : Kind} {expected : Allowlist} {owner : UInt32 × UInt32}
    {found found' : List Text} {entries : List (RelPath × Entry)} (hne : ∀ r ∈ entries, r.1 ≠ []) :
    entries.foldlM (examine kind expected owner) found = .ok found' ↔
      (∀ r ∈ entries, Permitted expected owner r.1 r.2 ∧ ∀ error, r.2.xattrs ≠ .failed error) ∧
        found' = ((entries.filter fun r => r.2.kind = .regular).map fun r => r.1.join).reverse ++
          found := by
  induction entries generalizing found with
  | nil => simp [pure, Except.pure, eq_comm]
  | cons r entries ih =>
    rw [List.forall_mem_cons] at hne
    rw [List.foldlM_cons, Except.bind_eq_ok]
    constructor
    · rintro ⟨found₁, hr, h⟩
      obtain ⟨hpermitted, hlisted, rfl⟩ := (examine_eq_ok hne.1).mp hr
      obtain ⟨hentries, rfl⟩ := (ih hne.2).mp h
      refine ⟨List.forall_mem_cons.mpr ⟨⟨hpermitted, hlisted⟩, hentries⟩, ?_⟩
      by_cases hkind : r.2.kind = .regular <;> simp [hkind]
    · rintro ⟨hall, rfl⟩
      obtain ⟨⟨hpermitted, hlisted⟩, hentries⟩ := List.forall_mem_cons.mp hall
      refine ⟨_, (examine_eq_ok hne.1).mpr ⟨hpermitted, hlisted, rfl⟩, (ih hne.2).mpr ⟨hentries, ?_⟩⟩
      by_cases hkind : r.2.kind = .regular <;> simp [hkind]

/-! ### The tree -/

/-- The parents of a joined path are the paths above it. -/
theorem join_mem_parents {p q : RelPath} :
    p.join ∈ parents q.join ↔ p ≠ [] ∧ ∃ r, r ≠ [] ∧ q = p ++ r := by
  rw [parents, parentParts, RelPath.parts_join]
  constructor
  · intro h
    obtain ⟨pre, hpre, hjoin⟩ := List.mem_map.mp h
    simp only [List.mem_filter, List.mem_inits, Bool.and_eq_true, decide_eq_true_eq] at hpre
    obtain ⟨hstarts, hne, hproper⟩ := hpre
    obtain ⟨s, t, rfl, hs, ht⟩ := List.map_eq_append_iff.mp hstarts.choose_spec.symm
    obtain rfl : s = p := RelPath.join_injective (by rw [RelPath.join, RelPath.texts, hs, hjoin])
    refine ⟨fun hnil => hne (by rw [← hs, hnil]; rfl), t, fun hnil => hproper ?_, rfl⟩
    rw [← hs, hnil, List.append_nil]
    rfl
  · rintro ⟨hp, r, hr, rfl⟩
    refine List.mem_map.mpr ⟨p.texts, ?_, rfl⟩
    simp only [List.mem_filter, List.mem_inits, Bool.and_eq_true, decide_eq_true_eq]
    refine ⟨⟨RelPath.texts r, (List.map_append ..).symm⟩, by simpa [RelPath.texts] using hp, ?_⟩
    intro h
    have hlength := congrArg List.length h
    simp [RelPath.texts] at hlength
    exact hr hlength

section Complete
variable {expected : Allowlist} {owner : UInt32 × UInt32} {l : Listing Entry}

/-- A walk that finds every allowlisted file lists a directory that it visits: the
directory stands above an allowlisted file, which the walk has found below it. -/
theorem walked_of_complete
    (hpermitted : ∀ p e, l.find Entry.walked p = some e → Permitted expected owner p e)
    (hcomplete : ∀ name ∈ expected.keys, ∃ p e, l.find Entry.walked p = some e ∧ e.kind = .regular ∧
      p.join = name)
    {p : RelPath} {d : Entry} (h : l.find Entry.walked p = some d) (hd : d.isDirectory) :
    d.walked := by
  have hp : p ≠ [] := by
    rintro rfl
    cases Listing.find_nil_path.symm.trans h
  have habove : p.join ∈ ancestors expected.keys := by
    obtain ⟨-, habove | habove, -⟩ | ⟨hregular, -⟩ := (hpermitted p d h).shape
    · contradiction
    · exact habove
    · simp [Entry.isDirectory, hregular] at hd
  obtain ⟨name, hname, hparent⟩ := List.mem_flatMap.mp habove
  obtain ⟨s, f, hs, -, rfl⟩ := hcomplete name hname
  obtain ⟨-, t, ht, rfl⟩ := join_mem_parents.mp hparent
  obtain ⟨d', hd', hlisted⟩ := Listing.find_append hp ht hs
  obtain rfl : d = d' := Option.some.inj (h.symm.trans hd')
  exact hlisted

/-- Such a walk visits everything. -/
theorem find_walked
    (hpermitted : ∀ p e, l.find Entry.walked p = some e → Permitted expected owner p e)
    (hcomplete : ∀ name ∈ expected.keys, ∃ p e, l.find Entry.walked p = some e ∧ e.kind = .regular ∧
      p.join = name)
    {p : RelPath} {e : Entry} (h : l.find Entry.isDirectory p = some e) :
    l.find Entry.walked p = some e := by
  induction hn : p.length using Nat.strong_induction_on generalizing p e with
  | _ n ih =>
    refine Listing.find_of_enter h fun q r d hqr _ hr hd hdirectory => ?_
    have hlength : q.length < n := by
      have := List.length_pos_of_ne_nil hr
      rw [hqr, List.length_append] at hn
      omega
    exact walked_of_complete hpermitted hcomplete (ih _ hlength hd rfl) hdirectory

end Complete

theorem find_walked_of_inspectable {root : Entry} {l : Listing Entry} (h : Inspectable root l)
    {p : RelPath} {e : Entry} : l.find Entry.isDirectory p = some e ↔ l.find Entry.walked p = some e := by
  constructor
  · intro hfind
    refine Listing.find_of_enter hfind fun q r d _ _ _ hd hdirectory => ?_
    simpa [Entry.walked, hdirectory] using (h.entries q d hd).listable hdirectory
  · exact Listing.find_mono fun a ha => (Bool.and_eq_true _ _ ▸ ha).1

/-- `check` accepts exactly the trees of the allowlisted files, under the directories
above them, all of which can be looked at. -/
theorem check_iff {kind : Kind} {path : String} {pins : Option Pins}
    {verifier : Option DaemonVerifier} {owner : UInt32 × UInt32} {root : Entry}
    {inside : Listing Entry} (hproper : inside.Proper) :
    (∃ found, check kind path pins verifier owner root inside = .ok found) ↔
      ∃ expected, allowlist kind pins verifier = .ok expected ∧
        Exact expected owner root inside ∧ Inspectable root inside := by
  have hwalk {r : RelPath × Entry} : r ∈ inside.walk Entry.walked [] ↔
      inside.find Entry.walked r.1 = some r.2 := by
    rw [Listing.mem_walk hproper]
    simp
  have hbelow : ∀ r ∈ inside.walk Entry.walked [], r.1 ≠ [] := by
    rintro r hr hnil
    rw [hwalk, hnil, Listing.find_nil_path] at hr
    cases hr
  constructor
  · rintro ⟨found, h⟩
    simp only [check, Except.bind_eq_ok, require_eq_ok, List.foldlM_cons, List.forM_eq_forM,
      Except.forM_eq_ok, lstat_eq_ok, missing_isEmpty] at h
    obtain ⟨expected, hallowed, _, hvisible, _, hdirectory, _, hvisibles, found', ⟨found₀, hroot, hloop⟩,
      _, hmissing, -⟩ := h
    have hkind : root.kind = .directory := by simpa [Entry.isDirectory] using hdirectory
    obtain ⟨hpermitted, hlisted, rfl⟩ := (examine_directory hkind).mp hroot
    obtain ⟨name, hname⟩ := exists_mem_keys hallowed
    by_cases hlistable : root.listable
    · rw [if_pos hlistable] at hloop hvisibles
      obtain ⟨hentries, rfl⟩ := (foldlM_examine hbelow).mp hloop
      have hcomplete : ∀ name ∈ expected.keys, ∃ p e, inside.find Entry.walked p = some e ∧
          e.kind = .regular ∧ p.join = name := by
        intro name hname
        obtain ⟨⟨p, e⟩, hr, hjoin⟩ : ∃ r ∈ (inside.walk Entry.walked []).filter fun r =>
            r.2.kind = .regular, r.1.join = name := by
          simpa using hmissing name hname
        obtain ⟨hr, hregular⟩ := List.mem_filter.mp hr
        exact ⟨p, e, hwalk.mp hr, by simpa using hregular, hjoin⟩
      have hwalked {p : RelPath} {e : Entry} (h : inside.find Entry.isDirectory p = some e) :
          inside.find Entry.walked p = some e :=
        find_walked (fun p e h => (hentries (p, e) (hwalk.mpr h)).1) hcomplete h
      refine ⟨expected, hallowed, ⟨hkind, hpermitted, ?_, ?_⟩, ⟨hvisible, fun _ => hlistable, hlisted⟩, ?_⟩
      · intro p e h
        exact (hentries (p, e) (hwalk.mpr (hwalked h))).1
      · intro name hname
        obtain ⟨p, e, h, hregular, hjoin⟩ := hcomplete name hname
        exact ⟨p, e, Listing.find_mono (fun a ha => (Bool.and_eq_true _ _ ▸ ha).1) h, hregular, hjoin⟩
      · intro p e h
        have hr : (p, e) ∈ inside.walk Entry.walked [] := hwalk.mpr (hwalked h)
        refine ⟨hvisibles (p, e) hr, fun hdirectory => ?_, (hentries (p, e) hr).2⟩
        have := walked_of_complete (fun p e h => (hentries (p, e) (hwalk.mpr h)).1) hcomplete
          (hwalked h) hdirectory
        exact (Bool.and_eq_true _ _ ▸ this).2
    · rw [if_neg hlistable] at hloop
      obtain rfl := Except.ok.inj hloop
      cases hmissing name hname
  · rintro ⟨expected, hallowed, hexact, hinspectable⟩
    have hdirectory : root.isDirectory := by simp [Entry.isDirectory, hexact.directory]
    have hlistable : root.listable := hinspectable.root.listable hdirectory
    have hfind {r : RelPath × Entry} (hr : r ∈ inside.walk Entry.walked []) :
        inside.find Entry.isDirectory r.1 = some r.2 :=
      (find_walked_of_inspectable hinspectable).mpr (hwalk.mp hr)
    have hroot := (@examine_directory kind _ _ [] _ _ _ hexact.directory).mpr
      ⟨hexact.root, hinspectable.root.xattrs, rfl⟩
    have hloop := (@foldlM_examine kind _ _ [] _ _ hbelow).mpr
      ⟨fun r hr => ⟨hexact.entries _ _ (hfind hr), (hinspectable.entries _ _ (hfind hr)).xattrs⟩, rfl⟩
    generalize hfound : List.reverse _ ++ [] = found at hloop
    refine ⟨sorted found, ?_⟩
    simp only [check, Except.bind_eq_ok, require_eq_ok, List.foldlM_cons, List.forM_eq_forM,
      Except.forM_eq_ok, lstat_eq_ok, missing_isEmpty]
    refine ⟨expected, hallowed, (), hinspectable.root.visible, (), ?_, (), ?_, found, ⟨_, hroot, ?_⟩, (),
      ?_, rfl⟩
    · simp [Entry.isDirectory, hexact.directory]
    · rw [if_pos hlistable]
      exact fun r hr => (hinspectable.entries _ _ (hfind hr)).visible
    · rw [if_pos hlistable]
      exact hloop
    · intro name hname
      obtain ⟨p, e, h, hregular, rfl⟩ := hexact.complete name hname
      have hr : (p, e) ∈ inside.walk Entry.walked [] :=
        hwalk.mpr ((find_walked_of_inspectable hinspectable).mp h)
      simp only [← hfound, List.append_nil, List.mem_reverse, List.mem_map, List.mem_filter]
      exact ⟨(p, e), ⟨hr, by simpa using hregular⟩, rfl⟩

/-! ## What is exported -/

/-- A text that is the path of an entry. -/
def Canonical (name : Text) : Prop := ∃ p : RelPath, p ≠ [] ∧ p.join = name

/-- A directory that hands down neither its group nor an access control list. -/
def HandsDownNothing (e : Entry) : Prop := e.setGid = false ∧ e.defaultAcl = false

/-- The innermost entry at or above a place. -/
def nearest (fs : Disk) : Place → Option Entry
  | [] => fs []
  | name :: parent =>
    match fs (name :: parent) with
    | some e => some e
    | none => nearest fs parent

/-- Nothing is below a place where nothing is. -/
def Disk.WellFormed (fs : Disk) : Prop := ∀ name parent, fs parent = none → fs (name :: parent) = none

/-- A directory and a file that were exported. -/
def Creator.directory (who : Creator) : Entry where
  kind := .directory
  uid := who.uid
  gid := who.gid
  mode := 0o755
  links := 1
  xattrs := .names who.labels
  data := []
  visible := true
  listable := true

def Creator.file (who : Creator) (mode : UInt32) (data : Bytes) : Entry :=
  { who.directory with kind := .regular, mode, data }

/-- The place of a path below `dest`. -/
def placeOf (dest : Place) (p : RelPath) : Place := p.texts.reverse ++ dest

/-- A tree that shows what is below a place. -/
structure Represents (fs : Disk) (dest : Place) (root : Entry) (inside : Listing Entry) : Prop where
  root : fs dest = some root
  entries : ∀ p e, p ≠ [] →
    (inside.find Entry.isDirectory p = some e ↔ fs (placeOf dest p) = some e)

/-! ### New entries -/

theorem fresh_directory {who : Creator} {parent : Entry} (h : HandsDownNothing parent) :
    { who.fresh parent .directory 0o777 with mode := 0o755 } = who.directory := by
  simp [Creator.fresh, Creator.directory, h.1, h.2]

theorem fresh_file (who : Creator) {parent : Entry} (h : HandsDownNothing parent) (mode : UInt32)
    (data : Bytes) :
    { who.fresh parent .regular 0o666 with mode, data } = who.file mode data := by
  simp [Creator.fresh, Creator.file, Creator.directory, h.1, h.2]

theorem no_label {who : Creator} : who.labels.contains "system.posix_acl_default" = false := by
  have hlabel : "system.posix_acl_default" ∉ who.labels := fun hmem =>
    who.unrefused _ hmem (by simp [refusedXattrs])
  simpa using hlabel

theorem handsDownNothing_fresh {who : Creator} {parent : Entry} (h : HandsDownNothing parent) :
    HandsDownNothing (who.fresh parent .directory 0o777) := by
  have hmode : (who.fresh parent .directory 0o777).mode = 0o777 &&& ~~~who.umask := by
    simp [Creator.fresh, h.1]
  have hxattrs : (who.fresh parent .directory 0o777).xattrs = .names who.labels := by
    simp [Creator.fresh, h.2]
  constructor
  · rw [Entry.setGid, hmode, UInt32.and_assoc, UInt32.and_comm (~~~who.umask), ← UInt32.and_assoc,
      show (0o777 : UInt32) &&& 0o2000 = 0 by decide]
    simp
  · rw [Entry.defaultAcl, hxattrs]
    exact no_label

theorem handsDownNothing_directory (who : Creator) : HandsDownNothing who.directory :=
  ⟨show decide ((0o755 : UInt32) &&& 0o2000 ≠ 0) = false by decide, no_label⟩

/-- What a new file or directory leaves. -/
theorem create_eq_ok {who : Creator} {kind : FileKind} {mode : UInt32} {data : Bytes}
    {fs fs' : Disk} {p : Place} (h : create who kind mode data fs p = .ok fs') :
    ∃ name parent d, p = name :: parent ∧ fs p = none ∧ fs parent = some d ∧ d.isDirectory ∧
      fs' = fs.put p { who.fresh d kind mode with data } := by
  unfold create at h
  split at h
  · cases h
  · split at h
    · cases h
    · split at h
      · cases h
      · split at h
        · rename_i name parent hnone _ d hparent hdirectory
          exact ⟨name, parent, d, rfl, by simpa using hnone, hparent, hdirectory,
            (Except.ok.inj h).symm⟩
        · cases h

theorem fileNotFound_of_mkdir {who : Creator} {fs : Disk} {name : Text} {parent : Place} {error : Exn}
    (h : mkdir who fs (name :: parent) = .error error) (hnotFound : error.isFileNotFound) :
    fs parent = none ∧ fs (name :: parent) = none := by
  rw [mkdir, create] at h
  split at h
  · obtain rfl := Except.error.inj h
    cases hnotFound
  · rename_i hnone
    split at h
    · exact ⟨‹_›, by simpa using hnone⟩
    · split at h
      · cases h
      · obtain rfl := Except.error.inj h
        cases hnotFound

theorem put_self (fs : Disk) (p : Place) (e : Entry) : fs.put p e p = some e :=
  Function.update_self ..

theorem put_of_ne {fs : Disk} {p q : Place} (h : q ≠ p) (e : Entry) : fs.put p e q = fs q :=
  Function.update_of_ne h ..

theorem nearest_of_some {fs : Disk} {p : Place} {e : Entry} (h : fs p = some e) :
    nearest fs p = some e := by
  cases p with
  | nil => exact h
  | cons name parent => rw [nearest, h]

theorem nearest_of_none {fs : Disk} {name : Text} {parent : Place} (h : fs (name :: parent) = none) :
    nearest fs (name :: parent) = nearest fs parent := by
  rw [nearest, h]

/-- A new directory hands down nothing if its parent does not, and is the only change. -/
theorem mkdir_eq_ok {who : Creator} {fs fs' : Disk} {p : Place} (h : mkdir who fs p = .ok fs')
    (hparent : ∀ d, fs p.tail = some d → HandsDownNothing d) :
    (∃ d, fs' p = some d ∧ HandsDownNothing d) ∧ ∀ q, q ≠ p → fs' q = fs q := by
  obtain ⟨name, parent, d, rfl, -, hd, -, rfl⟩ := create_eq_ok h
  exact ⟨⟨_, put_self .., handsDownNothing_fresh (hparent d hd)⟩, fun q hq => put_of_ne hq _⟩

theorem existing_eq_ok {fs fs' : Disk} {p : Place} {error : Exn}
    (h : existing fs p error = .ok fs') : fs' = fs ∧ ∃ e, fs p = some e ∧ e.isDirectory := by
  unfold existing at h
  split at h
  · rename_i hany
    exact ⟨(Except.ok.inj h).symm, by simpa [Option.any_eq_true] using hany⟩
  · cases h

/-- The parents of a new directory are there, hand down nothing new, and leave every
other place as it is. -/
theorem makeParents_eq_ok {who : Creator} {fs fs' : Disk} {p : Place}
    (hnearest : ∀ e, nearest fs p = some e → HandsDownNothing e)
    (h : makeParents who fs p = .ok fs') :
    (∃ d, fs' p = some d ∧ HandsDownNothing d) ∧ ∀ q, ¬ q <:+ p → fs' q = fs q := by
  induction p generalizing fs' with
  | nil =>
    obtain ⟨rfl, e, he, -⟩ := existing_eq_ok h
    exact ⟨⟨e, he, hnearest e (nearest_of_some he)⟩, fun _ _ => rfl⟩
  | cons name parent ih =>
    have hne {q : Place} (hq : ¬ q <:+ name :: parent) : q ≠ name :: parent :=
      fun he => hq (he ▸ List.suffix_rfl)
    rw [makeParents] at h
    split at h
    · rename_i hmkdir
      obtain rfl := Except.ok.inj h
      obtain ⟨_, _, _, hp, hnone, -⟩ := create_eq_ok hmkdir
      obtain ⟨hd, hrest⟩ := mkdir_eq_ok hmkdir fun d hd =>
        hnearest d ((nearest_of_none hnone).trans (nearest_of_some hd))
      exact ⟨hd, fun q hq => hrest q (hne hq)⟩
    · rename_i error herror
      split at h
      · obtain ⟨fs₁, hparents, hmkdir⟩ := Except.bind_eq_ok.mp h
        obtain ⟨-, hnone⟩ := fileNotFound_of_mkdir herror ‹_›
        obtain ⟨⟨d, hd, hclean⟩, hframe⟩ := ih
          (fun e he => hnearest e ((nearest_of_none hnone).trans he)) hparents
        obtain ⟨hnew, hrest⟩ := mkdir_eq_ok hmkdir fun d' hd' =>
          Option.some.inj (hd.symm.trans hd') ▸ hclean
        refine ⟨hnew, fun q hq => (hrest q (hne hq)).trans (hframe q fun hsuffix => hq ?_)⟩
        exact hsuffix.trans (List.suffix_cons ..)
      · obtain ⟨rfl, e, he, -⟩ := existing_eq_ok h
        exact ⟨⟨e, he, hnearest e (nearest_of_some he)⟩, fun _ _ => rfl⟩

/-- A new file or directory with its final mode. -/
theorem create_chmod {who : Creator} {kind : FileKind} {mode mode' : UInt32} {data : Bytes}
    {fs fs₁ fs' : Disk} {p : Place} (h : create who kind mode data fs p = .ok fs₁)
    (hmode : chmod mode' fs₁ p = .ok fs') :
    ∃ name parent d, p = name :: parent ∧ fs p = none ∧ fs parent = some d ∧ d.isDirectory ∧
      fs' = fs.put p { who.fresh d kind mode with data, mode := mode' } := by
  obtain ⟨name, parent, d, rfl, hnone, hd, hdirectory, rfl⟩ := create_eq_ok h
  rw [chmod, put_self] at hmode
  refine ⟨name, parent, d, rfl, hnone, hd, hdirectory, ?_⟩
  rw [← Except.ok.inj hmode]
  exact Function.update_idem ..

theorem mkdir_chmod {who : Creator} {fs fs₁ fs' : Disk} {p : Place} (h : mkdir who fs p = .ok fs₁)
    (hmode : chmod 0o755 fs₁ p = .ok fs')
    (hparent : ∀ d, fs p.tail = some d → d.isDirectory → HandsDownNothing d) :
    fs' = fs.put p who.directory := by
  obtain ⟨name, parent, d, rfl, -, hd, hdirectory, rfl⟩ := create_chmod h hmode
  rw [← fresh_directory (hparent d hd hdirectory)]
  rfl

theorem put_put (fs : Disk) (p : Place) (e e' : Entry) : (fs.put p e).put p e' = fs.put p e' :=
  Function.update_idem ..

theorem put_same {fs : Disk} {p : Place} {e : Entry} (h : fs p = some e) : fs.put p e = fs := by
  rw [Disk.put, ← h, Function.update_eq_self]

theorem Disk.WellFormed.below {fs : Disk} (hfs : fs.WellFormed) {p : Place} (h : fs p = none)
    (q : Place) : fs (q ++ p) = none := by
  induction q with
  | nil => exact h
  | cons name q ih => exact hfs _ _ ih

theorem placeOf_ne {dest : Place} {p : RelPath} (h : p ≠ []) : placeOf dest p ≠ dest := by
  intro he
  have hlength := congrArg List.length he
  simp [placeOf, RelPath.texts] at hlength
  exact h hlength

/-- The destination is a new directory of the exporter with nothing in it. -/
theorem makeDest_eq_ok {who : Creator} {fs fs₁ fs' : Disk} {dest : Place} (hfs : fs.WellFormed)
    (hnearest : ∀ e, nearest fs dest = some e → HandsDownNothing e) (hnew : fs dest = none)
    (h : makeDest who fs dest = .ok fs₁) (hmode : chmod 0o755 fs₁ dest = .ok fs') :
    fs' dest = some who.directory ∧ ∀ p, p ≠ [] → fs' (placeOf dest p) = none := by
  unfold makeDest at h
  split at h
  · rename_i hmkdir
    obtain rfl := Except.ok.inj h
    obtain ⟨name, parent, _, rfl, -⟩ := create_eq_ok hmkdir
    obtain rfl := mkdir_chmod hmkdir hmode fun d hd _ =>
      hnearest d ((nearest_of_none hnew).trans (nearest_of_some hd))
    exact ⟨put_self .., fun p hp => (put_of_ne (placeOf_ne hp) _).trans (hfs.below hnew _)⟩
  · rename_i error herror
    split at h
    · obtain ⟨fs₀, hparents, hmkdir⟩ := Except.bind_eq_ok.mp h
      obtain ⟨name, parent, _, rfl, -⟩ := create_eq_ok hmkdir
      obtain ⟨⟨d, hd, hclean⟩, hframe⟩ := makeParents_eq_ok
        (fun e he => hnearest e ((nearest_of_none hnew).trans he)) hparents
      obtain rfl := mkdir_chmod hmkdir hmode fun d' hd' _ =>
        Option.some.inj (hd.symm.trans hd') ▸ hclean
      refine ⟨put_self .., fun p hp => (put_of_ne (placeOf_ne hp) _).trans ?_⟩
      refine (hframe _ fun hsuffix => ?_).trans (hfs.below hnew _)
      have := hsuffix.length_le
      simp [placeOf] at this
      omega
    · cases h

/-! ### The loop -/

/-- The path of the components of a place below the destination. -/
theorem locate_eq_ok {fs : Disk} {base p : Place} {components : List Text}
    (hdots : ['.', '.'] ∉ components) (h : locate fs base components = .ok p) :
    p = components.reverse ++ base := by
  induction components generalizing base with
  | nil => exact (Except.ok.inj h).symm
  | cons component components ih =>
    rw [List.mem_cons, not_or] at hdots
    rw [locate] at h
    split at h
    · rw [if_neg (Ne.symm hdots.1)] at h
      simpa using ih hdots.2 h
    · cases h

theorem dots_not_mem (p : RelPath) : ['.', '.'] ∉ p.texts := by
  intro h
  obtain ⟨name, -, hname⟩ := List.mem_map.mp h
  exact name.special.2 hname

theorem placeOf_injective {dest : Place} : Function.Injective (placeOf dest) := by
  intro p q h
  exact RelPath.texts_injective (List.reverse_injective (List.append_cancel_right h))

/-- The place of a path, and the one above it. -/
theorem placeOf_append (dest : Place) (p : RelPath) (name : FileName) :
    placeOf dest (p ++ [name]) = name.text :: placeOf dest p := by
  simp [placeOf, RelPath.texts]

theorem texts_of_mem_parentParts {p : RelPath} {q : List Text} (h : q ∈ parentParts p.join) :
    ∃ s : RelPath, s ≠ [] ∧ s.texts = q := by
  rw [parentParts, RelPath.parts_join] at h
  simp only [List.mem_filter, List.mem_inits, Bool.and_eq_true, decide_eq_true_eq] at h
  obtain ⟨⟨rest, hrest⟩, hne, -⟩ := h
  obtain ⟨s, t, rfl, hs, ht⟩ := List.map_eq_append_iff.mp hrest.symm
  exact ⟨s, fun hnil => hne (by rw [← hs, hnil]; rfl), hs⟩

theorem readRegular_eq_ok {kind : Kind} {source : Source} {rel : Text} {data : Bytes}
    (h : readRegular kind source rel = .ok data) :
    ∃ origin, source rel = .ok origin ∧ origin.data = data := by
  unfold readRegular at h
  dsimp only at h
  split at h
  · cases h
  · simp only [Except.bind_eq_ok] at h
    obtain ⟨_, -, _, -, h⟩ := h
    exact ⟨_, ‹_›, Except.ok.inj h⟩

/-- What the export has made of the destination: directories above allowlisted files,
files with their modes and the bytes of their sources, and those in `done`. -/
structure Built (expected : Allowlist) (who : Creator) (source : Source) (dest : Place)
    (done : List Text) (fs : Disk) : Prop where
  root : fs dest = some who.directory
  entries : ∀ p : RelPath, p ≠ [] → ∀ e, fs (placeOf dest p) = some e →
    e = who.directory ∧ p.join ∈ ancestors expected.keys ∨
      ∃ mode origin, e = who.file mode origin.data ∧ expected.mode p.join = some mode ∧
        source p.join = .ok origin
  complete : ∀ p : RelPath, p.join ∈ done → ∃ e, fs (placeOf dest p) = some e ∧ e.kind = .regular

namespace Built
variable {expected : Allowlist} {who : Creator} {source : Source} {dest : Place} {done : List Text}
  {fs fs' : Disk}

/-- A directory in the destination hands down nothing. -/
theorem handsDownNothing (h : Built expected who source dest done fs) {p : RelPath} {d : Entry}
    (hd : fs (placeOf dest p) = some d) (hdirectory : d.isDirectory) : d = who.directory := by
  by_cases hp : p = []
  · subst hp
    exact Option.some.inj (hd.symm.trans h.root)
  · obtain ⟨rfl, -⟩ | ⟨mode, origin, rfl, -⟩ := h.entries p hp d hd
    · rfl
    · cases hdirectory

/-- A new entry at a path keeps what was there before. -/
theorem put (h : Built expected who source dest done fs) {p : RelPath} (hp : p ≠ []) {e : Entry}
    (hnone : fs (placeOf dest p) = none)
    (he : e = who.directory ∧ p.join ∈ ancestors expected.keys ∨
      ∃ mode origin, e = who.file mode origin.data ∧ expected.mode p.join = some mode ∧
        source p.join = .ok origin) :
    Built expected who source dest done (fs.put (placeOf dest p) e) where
  root := (put_of_ne (placeOf_ne hp).symm e).trans h.root
  entries := by
    intro q hq e' he'
    by_cases hqp : q = p
    · subst hqp
      obtain rfl := Option.some.inj ((put_self ..).symm.trans he')
      exact he
    · rw [put_of_ne (placeOf_injective.ne hqp)] at he'
      exact h.entries q hq e' he'
  complete := by
    intro q hq
    obtain ⟨e', he', hkind⟩ := h.complete q hq
    have hqp : q ≠ p := by
      rintro rfl
      cases hnone.symm.trans he'
    exact ⟨e', (put_of_ne (placeOf_injective.ne hqp) e).trans he', hkind⟩

/-- The directories above a file. -/
theorem addParent (h : Built expected who source dest done fs) {p : RelPath} (hp : p ≠ [])
    (habove : p.join ∈ ancestors expected.keys)
    (hadd : Handoff.addParent who dest fs p.texts = .ok fs') :
    Built expected who source dest done fs' := by
  obtain ⟨place, hplace, hadd⟩ := Except.bind_eq_ok.mp hadd
  obtain rfl : place = placeOf dest p := locate_eq_ok (dots_not_mem p) hplace
  obtain ⟨fs₁, hmkdir, hmode⟩ := Except.bind_eq_ok.mp hadd
  unfold mkdirExistOk at hmkdir
  split at hmkdir
  · rename_i hnew
    obtain rfl := Except.ok.inj hmkdir
    obtain ⟨q, name, rfl⟩ := List.eq_nil_or_concat' p |>.resolve_left hp
    obtain ⟨_, _, _, -, hnone, -⟩ := create_eq_ok hnew
    rw [mkdir_chmod hnew hmode fun d hd hdirectory => by
      rw [placeOf_append] at hd
      rw [h.handsDownNothing hd hdirectory]
      exact handsDownNothing_directory who]
    exact h.put hp hnone (.inl ⟨rfl, habove⟩)
  · obtain ⟨rfl, e, he, hdirectory⟩ := existing_eq_ok hmkdir
    obtain rfl := h.handsDownNothing he hdirectory
    rw [chmod, he] at hmode
    have hsame : fs₁.put (placeOf dest p) { who.directory with mode := 0o755 } = fs₁ := put_same he
    rw [← Except.ok.inj hmode, hsame]
    exact h

theorem addParents (h : Built expected who source dest done fs) {p : RelPath}
    (hp : p.join ∈ expected.keys) {above : List (List Text)} (habove : above ⊆ parentParts p.join)
    (hadd : above.foldlM (Handoff.addParent who dest) fs = .ok fs') :
    Built expected who source dest done fs' := by
  induction above generalizing fs with
  | nil =>
    obtain rfl := Except.ok.inj hadd
    exact h
  | cons q above ih =>
    rw [List.foldlM_cons, Except.bind_eq_ok] at hadd
    obtain ⟨fs₁, hq, hadd⟩ := hadd
    rw [List.cons_subset] at habove
    obtain ⟨s, hs, rfl⟩ := texts_of_mem_parentParts habove.1
    refine ih (h.addParent hs ?_ hq) habove.2 hadd
    exact List.mem_flatMap.mpr ⟨p.join, hp, List.mem_map_of_mem habove.1⟩

/-- One allowlisted file. -/
theorem copy (h : Built expected who source dest done fs) {kind : Kind} {p : RelPath} (hp : p ≠ [])
    {mode : UInt32} (hmode : expected.mode p.join = some mode)
    (hcopy : Handoff.copy kind who source dest fs (p.join, mode) = .ok fs') :
    Built expected who source dest (p.join :: done) fs' := by
  simp only [Handoff.copy, Except.bind_eq_ok, RelPath.parts_join] at hcopy
  obtain ⟨data, hdata, fs₁, habove, place, hplace, fs₂, hcreate, hchmod⟩ := hcopy
  obtain rfl : place = placeOf dest p := locate_eq_ok (dots_not_mem p) hplace
  have h₁ := h.addParents (mode_isSome.mpr ⟨mode, hmode⟩) (fun _ hq => hq) habove
  obtain ⟨origin, horigin, rfl⟩ := readRegular_eq_ok hdata
  obtain ⟨q, name, rfl⟩ := List.eq_nil_or_concat' p |>.resolve_left hp
  obtain ⟨_, _, d, hparent, hnone, hd, hdirectory, rfl⟩ := create_chmod hcreate hchmod
  rw [placeOf_append] at hparent
  obtain ⟨rfl, rfl⟩ := List.cons.inj hparent
  obtain rfl := h₁.handsDownNothing hd hdirectory
  have hfile := fresh_file who (handsDownNothing_directory who) mode origin.data
  have h₂ := h₁.put hp hnone (.inr ⟨mode, origin, hfile, hmode, horigin⟩)
  refine ⟨h₂.root, h₂.entries, fun r hr => ?_⟩
  rcases List.mem_cons.mp hr with hr | hr
  · obtain rfl := RelPath.join_injective hr
    exact ⟨_, put_self .., rfl⟩
  · exact h₂.complete r hr

theorem copies (h : Built expected who source dest done fs) {kind : Kind}
    {items : List (Text × UInt32)}
    (hitems : ∀ item ∈ items, Canonical item.1 ∧ expected.mode item.1 = some item.2)
    (hcopy : items.foldlM (Handoff.copy kind who source dest) fs = .ok fs') :
    ∃ done', done ⊆ done' ∧ (∀ item ∈ items, item.1 ∈ done') ∧
      Built expected who source dest done' fs' := by
  induction items generalizing done fs with
  | nil =>
    obtain rfl := Except.ok.inj hcopy
    exact ⟨done, List.Subset.refl _, by simp, h⟩
  | cons item items ih =>
    rw [List.foldlM_cons, Except.bind_eq_ok] at hcopy
    obtain ⟨fs₁, hitem, hcopy⟩ := hcopy
    rw [List.forall_mem_cons] at hitems
    obtain ⟨name, mode⟩ := item
    obtain ⟨⟨p, hp, rfl⟩, hmode⟩ := hitems.1
    obtain ⟨done', hsubset, hdone, h'⟩ := ih (h.copy hp hmode hitem) hitems.2 hcopy
    exact ⟨done', List.Subset.trans (List.subset_cons_self ..) hsubset,
      List.forall_mem_cons.mpr ⟨hsubset (List.mem_cons_self ..), hdone⟩, h'⟩

end Built

theorem mem_sortedItems {expected : Allowlist} {item : Text × UInt32} :
    item ∈ expected.sortedItems ↔ expected.mode item.1 = some item.2 := by
  have hperm := List.perm_insertionSort (· ≤ ·) expected.keys
  simp only [Allowlist.sortedItems, sorted, List.mem_filterMap, hperm.mem_iff, Option.map_eq_some_iff]
  constructor
  · rintro ⟨name, -, mode, hmode, rfl⟩
    exact hmode
  · intro h
    exact ⟨item.1, mode_isSome.mpr ⟨_, h⟩, item.2, h, rfl⟩

theorem Creator.inspectable (who : Creator) (mode : UInt32) (data : Bytes) :
    who.directory.Inspectable ∧ (who.file mode data).Inspectable :=
  ⟨⟨rfl, fun _ => rfl, fun _ => nofun⟩, ⟨rfl, fun _ => rfl, fun _ => nofun⟩⟩

theorem Creator.xattrs (who : Creator) {present : List String}
    (h : Xattrs.names who.labels = .names present) : ∀ name ∈ present, name ∉ refusedXattrs :=
  Xattrs.names.inj h ▸ who.unrefused

/-- A tree that shows a finished export is exactly the allowlist, and can be looked at. -/
theorem exact_of_built {kind : Kind} {pins : Option Pins} {verifier : Option DaemonVerifier}
    {expected : Allowlist} {who : Creator} {source : Source} {dest : Place} {done : List Text}
    {fs : Disk} {root : Entry} {inside : Listing Entry}
    (hallowed : allowlist kind pins verifier = .ok expected)
    (hcanonical : ∀ name ∈ expected.keys, Canonical name) (hdone : ∀ name ∈ expected.keys, name ∈ done)
    (h : Built expected who source dest done fs) (hrep : Represents fs dest root inside) :
    Exact expected (who.uid, who.gid) root inside ∧ Inspectable root inside := by
  have hmodes {name : Text} {mode : UInt32} (hm : expected.mode name = some mode) :
      mode &&& 0o7000 = 0 := by
    obtain ⟨entries, -, hentries, rfl⟩ := of_allowlist hallowed
    rcases hentries _ (mem_of_mode hm) with rfl | rfl <;> decide
  have hdirectory (p : RelPath) (hp : p = [] ∨ p.join ∈ ancestors expected.keys) :
      Permitted expected (who.uid, who.gid) p who.directory :=
    ⟨rfl, show (0o755 : UInt32) &&& 0o7000 = 0 by decide, fun _ => who.xattrs,
      .inl ⟨rfl, hp, show (0o755 : UInt32) &&& 0o022 = 0 by decide⟩⟩
  obtain rfl := Option.some.inj (hrep.root.symm.trans h.root)
  have hentry {p : RelPath} {e : Entry} (hfind : inside.find Entry.isDirectory p = some e) :
      p ≠ [] ∧ fs (placeOf dest p) = some e := by
    have hp : p ≠ [] := by
      rintro rfl
      cases Listing.find_nil_path.symm.trans hfind
    exact ⟨hp, (hrep.entries p e hp).mp hfind⟩
  refine ⟨⟨rfl, hdirectory [] (.inl rfl), ?_, ?_⟩, ⟨(who.inspectable 0 []).1, ?_⟩⟩
  · intro p e hfind
    obtain ⟨hp, hplace⟩ := hentry hfind
    obtain ⟨rfl, habove⟩ | ⟨mode, origin, rfl, hmode, -⟩ := h.entries p hp e hplace
    · exact hdirectory p (.inr habove)
    · exact ⟨rfl, hmodes hmode, fun _ => who.xattrs, .inr ⟨rfl, hp, hmode, rfl⟩⟩
  · intro name hname
    obtain ⟨p, hp, rfl⟩ := hcanonical name hname
    obtain ⟨e, hplace, hkind⟩ := h.complete p (hdone _ hname)
    exact ⟨p, e, (hrep.entries p e hp).mpr hplace, hkind, rfl⟩
  · intro p e hfind
    obtain ⟨hp, hplace⟩ := hentry hfind
    obtain ⟨rfl, -⟩ | ⟨mode, origin, rfl, -⟩ := h.entries p hp e hplace
    · exact (who.inspectable 0 []).1
    · exact (who.inspectable mode origin.data).2

/-- A finished export has built the whole allowlist. -/
theorem built_of_exportTo {kind : Kind} {pins : Option Pins} {verifier : Option DaemonVerifier}
    {expected : Allowlist} {who : Creator} {source : Source} {dest : Place} {fs fs' : Disk}
    {names : List Text} (hallowed : allowlist kind pins verifier = .ok expected)
    (hcanonical : ∀ name ∈ expected.keys, Canonical name) (hfs : fs.WellFormed)
    (hnearest : ∀ e, nearest fs dest = some e → HandsDownNothing e)
    (h : exportTo kind pins verifier who source dest fs = .ok (names, fs')) :
    ∃ done, (∀ name ∈ expected.keys, name ∈ done) ∧ Built expected who source dest done fs' := by
  simp only [exportTo, Except.bind_eq_ok, require_eq_ok] at h
  obtain ⟨expected', hallowed', _, hnew, fs₁, hdest, fs₂, hmode, fs₃, hcopies, h⟩ := h
  obtain rfl := Except.ok.inj (hallowed.symm.trans hallowed')
  obtain ⟨-, rfl⟩ := Prod.mk.inj (Except.ok.inj h)
  obtain ⟨hroot, hempty⟩ := makeDest_eq_ok hfs hnearest (by simpa using hnew) hdest hmode
  have h₀ : Built expected who source dest [] fs₂ :=
    ⟨hroot, fun p hp e he => absurd he (by simp [hempty p hp]), fun _ => nofun⟩
  obtain ⟨done, -, hdone, h'⟩ := h₀.copies (fun item hitem => by
    have hm := mem_sortedItems.mp hitem
    exact ⟨hcanonical _ (mode_isSome.mpr ⟨_, hm⟩), hm⟩) hcopies
  refine ⟨done, fun name hname => ?_, h'⟩
  obtain ⟨mode, hm⟩ := mode_isSome.mp hname
  exact hdone (name, mode) (mem_sortedItems.mpr hm)

/-- What `check` accepts is exactly a tree of the allowlisted files all of which can be
looked at, and it accepts what `export` made, with the bytes of the sources. -/
theorem handoff_agrees :
    (∀ kind path pins verifier owner root (inside : Listing Entry), inside.Proper →
      ((∃ found, check kind path pins verifier owner root inside = .ok found) ↔
        ∃ expected, allowlist kind pins verifier = .ok expected ∧
          Exact expected owner root inside ∧ Inspectable root inside)) ∧
    ∀ kind path pins verifier expected who source dest (fs fs' : Disk) names root
      (inside : Listing Entry), allowlist kind pins verifier = .ok expected →
      (∀ name ∈ expected.keys, Canonical name) → fs.WellFormed →
      (∀ e, nearest fs dest = some e → HandsDownNothing e) →
      exportTo kind pins verifier who source dest fs = .ok (names, fs') → inside.Proper →
      Represents fs' dest root inside →
      (∃ found, check kind path pins verifier (who.uid, who.gid) root inside = .ok found) ∧
        ∀ p e, inside.find Entry.isDirectory p = some e → e.kind = .regular →
          ∃ origin, source p.join = .ok origin ∧ e.data = origin.data := by
  constructor
  · intro kind path pins verifier owner root inside hproper
    exact check_iff hproper
  · intro kind path pins verifier expected who source dest fs fs' names root inside hallowed hcanonical
      hfs hnearest hexport hproper hrep
    obtain ⟨done, hdone, h⟩ := built_of_exportTo hallowed hcanonical hfs hnearest hexport
    constructor
    · exact (check_iff hproper).mpr ⟨expected, hallowed, exact_of_built hallowed hcanonical hdone h hrep⟩
    · intro p e hfind hkind
      have hp : p ≠ [] := by
        rintro rfl
        cases Listing.find_nil_path.symm.trans hfind
      obtain ⟨rfl, -⟩ | ⟨mode, origin, rfl, -, horigin⟩ :=
        h.entries p hp e ((hrep.entries p e hp).mp hfind)
      · cases hkind
      · exact ⟨origin, horigin, rfl⟩

/-! ## A sample -/

def sampleDir : FileName := ⟨"snitchwatch-bridge-1".toList, by decide, by decide, by decide⟩
def sampleFile : FileName := ⟨"2-x86_64.tar.gz".toList, by decide, by decide, by decide⟩

def sampleCreator : Creator := ⟨0, 0, 0o022, [], by simp⟩

/-- A file system with nothing but its root. -/
def emptyDisk : Disk := fun p => if p = [] then some sampleCreator.directory else none

def sampleSource : Source := fun _ => .ok (sampleCreator.file 0o600 [1, 2])

def sampleDest : Place := ["out".toList]

/-- The directory with one file that is exported there. -/
def exportedDisk : Disk :=
  ((emptyDisk.put sampleDest sampleCreator.directory).put (placeOf sampleDest [sampleDir])
    sampleCreator.directory).put (placeOf sampleDest [sampleDir, sampleFile])
      (sampleCreator.file 0o644 [1, 2])

def sampleTree : Listing Entry :=
  .cons sampleDir sampleCreator.directory
    (.cons sampleFile (sampleCreator.file 0o644 [1, 2]) .nil .nil) .nil

def samplePins (version : String) : Option Pins := some ⟨some version.toList⟩

theorem exportTo_sample (version : String) (h : version ∈ ["1/2", "1//2"]) : ∃ names,
    exportTo .bridgeRebuild (samplePins version) none sampleCreator sampleSource sampleDest emptyDisk =
      .ok (names, exportedDisk) := by
  let start (kind : FileKind) (mode : UInt32) (data : Bytes) : Entry :=
    { sampleCreator.fresh sampleCreator.directory kind mode with data }
  have hput : (((((emptyDisk.put sampleDest (start .directory 0o777 [])).put sampleDest
      sampleCreator.directory).put (placeOf sampleDest [sampleDir]) (start .directory 0o777 [])).put
        (placeOf sampleDest [sampleDir]) sampleCreator.directory).put
          (placeOf sampleDest [sampleDir, sampleFile]) (start .regular 0o666 [1, 2])).put
            (placeOf sampleDest [sampleDir, sampleFile]) (sampleCreator.file 0o644 [1, 2]) =
      exportedDisk := by
    simp only [put_put, exportedDisk]
  rw [← hput]
  simp only [List.mem_cons, List.not_mem_nil, or_false] at h
  rcases h with rfl | rfl
  · exact ⟨_, rfl⟩
  · exact ⟨_, rfl⟩

theorem find_sampleTree (p : RelPath) : sampleTree.find Entry.isDirectory p =
    if p = [sampleDir, sampleFile] then some (sampleCreator.file 0o644 [1, 2])
    else if p = [sampleDir] then some sampleCreator.directory else none := by
  have hfile : (sampleCreator.file 0o644 [1, 2]).isDirectory = false := rfl
  have hdirectory : sampleCreator.directory.isDirectory = true := rfl
  have hchild (name : FileName) : sampleTree.child name = if name = sampleDir then
      some (sampleCreator.directory, .cons sampleFile (sampleCreator.file 0o644 [1, 2]) .nil .nil)
      else none := by
    simp [sampleTree, Listing.child, eq_comm]
  rcases p with _ | ⟨name, _ | ⟨name', p⟩⟩
  · simp
  · by_cases h : name = sampleDir <;> simp [Listing.find, hchild, h]
  · by_cases h : name = sampleDir
    · by_cases h' : name' = sampleFile
      · by_cases hp : p = []
        · simp [Listing.find, Listing.child, hchild, hdirectory, h, h', hp]
        · simp [Listing.find_cons, Listing.child, hchild, hdirectory, hfile, h, h', hp]
      · have hne : sampleFile ≠ name' := Ne.symm h'
        cases p <;> simp [Listing.find, Listing.child, hchild, hdirectory, h, h', hne]
    · simp [Listing.find_cons, hchild, h]

theorem represents_sample :
    Represents exportedDisk sampleDest sampleCreator.directory sampleTree where
  root := by
    rw [exportedDisk, put_of_ne (by decide), put_of_ne (by decide), put_self]
  entries := by
    intro p e hp
    rw [find_sampleTree]
    by_cases hfile : p = [sampleDir, sampleFile]
    · rw [if_pos hfile, hfile, exportedDisk, put_self]
    · rw [if_neg hfile, exportedDisk, put_of_ne (placeOf_injective.ne hfile)]
      by_cases hdir : p = [sampleDir]
      · rw [if_pos hdir, hdir, put_self]
      · have hempty : emptyDisk (placeOf sampleDest p) = none := by simp [emptyDisk, placeOf, sampleDest]
        rw [if_neg hdir, put_of_ne (placeOf_injective.ne hdir), put_of_ne (placeOf_ne hp), hempty]

theorem proper_sampleTree : sampleTree.Proper := by simp [sampleTree, Listing.Proper, Listing.names]

theorem wellFormed_emptyDisk : emptyDisk.WellFormed := by
  intro name parent h
  simp [emptyDisk]

theorem nearest_emptyDisk {e : Entry} (h : nearest emptyDisk sampleDest = some e) :
    HandsDownNothing e := by
  obtain rfl : sampleCreator.directory = e := by simpa [nearest, sampleDest, emptyDisk] using h
  exact handsDownNothing_directory _

def sampleName (version : String) : Text :=
  "snitchwatch-bridge-".toList ++ version.toList ++ "-x86_64.tar.gz".toList

theorem allowlist_sample (version : String) : allowlist .bridgeRebuild (samplePins version) none =
    .ok (dictionary [(sampleName version, 0o644)]) := rfl

theorem canonical_sample {name : Text}
    (h : name ∈ (dictionary [(sampleName "1/2", 0o644)]).keys) : Canonical name := by
  rw [mem_keys_dictionary, List.map_singleton, List.mem_singleton] at h
  exact ⟨[sampleDir, sampleFile], by simp, h ▸ by decide⟩

/-- The exported tarball is accepted. -/
theorem handoff_agrees_sample :
    (∃ found, check .bridgeRebuild "/handoff" (samplePins "1/2") none (0, 0) sampleCreator.directory
      sampleTree = .ok found) ∧
    ∀ p e, sampleTree.find Entry.isDirectory p = some e → e.kind = .regular →
      ∃ origin, sampleSource p.join = .ok origin ∧ e.data = origin.data := by
  obtain ⟨names, hexport⟩ := exportTo_sample "1/2" (by simp)
  exact handoff_agrees.2 .bridgeRebuild "/handoff" (samplePins "1/2") none _ sampleCreator sampleSource
    sampleDest emptyDisk exportedDisk names sampleCreator.directory sampleTree (allowlist_sample _)
    (fun _ => canonical_sample) wellFormed_emptyDisk (fun _ => nearest_emptyDisk) hexport
    proper_sampleTree represents_sample

/-- Without the two conditions both halves fail: a checker that cannot list a directory refuses
the right tree, and an allowlisted name with an empty component is exported but not accepted. -/
theorem not_handoff_agrees :
    (¬ ∀ kind path pins verifier owner root (inside : Listing Entry), inside.Proper →
      ((∃ found, check kind path pins verifier owner root inside = .ok found) ↔
        ∃ expected, allowlist kind pins verifier = .ok expected ∧ Exact expected owner root inside)) ∧
    ¬ ∀ kind path pins verifier who source dest (fs fs' : Disk) names root (inside : Listing Entry),
      fs.WellFormed → (∀ e, nearest fs dest = some e → HandsDownNothing e) →
      exportTo kind pins verifier who source dest fs = .ok (names, fs') → inside.Proper →
      Represents fs' dest root inside →
      ∃ found, check kind path pins verifier (who.uid, who.gid) root inside = .ok found := by
  constructor
  · intro h
    obtain ⟨names, hexport⟩ := exportTo_sample "1/2" (by simp)
    obtain ⟨done, hdone, hbuilt⟩ := built_of_exportTo (allowlist_sample _) (fun _ => canonical_sample)
      wellFormed_emptyDisk (fun _ => nearest_emptyDisk) hexport
    obtain ⟨hexact, -⟩ := exact_of_built (allowlist_sample _) (fun _ => canonical_sample) hdone hbuilt
      represents_sample
    have hunlisted : Exact (dictionary [(sampleName "1/2", 0o644)]) (0, 0)
        { sampleCreator.directory with listable := false } sampleTree :=
      ⟨hexact.directory, ⟨hexact.root.owned, hexact.root.noSetId, hexact.root.xattrs, hexact.root.shape⟩,
        hexact.entries, hexact.complete⟩
    have hcheck := (h .bridgeRebuild "/handoff" (samplePins "1/2") none (0, 0) _ sampleTree
      proper_sampleTree).mpr ⟨_, allowlist_sample _, hunlisted⟩
    obtain ⟨-, -, -, hinspectable⟩ := (check_iff proper_sampleTree).mp hcheck
    cases hinspectable.root.listable rfl
  · intro h
    obtain ⟨names, hexport⟩ := exportTo_sample "1//2" (by simp)
    obtain ⟨expected, hallowed, hexact, -⟩ := (check_iff proper_sampleTree).mp
      (h .bridgeRebuild "/handoff" (samplePins "1//2") none sampleCreator sampleSource sampleDest
        emptyDisk exportedDisk names sampleCreator.directory sampleTree wellFormed_emptyDisk
        (fun _ => nearest_emptyDisk) hexport proper_sampleTree represents_sample)
    obtain rfl := Except.ok.inj ((allowlist_sample _).symm.trans hallowed)
    obtain ⟨p, e, -, -, hp⟩ := hexact.complete (sampleName "1//2") (mem_keys_dictionary.mpr (by simp))
    have hjoin : ['/'].intercalate (RelPath.parts p.join) = p.join := by
      rw [RelPath.parts_join]
      rfl
    rw [hp] at hjoin
    revert hjoin
    decide

end Handoff
