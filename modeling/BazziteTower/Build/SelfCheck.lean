import BazziteTower.Host
import BazziteTower.Lib.Tree

/-!
# The self-check of the build sandbox

`selfcheck` of `snitchwatch-system-unpriv.py` walks the file system as the build user and
reports what that user can write or owns outside the scratch directories.

Access is decided by the permission bits alone: the build user has no capabilities and no
further groups.  What the other parts of the self-check report is a parameter.

## Main definitions

* `Entry.granted` — the permission bits that apply to a user.
* `walk`, `writableOutside`, `selfcheck` — the program.
* `At` — an entry that the user reaches.
* `Contained` — what the module promises.
* `Hidden` — what the walk does not see.

## Main results

* `mem_walkBelow` — the walk sees whatever is not hidden.
* `contained_iff` — the promise holds exactly if it holds of what is hidden.
-/

namespace SelfCheck

/-! ## Entries -/

structure Perm where
  read : Bool
  write : Bool
  exec : Bool

/-- What `lstat` reports of an entry. -/
structure Entry where
  kind : FileKind
  owner : ℕ
  group : ℕ
  device : ℕ
  user : Perm
  members : Perm
  others : Perm
  sticky : Bool

/-- The user and the group of a process. -/
structure Ids where
  uid : ℕ
  gid : ℕ

/-- The permission bits of the class to which the process belongs. -/
def Entry.granted (who : Ids) (e : Entry) : Perm :=
  if e.owner = who.uid then e.user else if e.group = who.gid then e.members else e.others

/-! ## The walk -/

/-- `SKIP_TREES` -/
def skipTrees : List (List Text) := [["proc".toList], ["sys".toList], ["dev".toList]]

/-- `kept`: the walk goes on into the entry. -/
def keeps (device : ℕ) (path : RelPath) (e : Entry) : Bool :=
  e.kind = .directory && e.device = device && !skipTrees.contains (path.map FileName.text)

/-- The lists that `walk` returns. -/
structure Walked where
  entries : List (RelPath × Entry)
  unlistable : List RelPath

/-- Looking into a directory, given whether it is empty and what is walked below it: one
that cannot be listed is listed apart, and `lstat` raises on the entries of one that can be
listed but not searched. -/
def scan (who : Ids) (path : RelPath) (e : Entry) (empty : Bool) (below : Option Walked) :
    Option Walked :=
  if !(e.granted who).read then some ⟨[], [path]⟩
  else if !(e.granted who).exec && !empty then none
  else below

/-- Nothing is walked below an entry that is not kept. -/
def descend (who : Ids) (device : ℕ) (path : RelPath) (e : Entry) (empty : Bool)
    (below : Option Walked) : Option Walked :=
  if keeps device path e then scan who path e empty below else some ⟨[], []⟩

/-- The walk over the entries of a directory. -/
def walkBelow (who : Ids) (device : ℕ) (base : RelPath) : Listing Entry → Option Walked
  | .nil => some ⟨[], []⟩
  | .cons name e inside rest => do
    let path := base ++ [name]
    let below ← descend who device path e inside.names.isEmpty (walkBelow who device path inside)
    let others ← walkBelow who device base rest
    return ⟨(path, e) :: below.entries ++ others.entries, below.unlistable ++ others.unlistable⟩

/-- `walk(top)`, up to the order; none if it raises. -/
def walk (who : Ids) (top : Entry) (l : Listing Entry) : Option Walked :=
  scan who [] top l.names.isEmpty (walkBelow who top.device [] l)

/-- The condition in the loop of `writable_outside`. -/
def flagged (who : Ids) (device : ℕ) (e : Entry) : Bool :=
  e.kind ≠ .symlink && (e.device = device && e.owner = who.uid ||
    !(e.kind = .directory && e.sticky) && (e.granted who).write)

/-- `path == root or path.startswith(root + '/')` for one of the roots. -/
def isAllowed (allowed : List RelPath) (path : RelPath) : Bool :=
  allowed.any fun root => root.isPrefixOf path

/-- `writable_outside(top, allowed, uid)`. -/
def writableOutside (who : Ids) (allowed : List RelPath) (top : Entry) (l : Listing Entry) :
    Option (List RelPath × List RelPath) := do
  let walked ← walk who top l
  let found := walked.entries.filter fun r => !isAllowed allowed r.1 && flagged who top.device r.2
  return (found.map Prod.fst, walked.unlistable)

/-- The problems that `selfcheck` finds, given those that its other parts find; none if it
raises.  Directories that cannot be listed are reported, but are no problem. -/
def selfcheck (elsewhere : List Text) (who : Ids) (allowed : List RelPath) (top : Entry)
    (l : Listing Entry) : Option (List Text) := do
  let (writable, _) ← writableOutside who allowed top l
  if writable = [] then return elsewhere
  return elsewhere ++ ["writable or owned outside the scratch dirs: ".toList ++
    [',', ' '].intercalate ((writable.take 20).map fun path => '/' :: path.join)]

/-! ## The promise -/

/-- A directory through which the process can pass. -/
def searchable (who : Ids) (e : Entry) : Bool := e.kind = .directory && (e.granted who).exec

/-- The process reaches the entry at the path. -/
def At (who : Ids) (top : Entry) (l : Listing Entry) (path : RelPath) (e : Entry) : Prop :=
  path = [] ∧ e = top ∨ searchable who top ∧ l.find (searchable who) path = some e

/-- The process does not own the entry, and can write to it at most as to a sticky
directory.  Links are not written to. -/
def Protected (who : Ids) (e : Entry) : Prop :=
  e.kind = .symlink ∨ e.owner ≠ who.uid ∧
    (e.kind = .directory ∧ e.sticky ∨ (e.granted who).write = false)

/-- An entry on the file system, outside the scratch directories. -/
structure Concerns (who : Ids) (allowed : List RelPath) (top : Entry) (l : Listing Entry)
    (path : RelPath) (e : Entry) : Prop where
  reached : At who top l path e
  device : e.device = top.device
  outside : isAllowed allowed path = false

/-- Nothing else on the file system is writable or owned by the build user. -/
def Contained (who : Ids) (allowed : List RelPath) (top : Entry) (l : Listing Entry) : Prop :=
  ∀ path e, Concerns who allowed top l path e → Protected who e

/-- The top itself, and whatever lies below a directory that the walk does not list: because
the user cannot list it, because it is skipped, or because it is on another device. -/
def Hidden (who : Ids) (top : Entry) (l : Listing Entry) (path : RelPath) : Prop :=
  path = [] ∨ (top.granted who).read = false ∨
    ∃ r d, r ≠ [] ∧ r ≠ path ∧ r <+: path ∧ l.find (searchable who) r = some d ∧
      ((d.granted who).read = false ∨ keeps top.device r d = false)

/-! ## What the walk sees -/

theorem mem_walkBelow {who : Ids} {device : ℕ} {base : RelPath} {l : Listing Entry} {w : Walked}
    (h : walkBelow who device base l = some w) {path : RelPath} {e : Entry}
    (hfind : l.find (searchable who) path = some e)
    (hopen : ∀ r d, r ≠ [] → r ≠ path → r <+: path → l.find (searchable who) r = some d →
      (d.granted who).read ∧ keeps device (base ++ r) d) : (base ++ path, e) ∈ w.entries := by
  induction l generalizing base path w with
  | nil => simp at hfind
  | cons name x inside rest ihi ihr =>
    rw [walkBelow] at h
    obtain ⟨below, hbelow, h⟩ := Option.bind_eq_some_iff.mp h
    obtain ⟨others, hothers, h⟩ := Option.bind_eq_some_iff.mp h
    obtain rfl := Option.some.inj h
    cases path with
    | nil => simp at hfind
    | cons m path =>
      by_cases hname : name = m
      · subst hname
        by_cases hpath : path = []
        · subst hpath
          obtain rfl : x = e := by simpa [Listing.find, Listing.child] using hfind
          exact List.mem_append_left _ List.mem_cons_self
        · rw [Listing.find_cons_self hpath] at hfind
          by_cases hsearch : searchable who x
          · rw [if_pos hsearch] at hfind
            -- the directory is kept and can be listed and searched, so the walk looks into it
            have hname := hopen [name] x (by simp) (by simpa using Ne.symm hpath) ⟨path, rfl⟩
              (by simp [Listing.find, Listing.child])
            have hexec : (x.granted who).exec := by
              rw [searchable, Bool.and_eq_true] at hsearch
              exact hsearch.2
            rw [descend, if_pos hname.2, scan] at hbelow
            simp only [hname.1, hexec, Bool.not_true, Bool.false_and, Bool.false_eq_true,
              if_false] at hbelow
            have hmem := ihi hbelow hfind (by
              intro r d hne hproper hprefix hd
              have hr := hopen (name :: r) d (by simp) (by simpa using hproper)
                (List.cons_prefix_cons.mpr ⟨rfl, hprefix⟩)
                (by rw [Listing.find_cons_self hne, if_pos hsearch, hd])
              simpa using hr)
            rw [List.append_assoc, List.singleton_append] at hmem
            exact List.mem_append_left _ (List.mem_cons_of_mem _ hmem)
          · rw [if_neg hsearch] at hfind
            cases hfind
      · rw [Listing.find_cons_ne hname] at hfind
        have hmem := ihr hothers hfind (by
          intro r d hne hproper hprefix hd
          obtain ⟨n, r, rfl⟩ := List.exists_cons_of_ne_nil hne
          obtain rfl : n = m := (List.cons_prefix_cons.mp hprefix).1
          exact hopen _ d hne hproper hprefix (by rw [Listing.find_cons_ne hname, hd]))
        exact List.mem_append_right _ hmem

theorem protected_of_not_flagged {who : Ids} {device : ℕ} {e : Entry} (hdevice : e.device = device)
    (h : flagged who device e = false) : Protected who e := by
  by_cases hlink : e.kind = .symlink
  · exact .inl hlink
  · simp only [flagged, hlink, hdevice, ne_eq, not_false_eq_true, decide_true, Bool.true_and,
      Bool.or_eq_false_iff, decide_eq_false_iff_not] at h
    refine .inr ⟨h.1, ?_⟩
    rcases Bool.and_eq_false_iff.mp h.2 with hsticky | hwrite
    · exact .inl (by simpa using hsticky)
    · exact .inr hwrite

/-- A self-check without problems has found nothing. -/
theorem walk_of_selfcheck {elsewhere : List Text} {who : Ids} {allowed : List RelPath} {top : Entry}
    {l : Listing Entry} (h : selfcheck elsewhere who allowed top l = some []) :
    ∃ w, walk who top l = some w ∧
      ∀ r ∈ w.entries, isAllowed allowed r.1 = false → flagged who top.device r.2 = false := by
  obtain ⟨⟨writable, unlistable⟩, hwritable, h⟩ := Option.bind_eq_some_iff.mp h
  obtain ⟨w, hw, hfound⟩ := Option.bind_eq_some_iff.mp hwritable
  obtain ⟨hpaths, -⟩ := Prod.mk.inj (Option.some.inj hfound)
  refine ⟨w, hw, ?_⟩
  intro r hr hallowed
  have hnil : writable = [] := by
    by_contra hne
    simp [hne] at h
  rw [hnil, List.map_eq_nil_iff, List.filter_eq_nil_iff] at hpaths
  simpa [hallowed] using hpaths r hr

/-- **The self-check** keeps its promise exactly if whatever its walk does not see is
protected. -/
theorem contained_iff {elsewhere : List Text} {who : Ids} {allowed : List RelPath} {top : Entry}
    {l : Listing Entry} (h : selfcheck elsewhere who allowed top l = some []) :
    Contained who allowed top l ↔ ∀ path e, Concerns who allowed top l path e →
      Hidden who top l path → Protected who e := by
  constructor
  · exact fun hall path e hconcerns _ => hall path e hconcerns
  · intro hhidden path e hconcerns
    by_cases hpath : Hidden who top l path
    · exact hhidden path e hconcerns hpath
    · obtain ⟨w, hw, hflagged⟩ := walk_of_selfcheck h
      rw [Hidden, not_or, not_or, not_exists] at hpath
      obtain ⟨hne, hread, hopen⟩ := hpath
      rcases hconcerns.reached with ⟨hnil, -⟩ | ⟨htop, hfind⟩
      · exact absurd hnil hne
      · rw [searchable, Bool.and_eq_true] at htop
        rw [Bool.not_eq_false] at hread
        have hbelow : walkBelow who top.device [] l = some w := by
          simpa [walk, scan, hread, htop.2] using hw
        have hmem : (path, e) ∈ w.entries := by
          refine mem_walkBelow hbelow hfind ?_
          intro r d hr hproper hprefix hd
          by_contra hblocked
          refine hopen r ⟨d, hr, hproper, hprefix, hd, ?_⟩
          rw [not_and_or, Bool.not_eq_true, Bool.not_eq_true] at hblocked
          exact hblocked
        exact protected_of_not_flagged hconcerns.device (hflagged _ hmem hconcerns.outside)

/-! ## A directory that can be searched but not listed -/

def nobody : Ids := ⟨65534, 65534⟩

/-- Owned by root, with these bits for the others. -/
def rootOwned (kind : FileKind) (bits : Perm) : Entry where
  kind := kind
  owner := 0
  group := 0
  device := 1
  user := ⟨true, true, true⟩
  members := ⟨true, false, true⟩
  others := bits
  sticky := false

def fileNamed (c : Char) (h : c ≠ '/' ∧ c ≠ '.') : FileName where
  text := [c]
  nonempty := by simp
  plain := by simpa using h.1.symm
  special := by simp [h.2]

/-- A directory of mode 0711 with a file of mode 0666 in it. -/
def sampleTree : Listing Entry :=
  .cons (fileNamed 'd' (by decide)) (rootOwned .directory ⟨false, false, true⟩)
    (.cons (fileNamed 'f' (by decide)) (rootOwned .regular ⟨true, true, false⟩) .nil .nil) .nil

def sampleTop : Entry := rootOwned .directory ⟨true, false, true⟩

theorem not_contained_sample : ¬ ∀ (elsewhere : List Text) (who : Ids) (allowed : List RelPath)
    (top : Entry) (l : Listing Entry), selfcheck elsewhere who allowed top l = some [] →
      Contained who allowed top l := by
  intro hall
  have hconcerns : Concerns nobody [] sampleTop sampleTree
      [fileNamed 'd' (by decide), fileNamed 'f' (by decide)]
      (rootOwned .regular ⟨true, true, false⟩) := ⟨.inr ⟨rfl, rfl⟩, rfl, rfl⟩
  rcases hall [] nobody [] sampleTop sampleTree (by decide) _ _ hconcerns with hlink | ⟨-, hdir | hwrite⟩
  · cases hlink
  · cases hdir.1
  · cases hwrite

/-- A scratch directory of the build user with a file in it, a sticky directory for everybody,
and a directory that can be searched but not listed, with a file that only root can write. -/
def keptTree : Listing Entry :=
  .cons (fileNamed 's' (by decide)) { rootOwned .directory ⟨false, false, false⟩ with owner := 65534 }
    (.cons (fileNamed 'f' (by decide)) { rootOwned .regular ⟨false, false, false⟩ with owner := 65534 }
      .nil .nil)
    (.cons (fileNamed 't' (by decide)) { rootOwned .directory ⟨true, true, true⟩ with sticky := true }
      .nil
      (.cons (fileNamed 'd' (by decide)) (rootOwned .directory ⟨false, false, true⟩)
        (.cons (fileNamed 'f' (by decide)) (rootOwned .regular ⟨true, false, false⟩) .nil .nil) .nil))

def scratch : List RelPath := [[fileNamed 's' (by decide)]]

instance (who : Ids) (e : Entry) : Decidable (Protected who e) :=
  inferInstanceAs (Decidable (_ ∨ _ ∧ _))

/-- In that tree the promise is kept. -/
theorem contained_iff_sample : Contained nobody scratch sampleTop keptTree := by
  refine (@contained_iff [] nobody scratch sampleTop keptTree (by decide)).mpr ?_
  intro path e hconcerns _
  rcases hconcerns.reached with ⟨-, rfl⟩ | ⟨-, hfind⟩
  · exact .inr ⟨by decide, .inr rfl⟩
  · have hproper : keptTree.Proper :=
      ⟨by decide, ⟨by decide, trivial, trivial⟩, by decide, trivial, by decide,
        ⟨by decide, trivial, trivial⟩, trivial⟩
    have hkept : ∀ r ∈ keptTree.walk (searchable nobody) [],
        isAllowed scratch r.1 = false → Protected nobody r.2 := by
      decide
    exact hkept (path, e) ((Listing.mem_walk hproper).mpr ⟨path, rfl, hfind⟩) hconcerns.outside

end SelfCheck
