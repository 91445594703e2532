import BazziteTower.Ci.Refresh
import BazziteTower.Lib.Strings
import Mathlib.Data.List.Dedup
import Mathlib.Data.List.Sort

/-!
# The blast radius of a base bump

`base-diff.py` compares the package manifests of two bases, `base-blast-diff.sh`
sanitizes its report, and `base-bump-guard.py` merges a bump by itself only if that
report says that nothing changed.

`load` keeps one entry for each name, the last one, so the report speaks of the
visible lines only: a bump that is merged has the same visible lines, and the same
lines at all exactly if the lines that a later one shadows are the same too.

## Main definitions

* `Manifest` — a package manifest that the shell script accepts.
* `load`, `baseDiff`, `sanitize`, `blastReason`, `decide` — the stages of the decision.
* `visible`, `shadowed` — the lines that `load` keeps, and the others.

## Main results

* `sameLines_of_merges` — what a merged bump has in common with the current base.
-/

namespace BlastRadius

/-! ## Manifests -/

/-- One line of a manifest: a name, and `VERSION-RELEASE.ARCH`. -/
abbrev Package := Text × Text

def Package.line (p : Package) : Text := p.1 ++ ' ' :: p.2

/-- The output of `rpm -qa` through `sort`. -/
def render (packages : List Package) : Text := packages.flatMap fun p => p.line ++ ['\n']

/-- The packages that every real manifest carries. -/
def anchors : List String := ["kernel-core", "NetworkManager", "bootc", "systemd"]

/-- The plausibility checks: at least 500 lines, and every anchor starts one. -/
def looksPlausible (manifest : Text) : Bool :=
  500 ≤ manifest.count '\n' &&
    anchors.all fun a => (manifest.splitOn '\n').any fun l => (a.toList ++ [' ']).isPrefixOf l

/-- A manifest that `base-blast-diff.sh` accepts. -/
structure Manifest where
  packages : List Package
  names : ∀ p ∈ packages, Text.Word p.1
  versions : ∀ p ∈ packages, Text.Word p.2
  accepted : looksPlausible (render packages)

/-- The manifest as it stands in its file. -/
def Manifest.text (m : Manifest) : Text := render m.packages

/-! ## The comparison -/

/-- `BLAST_RADIUS`. -/
def blastRadius (name : Text) : Bool :=
  (["qemu", "libvirt", "swtpm", "NetworkManager", "polkit", "systemd", "kernel", "docker-ce",
      "containerd", "moby"].any fun p => p.toList.isPrefixOf name) ||
    ["edk2-ovmf", "virt-install", "virt-manager", "virt-viewer", "iwd", "wpa_supplicant",
      "bootc"].any fun n => n.toList = name

/-- One line of the file, assigned to its name; the newest assignment stands first. -/
def loadLine (out : List Package) (line : Text) : List Package :=
  let line := line.strip
  if line = [] then out else line.partition ' ' :: out

/-- `load`, from the text of an existing file. -/
def load (manifest : Text) : List Package := manifest.fileLines.foldl loadLine []

/-- `d.get(name)`; an absent entry and an empty one count alike. -/
def get (d : List Package) (name : Text) : Text := (d.lookup name).getD []

/-- What happened to a name. -/
inductive Change
  | changed (name before after : Text)
  | added (name after : Text)
  | removed (name before : Text)

def classify (old new : List Package) (name : Text) : Option Change :=
  let o := get old name
  let n := get new name
  if o ≠ [] ∧ n ≠ [] ∧ o ≠ n then some (.changed name o n)
  else if n ≠ [] ∧ o = [] then some (.added name n)
  else if o ≠ [] ∧ n = [] then some (.removed name o)
  else none

/-- `sorted(set(old) | set(new))`. -/
def sortedNames (old new : List Package) : List Text :=
  ((old ++ new).map Prod.fst).dedup.insertionSort (· ≤ ·)

def changes (old new : List Package) : List Change :=
  ((sortedNames old new).filter blastRadius).filterMap (classify old new)

namespace Change

def changedLine : Change → Option Text
  | .changed n o x => some ("- `".toList ++ n ++ "` ".toList ++ o ++ " → ".toList ++ x)
  | _ => none

def addedLine : Change → Option Text
  | .added n x => some ("- `".toList ++ n ++ "` ".toList ++ x)
  | _ => none

def removedLine : Change → Option Text
  | .removed n o => some ("- `".toList ++ n ++ "` (was ".toList ++ o ++ ")".toList)
  | _ => none

end Change

/-- A section of the report, if it has lines. -/
def sectionOf (title : String) (lines : List Text) : List Text :=
  if lines = [] then [] else [title.toList ++ List.intercalate ['\n'] lines]

def noChanges : Text := "_No blast-radius package changes._".toList

def sections (cs : List Change) : List Text :=
  sectionOf "**Changed**\n" (cs.filterMap Change.changedLine) ++
    sectionOf "**Added**\n" (cs.filterMap Change.addedLine) ++
    sectionOf "**Removed**\n" (cs.filterMap Change.removedLine)

/-- The report of `base-diff.py`. -/
def report (old new : List Package) : Text :=
  let ss := sections (changes old new)
  if ss = [] then noChanges else List.intercalate "\n\n".toList ss

/-- The output of `base-diff.py` on two files that exist. -/
def baseDiff (old new : Text) : Text := report (load old) (load new) ++ ['\n']

/-! ## Sanitizing -/

/-- The characters that `tr` keeps. -/
def safe (c : Char) : Bool :=
  c.isAlphanum || "\n._+:~^ ()`*>/=,-".toList.contains c

/-- `head -n count`. -/
def headLines : ℕ → Text → Text
  | 0, _ => []
  | _ + 1, [] => []
  | n + 1, c :: cs => c :: if c = '\n' then headLines n cs else headLines (n + 1) cs

/-- The pipeline behind the comparison: an arrow in ASCII, a small character set, a cap on
lines and on size. -/
def sanitize (output : Text) : Text :=
  (headLines 300 ((output.flatMap fun c => if c = '→' then ['-', '>'] else [c]).filter safe)).take
    20000

/-- The report file, unless it would be empty. -/
def blastDiff (old new : Manifest) : Option Text :=
  let out := sanitize (baseDiff old.text new.text)
  if out = [] then none else some out

/-! ## The decision -/

/-- The matches of `NAME_LINE`: what stands between the backticks of an item that starts
a line. -/
def nameLines : ℕ → Bool → Text → List Text
  | 0, _, _ => []
  | _ + 1, _, [] => []
  | fuel + 1, atStart, c :: cs =>
    let behind := (c :: cs).drop 3
    if atStart && "- `".toList.isPrefixOf (c :: cs) && behind.contains '`' then
      behind.takeWhile (· ≠ '`') :: nameLines fuel false ((behind.dropWhile (· ≠ '`')).tail)
    else nameLines fuel (c = '\n') cs

def maxNames : ℕ := 5
def maxNameLen : ℕ := 40

/-- The decimal digits of a number. -/
def number (n : ℕ) : Text := Nat.toDigits 10 n

/-- `blast_reason(report_path)`; `none` is a report that cannot be read. -/
def blastReason : Option Text → Option Text
  | none => some "blast-radius package diff not computed".toList
  | some text =>
    let text := text.strip
    if text = [] then some "blast-radius package diff not computed".toList
    else if text = noChanges then none
    else
      let names := (nameLines text.length true text).map fun n =>
        (n.filter fun c => c.isAlphanum || "._+-".toList.contains c).take maxNameLen
      let shown := List.intercalate ", ".toList ((names.take maxNames).filter (· ≠ []))
      some ("blast-radius packages changed (".toList ++ number names.length ++ "): ".toList ++
        (if shown = [] then "unparsed".toList else shown) ++
        (if maxNames < names.length then
          " and ".toList ++ number (names.length - maxNames) ++ " more".toList else []) ++
        "; human review required".toList)

/-- A bump: the labels of both bases, and the report on their packages. -/
structure Bump where
  curVersion : Text
  curKernel : Text
  newVersion : Text
  newKernel : Text
  blastReport : Option Text

/-- A string of the policy, as it stands in a message. -/
def shown : Json → Text
  | .str s => s
  | _ => []

section Decide
variable (parseCreated : Json → Except Exn Json) (document : Except Exn Json)

/-- `decide`; `document` is the decoded policy file, or what reading it raised. -/
def decide (b : Bump) : Except Exn (Bool × Text) := do
  let curV ← Refresh.baseVersion (.str b.curVersion)
  let newV ← Refresh.baseVersion (.str b.newVersion)
  let curK ← Refresh.kernelVersion (.str b.curKernel)
  let newK ← Refresh.kernelVersion (.str b.newKernel)
  let arrow := b.curKernel ++ " -> ".toList ++ b.newKernel
  if curK.getD 5 0 ≠ newK.getD 5 0 ∨ curV.getD 0 0 ≠ newV.getD 0 0 then
    return (false, "Fedora major changed (".toList ++ arrow ++ "); human review required".toList)
  else if newK < curK then
    return (false, "kernel downgrade (".toList ++ arrow ++ ")".toList)
  else if newV < curV then
    return (false, "base version downgrade (".toList ++ b.curVersion ++ " -> ".toList ++
      b.newVersion ++ ")".toList)
  else
    let policy ← Refresh.policy parseCreated (← document)
    let minimumV ← policy.subscript "minimumBaseVersion"
    let minimumK ← policy.subscript "minimumKernel"
    let floorV ← Refresh.baseVersion minimumV
    let floorK ← Refresh.kernelVersion minimumK
    if newV < floorV then
      return (false, "base ".toList ++ b.newVersion ++ " below policy minimumBaseVersion ".toList ++
        shown minimumV)
    else if newK < floorK then
      return (false, "kernel ".toList ++ b.newKernel ++ " below policy minimumKernel ".toList ++
        shown minimumK)
    else
      match blastReason b.blastReport with
      | some reason => return (false, reason)
      | none => return (true, "same Fedora major, kernel ".toList ++ arrow ++
          " (same or newer), policy floor met, no blast-radius package changes".toList)

/-- The bump is merged without review. -/
def Merges (b : Bump) : Prop := (decide parseCreated document b).toOption.map Prod.fst = some true

instance (b : Bump) : Decidable (Merges parseCreated document b) :=
  inferInstanceAs (Decidable (_ = some true))

/-- The labels of a bump that may be merged: the same Fedora major, and no downgrade below
the current base or the floors of the policy. -/
def Compatible (b : Bump) : Prop :=
  ∃ curV newV curK newK, Refresh.baseVersion (.str b.curVersion) = .ok curV ∧
    Refresh.baseVersion (.str b.newVersion) = .ok newV ∧
    Refresh.kernelVersion (.str b.curKernel) = .ok curK ∧
    Refresh.kernelVersion (.str b.newKernel) = .ok newK ∧
    curK.getD 5 0 = newK.getD 5 0 ∧ curV.getD 0 0 = newV.getD 0 0 ∧ curV ≤ newV ∧ curK ≤ newK ∧
    ∃ source policy minimumV minimumK floorV floorK, document = .ok source ∧
      Refresh.policy parseCreated source = .ok policy ∧
      policy.subscript "minimumBaseVersion" = .ok minimumV ∧
      policy.subscript "minimumKernel" = .ok minimumK ∧
      Refresh.baseVersion minimumV = .ok floorV ∧ Refresh.kernelVersion minimumK = .ok floorK ∧
      floorV ≤ newV ∧ floorK ≤ newK

variable {parseCreated document}

/-- A merged bump has compatible labels and an empty report. -/
theorem compatible_of_merges {b : Bump} (h : Merges parseCreated document b) :
    Compatible parseCreated document b ∧ blastReason b.blastReport = none := by
  obtain ⟨reason, h⟩ : ∃ reason, decide parseCreated document b = .ok (true, reason) := by
    cases hd : decide parseCreated document b with
    | error e => simp [Merges, hd, Except.toOption] at h
    | ok r =>
      have hr : r.1 = true := by simpa [Merges, hd, Except.toOption] using h
      exact ⟨r.2, by rw [← hr]⟩
  simp only [decide, Except.bind_eq_ok] at h
  obtain ⟨curV, hcurV, newV, hnewV, curK, hcurK, newK, hnewK, h⟩ := h
  split at h
  · cases h
  rename_i hmajor
  split at h
  · cases h
  rename_i hkernel
  split at h
  · cases h
  rename_i hversion
  simp only [Except.bind_eq_ok] at h
  obtain ⟨source, hsource, policy, hpolicy, minimumV, hminV, minimumK, hminK, floorV, hfloorV,
    floorK, hfloorK, h⟩ := h
  split at h
  · cases h
  rename_i hbelowV
  split at h
  · cases h
  rename_i hbelowK
  split at h
  · cases h
  rename_i hreport
  rw [not_or, not_ne_iff, not_ne_iff] at hmajor
  refine ⟨⟨curV, newV, curK, newK, hcurV, hnewV, hcurK, hnewK, hmajor.1, hmajor.2, not_lt.mp hversion,
    not_lt.mp hkernel, source, policy, minimumV, minimumK, floorV, floorK, hsource, hpolicy, hminV, hminK,
    hfloorV, hfloorK, not_lt.mp hbelowV, not_lt.mp hbelowK⟩, hreport⟩

end Decide

/-! ## What the report says -/

theorem head_sanitize {c : Char} {cs : Text} (hc : c ≠ '→') (hsafe : safe c) :
    (sanitize (c :: cs)).head? = some c := by
  simp [sanitize, hc, hsafe, headLines]

theorem head_sectionOf {title : String} {lines : List Text} {s : Text}
    (h : title.toList.head? = some '*') (hs : s ∈ sectionOf title lines) : s.head? = some '*' := by
  unfold sectionOf at hs
  split at hs
  · cases hs
  · rw [List.mem_singleton.mp hs, List.head?_append, h]
    rfl

theorem head_intercalate {separator s : Text} {ss : List Text} {c : Char} (h : s.head? = some c) :
    (List.intercalate separator (s :: ss)).head? = some c := by
  cases ss with
  | nil => simpa [List.intercalate] using h
  | cons s' ss => simp [List.intercalate, List.head?_append, h]

theorem sectionOf_eq_nil {title : String} {lines : List Text} :
    sectionOf title lines = [] ↔ lines = [] := by
  by_cases h : lines = [] <;> simp [sectionOf, h]

theorem sections_eq_nil {cs : List Change} : sections cs = [] ↔ cs = [] := by
  simp only [sections, List.append_eq_nil_iff, sectionOf_eq_nil, List.filterMap_eq_nil_iff]
  constructor
  · rintro ⟨⟨hchanged, hadded⟩, hremoved⟩
    cases cs with
    | nil => rfl
    | cons c cs =>
      cases c with
      | changed => cases hchanged _ (List.mem_cons_self ..)
      | added => cases hadded _ (List.mem_cons_self ..)
      | removed => cases hremoved _ (List.mem_cons_self ..)
  · rintro rfl
    exact ⟨⟨nofun, nofun⟩, nofun⟩

/-- A report that is not the empty one starts with a heading. -/
theorem head_report {old new : List Package} (h : changes old new ≠ []) :
    (report old new).head? = some '*' := by
  have hne : sections (changes old new) ≠ [] := fun he => h (sections_eq_nil.mp he)
  rw [report, if_neg hne]
  obtain ⟨s, ss, hs⟩ := List.exists_cons_of_ne_nil hne
  rw [hs]
  refine head_intercalate ?_
  have hmem : s ∈ sections (changes old new) := hs ▸ List.mem_cons_self ..
  simp only [sections, List.mem_append] at hmem
  rcases hmem with (hmem | hmem) | hmem <;> exact head_sectionOf (by decide) hmem

/-- A bump with an empty report has no change in any name of the blast radius. -/
theorem changes_of_blastReason {old new : Manifest} (h : blastReason (blastDiff old new) = none) :
    changes (load old.text) (load new.text) = [] := by
  by_contra hne
  obtain ⟨cs, hcs⟩ := List.head?_eq_some_iff.mp (head_report hne)
  have hhead : (sanitize (baseDiff old.text new.text)).head? = some '*' := by
    rw [baseDiff, hcs]
    exact head_sanitize (by decide) (by decide)
  obtain ⟨out, hout⟩ := List.head?_eq_some_iff.mp hhead
  have hstrip : (Text.strip ('*' :: out)).head? = some '*' := Text.head_strip (by decide)
  have hempty : Text.strip ('*' :: out) ≠ [] := fun he => by simp [he] at hstrip
  have hclean : Text.strip ('*' :: out) ≠ noChanges := fun he => by
    rw [he] at hstrip
    revert hstrip
    decide
  simp only [blastDiff, hout, blastReason, reduceCtorEq, if_false, if_neg hempty, if_neg hclean] at h

/-! ## What `load` keeps -/

/-- The lines that `load` keeps: the last one of every name. -/
def visible : List Package → List Package
  | [] => []
  | p :: ps => if p.1 ∈ ps.map Prod.fst then visible ps else p :: visible ps

/-- The lines that a later line of the same name shadows. -/
def shadowed : List Package → List Package
  | [] => []
  | p :: ps => if p.1 ∈ ps.map Prod.fst then p :: shadowed ps else shadowed ps

theorem perm_visible_shadowed (ps : List Package) : ps.Perm (visible ps ++ shadowed ps) := by
  induction ps with
  | nil => exact .nil
  | cons p ps ih =>
    by_cases h : p.1 ∈ ps.map Prod.fst
    · simp only [visible, shadowed, if_pos h]
      exact (ih.cons p).trans List.perm_middle.symm
    · simp only [visible, shadowed, if_neg h]
      exact ih.cons p

theorem fst_mem_of_visible {p : Package} {ps : List Package} (h : p ∈ visible ps) :
    p.1 ∈ ps.map Prod.fst :=
  List.mem_map_of_mem ((perm_visible_shadowed ps).symm.subset (List.mem_append_left _ h))

theorem nodup_visible (ps : List Package) : (visible ps).Nodup := by
  induction ps with
  | nil => exact .nil
  | cons p ps ih =>
    by_cases h : p.1 ∈ ps.map Prod.fst
    · simpa [visible, h] using ih
    · rw [visible, if_neg h]
      exact List.nodup_cons.mpr ⟨fun hp => h (fst_mem_of_visible hp), ih⟩

theorem lookup_reverse_eq_none {name : Text} {ps : List Package} :
    ps.reverse.lookup name = none ↔ name ∉ ps.map Prod.fst := by
  rw [List.lookup_eq_none_iff]
  simp only [List.mem_reverse, List.mem_map, not_exists, not_and, bne_iff_ne, ne_eq]
  exact ⟨fun h p hp he => h p hp he.symm, fun h p hp he => h p hp he.symm⟩

/-- A visible line is the entry that the last assignment left for its name. -/
theorem mem_visible {name version : Text} {ps : List Package} :
    (name, version) ∈ visible ps ↔ ps.reverse.lookup name = some version := by
  induction ps with
  | nil => simp [visible]
  | cons p ps ih =>
    obtain ⟨n, v⟩ := p
    rw [List.reverse_cons, List.lookup_append]
    by_cases hname : name = n
    · subst hname
      by_cases h : name ∈ ps.map Prod.fst
      · obtain ⟨w, hw⟩ := Option.ne_none_iff_exists'.mp (mt lookup_reverse_eq_none.mp (not_not.mpr h))
        rw [visible, if_pos h, ih, hw, Option.some_or]
      · have hnot : (name, version) ∉ visible ps := fun hv => h (fst_mem_of_visible hv)
        rw [visible, if_neg h, lookup_reverse_eq_none.mpr h]
        simp [hnot, eq_comm]
    · have hsingle : [(n, v)].lookup name = none := by
        rw [List.lookup, beq_false_of_ne hname]
        rfl
      have hcons : (name, version) ∈ visible ((n, v) :: ps) ↔ (name, version) ∈ visible ps := by
        rw [visible]
        split
        · rfl
        · simp [hname]
      rw [hcons, hsingle, Option.or_none, ih]

/-- The line of a package has a first character, and no white space at either end. -/
theorem strip_line {p : Package} (hname : Text.Word p.1) (hversion : Text.Word p.2) :
    Text.strip p.line = p.line := by
  obtain ⟨c, name, hp⟩ := List.exists_cons_of_ne_nil hname.1
  refine Text.strip_eq_self (fun d hd => ?_) fun d hd => ?_
  · rw [Package.line, hp] at hd
    obtain rfl : c = d := by simpa using hd
    exact hname.2 c (by simp [hp])
  · have hlast : p.line.getLast? = p.2.getLast? := by
      rw [Package.line, List.getLast?_append, List.getLast?_cons]
      simp [List.getLast?_eq_some_getLast hversion.1]
    rw [hlast] at hd
    exact hversion.2 d (List.mem_of_getLast? hd)

theorem loadLine_line {p : Package} (hname : Text.Word p.1) (hversion : Text.Word p.2)
    (out : List Package) : loadLine out p.line = p :: out := by
  have hne : p.line ≠ [] := by simp [Package.line]
  have hspace : ' ' ∉ p.1 := fun h => Bool.noConfusion (hname.2 ' ' h)
  simp only [loadLine, strip_line hname hversion, if_neg hne]
  rw [Package.line, Text.partition_append hspace]

/-- `load` assigns the lines one after another. -/
theorem load_text (m : Manifest) : load m.text = m.packages.reverse := by
  have hfold : ∀ ps : List Package, (∀ p ∈ ps, Text.Word p.1 ∧ Text.Word p.2) → ∀ out,
      (render ps).fileLines.foldl loadLine out = ps.reverse ++ out := by
    intro ps
    induction ps with
    | nil => exact fun _ out => rfl
    | cons p ps ih =>
      intro h out
      obtain ⟨hname, hversion⟩ := h p (by simp)
      have hchars : ∀ c ∈ p.line, Text.isSpace c = false ∨ c = ' ' := by
        intro c hc
        simp only [Package.line, List.mem_append, List.mem_cons] at hc
        rcases hc with hc | hc | hc
        · exact .inl (hname.2 c hc)
        · exact .inr hc
        · exact .inl (hversion.2 c hc)
      have hrender : render (p :: ps) = p.line ++ '\n' :: render ps := by simp [render]
      rw [hrender, Text.fileLines_cons hchars, List.foldl_cons, loadLine_line hname hversion,
        ih fun q hq => h q (by simp [hq])]
      simp
  rw [load, Manifest.text, hfold m.packages (fun p hp => ⟨m.names p hp, m.versions p hp⟩), List.append_nil]

theorem blastDiff_eq (old new : Manifest) : blastDiff old new =
    (let out := sanitize (report old.packages.reverse new.packages.reverse ++ ['\n'])
    if out = [] then none else some out) := by
  rw [blastDiff, baseDiff, load_text, load_text]

/-! ## Merged bumps -/

/-- The lines whose name is in the blast radius. -/
def matching (ps : List Package) : List Package := ps.filter fun p => blastRadius p.1

/-- Both manifests have the same lines in the blast radius, each equally often. -/
def SameLines (old new : Manifest) : Prop := (matching old.packages).Perm (matching new.packages)

/-- The same of the lines that `load` drops. -/
def SameShadowed (old new : Manifest) : Prop :=
  (matching (shadowed old.packages)).Perm (matching (shadowed new.packages))

theorem get_eq_of_classify {old new : List Package} {name : Text}
    (h : classify old new name = none) : get old name = get new name := by
  by_cases ho : get old name = [] <;> by_cases hn : get new name = [] <;>
    simp_all [classify]

/-- An empty report means that every name in the blast radius has the same entry. -/
theorem get_eq_of_changes {old new : List Package} (h : changes old new = []) {name : Text}
    (hname : blastRadius name) : get old name = get new name := by
  by_cases hmem : name ∈ sortedNames old new
  · rw [changes, List.filterMap_eq_nil_iff] at h
    exact get_eq_of_classify (h name (List.mem_filter.mpr ⟨hmem, hname⟩))
  · rw [sortedNames, List.mem_insertionSort, List.mem_dedup, List.map_append, List.mem_append,
      not_or] at hmem
    have habsent {d : List Package} (hd : name ∉ d.map Prod.fst) : get d name = [] := by
      rw [← List.reverse_reverse d, get, lookup_reverse_eq_none.mpr (by simpa using hd)]
      rfl
    rw [habsent hmem.1, habsent hmem.2]

/-- The entry of a name that has a line is not empty. -/
theorem mem_visible_iff_get (m : Manifest) {p : Package} (hp : p.2 ≠ []) :
    p ∈ visible m.packages ↔ get (load m.text) p.1 = p.2 := by
  rw [load_text, get, ← Prod.mk.eta (p := p), mem_visible]
  cases h : m.packages.reverse.lookup p.1 with
  | none => simp [hp.symm]
  | some v => simp

theorem visible_perm {old new : Manifest} (h : changes (load old.text) (load new.text) = []) :
    (matching (visible old.packages)).Perm (matching (visible new.packages)) := by
  refine (List.perm_ext_iff_of_nodup ((nodup_visible _).filter _) ((nodup_visible _).filter _)).mpr ?_
  intro p
  have hversion (m : Manifest) (hp : p ∈ visible m.packages) : p.2 ≠ [] :=
    (m.versions p ((perm_visible_shadowed _).symm.subset (List.mem_append_left _ hp))).1
  simp only [List.mem_filter]
  constructor
  · rintro ⟨hp, hradius⟩
    have hne := hversion old hp
    rw [mem_visible_iff_get old hne, get_eq_of_changes h hradius] at hp
    exact ⟨(mem_visible_iff_get new hne).mpr hp, hradius⟩
  · rintro ⟨hp, hradius⟩
    have hne := hversion new hp
    rw [mem_visible_iff_get new hne, ← get_eq_of_changes h hradius] at hp
    exact ⟨(mem_visible_iff_get old hne).mpr hp, hradius⟩

theorem matching_perm (ps : List Package) :
    (matching ps).Perm (matching (visible ps) ++ matching (shadowed ps)) := by
  rw [matching, matching, matching, ← List.filter_append]
  exact (perm_visible_shadowed ps).filter _

/-- With the same visible lines, the other lines decide. -/
theorem sameLines_iff_sameShadowed {old new : Manifest}
    (h : (matching (visible old.packages)).Perm (matching (visible new.packages))) :
    SameLines old new ↔ SameShadowed old new := by
  have hleft : SameLines old new ↔ (matching (visible old.packages) ++
      matching (shadowed old.packages)).Perm (matching (visible old.packages) ++
      matching (shadowed new.packages)) :=
    ⟨fun hsame => (matching_perm _).symm.trans (hsame.trans ((matching_perm _).trans
      (h.symm.append_right _))), fun hall => (matching_perm _).trans (hall.trans
      ((h.append_right _).trans (matching_perm _).symm))⟩
  rw [hleft, List.perm_append_left_iff, SameShadowed]

/-- **A merged bump.**  Its labels are compatible, and it has the same packages in the
blast radius as the current base exactly if the two manifests agree on the lines that a
later line of the same name shadows. -/
theorem sameLines_of_merges {parseCreated : Json → Except Exn Json} {document : Except Exn Json}
    {old new : Manifest} {b : Bump} (hreport : b.blastReport = blastDiff old new)
    (h : Merges parseCreated document b) :
    Compatible parseCreated document b ∧ SameLines old new ↔ SameShadowed old new := by
  obtain ⟨hcompatible, hnone⟩ := compatible_of_merges h
  rw [hreport] at hnone
  simp only [hcompatible, true_and]
  exact sameLines_iff_sameShadowed (visible_perm (changes_of_blastReason hnone))

/-! ## Samples -/

/-- The packages of a base with two installed kernels, the older one as given. -/
def samplePackages (kernel : String) : List Package :=
  (List.range 496).map (fun n => (['R'], '4' :: '-' :: number n)) ++
    [("NetworkManager".toList, "1.52-1.fc44.x86_64".toList), ("bootc".toList, "1.9-1.fc44.x86_64".toList),
      ("kernel-core".toList, kernel.toList), ("kernel-core".toList, "7.2.9-ogc3.1.fc44.x86_64".toList),
      ("systemd".toList, "259-2.fc44.x86_64".toList)]

theorem words_samplePackages :
    ∀ kernel ∈ ["7.2.7-ogc1.1.fc44.x86_64", "7.2.8-ogc1.1.fc44.x86_64"],
      (samplePackages kernel).all fun p => Text.Word p.1 ∧ Text.Word p.2 := by
  decide +kernel

theorem word_samplePackages {kernel : String} {p : Package}
    (hkernel : kernel ∈ ["7.2.7-ogc1.1.fc44.x86_64", "7.2.8-ogc1.1.fc44.x86_64"])
    (hp : p ∈ samplePackages kernel) : Text.Word p.1 ∧ Text.Word p.2 :=
  of_decide_eq_true (List.all_eq_true.mp (words_samplePackages kernel hkernel) p hp)

def oldManifest : Manifest where
  packages := samplePackages "7.2.7-ogc1.1.fc44.x86_64"
  names _ hp := (word_samplePackages (by simp) hp).1
  versions _ hp := (word_samplePackages (by simp) hp).2
  accepted := by decide +kernel

def newManifest : Manifest where
  packages := samplePackages "7.2.8-ogc1.1.fc44.x86_64"
  names _ hp := (word_samplePackages (by simp) hp).1
  versions _ hp := (word_samplePackages (by simp) hp).2
  accepted := by decide +kernel

/-- A bump to a later date of the same release. -/
def sampleBump (report : Option Text) : Bump where
  curVersion := "44.20261030".toList
  curKernel := "7.2.9-ogc3.1.fc44".toList
  newVersion := "44.20261104".toList
  newKernel := "7.2.9-ogc3.1.fc44".toList
  blastReport := report

theorem blastReport_sampleBump (report : Option Text) : (sampleBump report).blastReport = report := rfl

theorem blastDiff_sample : blastDiff oldManifest newManifest = some (noChanges ++ ['\n']) :=
  (blastDiff_eq _ _).trans (by decide +kernel)

theorem merges_sampleBump :
    Merges .ok (.ok Refresh.reviewedPolicy) (sampleBump (blastDiff oldManifest newManifest)) :=
  blastDiff_sample ▸ (by decide +kernel : Merges .ok (.ok Refresh.reviewedPolicy)
    (sampleBump (some (noChanges ++ ['\n']))))

/-- The sample bump has compatible labels, and hides its older kernel. -/
theorem sameLines_of_merges_sample : Compatible .ok (.ok Refresh.reviewedPolicy)
      (sampleBump (blastDiff oldManifest newManifest)) ∧ SameLines oldManifest newManifest ↔
    SameShadowed oldManifest newManifest :=
  sameLines_of_merges (blastReport_sampleBump _) merges_sampleBump

/-- A bump that replaces an installed kernel which is not the last one is merged. -/
theorem not_sameLines_of_merges : ¬ ∀ (parseCreated : Json → Except Exn Json)
    (document : Except Exn Json) (old new : Manifest) (b : Bump), b.blastReport = blastDiff old new →
    Merges parseCreated document b → Compatible parseCreated document b ∧ SameLines old new := by
  intro h
  have hsame := (h _ _ oldManifest newManifest _ (blastReport_sampleBump _)
    merges_sampleBump).2
  have hold : ("kernel-core".toList, "7.2.7-ogc1.1.fc44.x86_64".toList) ∈
      matching oldManifest.packages := by
    decide +kernel
  have hnew := hsame.subset hold
  revert hnew
  decide +kernel

end BlastRadius
