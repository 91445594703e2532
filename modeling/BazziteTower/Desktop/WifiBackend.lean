import BazziteTower.Lib.Strings
import Mathlib.Data.Char
import Mathlib.Data.List.Lex
import Mathlib.Data.List.Sort
import Mathlib.Data.Prod.Lex
import Mathlib.Tactic.Tauto

/-!
# The Wi-Fi backend guard

`bazzite-tower-wifi-backend-guard`: an override in `/etc/NetworkManager/conf.d` that is
there while another file selects `iwd` and `iwd` is not enabled.

Every byte is one character, as in the C locale.

## Main definitions

* `selectsPattern`, `restoresPattern`, `run` — the script.
* `effective` — the backend, by the last assignment in `conf.d`.
* `Keeps` — what the script is for.
* `Selecting`, `Outvoted`, `Stale` — what decides whether it works.

## Main results

* `confD_eq` — where the override stands among the files of `conf.d`.
* `keeps_iff` — when the script does what it is for.
-/

namespace WifiBackend

/-! ## Lines -/

/-- `[[:space:]]` -/
def isSpace (c : Char) : Bool := c = ' ' || '\t' ≤ c && c ≤ '\r'

/-- What `grep -i` compares. -/
def fold (t : Text) : Text := t.map Char.toLower

def backendKey : Text := ['w', 'i', 'f', 'i', '.', 'b', 'a', 'c', 'k', 'e', 'n', 'd']

def iwd : Text := ['i', 'w', 'd']

/-- `^[[:space:]]*wifi\.backend[[:space:]]*=[[:space:]]*iwd` -/
def selectsPattern (line : Text) : Bool :=
  let rest := line.dropWhile isSpace
  backendKey.isPrefixOf (fold rest) &&
    match (rest.drop backendKey.length).dropWhile isSpace with
    | '=' :: value => iwd.isPrefixOf (fold (value.dropWhile isSpace))
    | _ => false

/-- `^wifi.backend=wpa_supplicant$`, where the dot stands for any character. -/
def restoresPattern (line : Text) : Bool :=
  line.take 4 = "wifi".toList && line.drop 5 = "backend=wpa_supplicant".toList

def linesOf (content : Text) : List Text := content.splitOn '\n'

/-! ## Files -/

/-- `/usr/lib/NetworkManager` or `/etc/NetworkManager`. -/
inductive Tree
  | lib | etc
  deriving DecidableEq

structure Place where
  tree : Tree
  directory : Text
  name : Text
  deriving DecidableEq

structure File where
  place : Place
  content : Text

/-- The files `*.conf` of both trees. -/
structure Config where
  files : List File
  nodup : (files.map File.place).Nodup

def confDir : Text := ['c', 'o', 'n', 'f', '.', 'd']

/-- `/etc/NetworkManager/conf.d/zzz-bazzite-tower-wifi-backend-guard.conf` -/
def guardPlace : Place :=
  ⟨.etc, confDir, "zzz-bazzite-tower-wifi-backend-guard.conf".toList⟩

/-- What the script writes into its file. -/
def body : Text := [
  "# Added automatically by bazzite-tower-wifi-backend-guard.service.",
  "# A NetworkManager config selected wifi.backend=iwd but iwd is not enabled,",
  "# which leaves every Wi-Fi device 'unavailable'. This override restores the",
  "# default wpa_supplicant backend. To use iwd instead, run",
  "#   sudo systemctl enable --now iwd",
  "# and reboot — this file is then removed automatically.",
  "[device]",
  "wifi.backend=wpa_supplicant"].flatMap fun line => line.toList ++ ['\n']

namespace Config

def others (c : Config) : List File := c.files.filter fun f => f.place ≠ guardPlace

def guard (c : Config) : Option Text :=
  (c.files.find? fun f => f.place = guardPlace).map File.content

/-- `iwd_selected` -/
def matched (c : Config) : Bool := c.others.any fun f => (linesOf f.content).any selectsPattern

/-- `grep -q '^wifi.backend=wpa_supplicant$' "${guard}"` -/
def kept (c : Config) : Bool := c.guard.any fun g => (linesOf g).any restoresPattern

/-- `rm -f "${guard}"` -/
def remove (c : Config) : Config := ⟨c.others, (List.filter_sublist.map _).nodup c.nodup⟩

/-- `install -Dm644 /dev/stdin "${guard}"` -/
def write (c : Config) (content : Text) : Config where
  files := c.others ++ [⟨guardPlace, content⟩]
  nodup := by
    have hguard : guardPlace ∉ c.others.map File.place := by simp [others]
    rw [List.map_append, List.map_singleton]
    exact List.Nodup.append c.remove.nodup (List.nodup_singleton _)
      (List.disjoint_singleton.mpr hguard)

/-- A run of the script, given whether `iwd` is enabled. -/
def run (enabled : Bool) (c : Config) : Config :=
  if c.matched && !enabled then
    if c.kept then c else c.write body
  else if c.guard.isSome then c.remove
  else c

end Config

/-! ## The effective backend -/

def trim (t : Text) : Text := (t.dropWhile isSpace).rdropWhile isSpace

/-- The backend that a line assigns. -/
def assigned (line : Text) : Option Text :=
  let (key, value) := Text.partition '=' line
  if '=' ∈ line ∧ trim key = backendKey then some (trim value) else none

/-- By its name, and with one name the file in `/etc` behind the other. -/
def key (p : Place) : Text ×ₗ ℕ := toLex (p.name, match p.tree with
  | .lib => 0
  | .etc => 1)

/-- The files of `conf.d`, in the order in which they are read. -/
def confD (files : List File) : List File :=
  (files.filter fun f => f.place.directory = confDir).insertionSort
    fun f g => key f.place ≤ key g.place

def assignments (files : List File) : List Text :=
  files.flatMap fun f => (linesOf f.content).filterMap assigned

/-- The last assignment wins. -/
def effective (c : Config) : Option Text := (assignments (confD c.files)).getLast?

def isIwd (backend : Option Text) : Bool := backend.any fun v => fold v = iwd

/-! ## What decides -/

/-- Another file assigns `iwd`. -/
def Selecting (c : Config) : Prop :=
  ∃ f ∈ c.others, ∃ line ∈ linesOf f.content, isIwd (assigned line)

/-- The files that are read before the override. -/
def before (c : Config) : List File := (confD c.files).filter fun f => key f.place < key guardPlace

/-- The files that are read after it. -/
def behind (c : Config) : List File := (confD c.files).filter fun f => key guardPlace < key f.place

/-- A file behind the override has the last word, and it is `iwd`. -/
def Outvoted (c : Config) : Prop := isIwd (assignments (behind c)).getLast?

/-- The override is taken for one that restores the backend, and does not. -/
def Stale (c : Config) : Prop :=
  c.kept ∧ assignments (behind c) = [] ∧
    isIwd (assignments (before c ++ [⟨guardPlace, c.guard.getD []⟩])).getLast?

/-- What the script is for. -/
structure Keeps (enabled : Bool) (c : Config) : Prop where
  backend : enabled = false → isIwd (effective (c.run enabled)) = false
  settled : (c.run enabled).run enabled = c.run enabled
  absent : enabled = true ∨ ¬ Selecting c → (c.run enabled).guard = none
  others : enabled = true ∨ ¬ Selecting c → (c.run enabled).others = c.others

/-! ## One run -/

section Run
variable (c : Config) (content : Text)

@[simp] theorem others_remove : c.remove.others = c.others := by
  simp [Config.others, Config.remove]

@[simp] theorem others_write : (c.write content).others = c.others := by
  simp [Config.others, Config.write]

@[simp] theorem guard_remove : c.remove.guard = none := by
  simp [Config.guard, Config.remove, Config.others]

@[simp] theorem guard_write : (c.write content).guard = some content := by
  have hothers : c.others.find? (fun f => f.place = guardPlace) = none := by
    simp [Config.others]
  simp [Config.guard, Config.write, List.find?_append, hothers]

theorem matched_congr {c c' : Config} (h : c'.others = c.others) : c'.matched = c.matched := by
  rw [Config.matched, Config.matched, h]

/-- What the script writes restores the backend, and the script sees that it does. -/
theorem body_restores : (linesOf body).any restoresPattern ∧
    (linesOf body).filterMap assigned = ["wpa_supplicant".toList] := by
  decide +kernel

theorem kept_write_body : (c.write body).kept = true := by
  simp only [Config.kept, guard_write, Option.any_some]
  exact body_restores.1

variable {c}

/-- While the backend has to be restored, the override is there; what is taken for it is
kept. -/
theorem run_of_matched (h : c.matched) :
    c.run false = if c.kept then c else c.write body := by
  simp [Config.run, h]

theorem guard_run_of_matched (h : c.matched) : (c.run false).kept ∧ (c.run false).others = c.others ∧
    (c.run false).guard = if c.kept then c.guard else some body := by
  rw [run_of_matched h]
  by_cases hkept : c.kept
  · simp [hkept]
  · simp [hkept, kept_write_body]

/-- Otherwise it is not there. -/
theorem guard_run_of_not {enabled : Bool} (h : (c.matched && !enabled) = false) :
    (c.run enabled).guard = none ∧ (c.run enabled).others = c.others := by
  rw [Config.run, h]
  by_cases hguard : c.guard.isSome
  · simp [hguard]
  · have hnone : c.guard = none := by simpa using hguard
    simp [hnone]

theorem others_run (enabled : Bool) : (c.run enabled).others = c.others := by
  by_cases h : (c.matched && !enabled) = true
  · obtain ⟨hmatched, rfl⟩ : c.matched = true ∧ enabled = false := by simpa using h
    exact (guard_run_of_matched hmatched).2.1
  · exact (guard_run_of_not (by simpa using h)).2

/-- A second run changes nothing. -/
theorem run_run (enabled : Bool) : (c.run enabled).run enabled = c.run enabled := by
  have hmatched : (c.run enabled).matched = c.matched := matched_congr (others_run enabled)
  by_cases h : (c.matched && !enabled) = true
  · obtain ⟨hc, rfl⟩ : c.matched = true ∧ enabled = false := by simpa using h
    rw [run_of_matched (hmatched.trans hc), if_pos (guard_run_of_matched hc).1]
  · have hnone := (guard_run_of_not (by simpa using h)).1
    rw [Config.run, hmatched, if_neg h, hnone]
    rfl

end Run

/-! ## What the pattern sees -/

theorem trim_append (t : Text) :
    ∃ b, t.dropWhile isSpace = trim t ++ b ∧ ∀ c ∈ b, isSpace c :=
  ⟨(t.dropWhile isSpace).rtakeWhile isSpace, List.rdropWhile_append_rtakeWhile.symm,
    fun _ hc => List.mem_rtakeWhile_imp hc⟩

theorem fold_append (t u : Text) : fold (t ++ u) = fold t ++ fold u := List.map_append

theorem assigned_eq_some {line v : Text} (h : assigned line = some v) :
    ∃ k u, line = k ++ '=' :: u ∧ trim k = backendKey ∧ v = trim u := by
  by_cases hmem : '=' ∈ line
  · obtain ⟨k, u, rfl, hk⟩ := List.eq_append_cons_of_mem hmem
    rw [assigned, Text.partition_append hk] at h
    simp only at h
    split_ifs at h with hkey
    exact ⟨k, u, rfl, hkey.2, (Option.some.inj h).symm⟩
  · simp [assigned, hmem] at h

/-- The pattern sees every line that assigns `iwd`. -/
theorem selectsPattern_of_assigned {line : Text} (h : isIwd (assigned line)) :
    selectsPattern line := by
  cases hassigned : assigned line with
  | none => simp [isIwd, hassigned] at h
  | some v =>
    obtain ⟨k, u, rfl, hkey, rfl⟩ := assigned_eq_some hassigned
    have hvalue : fold (trim u) = iwd := by simpa [isIwd, hassigned] using h
    obtain ⟨b, hb, hspaces⟩ := trim_append k
    obtain ⟨b', hb', -⟩ := trim_append u
    have hline : (k ++ '=' :: u).dropWhile isSpace = backendKey ++ (b ++ '=' :: u) := by
      rw [List.dropWhile_append, hb, hkey, if_neg (by simp [backendKey]), List.append_assoc]
    have hfold : fold backendKey = backendKey := by decide +kernel
    have hequals : (b ++ '=' :: u).dropWhile isSpace = '=' :: u := by
      rw [List.dropWhile_append_of_pos hspaces]
      rfl
    rw [selectsPattern, hline]
    simp only [fold_append, hfold, List.drop_left, hequals, hb', hvalue, Bool.and_eq_true,
      List.isPrefixOf_iff_prefix]
    exact ⟨List.prefix_append _ _, List.prefix_append _ _⟩

theorem matched_of_selecting {c : Config} (h : Selecting c) : c.matched := by
  obtain ⟨f, hf, line, hline, hassigned⟩ := h
  exact List.any_eq_true.mpr ⟨f, hf, List.any_eq_true.mpr
    ⟨line, hline, selectsPattern_of_assigned hassigned⟩⟩

/-! ## The order -/

theorem perm_of_guard {c : Config} {g : Text} (h : c.guard = some g) :
    c.files.Perm (c.others ++ [⟨guardPlace, g⟩]) := by
  obtain ⟨⟨place, content⟩, hf, rfl⟩ := Option.map_eq_some_iff.mp h
  obtain rfl : place = guardPlace := by simpa using List.find?_some hf
  obtain ⟨l, l', hfiles⟩ := List.append_of_mem (List.mem_of_find?_eq_some hf)
  have hnodup := c.nodup
  rw [hfiles, List.map_append, List.map_cons, List.nodup_middle, ← List.map_append,
    List.nodup_cons] at hnodup
  have hothers : c.others = l ++ l' := by
    have hkeep : (l ++ l').filter (fun f => f.place ≠ guardPlace) = l ++ l' := by
      refine List.filter_eq_self.mpr fun f hf => ?_
      have hne : f.place ≠ guardPlace := fun heq => hnodup.1 (List.mem_map.mpr ⟨f, hf, heq⟩)
      simpa using hne
    rw [Config.others, hfiles, ← hkeep]
    simp
  rw [hfiles, hothers]
  exact List.perm_middle.trans (List.perm_append_singleton _ _).symm

theorem pairwise_confD (files : List File) :
    (confD files).Pairwise fun f g => key f.place ≤ key g.place := by
  have : Std.Total fun f g : File => key f.place ≤ key g.place := ⟨fun f g => le_total _ _⟩
  have : IsTrans File fun f g => key f.place ≤ key g.place := ⟨fun _ _ _ => le_trans⟩
  exact List.pairwise_insertionSort (fun f g : File => key f.place ≤ key g.place) _

theorem perm_confD (files : List File) :
    (confD files).Perm (files.filter fun f => f.place.directory = confDir) :=
  List.perm_insertionSort _ _

theorem key_injective {p q : Place} (hdirectory : p.directory = q.directory) (h : key p = key q) :
    p = q := by
  obtain ⟨tree, directory, name⟩ := p
  obtain ⟨tree', directory', name'⟩ := q
  obtain ⟨hname, htree⟩ := Prod.mk.inj (toLex.injective h)
  cases tree <;> cases tree' <;> simp_all

/-- Other files of `conf.d` are read before or behind the override. -/
theorem perm_before_behind (c : Config) : (before c ++ behind c).Perm
    (c.others.filter fun f => f.place.directory = confDir) := by
  let dir (f : File) : Bool := f.place.directory = confDir
  let front (f : File) : Bool := key f.place < key guardPlace
  have hbefore : (before c).Perm ((c.others.filter dir).filter front) := by
    have hfilter : (c.others.filter dir).filter front = (c.files.filter dir).filter front := by
      rw [Config.others, List.filter_filter, List.filter_filter, List.filter_filter]
      apply List.filter_congr
      intro f _
      by_cases hplace : f.place = guardPlace <;> simp [hplace, front, dir]
    rw [hfilter]
    exact (perm_confD c.files).filter front
  have hbehind : (behind c).Perm ((c.others.filter dir).filter fun f => !front f) := by
    have hfilter : (c.others.filter dir).filter (fun f => !front f) =
        (c.files.filter dir).filter fun f => key guardPlace < key f.place := by
      rw [Config.others, List.filter_filter, List.filter_filter, List.filter_filter]
      apply List.filter_congr
      intro f _
      by_cases hdir : f.place.directory = confDir
      · by_cases hplace : f.place = guardPlace
        · simp [hplace, front]
        · have hne : key f.place ≠ key guardPlace := fun h => hplace (key_injective hdir h)
          have hlt : decide (key guardPlace < key f.place) = !front f := by
            rcases lt_or_gt_of_ne hne with h | h
            · simp [front, h, h.le]
            · simp [front, h, h.le]
          simp [hplace, hlt, Bool.and_comm]
      · simp [dir, hdir]
    rw [hfilter]
    exact (perm_confD c.files).filter fun f => key guardPlace < key f.place
  exact (hbefore.append hbehind).trans (List.filter_append_perm front _)

/-- The override stands between the files before it and those behind it. -/
theorem confD_eq {c c' : Config} {g : Text} (hothers : c'.others = c.others)
    (hguard : c'.guard = some g) :
    confD c'.files = before c ++ ⟨guardPlace, g⟩ :: behind c := by
  have hperm : (confD c'.files).Perm (before c ++ ⟨guardPlace, g⟩ :: behind c) := by
    have hfiles := (perm_of_guard hguard).filter fun f => f.place.directory = confDir
    have hguards : [(⟨guardPlace, g⟩ : File)].filter (fun f => f.place.directory = confDir) =
        [⟨guardPlace, g⟩] := rfl
    rw [hothers, List.filter_append, hguards] at hfiles
    exact (perm_confD _).trans (hfiles.trans (((perm_before_behind c).symm.append_right _).trans
      (List.append_assoc .. ▸ (List.perm_append_singleton _ _).append_left _)))
  have hpairwise : (before c ++ ⟨guardPlace, g⟩ :: behind c).Pairwise
      fun f g => key f.place ≤ key g.place := by
    have hbefore : ∀ x ∈ before c, key x.place < key guardPlace := by
      intro x hx
      simpa using (List.mem_filter.mp hx).2
    have hbehind : ∀ x ∈ behind c, key guardPlace < key x.place := by
      intro x hx
      simpa using (List.mem_filter.mp hx).2
    refine List.pairwise_append.mpr ⟨(pairwise_confD _).filter _, List.pairwise_cons.mpr ⟨?_, ?_⟩, ?_⟩
    · exact fun x hx => (hbehind x hx).le
    · exact (pairwise_confD _).filter _
    · intro x hx y hy
      rcases List.mem_cons.mp hy with rfl | hy
      · exact (hbefore x hx).le
      · exact ((hbefore x hx).trans (hbehind y hy)).le
  refine hperm.eq_of_pairwise (fun x y hx hy hxy hyx => ?_) (pairwise_confD _) hpairwise
  have hmem (z : File) (hz : z ∈ confD c'.files) : z ∈ c'.files ∧ z.place.directory = confDir := by
    simpa using (perm_confD _).mem_iff.mp hz
  obtain ⟨hx, hdirx⟩ := hmem x hx
  obtain ⟨hy, hdiry⟩ := hmem y (hperm.mem_iff.mpr hy)
  exact List.inj_on_of_nodup_map c'.nodup hx hy
    (key_injective (hdirx.trans hdiry.symm) (le_antisymm hxy hyx))

theorem assignments_body : assignments [⟨guardPlace, body⟩] = ["wpa_supplicant".toList] := by
  rw [assignments, List.flatMap_singleton]
  exact body_restores.2

theorem assignments_append (fs gs : List File) :
    assignments (fs ++ gs) = assignments fs ++ assignments gs := by
  simp [assignments]

/-! ## When the script works -/

theorem effective_run_of_matched {c : Config} (h : c.matched) : effective (c.run false) =
    (assignments (before c ++ [⟨guardPlace, if c.kept then c.guard.getD [] else body⟩]) ++
      assignments (behind c)).getLast? := by
  obtain ⟨-, hothers, hguard⟩ := guard_run_of_matched h
  have hsome : (c.run false).guard = some (if c.kept then c.guard.getD [] else body) := by
    rw [hguard]
    by_cases hkept : c.kept
    · cases hg : c.guard with
      | none => simp [Config.kept, hg] at hkept
      | some g => simp [hkept]
    · simp [hkept]
  rw [effective, confD_eq hothers hsome, ← assignments_append, List.append_assoc, List.singleton_append]

/-- The backend is restored exactly if the override is not outvoted and not stale. -/
theorem backend_run_iff {c : Config} (h : c.matched) :
    isIwd (effective (c.run false)) = false ↔ ¬ Outvoted c ∧ ¬ Stale c := by
  rw [effective_run_of_matched h, List.getLast?_append]
  cases hbehind : (assignments (behind c)).getLast? with
  | some v =>
    have hne : assignments (behind c) ≠ [] := by
      intro hnil
      simp [hnil] at hbehind
    simp [Outvoted, Stale, hbehind, hne]
  | none =>
    have hnil : assignments (behind c) = [] := List.getLast?_eq_none_iff.mp hbehind
    by_cases hkept : c.kept
    · simp [Outvoted, Stale, hnil, hkept, isIwd]
    · have hbody : (assignments (before c ++ [⟨guardPlace, body⟩])).getLast? =
          some "wpa_supplicant".toList := by
        rw [assignments_append, assignments_body, List.getLast?_concat]
      have hother : fold "wpa_supplicant".toList ≠ iwd := by decide +kernel
      simpa [Outvoted, Stale, hnil, hkept, hbody, isIwd] using hother

/-- If no other file is seen to select `iwd`, none does. -/
theorem effective_run_of_not_matched {c : Config} (h : c.matched = false) :
    isIwd (effective (c.run false)) = false := by
  have hnot : (c.matched && !false) = false := by simp [h]
  obtain ⟨hguard, hothers⟩ := guard_run_of_not hnot
  cases heffective : effective (c.run false) with
  | none => rfl
  | some v =>
    by_contra hiwd
    obtain ⟨f, hf, hline⟩ := List.mem_flatMap.mp (List.mem_of_getLast? heffective)
    obtain ⟨line, hline, hv⟩ := List.mem_filterMap.mp hline
    have hmem : f ∈ (c.run false).files := (List.mem_filter.mp ((perm_confD _).mem_iff.mp hf)).1
    have hplace : f.place ≠ guardPlace := by
      rw [Config.guard, Option.map_eq_none_iff, List.find?_eq_none] at hguard
      simpa using hguard f hmem
    have hother : f ∈ c.others := by
      rw [← hothers]
      exact List.mem_filter.mpr ⟨hmem, by simpa using hplace⟩
    have hselecting : Selecting c := ⟨f, hother, line, hline, by rw [hv]; simpa using hiwd⟩
    rw [matched_of_selecting hselecting] at h
    cases h

/-- **The script does what it is for** exactly if `iwd` is enabled, or no other file is seen
to select it, or one does select it, no file behind the override has the last word, and the
file in its place is not taken for a good one wrongly. -/
theorem keeps_iff (enabled : Bool) (c : Config) : Keeps enabled c ↔
    enabled = true ∨ c.matched = false ∨ Selecting c ∧ ¬ Outvoted c ∧ ¬ Stale c := by
  constructor
  · intro hkeeps
    cases enabled with
    | true => exact .inl rfl
    | false =>
      cases hmatched : c.matched with
      | false => exact .inr (.inl rfl)
      | true =>
        have hselecting : Selecting c := by
          by_contra hnot
          have hkept := (guard_run_of_matched hmatched).1
          simp [Config.kept, hkeeps.absent (.inr hnot)] at hkept
        exact .inr (.inr ⟨hselecting, (backend_run_iff hmatched).mp (hkeeps.backend rfl)⟩)
  · intro h
    constructor
    · intro henabled
      subst henabled
      cases hmatched : c.matched with
      | false => exact effective_run_of_not_matched hmatched
      | true =>
        rcases h with h | h | ⟨-, h⟩
        · cases h
        · simp [h] at hmatched
        · exact (backend_run_iff hmatched).mpr h
    · exact run_run enabled
    · intro hnot
      apply (guard_run_of_not _).1
      rcases h with rfl | h | ⟨hselecting, -⟩
      · simp
      · simp [h]
      · rcases hnot with rfl | hnot
        · simp
        · exact absurd hselecting hnot
    · exact fun _ => others_run enabled

/-- A file that sorts behind the override selects `iwd`. -/
def sampleConfig : Config where
  files := [⟨⟨.etc, confDir, "zzzz-local.conf".toList⟩, "wifi.backend=iwd".toList⟩]
  nodup := by simp

theorem not_keeps_sample : ¬ ∀ (enabled : Bool) (c : Config), Keeps enabled c := by
  intro hkeeps
  have hfiles : sampleConfig.matched ∧ isIwd (assignments (behind sampleConfig)).getLast? := by
    decide +kernel
  have hbackend := (hkeeps false sampleConfig).backend rfl
  exact ((backend_run_iff hfiles.1).mp hbackend).1 hfiles.2

end WifiBackend
