import BazziteTower.Ci.Artifact

/-!
# The signature policy: merging it, checking it, and what it enforces

The installer merges the staged policy into the one that the base image brought, and the
check of an artifact reads what it wrote.  Neither of them enforces anything: that is the
lookup of the container tools, which takes the closest scope of a reference.

The check compares keys with one prefix and the lookup walks from the reference up, so
what ties them together is that a reference to the repository is longer than the
repository by a tag or a digest, and the check leaves no such scope.

## Main definitions

* `lookup` — the requirements that hold for a docker reference.
* `merge`, `install` — the installer.
* `MoreSpecific` — a scope inside the repository.

## Main results

* `policy_sound` — an accepted policy selects the rule of the repository's key; the merge
  keeps the other scopes and transports, and what is accepted of its output.
-/

open Json

namespace SignaturePolicy

open Artifact (activePolicy decode getOr sizeLimit Tree)
open Refresh (object text dest)

/-! ## The lookup -/

/-- The namespaces above a repository, the closest one first. -/
def parents (repository : Text) : List Text :=
  (((List.range repository.length).filter fun i => repository[i]? = some '/').map
    (repository.take ·)).reverse

/-- A docker reference to the repository. -/
inductive Reference
  | tag (name : Text)
  | digest (value : Text)

def Reference.full : Reference → Text
  | .tag name => dest.toList ++ ':' :: name
  | .digest value => dest.toList ++ '@' :: value

/-- The scopes that are looked up for a reference, in this order. -/
def Reference.scopes (r : Reference) : List Text :=
  r.full :: dest.toList :: (parents dest.toList ++ [[]])

/-- The members of an object, none for anything else. -/
def fields : Json → Fields
  | .obj ms => ms
  | _ => []

/-- The transports of a policy, and the scopes of docker. -/
def transports (policy : Json) : Fields := fields ((fields policy).get "transports")

def dockerScopes (policy : Json) : Fields := fields (Fields.get (transports policy) "docker")

/-- The requirements that a policy has for a reference: those of the closest scope, the
default of the transport, or the default of the policy. -/
def lookup (policy : Json) (r : Reference) : Option Json :=
  (r.scopes.findSome? fun scope => find scope (dockerScopes policy)).or
    (find "default".toList (fields policy))

/-! ## The installer -/

/-- The rule of the repository's key. -/
def towerRule : Json :=
  .arr [object [("type", text "sigstoreSigned"),
    ("keyPath", text "/etc/pki/containers/bazzite-tower-cosign.pub"),
    ("signedIdentity", object [("type", text "matchRepository")])]]

def reject : Json := .arr [object [("type", text "reject")]]

def acceptAnything : Json := .arr [object [("type", text "insecureAcceptAnything")]]

/-- The staged policy. -/
def staged : Json :=
  object [("default", reject), ("transports", object [("docker",
    object [("", acceptAnything), (dest, towerRule)])])]

/-- `value[key] = …`, `value.setdefault(…)`: the members of a dictionary. -/
def dictionary : Json → Except Exn Fields
  | .obj ms => .ok ms
  | _ => .error (.raised .attribute "object has no attribute 'setdefault'")

/-- `ms.setdefault(key, value)`, as the dictionary that it leaves. -/
def setDefault (key : String) (value : Json) (ms : Fields) : Fields :=
  if (find key.toList ms).isSome then ms else insert key.toList value ms

/-- The installed policy, of the staged one and of the one that the base brought. -/
def merge (requested current : Json) : Except Exn Json := do
  let ms ← dictionary current
  let ms := insert "default".toList (← requested.subscript "default") ms
  let transports ← dictionary ((find "transports".toList ms).getD (.obj []))
  let docker ← dictionary ((find "docker".toList transports).getD (.obj []))
  let scopes ← (← requested.subscript "transports").subscript "docker"
  let docker := setDefault "" (← scopes.subscript "") docker
  let docker := insert dest.toList (← scopes.subscript dest) docker
  return .obj (insert "transports".toList (.obj (insert "docker".toList (.obj docker) transports)) ms)

/-- The policy of the base, if it has one. -/
def currentPolicy : Option Bytes → Except Exn Json
  | some data => loadsUtf8 data
  | none => .ok (.obj [])

/-- What the installer writes, of the staged file and the policy file of the base. -/
def install (source : Bytes) (upstream : Option Bytes) : Except Exn Bytes := do
  let requested ← loadsUtf8 source
  let current ← currentPolicy upstream
  return Text.encode (render (some 2) 0 (← merge requested current) ++ ['\n'])

/-- The control checkout has the staged policy that is installed. -/
structure Staged (root : Tree) (source : Bytes) : Prop where
  file : root "system_files/usr/share/bazzite-tower/containers/policy.json" = some ⟨.regular, source⟩
  size : source.length ≤ sizeLimit
  decodes : decode source = .ok staged
  loads : loadsUtf8 source = .ok staged

/-- A scope inside the repository: a tag, a digest, or a repository below it. -/
def MoreSpecific (scope : Text) : Prop :=
  ∃ c ∈ [':', '@', '/'], dest.toList ++ [c] <+: scope

/-! ## Accepted policies -/

theorem moreSpecific_iff {scope : Text} :
    (dest.toList.isPrefixOf scope && scope ≠ dest.toList && [':', '@', '/'].any fun c =>
      scope.drop dest.toList.length |>.head? |>.any (· = c)) ↔ MoreSpecific scope := by
  rw [Bool.and_eq_true, Bool.and_eq_true, List.isPrefixOf_iff_prefix, List.any_eq_true,
    decide_eq_true_eq]
  constructor
  · rintro ⟨⟨⟨behind, rfl⟩, -⟩, c, hc, hany⟩
    rw [List.drop_left] at hany
    cases behind with
    | nil => cases hany
    | cons d rest =>
      obtain rfl : d = c := by simpa using hany
      exact ⟨d, hc, rest, by simp⟩
  · rintro ⟨c, hc, rest, rfl⟩
    refine ⟨⟨⟨c :: rest, by simp⟩, by simp⟩, c, hc, ?_⟩
    rw [List.append_assoc, List.drop_left]
    simp

theorem textual_towerRule : Textual towerRule := by
  refine .arr fun x hx => ?_
  rw [List.mem_singleton.mp hx]
  refine .obj fun m hm => ?_
  simp only [List.map_cons, List.map_nil, List.mem_cons, List.not_mem_nil, or_false] at hm
  rcases hm with rfl | rfl | rfl
  · exact .str _
  · exact .str _
  · refine .obj fun m hm => ?_
    simp only [List.map_cons, List.map_nil, List.mem_singleton] at hm
    rw [hm]
    exact .str _

/-- What is read of a policy, member by member. -/
theorem dockerScopes_of_getOr {policy transports docker : Json} {ms : Fields}
    (ht : getOr (.obj []) "transports" policy = .ok transports)
    (hd : getOr (.obj []) "docker" transports = .ok docker) (hms : docker.items = .ok ms) :
    dockerScopes policy = ms := by
  have hfield {v w : Json} {key : String} (h : getOr (.obj []) key v = .ok w) :
      fields ((fields v).get key) = fields w := by
    cases v with
    | obj vs =>
      obtain rfl := Except.ok.inj h
      simp only [fields, Fields.get]
      cases find key.toList vs <;> rfl
    | _ => cases h
  have hdocker : fields docker = ms := by
    cases docker with
    | obj ds => exact Except.ok.inj hms
    | _ => cases hms
  rw [dockerScopes, SignaturePolicy.transports, hfield ht, hfield hd, hdocker]

/-- An accepted policy has the rule of the key for the repository, and no scope inside it. -/
theorem accepted_of_activePolicy {root : Tree} {data : Bytes} {u : Unit}
    (h : activePolicy root data = .ok u) :
    data.length ≤ sizeLimit ∧ ∃ current rule, decode data = .ok current ∧
      find dest.toList (dockerScopes current) = some rule ∧ rule.pyEq towerRule ∧
        ∀ m ∈ dockerScopes current, ¬MoreSpecific m.1 := by
  simp only [activePolicy, Except.bind_eq_ok, Refresh.require_eq_ok] at h
  obtain ⟨_, -, requested, -, current, hcurrent, _, -, _, -, _, -, transports, ht, docker, hd,
    _, -, _, -, scope, -, d, hget, _, hrule, ms, hms, hscopes⟩ := h
  have hfields := dockerScopes_of_getOr ht hd hms
  have hsize : data.length ≤ sizeLimit := by
    obtain ⟨_, hlength, -⟩ := Except.bind_eq_ok.mp hcurrent
    simpa using hlength
  rw [Bool.and_eq_true] at hrule
  have htower : d.pyEq towerRule := textual_towerRule.pyEq_trans hrule.1 hrule.2
  obtain rfl : docker = .obj ms := by
    cases docker with
    | obj ds => exact congrArg Json.obj (Except.ok.inj hms)
    | _ => cases hms
  have hrule : find dest.toList ms = some d := by
    have hd' := Except.ok.inj hget
    cases hfind : find dest.toList ms with
    | some v => rw [hfind] at hd'; exact congrArg some hd'
    | none =>
      rw [hfind] at hd'
      rw [← hd'] at htower
      simp [towerRule, pyEq, number] at htower
  refine ⟨hsize, current, d, hcurrent, by rwa [hfields], htower, fun m hm hspecific => ?_⟩
  rw [Bool.not_eq_true', List.any_eq_false] at hscopes
  exact hscopes m (hfields ▸ hm) (moreSpecific_iff.mpr hspecific)

theorem Reference.moreSpecific_full (r : Reference) : MoreSpecific r.full := by
  cases r with
  | tag name => exact ⟨':', by simp, name, by simp [Reference.full]⟩
  | digest value => exact ⟨'@', by simp, value, by simp [Reference.full]⟩

/-- With no scope inside the repository, a reference gets the rule of the repository. -/
theorem lookup_eq {policy rule : Json} (hrule : find dest.toList (dockerScopes policy) = some rule)
    (h : ∀ m ∈ dockerScopes policy, ¬MoreSpecific m.1) (r : Reference) :
    lookup policy r = some rule := by
  have hfull : find r.full (dockerScopes policy) = none := by
    cases hfind : find r.full (dockerScopes policy) with
    | none => rfl
    | some v => exact absurd r.moreSpecific_full (h _ (mem_of_find hfind))
  simp [lookup, Reference.scopes, hfull, hrule]

/-! ## The merge -/

/-- The scopes that the merge leaves. -/
def mergedScopes (docker : Fields) : Fields :=
  insert dest.toList towerRule (setDefault "" acceptAnything docker)

/-- The policy that the merge leaves, of the members, transports and scopes that it found. -/
def mergedPolicy (ms transports docker : Fields) : Json :=
  .obj (insert "transports".toList (.obj (insert "docker".toList (.obj (mergedScopes docker)) transports))
    (insert "default".toList reject ms))

/-- What the merge makes of a policy: the places it looks at are dictionaries, or missing. -/
theorem merge_eq_ok {current merged : Json} (h : merge staged current = .ok merged) :
    ∃ ms ts ds, current = .obj ms ∧ (find "transports".toList ms).getD (.obj []) = .obj ts ∧
      (find "docker".toList ts).getD (.obj []) = .obj ds ∧ merged = mergedPolicy ms ts ds := by
  have hdictionary {v : Json} {ms : Fields} : dictionary v = .ok ms ↔ v = .obj ms := by
    cases v <;> simp [dictionary]
  simp only [merge, Except.bind_eq_ok, hdictionary] at h
  obtain ⟨ms, rfl, default, hdefault, ts, hts, ds, hds, scopes, hscopes, docker, hdocker, fallback,
    hfallback, rule, hrule, h⟩ := h
  obtain rfl : reject = default := Except.ok.inj hdefault
  obtain rfl : _ = scopes := Except.ok.inj hscopes
  obtain rfl : _ = docker := Except.ok.inj hdocker
  obtain rfl : acceptAnything = fallback := Except.ok.inj hfallback
  obtain rfl : towerRule = rule := Except.ok.inj hrule
  rw [find_insert_ne (by decide)] at hts
  exact ⟨ms, ts, ds, rfl, hts, hds, (Except.ok.inj h).symm⟩

/-- Such a policy is merged. -/
theorem merge_of_dictionaries {ms ts ds : Fields}
    (hts : (find "transports".toList ms).getD (.obj []) = .obj ts)
    (hds : (find "docker".toList ts).getD (.obj []) = .obj ds) :
    merge staged (.obj ms) = .ok (mergedPolicy ms ts ds) := by
  have hts' : (find "transports".toList (insert "default".toList reject ms)).getD (.obj []) = .obj ts := by
    rw [find_insert_ne (by decide), hts]
  have hdefault : staged.subscript "default" = .ok reject := rfl
  rw [merge]
  simp only [dictionary, hdefault, bind, Except.bind, hts', hds]
  rfl

section Dictionaries
variable {ms ts ds : Fields}

theorem fields_getD {ms ts : Fields} {key : String}
    (h : (find key.toList ms).getD (.obj []) = .obj ts) : fields (ms.get key) = ts := by
  rw [Fields.get]
  cases hfind : find key.toList ms with
  | none =>
    rw [hfind] at h
    exact Json.obj.inj h
  | some v =>
    rw [hfind] at h
    exact congrArg fields h

theorem transports_mergedPolicy :
    transports (mergedPolicy ms ts ds) = insert "docker".toList (.obj (mergedScopes ds)) ts := by
  simp [transports, mergedPolicy, fields, Fields.get]

theorem dockerScopes_mergedPolicy : dockerScopes (mergedPolicy ms ts ds) = mergedScopes ds := by
  simp [dockerScopes, transports_mergedPolicy, Fields.get, fields]

/-- The scopes of the base stay as they are, but for the one of the repository. -/
theorem find_mergedScopes {scope : Text} (hne : scope ≠ dest.toList) {v : Json}
    (h : find scope ds = some v) : find scope (mergedScopes ds) = some v := by
  rw [mergedScopes, find_insert_ne hne, setDefault]
  split
  · exact h
  · rename_i hnone
    have hempty : scope ≠ "".toList := by
      rintro rfl
      rw [h] at hnone
      exact hnone rfl
    rw [find_insert_ne hempty, h]

theorem mem_keys_mergedScopes {scope : Text} :
    scope ∈ (mergedScopes ds).map Prod.fst ↔
      scope = dest.toList ∨ scope = [] ∨ scope ∈ ds.map Prod.fst := by
  have hkeys (k : Text) (v : Json) (ms : Fields) :
      scope ∈ (insert k v ms).map Prod.fst ↔ scope = k ∨ scope ∈ ms.map Prod.fst := by
    rw [keys_insert]
    split
    · rename_i hk
      exact ⟨.inr, fun h => h.elim (fun h => h ▸ hk) id⟩
    · rw [List.mem_append, List.mem_singleton, or_comm]
  rw [mergedScopes, hkeys, setDefault]
  split
  · rename_i hsome
    obtain ⟨v, hv⟩ := Option.isSome_iff_exists.mp hsome
    have hmem : [] ∈ ds.map Prod.fst := List.mem_map_of_mem (mem_of_find hv)
    refine or_congr_right ⟨.inr, fun h => ?_⟩
    exact h.elim (fun h => h ▸ hmem) id
  · exact or_congr_right (hkeys ..)

/-- The merge adds no scope inside the repository. -/
theorem moreSpecific_mergedScopes :
    (∀ m ∈ mergedScopes ds, ¬MoreSpecific m.1) ↔ ∀ m ∈ ds, ¬MoreSpecific m.1 := by
  have hdest : ¬MoreSpecific dest.toList := by
    rintro ⟨c, -, rest, h⟩
    have := congrArg List.length h
    simp at this
  have hempty : ¬MoreSpecific [] := by
    rintro ⟨c, -, rest, h⟩
    have := congrArg List.length h
    simp at this
  rw [← List.forall_mem_map (f := Prod.fst) (P := fun k => ¬MoreSpecific k),
    ← List.forall_mem_map (f := Prod.fst) (P := fun k => ¬MoreSpecific k)]
  constructor
  · intro h scope hscope
    exact h scope (mem_keys_mergedScopes.mpr (.inr (.inr hscope)))
  · intro h scope hscope
    rcases mem_keys_mergedScopes.mp hscope with rfl | rfl | hscope
    · exact hdest
    · exact hempty
    · exact h scope hscope

theorem written_getD {depth : ℕ} {key : Text} (hms : WrittenMembers depth ms) (hdepth : 0 < depth) :
    Written depth ((find key ms).getD (.obj [])) := by
  induction ms with
  | nil => exact ⟨hdepth, by simp, trivial⟩
  | cons m ms ih =>
    rw [find]
    split
    · exact hms.1
    · exact ih hms.2

/-- What is merged can be written. -/
theorem written_mergedPolicy (hms : Written recursionLimit (.obj ms))
    (hts : (find "transports".toList ms).getD (.obj []) = .obj ts)
    (hds : (find "docker".toList ts).getD (.obj []) = .obj ds) :
    Written recursionLimit (mergedPolicy ms ts ds) := by
  have hts' : Written (recursionLimit - 1) (.obj ts) :=
    hts ▸ written_getD hms.2.2 (by decide)
  have hds' : Written (recursionLimit - 1 - 1) (.obj ds) :=
    hds ▸ written_getD hts'.2.2 (by decide)
  have hrule : Written (recursionLimit - 1 - 1 - 1) towerRule := by
    simp [Written, WrittenItems, WrittenMembers, towerRule, object, text, recursionLimit]
  have haccept : Written (recursionLimit - 1 - 1 - 1) acceptAnything := by
    simp [Written, WrittenItems, WrittenMembers, acceptAnything, object, text, recursionLimit]
  have hreject : Written (recursionLimit - 1) reject := by
    simp [Written, WrittenItems, WrittenMembers, reject, object, text, recursionLimit]
  have hdefault : ((setDefault "" acceptAnything ds).map Prod.fst).Nodup ∧
      WrittenMembers (recursionLimit - 1 - 1 - 1) (setDefault "" acceptAnything ds) := by
    unfold setDefault
    split
    · exact hds'.2
    · exact ⟨nodup_insert hds'.2.1 _ _, writtenMembers_insert haccept hds'.2.2⟩
  refine ⟨by decide, nodup_insert (nodup_insert hms.2.1 _ _) _ _, writtenMembers_insert ?_
    (writtenMembers_insert hreject hms.2.2)⟩
  refine ⟨by decide, nodup_insert hts'.2.1 _ _, writtenMembers_insert ?_ hts'.2.2⟩
  exact ⟨by decide, nodup_insert hdefault.1 _ _, writtenMembers_insert hrule hdefault.2⟩

end Dictionaries

/-- What is merged is accepted, if no scope is inside the repository. -/
theorem activePolicy_of_merged {root : Tree} {source data : Bytes} {ms ts ds : Fields}
    (hroot : Staged root source) (hdata : decode data = .ok (mergedPolicy ms ts ds))
    (h : ∀ m ∈ mergedScopes ds, ¬MoreSpecific m.1) : activePolicy root data = .ok () := by
  simp only [activePolicy, Except.bind_eq_ok, Refresh.require_eq_ok]
  refine ⟨source, ?_, staged, hroot.decodes, _, hdata, reject, rfl, reject, ?_, (), by decide +kernel,
    .obj (insert "docker".toList (.obj (mergedScopes ds)) ts), ?_, .obj (mergedScopes ds), ?_, _, rfl,
    _, rfl, towerRule, rfl, towerRule, ?_, (), by decide +kernel, _, rfl, ?_⟩
  · rw [hroot.file]
    simp [Artifact.read, hroot.size, bind, Except.bind, pure, Except.pure]
    rfl
  · simp [Json.get, mergedPolicy]
  · simp [getOr, mergedPolicy]
  · simp [getOr]
  · simp [Json.get, mergedScopes]
  · rw [Bool.not_eq_true', List.any_eq_false]
    exact fun m hm hspecific => h m hm (moreSpecific_iff.mp hspecific)

/-- What the installer writes is the merge of what it reads, and that can be written. -/
theorem exists_of_install {root : Tree} {source out : Bytes} {upstream : Option Bytes}
    (hroot : Staged root source) (h : install source upstream = .ok out) :
    ∃ ms ts ds, currentPolicy upstream = .ok (.obj ms) ∧ Written recursionLimit (.obj ms) ∧
      (find "transports".toList ms).getD (.obj []) = .obj ts ∧
      (find "docker".toList ts).getD (.obj []) = .obj ds ∧
      out = Text.encode (render (some 2) 0 (mergedPolicy ms ts ds) ++ ['\n']) := by
  simp only [install, Except.bind_eq_ok] at h
  obtain ⟨_, hrequested, current, hcurrent, merged, hmerged, h⟩ := h
  obtain rfl := Except.ok.inj (hroot.loads.symm.trans hrequested)
  obtain ⟨ms, ts, ds, rfl, hts, hds, rfl⟩ := merge_eq_ok hmerged
  refine ⟨ms, ts, ds, hcurrent, ?_, hts, hds, (Except.ok.inj h).symm⟩
  cases upstream with
  | some data =>
    obtain ⟨cs, -, hcs⟩ := Except.bind_eq_ok.mp hcurrent
    exact written_of_loadsText (decoded_eq_ok.mp hcs)
  | none =>
    rw [← Except.ok.inj hcurrent]
    exact ⟨by decide, by simp, trivial⟩

theorem decode_render {v : Json} (hv : Written recursionLimit v)
    (hsize : (Text.encode (render (some 2) 0 v ++ ['\n'])).length ≤ sizeLimit) :
    decode (Text.encode (render (some 2) 0 v ++ ['\n'])) = .ok v := by
  rw [decode, loadsHook_render keepsDistinct_uniqueKeys (some 2) hv]
  simp [hsize, bind, Except.bind]
  rfl

theorem loadsUtf8_render {v : Json} (hv : Written recursionLimit v) :
    loadsUtf8 (Text.encode (render (some 2) 0 v ++ ['\n'])) = .ok v := by
  rw [loadsUtf8, utf8, Text.decodeUtf8_encode]
  exact congrArg decoded (loadsText_render hv)

/-- **The policy is sound.**  An accepted policy selects the rule of the repository's key
for every tag and digest.  The installer keeps the other docker scopes and the other
transports, and what it writes is accepted when it is no larger than the check reads and
the base has no scope inside the repository. -/
theorem policy_sound :
    (∀ (root : Tree) (data : Bytes), activePolicy root data = .ok () →
      ∃ current, decode data = .ok current ∧
        ∀ r : Reference, ∃ rule, lookup current r = some rule ∧ rule.pyEq towerRule) ∧
    ∀ (root : Tree) (source : Bytes) (upstream : Option Bytes) (out : Bytes),
      Staged root source → install source upstream = .ok out →
      ∃ old new, currentPolicy upstream = .ok old ∧ loadsHook uniqueKeys out = .ok new ∧
        (∀ scope v, scope ≠ dest.toList → find scope (dockerScopes old) = some v →
          find scope (dockerScopes new) = some v) ∧
        (∀ name, name ≠ "docker".toList → find name (transports new) = find name (transports old)) ∧
        (activePolicy root out = .ok () ↔
          out.length ≤ sizeLimit ∧ ∀ m ∈ dockerScopes old, ¬MoreSpecific m.1) := by
  constructor
  · intro root data h
    obtain ⟨-, current, rule, hcurrent, hrule, htower, hscopes⟩ := accepted_of_activePolicy h
    exact ⟨current, hcurrent, fun r => ⟨rule, lookup_eq hrule hscopes r, htower⟩⟩
  · intro root source upstream out hroot h
    obtain ⟨ms, ts, ds, hbrought, hwritten, hts, hds, rfl⟩ := exists_of_install hroot h
    have hmerged := written_mergedPolicy hwritten hts hds
    have htransports : transports (.obj ms) = ts := fields_getD hts
    have hdocker : dockerScopes (.obj ms) = ds := by
      rw [dockerScopes, htransports]
      exact fields_getD hds
    refine ⟨.obj ms, mergedPolicy ms ts ds, hbrought,
      loadsHook_render keepsDistinct_uniqueKeys (some 2) hmerged, ?_, ?_, ?_⟩
    · intro scope v hne hv
      rw [dockerScopes_mergedPolicy]
      exact find_mergedScopes hne (hdocker ▸ hv)
    · intro name hne
      rw [transports_mergedPolicy, find_insert_ne hne, htransports]
    · rw [hdocker, ← moreSpecific_mergedScopes]
      constructor
      · intro haccepted
        obtain ⟨hsize, current, rule, hcurrent, -, -, hscopes⟩ := accepted_of_activePolicy haccepted
        rw [decode_render hmerged hsize] at hcurrent
        obtain rfl := Except.ok.inj hcurrent
        rw [dockerScopes_mergedPolicy] at hscopes
        exact ⟨hsize, hscopes⟩
      · rintro ⟨hsize, hscopes⟩
        exact activePolicy_of_merged hroot (decode_render hmerged hsize) hscopes

/-! ## Samples -/

/-- A policy that is merged is installed. -/
theorem install_render {root : Tree} {source : Bytes} {ms ts ds : Fields} (hroot : Staged root source)
    (hms : Written recursionLimit (.obj ms))
    (hts : (find "transports".toList ms).getD (.obj []) = .obj ts)
    (hds : (find "docker".toList ts).getD (.obj []) = .obj ds) :
    install source (some (Text.encode (render (some 2) 0 (.obj ms) ++ ['\n']))) =
      .ok (Text.encode (render (some 2) 0 (mergedPolicy ms ts ds) ++ ['\n'])) := by
  rw [install, hroot.loads, currentPolicy, loadsUtf8_render hms]
  simp only [bind, Except.bind, merge_of_dictionaries hts hds]
  rfl

/-- The staged file, written the way the installer writes. -/
def sampleSource : Bytes := Text.encode (render (some 2) 0 staged ++ ['\n'])

def sampleTree : Tree := fun _ => some ⟨.regular, sampleSource⟩

theorem written_staged : Written recursionLimit staged := by
  simp [Written, WrittenItems, WrittenMembers, staged, towerRule, acceptAnything, reject, object, text,
    recursionLimit]
  decide

set_option maxRecDepth 100000 in
theorem length_sampleSource : sampleSource.length ≤ sizeLimit := by decide +kernel

theorem staged_sampleTree : Staged sampleTree sampleSource where
  file := rfl
  size := length_sampleSource
  decodes := decode_render written_staged length_sampleSource
  loads := loadsUtf8_render written_staged

def sampleDocker : Fields := [([], reject), ("quay.io/example".toList, reject)]

def sampleTransports : Fields :=
  [("docker".toList, .obj sampleDocker), ("atomic".toList, object [("example", acceptAnything)])]

/-- A policy that a base brings. -/
def sampleUpstream : Fields :=
  [("default".toList, acceptAnything), ("transports".toList, .obj sampleTransports)]

theorem written_sampleUpstream : Written recursionLimit (.obj sampleUpstream) := by
  simp [Written, WrittenItems, WrittenMembers, sampleUpstream, sampleTransports, sampleDocker,
    acceptAnything, reject, object, text, recursionLimit]

set_option maxRecDepth 100000 in
theorem length_sampleMerged :
    (Text.encode (render (some 2) 0 (mergedPolicy sampleUpstream sampleTransports sampleDocker) ++
      ['\n'])).length ≤ sizeLimit := by decide +kernel

/-- The merge with that policy is accepted, and selects the rule for every reference. -/
theorem policy_sound_sample : ∃ out current,
    install sampleSource (some (Text.encode (render (some 2) 0 (.obj sampleUpstream) ++ ['\n']))) =
      .ok out ∧ activePolicy sampleTree out = .ok () ∧ decode out = .ok current ∧
        ∀ r : Reference, ∃ rule, lookup current r = some rule ∧ rule.pyEq towerRule := by
  have hinstall := @install_render _ _ sampleUpstream sampleTransports sampleDocker staged_sampleTree
    written_sampleUpstream rfl rfl
  obtain ⟨old, -, hold, -, -, -, haccepted⟩ := policy_sound.2 _ _ _ _ staged_sampleTree hinstall
  obtain rfl := Except.ok.inj ((loadsUtf8_render written_sampleUpstream).symm.trans hold)
  have hscopes : ∀ m ∈ dockerScopes (.obj sampleUpstream), ¬MoreSpecific m.1 := by
    intro m hm hspecific
    have hdocker : dockerScopes (.obj sampleUpstream) = sampleDocker := rfl
    rw [hdocker] at hm
    rw [← moreSpecific_iff] at hspecific
    have hall : ∀ m ∈ sampleDocker, (dest.toList.isPrefixOf m.1) = false := by decide
    rw [hall m hm] at hspecific
    cases hspecific
  have hactive := haccepted.mpr ⟨length_sampleMerged, hscopes⟩
  obtain ⟨current, hcurrent, hlookup⟩ := policy_sound.1 _ _ hactive
  exact ⟨_, current, hinstall, hactive, hcurrent, hlookup⟩

/-! ## An oversized policy -/

theorem length_encode (cs : Text) : cs.length ≤ (Text.encode cs).length := by
  induction cs with
  | nil => simp
  | cons c cs ih =>
    have hc := c.utf8Size_pos
    rw [← String.length_utf8EncodeChar] at hc
    rw [Text.encode] at ih ⊢
    rw [List.flatMap_cons, List.length_append, List.length_cons]
    omega

/-- A member is spelled within its object. -/
theorem length_render_member {indent : Option ℕ} {level : ℕ} {ms : Fields} {m : Text × Json}
    (hm : m ∈ ms) :
    (render indent (level + 1) m.2).length ≤ (render indent level (.obj ms)).length := by
  have hmembers : (render indent (level + 1) m.2).length ≤
      (renderMembers indent (level + 1) ms).length := by
    induction ms with
    | nil => cases hm
    | cons n ms ih =>
      obtain ⟨k, v⟩ := n
      rw [renderMembers, List.length_append, List.length_append, List.length_cons, List.length_cons]
      rcases List.mem_cons.mp hm with rfl | hm
      · dsimp only
        omega
      · have hle := ih hm
        rw [if_neg (List.ne_nil_of_mem hm), List.length_append]
        omega
  obtain ⟨n, ms, rfl⟩ := List.exists_cons_of_ne_nil (List.ne_nil_of_mem hm)
  rw [render]
  simp only [List.length_append, List.length_cons]
  omega

/-- A policy that pins a key of `n` letters for another repository. -/
def keyData (n : ℕ) : Fields :=
  [("type".toList, text "signedBy"), ("keyType".toList, text "GPGKeys"),
    ("keyData".toList, .str (List.replicate n 'A'))]

def largeDocker (n : ℕ) : Fields := [("quay.io/example".toList, .arr [.obj (keyData n)])]

def largeTransports (n : ℕ) : Fields := [("docker".toList, .obj (largeDocker n))]

def large (n : ℕ) : Fields :=
  [("default".toList, reject), ("transports".toList, .obj (largeTransports n))]

theorem written_large (n : ℕ) : Written recursionLimit (.obj (large n)) := by
  simp [Written, WrittenItems, WrittenMembers, large, largeTransports, largeDocker, keyData, reject,
    object, text, recursionLimit]

theorem length_large (n : ℕ) : n < (Text.encode (render (some 2) 0
    (mergedPolicy (large n) (largeTransports n) (largeDocker n)) ++ ['\n'])).length := by
  have htransports : (render (some 2) 1 (.obj (insert "docker".toList
      (.obj (mergedScopes (largeDocker n))) (largeTransports n)))).length ≤
      (render (some 2) 0 (mergedPolicy (large n) (largeTransports n) (largeDocker n))).length :=
    @length_render_member (some 2) 0 _ _ (mem_of_find (find_insert_self "transports".toList _ _))
  have hdocker : (render (some 2) 2 (.obj (mergedScopes (largeDocker n)))).length ≤
      (render (some 2) 1 (.obj (insert "docker".toList (.obj (mergedScopes (largeDocker n)))
        (largeTransports n)))).length :=
    @length_render_member (some 2) 1 _ _ (mem_of_find (find_insert_self "docker".toList _ _))
  have hscope : find "quay.io/example".toList (largeDocker n) = some (.arr [.obj (keyData n)]) := rfl
  have hrules : (render (some 2) 3 (.arr [.obj (keyData n)])).length ≤
      (render (some 2) 2 (.obj (mergedScopes (largeDocker n)))).length :=
    @length_render_member (some 2) 2 _ _ (mem_of_find (find_mergedScopes (by decide) hscope))
  have hrule : (render (some 2) 4 (.obj (keyData n))).length ≤
      (render (some 2) 3 (.arr [.obj (keyData n)])).length := by
    have hitems : renderItems (some 2) 4 [.obj (keyData n)] = render (some 2) 4 (.obj (keyData n)) ++ [] :=
      rfl
    rw [render, hitems]
    simp only [List.length_append, List.length_cons]
    omega
  have hkey : (renderString (List.replicate n 'A')).length ≤
      (render (some 2) 4 (.obj (keyData n))).length :=
    @length_render_member (some 2) 4 (keyData n) ("keyData".toList, .str (List.replicate n 'A'))
      (by simp [keyData])
  have hstring := length_renderString (List.replicate n 'A')
  have hencode := length_encode (render (some 2) 0
    (mergedPolicy (large n) (largeTransports n) (largeDocker n)) ++ ['\n'])
  rw [List.length_replicate] at hstring
  rw [List.length_append] at hencode
  omega

/-- A policy as large as the check reads at most is merged, and not accepted afterwards,
although no scope is inside the repository. -/
theorem not_accepted_large :
    ¬∀ (root : Tree) (source : Bytes) (upstream : Option Bytes) (out : Bytes) (old : Json),
      Staged root source → install source upstream = .ok out → currentPolicy upstream = .ok old →
      (activePolicy root out = .ok () ↔ ∀ m ∈ dockerScopes old, ¬MoreSpecific m.1) := by
  intro h
  have hinstall := @install_render _ _ (large sizeLimit) (largeTransports sizeLimit)
    (largeDocker sizeLimit) staged_sampleTree (written_large sizeLimit) rfl rfl
  have hscopes : ∀ m ∈ dockerScopes (.obj (large sizeLimit)), ¬MoreSpecific m.1 := by
    intro m hm hspecific
    have hdocker : dockerScopes (.obj (large sizeLimit)) = largeDocker sizeLimit := rfl
    rw [hdocker, largeDocker, List.mem_singleton] at hm
    rw [hm, ← moreSpecific_iff] at hspecific
    revert hspecific
    decide
  have haccepted := (h _ _ _ _ _ staged_sampleTree hinstall
    (loadsUtf8_render (written_large sizeLimit))).mpr hscopes
  have hsize := (accepted_of_activePolicy haccepted).1
  have hlarge := length_large sizeLimit
  omega

end SignaturePolicy
