import BazziteTower.Ci.Refresh
import BazziteTower.Lib.Sha256

/-!
# Publication of a refresh and its channels

The publishing job of `base-refresh.yml`: the validated image is staged, signed and
attested, the signed predicate of the first channel is compared with `baseline`, and
the channels are moved to the image one after another.  The registry keeps manifests
under their digests, so a tag is what `skopeo inspect --raw` answers for it.

A job may stop at any call, also at one that took effect although its response was
lost.  What it leaves behind is described by a `Ledger`, one signed pair of versions
for every channel: no job takes a channel below its entry, and no later channel is
ahead of the first, from any start where none is.

## Main definitions

* `Registry`, `Op`, `registry` — the state and the calls of the publisher.
* `baseline`, `publish` — the comparison, and the whole job.
* `Ledger`, `Tracks`, `NotAhead` — the versions behind the channels.

## Main results

* `tracks_of_session` — the versions behind the channels never decrease.
-/

namespace Refresh

/-- A signed statement about an image, as `envelopes` decodes it. -/
structure Statement where
  predicateType : Text
  /-- Name and SHA-256 of every subject. -/
  subject : List (Text × Text)
  predicate : Json

/-- The repository at the registry, and the other services that a job asks. -/
structure Registry where
  manifests : List Bytes
  tags : String → Option Bytes
  signatures : List Text
  statements : Text → List Statement
  /-- The policy file on the main branch. -/
  mainPolicy : Bytes
  api : String → Json

/-- The digest of a manifest. -/
def digestOf (manifest : Bytes) : Text := "sha256:".toList ++ sha256 manifest

/-- The versions of a release. -/
abbrev Pair := List ℕ × List ℕ

/-- What the publisher calls. -/
inductive Op
  /-- `skopeo copy` from the archive to a tag, by the manifest in the archive. -/
  | stage (manifest : Bytes) (tag : String)
  | sign (digest : Text)
  | attest (digest kind : Text) (predicate : Json)
  | verify (digest : Text)
  | verifyAttestation (digest kind : Text)
  | inspectRaw (tag : String)
  /-- `skopeo copy` from a digest to a tag. -/
  | copy (digest : Text) (tag : String)
  | fetchPolicy
  | ghApi (route : String)

/-- What a call answers. -/
abbrev Op.Answer : Op → Type
  | .stage _ _ | .copy _ _ => Text
  | .sign _ | .attest _ _ _ | .verify _ => Unit
  | .verifyAttestation _ _ => List Statement
  | .inspectRaw _ | .fetchPolicy => Bytes
  | .ghApi _ => Json

/-- Point a tag to a manifest. -/
def Registry.move (w : Registry) (tag : String) (manifest : Bytes) : Registry :=
  { w with tags := Function.update w.tags tag (some manifest) }

/-- Add a signed statement about a digest. -/
def Registry.attest (w : Registry) (digest kind : Text) (predicate : Json) : Registry :=
  let statement : Statement := ⟨kind, [(dest.toList, digest.drop 7)], predicate⟩
  { w with statements := Function.update w.statements digest (statement :: w.statements digest) }

/-- What a call does. -/
def Op.perform : (o : Op) → Registry → Except Exn o.Answer × Registry
  | .stage manifest tag, w =>
    (.ok (digestOf manifest),
      Registry.move { w with manifests := manifest :: w.manifests } tag manifest)
  | .sign digest, w => (.ok (), { w with signatures := digest :: w.signatures })
  | .attest digest kind predicate, w => (.ok (), w.attest digest kind predicate)
  | .verify digest, w =>
    (if digest ∈ w.signatures then .ok () else .error (.raised .os "no matching signatures"), w)
  | .verifyAttestation digest kind, w =>
    (.ok ((w.statements digest).filter fun s => s.predicateType = kind), w)
  | .inspectRaw tag, w =>
    (match w.tags tag with
    | some manifest => .ok manifest
    | none => .error (.raised .os "manifest unknown"), w)
  | .copy digest tag, w =>
    match w.manifests.find? fun m => digestOf m = digest with
    | some manifest => (.ok digest, w.move tag manifest)
    | none => (.error (.raised .os "manifest unknown"), w)
  | .fetchPolicy, w => (.ok w.mainPolicy, w)
  | .ghApi route, w => (.ok (w.api route), w)

/-- The registry as a host; a failing command raises with its standard error. -/
def registry : Host Op Op.Answer Exn String Registry := ⟨Op.perform, .raised .os⟩

/-- A job of the publisher. -/
abbrev Job (α : Type) := Prog Op Op.Answer Exn α

/-- A single call. -/
abbrev ask (o : Op) : Job o.Answer := Prog.perform o

/-! ## The job -/

/-- A validated image with its proof, and the run that publishes it. -/
structure Candidate where
  profile : Profile
  /-- The manifest in the archive. -/
  manifest : Bytes
  /-- `VALIDATED_DIGEST`. -/
  digest : Text
  proof : Json
  sbom : Json
  /-- The policy file that the job was dispatched with. -/
  policy : Bytes
  runId : Text
  runNumber : Text
  runAttempt : Text

/-- `refresh-$PROFILE-$GITHUB_RUN_ID-$GITHUB_RUN_ATTEMPT`. -/
def Candidate.stagingTag (c : Candidate) : String :=
  "refresh-" ++ c.profile.name ++ "-" ++ String.ofList c.runId ++ "-" ++ String.ofList c.runAttempt

/-- A statement of this type about the image of this digest. -/
def Statement.concerns (s : Statement) (kind : String) (digest : Text) : Bool :=
  s.predicateType = kind.toList && s.subject.contains (dest.toList, digest.drop 7)

def spdx : String := "https://spdx.dev/Document"

/-- `attestations(data, verified, digest)`. -/
def attestations (c : Candidate) : Job Unit :=
  [("sbom", spdx, c.sbom), ("provenance", predicate, c.proof)].forM fun (name, kind, expected) => do
    let verified ← ask (.verifyAttestation c.digest kind.toList)
    Prog.lift (require (verified.any fun s => s.concerns kind c.digest && s.predicate.pyEq expected)
      ("signed predicate/subject substitution: " ++ name))

/-- `needle in haystack`. -/
def contains (needle haystack : Text) : Bool := haystack.tails.any needle.isPrefixOf

/-- `value.get(key) == expected` for every expected member. -/
def agrees (value : Json) (expected : List (String × Json)) : Except Exn Bool :=
  expected.foldlM (fun same m => do return same && (← value.get m.1).pyEq m.2) true

/-- `bootstrap_failure(p)`, for the reviewed recovery. -/
def bootstrapFailure : Job Unit := do
  let route := "repos/" ++ repository ++ "/actions/runs/" ++ failedRunId
  let previous ← ask (.ghApi route)
  let name ← Prog.lift do
    (← previous.get "repository").get "full_name"
  Prog.lift do
    require ((← agrees previous [("id", .int 40062419690), ("head_sha", text failedHead),
      ("path", text workflow), ("event", text "workflow_dispatch"), ("head_branch", text "main"),
      ("run_number", .int 1), ("run_attempt", .int 1), ("status", text "completed"),
      ("conclusion", text "failure")]) && name.pyEq (text repository))
      "bootstrap recovery failed-run identity/status mismatch"
  let packet ← ask (.ghApi (route ++ "/attempts/1/jobs?per_page=100"))
  Prog.lift do
    let total ← packet.get "total_count"
    match ← packet.get "jobs", total with
    | .arr jobs, .int count =>
      require (0 < count && count ≤ 100 && (jobs.length : ℤ) = count &&
        (← jobs.allM fun job => do return (← job.get "status").pyEq (text "completed")))
        "bootstrap recovery incomplete job evidence"
      let publishers ← jobs.filterM fun job => do
        let name ← job.get "name"
        return name.pyEq (text "publish-legacy") || name.pyEq (text "publish-system")
      let names ← publishers.mapM (Json.get "name")
      require (publishers.length = 2 && names.any (·.pyEq (text "publish-legacy")) &&
        names.any (·.pyEq (text "publish-system")) &&
        (← publishers.allM fun job => do return (← job.get "conclusion").pyEq (text "skipped")))
        "bootstrap recovery publication was not conclusively skipped"
    | _, _ => throw (.raised .value "bootstrap recovery incomplete job evidence")

/-- The reviewed recovery of a missing channel. -/
def recovery (c : Candidate) (error : Exn) : Job Unit := do
  Prog.lift (require (c.profile.allowMissing && c.runNumber = bootstrapRun.toList &&
    c.runAttempt = ['1'] &&
    contains "manifest unknown".toList (error.text.toList.map Char.toLower))
    ("cannot establish signed channel baseline; reviewed missing-tag recovery requires " ++
      "workflow run2 and first attempt"))
  bootstrapFailure

/-- The statements that `baseline` compares with. -/
def signedBaseline (statements : List Statement) (digest : Text) : List Json :=
  (statements.filter fun s => s.concerns predicate digest).map Statement.predicate

/-- `baseline(root, data, profile, trust_root)`. -/
def baseline (c : Candidate) : Job Unit := do
  let channel := c.profile.first
  let result ← Prog.recover (do return Except.ok (← ask (.inspectRaw channel)))
    fun error => pure (.error error)
  match result with
  | .error error => recovery c error
  | .ok raw =>
    let current := digestOf raw
    ask (.verify current)
    if c.profile.bootstrapDigest.map String.toList = some current then pure () else
      let verified ← ask (.verifyAttestation current predicate.toList)
      let values := signedBaseline verified current
      Prog.lift (require (!values.isEmpty) "no destination-bound signed refresh baseline")
      values.forM fun previous => Prog.lift (monotonic c.proof previous)

/-- Move one channel and look where it points. -/
def moveChannel (c : Candidate) (tag : String) : Job Unit := do
  let copied ← ask (.copy c.digest tag)
  Prog.lift (require (copied = c.digest) "digest mismatch")
  let raw ← ask (.inspectRaw tag)
  Prog.lift (require (digestOf raw = c.digest) "digest mismatch")

/-- The steps of the publishing job that reach the registry. -/
def publish (c : Candidate) : Job Unit := do
  let staged ← ask (.stage c.manifest c.stagingTag)
  Prog.lift (require (staged = c.digest) "digest mismatch")
  ask (.sign c.digest)
  ask (.attest c.digest spdx.toList c.sbom)
  ask (.attest c.digest predicate.toList c.proof)
  ask (.verify c.digest)
  attestations c
  baseline c
  let current ← ask .fetchPolicy
  Prog.lift (require (current = c.policy) "stale main policy: pointers must not move")
  c.profile.channels.forM (moveChannel c)

/-! ## The versions behind the channels -/

/-- One pair of versions for every channel. -/
abbrev Ledger := String → Pair

/-- The pairs that are signed for a digest. -/
def Registry.pairs (w : Registry) (digest : Text) : List Pair :=
  (signedBaseline (w.statements digest) digest).filterMap fun s => (pairOf s).toOption

/-- The pair of every channel is signed for the image behind it, which is not the
reviewed bootstrap image. -/
def Tracks (p : Profile) (w : Registry) (a : Ledger) : Prop :=
  ∀ channel ∈ p.channels, ∃ manifest, w.tags channel = some manifest ∧
    a channel ∈ w.pairs (digestOf manifest) ∧
    p.bootstrapDigest.map String.toList ≠ some (digestOf manifest)

/-- No channel is ahead of the first one, which `baseline` compares with. -/
def NotAhead (p : Profile) (a : Ledger) : Prop :=
  ∀ channel ∈ p.channels, a channel ≤ a p.first

/-- Jobs of other profiles move other tags and sign further statements. -/
def Elsewhere (p : Profile) (w w' : Registry) : Prop :=
  (∀ channel ∈ p.channels, w'.tags channel = w.tags channel) ∧
    ∀ digest, w.statements digest ⊆ w'.statements digest

/-- A sound registry never says of a tag it has that its manifest is unknown. -/
def Sound (p : Profile) (o : Op) (c : Choice String Registry) (w : Registry) : Prop :=
  Elsewhere p w (c.interfere w) ∧ ∀ tag message, o = .inspectRaw tag →
    c.fault = .before message ∨ c.fault = .after message →
    contains "manifest unknown".toList (message.toList.map Char.toLower) = false

/-- A job of this profile under sound choices; the bootstrap image is left out. -/
def Admits (p : Profile) (c : Candidate) (cs : List (Choice String Registry)) (w : Registry) : Prop :=
  c.profile = p ∧ p.bootstrapDigest.map String.toList ≠ some c.digest ∧
    ∀ s ∈ (publish c).steps registry cs w, Sound p s.op s.choice s.world

theorem Elsewhere.refl (p : Profile) (w : Registry) : Elsewhere p w w :=
  ⟨fun _ _ => rfl, fun _ => List.Subset.refl _⟩

theorem mem_pairs {w : Registry} {digest : Text} {q : Pair} :
    q ∈ w.pairs digest ↔ ∃ s ∈ w.statements digest, s.concerns predicate digest ∧
      pairOf s.predicate = .ok q := by
  simp only [Registry.pairs, signedBaseline, List.mem_filterMap, List.mem_map, List.mem_filter]
  constructor
  · rintro ⟨_, ⟨s, ⟨hs, hc⟩, rfl⟩, hq⟩
    refine ⟨s, hs, hc, ?_⟩
    cases hp : pairOf s.predicate <;> simp_all [Except.toOption]
  · rintro ⟨s, hs, hc, hq⟩
    exact ⟨_, ⟨s, ⟨hs, hc⟩, rfl⟩, by simp [hq, Except.toOption]⟩

theorem Tracks.elsewhere {p : Profile} {w w' : Registry} {a : Ledger} (h : Tracks p w a)
    (hw : Elsewhere p w w') : Tracks p w' a := by
  intro channel hc
  obtain ⟨manifest, htag, hpair, hdigest⟩ := h channel hc
  obtain ⟨s, hs, hconcerns, hq⟩ := mem_pairs.mp hpair
  exact ⟨manifest, (hw.1 channel hc).trans htag, mem_pairs.mpr ⟨s, hw.2 _ hs, hconcerns, hq⟩, hdigest⟩

/-- A ledger that is nowhere below `a₀` and in which no channel is ahead. -/
structure Upholds (p : Profile) (a₀ : Ledger) (w : Registry) (a : Ledger) : Prop where
  tracks : Tracks p w a
  notAhead : NotAhead p a
  raised : ∀ channel ∈ p.channels, a₀ channel ≤ a channel

/-- What every call keeps. -/
def Upheld (p : Profile) (a₀ : Ledger) (w : Registry) : Prop := ∃ a, Upholds p a₀ w a

/-- An assertion that the environment keeps. -/
def Stable (p : Profile) (P : Registry → Prop) : Prop := ∀ w w', Elsewhere p w w' → P w → P w'

theorem stable_upheld (p : Profile) (a₀ : Ledger) : Stable p (Upheld p a₀) :=
  fun _ _ hw ⟨a, ha⟩ => ⟨a, ha.tracks.elsewhere hw, ha.notAhead, ha.raised⟩

theorem Stable.and {p : Profile} {P Q : Registry → Prop} (hP : Stable p P) (hQ : Stable p Q) :
    Stable p fun w => P w ∧ Q w :=
  fun w w' hw h => ⟨hP w w' hw h.1, hQ w w' hw h.2⟩

/-- The candidate's proof is signed for its digest. -/
def Attested (c : Candidate) (w : Registry) : Prop :=
  ⟨predicate.toList, [(dest.toList, c.digest.drop 7)], c.proof⟩ ∈ w.statements c.digest

theorem stable_attested (p : Profile) (c : Candidate) : Stable p (Attested c) :=
  fun _ _ hw h => hw.2 _ h

theorem Attested.mem_pairs {c : Candidate} {w : Registry} {q : Pair} (h : Attested c w)
    (hq : pairOf c.proof = .ok q) : q ∈ w.pairs c.digest :=
  Refresh.mem_pairs.mpr ⟨_, h, by simp [Statement.concerns], hq⟩

/-! ## The calls -/

section Calls
variable (p : Profile) (a₀ : Ledger)

/-- The weakest precondition of a job; every call keeps what is upheld. -/
def Does {α : Type} (job : Job α) (Q : Except Exn α → Registry → Prop) (w : Registry) : Prop :=
  job.wp registry (Sound p) (fun w w' => Upheld p a₀ w → Upheld p a₀ w') Q w

/-- A call that moves no channel. -/
def Op.Aside : Op → Prop
  | .stage _ tag | .copy _ tag => tag ∉ p.channels
  | _ => True

variable {p a₀}

theorem elsewhere_move {w : Registry} {tag : String} {manifest : Bytes} (h : tag ∉ p.channels) :
    Elsewhere p w (w.move tag manifest) := by
  refine ⟨fun channel hc => ?_, fun _ => List.Subset.refl _⟩
  have hne : channel ≠ tag := fun he => h (he ▸ hc)
  simp [Registry.move, Function.update_of_ne hne]

theorem elsewhere_attest {w : Registry} {digest kind : Text} {value : Json} :
    Elsewhere p w (w.attest digest kind value) := by
  refine ⟨fun _ _ => rfl, fun d => ?_⟩
  by_cases hd : d = digest
  · subst hd
    simp [Registry.attest]
  · simp [Registry.attest, Function.update_of_ne hd]

theorem elsewhere_perform {o : Op} (ho : o.Aside p) (w : Registry) :
    Elsewhere p w (o.perform w).2 := by
  cases o with
  | stage manifest tag => exact elsewhere_move (w := { w with manifests := manifest :: w.manifests }) ho
  | copy digest tag =>
    rw [Op.perform]
    split
    · exact elsewhere_move ho
    · exact .refl p w
  | attest digest kind value => exact elsewhere_attest
  | sign digest => exact ⟨fun _ _ => rfl, fun _ => List.Subset.refl _⟩
  | _ => exact .refl p w

/-- A call that moves no channel keeps what the environment keeps, and its answer is
the one of a state in between. -/
theorem does_ask {P : Registry → Prop} (hP : Stable p P) {o : Op} (ho : o.Aside p) {w : Registry}
    (hw : P w) : Does p a₀ (ask o)
      (fun r v => P v ∧ ∀ b, r = .ok b → ∃ u, P u ∧ o.perform u = (.ok b, v)) w := by
  refine Prog.wp_call (fun _ => id) fun c hc => ?_
  have hv : P (c.interfere w) := hP _ _ hc.1 hw
  have hstep := elsewhere_perform ho (c.interfere w)
  have hdone : P (o.perform (c.interfere w)).2 := hP _ _ hstep hv
  refine ⟨fun e => ⟨hv, nofun⟩, stable_upheld p a₀ _ _ hstep, fun e => ⟨hdone, nofun⟩, hdone, ?_⟩
  exact fun b hb => ⟨_, hv, Prod.ext hb rfl⟩

/-- A call whose answer does not matter. -/
theorem does_ask' {P : Registry → Prop} (hP : Stable p P) {o : Op} (ho : o.Aside p) {w : Registry}
    (hw : P w) : Does p a₀ (ask o) (fun _ v => P v) w :=
  Prog.wp_mono (does_ask hP ho hw) fun _ _ h => h.1

theorem does_bind {α β : Type} {job : Job α} {f : α → Job β} {Q : Except Exn β → Registry → Prop}
    {w : Registry} {P : Except Exn α → Registry → Prop} (hjob : Does p a₀ job P w)
    (hok : ∀ b v, P (.ok b) v → Does p a₀ (f b) Q v) (herr : ∀ e v, P (.error e) v → Q (.error e) v) :
    Does p a₀ (job >>= f) Q w :=
  Prog.wp_bind hjob hok herr

/-- A check that makes no call. -/
theorem does_lift_bind {α β : Type} {r : Except Exn α} {f : α → Job β}
    {Q : Except Exn β → Registry → Prop} {w : Registry}
    (hok : ∀ b, r = .ok b → Does p a₀ (f b) Q w) (herr : ∀ e, r = .error e → Q (.error e) w) :
    Does p a₀ (Prog.lift r >>= f) Q w := by
  cases r with
  | ok b => exact hok b rfl
  | error e => exact herr e rfl

/-- A call and a check of its answer. -/
theorem does_ask_lift {α : Type} {P : Registry → Prop} (hP : Stable p P) {o : Op} (ho : o.Aside p)
    {f : o.Answer → Except Exn α} {w : Registry} (hw : P w) :
    Does p a₀ (ask o >>= fun b => Prog.lift (f b)) (fun _ v => P v) w :=
  does_bind (does_ask' hP ho hw) (fun _ _ hv => hv) fun _ _ hv => hv

/-- Checks of all items, without a call. -/
theorem does_forM_lift {α : Type} {xs : List α} {f : α → Except Exn Unit} {w : Registry} :
    Does p a₀ (xs.forM fun x => Prog.lift (f x))
      (fun r v => v = w ∧ (r = .ok () → ∀ x ∈ xs, f x = .ok ())) w := by
  induction xs with
  | nil => exact ⟨rfl, fun _ => by simp⟩
  | cons x xs ih =>
    refine does_lift_bind (fun _ hx => ?_) fun e _ => ⟨rfl, nofun⟩
    refine Prog.wp_mono ih fun r v h => ⟨h.1, fun hr y hy => ?_⟩
    rcases List.mem_cons.mp hy with rfl | hy
    · exact hx
    · exact h.2 hr y hy

end Calls

/-! ## The comparison -/

section Publish
variable {p : Profile} {a₀ : Ledger} {c : Candidate}

/-- What every call of a job keeps once its proof is signed. -/
def Signed (p : Profile) (a₀ : Ledger) (c : Candidate) (w : Registry) : Prop :=
  Upheld p a₀ w ∧ Attested c w

theorem stable_signed : Stable p (Signed p a₀ c) :=
  (stable_upheld p a₀).and (stable_attested p c)

/-- The proof passed the comparison: no channel is ahead of it. -/
def Cleared (p : Profile) (a₀ : Ledger) (c : Candidate) (w : Registry) : Prop :=
  Attested c w ∧ ∃ new a, pairOf c.proof = .ok new ∧ Upholds p a₀ w a ∧
    ∀ channel ∈ p.channels, a channel ≤ new

theorem stable_cleared : Stable p (Cleared p a₀ c) := fun _ _ hw ⟨hs, new, a, hnew, ha, hle⟩ =>
  ⟨stable_attested p c _ _ hw hs, new, a, hnew, ⟨ha.tracks.elsewhere hw, ha.notAhead, ha.raised⟩, hle⟩

theorem Cleared.signed {w : Registry} (h : Cleared p a₀ c w) : Signed p a₀ c w :=
  ⟨⟨_, h.2.choose_spec.choose_spec.2.1⟩, h.1⟩

theorem first_mem_channels (p : Profile) : p.first ∈ p.channels := by
  cases p <;> decide

theorem Upheld.exists_first {w : Registry} (h : Upheld p a₀ w) :
    ∃ manifest, w.tags p.first = some manifest := by
  obtain ⟨a, ha⟩ := h
  obtain ⟨manifest, htag, -⟩ := ha.tracks _ (first_mem_channels p)
  exact ⟨manifest, htag⟩

/-- The baseline is what is signed for the first channel, whatever else is signed. -/
theorem signedBaseline_filter (statements : List Statement) (digest : Text) :
    signedBaseline (statements.filter fun s => s.predicateType = predicate.toList) digest =
      signedBaseline statements digest := by
  have hand (s : Statement) : (s.concerns predicate digest &&
      decide (s.predicateType = predicate.toList)) = s.concerns predicate digest := by
    by_cases h : s.predicateType = predicate.toList <;> simp [Statement.concerns, h]
  simp only [signedBaseline, List.filter_filter, hand]

/-- A proof that is not below anything signed for the first channel is not below any
channel. -/
theorem cleared_of_monotonic {w : Registry} {manifest : Bytes} (hw : Signed p a₀ c w)
    (htag : w.tags p.first = some manifest)
    (h : ∀ previous ∈ signedBaseline (w.statements (digestOf manifest)) (digestOf manifest),
      monotonic c.proof previous = .ok ()) : Cleared p a₀ c w := by
  obtain ⟨⟨a, ha⟩, hs⟩ := hw
  obtain ⟨_, htag', hpair, -⟩ := ha.tracks _ (first_mem_channels p)
  obtain rfl : manifest = _ := Option.some.inj (htag.symm.trans htag')
  simp only [Registry.pairs, List.mem_filterMap] at hpair
  obtain ⟨previous, hprevious, hq⟩ := hpair
  obtain ⟨old, new, hold, hnew, hle⟩ := pairOf_le_of_monotonic (h previous hprevious)
  obtain rfl : old = a p.first := by simpa [hold, Except.toOption] using hq
  exact ⟨hs, new, a, hnew, ha, fun channel hc => (ha.notAhead channel hc).trans hle⟩

theorem does_recovery {e : Exn} {w : Registry} (hw : Signed p a₀ c w)
    (he : contains "manifest unknown".toList (e.text.toList.map Char.toLower) = false) :
    Does p a₀ (recovery c e) (fun r v => Signed p a₀ c v ∧ (r = .ok () → Cleared p a₀ c v)) w := by
  refine does_lift_bind (fun _ h => ?_) fun e _ => ⟨hw, nofun⟩
  rw [require_eq_ok, he] at h
  simp at h

/-- The comparison with what is signed for the manifest that the first channel had. -/
theorem does_compare {w : Registry} {manifest : Bytes} (hw : Signed p a₀ c w)
    (htag : w.tags p.first = some manifest) :
    Does p a₀ (do
        ask (.verify (digestOf manifest))
        if p.bootstrapDigest.map String.toList = some (digestOf manifest) then pure () else
          let verified ← ask (.verifyAttestation (digestOf manifest) predicate.toList)
          let values := signedBaseline verified (digestOf manifest)
          Prog.lift (require (!values.isEmpty) "no destination-bound signed refresh baseline")
          values.forM fun previous => Prog.lift (monotonic c.proof previous))
      (fun r v => Signed p a₀ c v ∧ (r = .ok () → Cleared p a₀ c v)) w := by
  have hstable : Stable p fun v => Signed p a₀ c v ∧ v.tags p.first = some manifest :=
    stable_signed.and fun _ _ hw h => (hw.1 _ (first_mem_channels p)).trans h
  refine does_bind (does_ask' hstable (o := .verify _) trivial ⟨hw, htag⟩) (fun _ v hv => ?_)
    fun _ _ h => ⟨h.1, nofun⟩
  rw [if_neg ?_]
  · refine does_bind (does_ask hstable (o := .verifyAttestation _ _) trivial hv)
      (fun verified v h => ?_) fun _ _ h => ⟨h.1.1, nofun⟩
    obtain ⟨⟨hs, htag⟩, hanswer⟩ := h
    obtain ⟨u, -, hu⟩ := hanswer _ rfl
    obtain ⟨rfl, rfl⟩ : (u.statements (digestOf manifest)).filter
        (fun s => s.predicateType = predicate.toList) = verified ∧ u = v := by
      simpa [Op.perform] using hu
    refine does_lift_bind (fun _ _ => ?_) fun e _ => ⟨hs, nofun⟩
    refine Prog.wp_mono does_forM_lift fun r v' h => ?_
    obtain ⟨rfl, hall⟩ := h
    refine ⟨hs, fun hr => cleared_of_monotonic hs htag ?_⟩
    rw [← signedBaseline_filter]
    exact hall hr
  · obtain ⟨a, ha⟩ := hv.1.1
    obtain ⟨_, htag', -, hdigest⟩ := ha.tracks _ (first_mem_channels p)
    rw [hv.2] at htag'
    rwa [Option.some.inj htag']

/-- The inspection of the first channel finds its manifest, or fails without the word
that the recovery looks for. -/
theorem does_inspect {w : Registry} (hw : Signed p a₀ c w) :
    Does p a₀ (Prog.recover (do return Except.ok (← ask (.inspectRaw p.first)))
        fun error => pure (.error error))
      (fun r v => Signed p a₀ c v ∧ ∃ b, r = .ok b ∧
        (∀ e, b = .error e →
          contains "manifest unknown".toList (e.text.toList.map Char.toLower) = false) ∧
        ∀ m, b = .ok m → v.tags p.first = some m) w := by
  intro choice hc
  have hv : Signed p a₀ c (choice.interfere w) := stable_signed _ _ hc.1 hw
  obtain ⟨manifest, htag⟩ := hv.1.exists_first
  have hperform : registry.perform (.inspectRaw p.first) (choice.interfere w) =
      (.ok manifest, choice.interfere w) := by
    simp [registry, Op.perform, htag]
  unfold Host.act
  cases hf : choice.fault with
  | none =>
    rw [hperform]
    exact ⟨id, hv, _, rfl, nofun, fun m hm => by rw [htag, Except.ok.inj hm]⟩
  | before message =>
    refine ⟨id, hv, _, rfl, fun e he => ?_, nofun⟩
    obtain rfl : Exn.raised .os message = e := Except.error.inj he
    exact hc.2 _ _ rfl (.inl hf)
  | after message =>
    rw [hperform]
    refine ⟨id, hv, _, rfl, fun e he => ?_, nofun⟩
    obtain rfl : Exn.raised .os message = e := Except.error.inj he
    exact hc.2 _ _ rfl (.inr hf)

/-- `baseline` returns only if no channel is ahead of the proof. -/
theorem does_baseline {w : Registry} (hp : c.profile = p) (hw : Signed p a₀ c w) :
    Does p a₀ (baseline c) (fun r v => Signed p a₀ c v ∧ (r = .ok () → Cleared p a₀ c v)) w := by
  rw [baseline, hp]
  refine does_bind (does_inspect hw) (fun b v ⟨hv, _, hb, herror, hok⟩ => ?_) fun e v h => ?_
  · obtain rfl := Except.ok.inj hb
    cases b with
    | error e => exact does_recovery hv (herror e rfl)
    | ok manifest => exact does_compare hv (hok manifest rfl)
  · obtain ⟨_, _, hb, -⟩ := h
    cases hb

/-! ## The moves -/

/-- The proof passed the comparison, and the channel is the first one or the first one
is already at the candidate's versions. -/
def Ready (p : Profile) (a₀ : Ledger) (c : Candidate) (tag : String) (w : Registry) : Prop :=
  Attested c w ∧ ∃ new a, pairOf c.proof = .ok new ∧ Upholds p a₀ w a ∧
    (∀ channel ∈ p.channels, a channel ≤ new) ∧ (tag = p.first ∨ a p.first = new)

/-- The first channel is at the candidate's versions. -/
def Moved (p : Profile) (a₀ : Ledger) (c : Candidate) (w : Registry) : Prop :=
  Attested c w ∧ ∃ new a, pairOf c.proof = .ok new ∧ Upholds p a₀ w a ∧
    (∀ channel ∈ p.channels, a channel ≤ new) ∧ a p.first = new

theorem Moved.ready {w : Registry} (h : Moved p a₀ c w) (tag : String) : Ready p a₀ c tag w :=
  let ⟨hs, new, a, hnew, ha, hle, hfirst⟩ := h
  ⟨hs, new, a, hnew, ha, hle, .inr hfirst⟩

theorem Ready.upheld {w : Registry} {tag : String} (h : Ready p a₀ c tag w) : Upheld p a₀ w :=
  let ⟨_, _, a, _, ha, _⟩ := h
  ⟨a, ha⟩

theorem Moved.upheld {w : Registry} (h : Moved p a₀ c w) : Upheld p a₀ w := (h.ready "").upheld

theorem stable_ready {tag : String} : Stable p (Ready p a₀ c tag) :=
  fun _ _ hw ⟨hs, new, a, hnew, ha, hrest⟩ => ⟨stable_attested p c _ _ hw hs, new, a, hnew,
    ⟨ha.tracks.elsewhere hw, ha.notAhead, ha.raised⟩, hrest⟩

theorem stable_moved : Stable p (Moved p a₀ c) :=
  fun _ _ hw ⟨hs, new, a, hnew, ha, hrest⟩ => ⟨stable_attested p c _ _ hw hs, new, a, hnew,
    ⟨ha.tracks.elsewhere hw, ha.notAhead, ha.raised⟩, hrest⟩

/-- A channel that is moved to the candidate takes the candidate's versions, which are
not below any channel's. -/
theorem moved_move {w : Registry} {tag : String} {manifest : Bytes} (hw : Ready p a₀ c tag w)
    (htag : tag ∈ p.channels) (hm : digestOf manifest = c.digest)
    (hdigest : p.bootstrapDigest.map String.toList ≠ some c.digest) :
    Moved p a₀ c (w.move tag manifest) := by
  obtain ⟨hs, new, a, hnew, ha, hle, hfirst⟩ := hw
  have hbelow (channel : String) (hc : channel ∈ p.channels) :
      a channel ≤ Function.update a tag new channel := by
    by_cases h : channel = tag
    · subst h
      simpa using hle channel hc
    · simp [Function.update_of_ne h]
  have hnewFirst : Function.update a tag new p.first = new := by
    by_cases h : p.first = tag
    · simp [h]
    · rw [Function.update_of_ne h]
      exact hfirst.resolve_left (Ne.symm h)
  have hleNew (channel : String) (hc : channel ∈ p.channels) :
      Function.update a tag new channel ≤ new := by
    by_cases h : channel = tag
    · simp [h]
    · simpa [Function.update_of_ne h] using hle channel hc
  refine ⟨hs, new, Function.update a tag new, hnew, ⟨fun channel hc => ?_, fun channel hc => ?_,
    fun channel hc => (ha.raised channel hc).trans (hbelow channel hc)⟩, hleNew, hnewFirst⟩
  · by_cases h : channel = tag
    · subst h
      refine ⟨manifest, by simp [Registry.move], ?_, hm ▸ hdigest⟩
      rw [hm, Function.update_self]
      exact hs.mem_pairs hnew
    · obtain ⟨m, hmtag, hpair, hne⟩ := ha.tracks channel hc
      refine ⟨m, by simpa [Registry.move, Function.update_of_ne h] using hmtag, ?_, hne⟩
      rw [Function.update_of_ne h]
      exact hpair
  · rw [hnewFirst]
    exact hleNew channel hc

/-- One move: a call that fails leaves the channel where it was or takes it to the
candidate. -/
theorem does_moveChannel {w : Registry} {tag : String} (hw : Ready p a₀ c tag w)
    (htag : tag ∈ p.channels) (hdigest : p.bootstrapDigest.map String.toList ≠ some c.digest) :
    Does p a₀ (moveChannel c tag) (fun r v => Upheld p a₀ v ∧ (r = .ok () → Moved p a₀ c v)) w := by
  refine does_bind (P := fun r v => Upheld p a₀ v ∧ ∀ b, r = .ok b → Moved p a₀ c v) ?_
    (fun _ v hv => ?_) fun _ _ h => ⟨h.1, nofun⟩
  · refine Prog.wp_call (fun _ => id) fun choice hc => ?_
    have hv : Ready p a₀ c tag (choice.interfere w) := stable_ready _ _ hc.1 hw
    cases hfind : (choice.interfere w).manifests.find? fun m => digestOf m = c.digest with
    | none =>
      have hperform : registry.perform (.copy c.digest tag) (choice.interfere w) =
          (.error (.raised .os "manifest unknown"), choice.interfere w) := by
        simp [registry, Op.perform, hfind]
      dsimp only
      rw [hperform]
      exact ⟨fun _ => ⟨hv.upheld, nofun⟩, id, fun _ => ⟨hv.upheld, nofun⟩, hv.upheld, nofun⟩
    | some manifest =>
      have hmoved := moved_move hv htag (by simpa using List.find?_some hfind) hdigest
      have hperform : registry.perform (.copy c.digest tag) (choice.interfere w) =
          (.ok c.digest, (choice.interfere w).move tag manifest) := by
        simp [registry, Op.perform, hfind]
      dsimp only
      rw [hperform]
      exact ⟨fun _ => ⟨hv.upheld, nofun⟩, fun _ => hmoved.upheld, fun _ => ⟨hmoved.upheld, nofun⟩,
        hmoved.upheld, fun _ _ => hmoved⟩
  · refine does_lift_bind (fun _ _ => ?_) fun _ _ => ⟨hv.1, nofun⟩
    refine does_bind (does_ask' stable_moved (o := .inspectRaw _) trivial (hv.2 _ rfl))
      (fun _ v hv => ?_) fun _ _ h => ⟨h.upheld, nofun⟩
    exact ⟨hv.upheld, fun _ => hv⟩

/-- The moves of all channels behind one that is ready. -/
theorem does_moves (hdigest : p.bootstrapDigest.map String.toList ≠ some c.digest)
    {tags : List String} (htags : ∀ tag ∈ tags, tag ∈ p.channels) {w : Registry} (hw : Upheld p a₀ w)
    (hhead : ∀ tag ∈ tags.head?, Ready p a₀ c tag w) :
    Does p a₀ (tags.forM (moveChannel c)) (fun _ _ => True) w := by
  induction tags generalizing w with
  | nil => trivial
  | cons tag tags ih =>
    have hmove := does_moveChannel (hhead tag rfl) (htags tag (by simp)) hdigest
    refine does_bind hmove (fun _ v hv => ?_) fun _ _ _ => trivial
    exact ih (fun t ht => htags t (by simp [ht])) hv.1 fun t _ => (hv.2 rfl).ready t

/-! ## The whole job -/

theorem stagingTag_aside (c : Candidate) (p : Profile) : c.stagingTag ∉ p.channels := by
  have hhead : c.stagingTag.toList.head? = some 'r' := by simp [Candidate.stagingTag]
  intro h
  have hall : ∀ channel ∈ p.channels, channel.toList.head? ≠ some 'r' := by cases p <;> decide
  exact hall _ h hhead

theorem does_attestations {w : Registry} (hw : Signed p a₀ c w) :
    Does p a₀ (attestations c) (fun _ v => Signed p a₀ c v) w := by
  refine does_bind (does_ask_lift stable_signed (o := .verifyAttestation _ _) trivial hw)
    (fun _ v hv => ?_) fun _ _ h => h
  exact does_bind (does_ask_lift stable_signed (o := .verifyAttestation _ _) trivial hv)
    (fun _ _ hv => hv) fun _ _ h => h

/-- The attestation of the proof signs it for the candidate's digest. -/
theorem does_attest {w : Registry} (hw : Upheld p a₀ w) :
    Does p a₀ (ask (.attest c.digest predicate.toList c.proof))
      (fun r v => Upheld p a₀ v ∧ ∀ b, r = .ok b → Signed p a₀ c v) w := by
  refine Prog.wp_mono (does_ask (stable_upheld p a₀) (o := .attest _ _ _) trivial hw)
    fun r v h => ⟨h.1, fun b hb => ?_⟩
  obtain ⟨u, -, hu⟩ := h.2 b hb
  obtain rfl : u.attest c.digest predicate.toList c.proof = v := congrArg Prod.snd hu
  exact ⟨h.1, by simp [Attested, Registry.attest]⟩

theorem does_publish {w : Registry} (hp : c.profile = p)
    (hdigest : p.bootstrapDigest.map String.toList ≠ some c.digest) (hw : Upheld p a₀ w) :
    Does p a₀ (publish c) (fun _ _ => True) w := by
  have hupheld := stable_upheld p a₀
  rw [publish, hp]
  refine does_bind (does_ask' hupheld (o := .stage _ _) (stagingTag_aside c p) hw)
    (fun _ v hv => ?_) fun _ _ _ => trivial
  refine does_lift_bind (fun _ _ => ?_) fun _ _ => trivial
  refine does_bind (does_ask' hupheld (o := .sign _) trivial hv) (fun _ v hv => ?_) fun _ _ _ => trivial
  refine does_bind (does_ask' hupheld (o := .attest _ _ _) trivial hv) (fun _ v hv => ?_)
    fun _ _ _ => trivial
  refine does_bind (does_attest hv) (fun _ v hv => ?_) fun _ _ _ => trivial
  refine does_bind (does_ask' stable_signed (o := .verify _) trivial (hv.2 _ rfl)) (fun _ v hv => ?_)
    fun _ _ _ => trivial
  refine does_bind (does_attestations hv) (fun _ v hv => ?_) fun _ _ _ => trivial
  refine does_bind (does_baseline hp hv) (fun _ v hv => ?_) fun _ _ _ => trivial
  refine does_bind (does_ask' stable_cleared (o := .fetchPolicy) trivial (hv.2 rfl))
    (fun _ v hv => ?_) fun _ _ _ => trivial
  refine does_lift_bind (fun _ _ => ?_) fun _ _ => trivial
  refine does_moves hdigest (fun _ ht => ht) hv.signed.1 fun tag ht => ?_
  obtain ⟨hs, new, a, hnew, ha, hle⟩ := hv
  refine ⟨hs, new, a, hnew, ha, hle, .inl ?_⟩
  cases p <;> simpa [Profile.channels, Profile.first] using ht.symm

end Publish

/-- **Channels only rise.**  From any registry whose channels carry signed versions,
none ahead of the first channel, every sequence of jobs of the profile, each cut short
or struck anywhere, leaves signed versions behind every channel that are not below the
ones it started with, and none ahead of the first channel. -/
theorem tracks_of_session {p : Profile} {w₀ w : Registry} {a₀ : Ledger} (h₀ : Tracks p w₀ a₀)
    (hahead : NotAhead p a₀)
    (hw : Session registry publish (Admits p) (Elsewhere p) w₀ w) :
    ∃ a, Tracks p w a ∧ NotAhead p a ∧ ∀ channel ∈ p.channels, a₀ channel ≤ a channel := by
  have hupheld : Upheld p a₀ w := by
    refine hw.invariant (fun c cs v hadmits hv => ?_) (stable_upheld p a₀)
      ⟨a₀, h₀, hahead, fun _ _ => le_rfl⟩
    have hdoes := does_publish hadmits.1 hadmits.2.1 hv
    exact (Prog.wp_run (fun _ _ _ hc => stable_upheld p a₀ _ _ hc.1) (fun _ _ h => h) hdoes
      hadmits.2.2 hv).1
  obtain ⟨a, ha⟩ := hupheld
  exact ⟨a, ha.tracks, ha.notAhead, ha.raised⟩

/-! ## Samples -/

/-- The predicate of a release of the legacy product. -/
def released (version kernel : String) : Json :=
  object [("kind", text "accepted-source-base-refresh"), ("repository", text repository),
    ("workflow", text workflow), ("ref", text mainRef), ("profile", text "legacy"),
    ("baseVersion", text version), ("kernel", text kernel)]

/-- Releases in their order, each with a manifest of one byte. -/
def release : UInt8 → Json
  | 1 => released "44.20260110" "7.1.3-ogc2.1.fc44"
  | 2 => released "44.20260115" "7.1.3-ogc2.1.fc44"
  | _ => released "44.20260120" "7.1.4-ogc1.1.fc44"

/-- A registry with three signed releases, whose legacy channels point to two of them. -/
def sampleRegistry (stable latest : UInt8) : Registry where
  manifests := [[1], [2], [3]]
  tags tag := if tag = "stable" then some [stable] else if tag = "latest" then some [latest] else none
  signatures := [digestOf [1], digestOf [2], digestOf [3]]
  statements digest := ([1, 2, 3].filter fun n : UInt8 => digestOf [n] = digest).map fun n =>
    ⟨predicate.toList, [(dest.toList, digest.drop 7)], release n⟩
  mainPolicy := []
  api _ := .null

/-- The job that publishes one of these releases. -/
def sampleCandidate (n : UInt8) : Candidate where
  profile := .legacy
  manifest := [n]
  digest := digestOf [n]
  proof := release n
  sbom := .null
  policy := []
  runId := "7".toList
  runNumber := "3".toList
  runAttempt := "1".toList

/-- That job, undisturbed. -/
def sampleRun (stable latest n : UInt8) : Option (Except Exn Unit) × Registry :=
  (publish (sampleCandidate n)).run registry (List.replicate 30 .calm) (sampleRegistry stable latest)

theorem sound_calm (p : Profile) (o : Op) (w : Registry) : Sound p o .calm w :=
  ⟨.refl p w, fun _ _ _ h => by rcases h with h | h <;> cases h⟩

/-- An undisturbed job is admitted. -/
theorem admits_calm {p : Profile} {c : Candidate} (hp : c.profile = p)
    (hdigest : p.bootstrapDigest.map String.toList ≠ some c.digest) (n : ℕ) (w : Registry) :
    Admits p c (List.replicate n .calm) w := by
  refine ⟨hp, hdigest, fun s hs => ?_⟩
  rw [List.eq_of_mem_replicate (Prog.choice_mem_of_mem_steps registry hs)]
  exact sound_calm p _ _

/-- The legacy product has no bootstrap image. -/
theorem no_bootstrap (digest : Text) :
    (Profile.bootstrapDigest .legacy).map String.toList ≠ some digest := by
  intro h
  cases h

theorem admits_sampleRun (stable latest n : UInt8) : Admits .legacy (sampleCandidate n)
    (List.replicate 30 .calm) (sampleRegistry stable latest) :=
  admits_calm rfl (no_bootstrap _) 30 _

theorem session_sampleRun (stable latest n : UInt8) :
    Session registry publish (Admits .legacy) (Elsewhere .legacy) (sampleRegistry stable latest)
      (sampleRun stable latest n).2 :=
  .run _ _ .start (admits_sampleRun stable latest n)

def samplePair (n : UInt8) : Pair :=
  match pairOf (release n) with
  | .ok q => q
  | .error _ => ([], [])

theorem tracks_sampleRegistry {stable latest : UInt8} (hs : stable ∈ [1, 2, 3])
    (hl : latest ∈ [1, 2, 3]) : Tracks .legacy (sampleRegistry stable latest)
      fun channel => samplePair (if channel = "stable" then stable else latest) := by
  have hpairs : ∀ n ∈ ([1, 2, 3] : List UInt8),
      samplePair n ∈ (sampleRegistry 1 1).pairs (digestOf [n]) := by
    decide +kernel
  intro channel hc
  obtain rfl | rfl : channel = "stable" ∨ channel = "latest" := by simpa [Profile.channels] using hc
  · exact ⟨[stable], rfl, hpairs stable hs, no_bootstrap _⟩
  · exact ⟨[latest], rfl, hpairs latest hl, no_bootstrap _⟩

/-- A job over aliases of the oldest release moves both to the next one. -/
theorem tracks_of_session_refreshed : ∃ a, Tracks .legacy (sampleRun 1 1 2).2 a ∧ NotAhead .legacy a ∧
    ∀ channel ∈ Profile.channels .legacy, samplePair 1 ≤ a channel :=
  have h₀ : Tracks .legacy (sampleRegistry 1 1) fun _ => samplePair 1 := by
    simpa using @tracks_sampleRegistry 1 1 (by decide) (by decide)
  tracks_of_session h₀ (fun _ _ => le_rfl) (session_sampleRun 1 1 2)

/-- The order of the channels at the start is needed: a job only looks at the first
channel, and takes a later one back that was ahead. -/
theorem not_tracks_of_session : ¬ ∀ (p : Profile) (w₀ w : Registry) (a₀ : Ledger), Tracks p w₀ a₀ →
    Session registry publish (Admits p) (Elsewhere p) w₀ w →
    ∃ a, Tracks p w a ∧ NotAhead p a ∧ ∀ channel ∈ p.channels, a₀ channel ≤ a channel := by
  intro h
  obtain ⟨a, ha, -, hraised⟩ := h _ _ _ _ (@tracks_sampleRegistry 1 3
    (by decide) (by decide)) (session_sampleRun 1 3 2)
  have hlatest : ((sampleRun 1 3 2).2.tags "latest").map
      (fun m => (sampleRun 1 3 2).2.pairs (digestOf m)) = some [samplePair 2, samplePair 2] := by
    decide +kernel
  obtain ⟨m, hm, hpair, -⟩ := ha "latest" (by decide)
  rw [hm, Option.map_some, Option.some.injEq] at hlatest
  rw [hlatest] at hpair
  obtain hpair : a "latest" = samplePair 2 := by simpa using hpair
  have hle := hraised "latest" (by decide)
  rw [hpair] at hle
  revert hle
  decide +kernel

end Refresh
