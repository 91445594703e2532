import BazziteTower.Common
import Mathlib.Data.List.Lex

/-!
# The base refresh: labels and policy

The parts of `base-refresh.py` that the publisher, the artifact validation and the
base-bump guard share: the two version labels and their order, the reviewed refresh
policy, and the comparison with the predicate that a channel already carries.

The labels are compared as Python compares tuples, so a list of numbers with the
lexicographic order stands for each.  `parse_created` only serves the policy, and
every statement holds whatever it does, so it is a parameter.

## Main definitions

* `baseVersion`, `kernelVersion` — the Bazzite and the kernel label.
* `policy` — the reviewed policy, refused unless it is exactly the expected one.
* `monotonic` — the downgrade check against one signed predicate.
-/

open Json

namespace Refresh

/-- `require(condition, message)` of the publication gates, a `ValueError`. -/
def require (condition : Bool) (message : String) : Except Exn Unit :=
  if condition then .ok () else .error (.raised .value message)

@[simp] theorem require_eq_ok {condition : Bool} {message : String} {u : Unit} :
    require condition message = .ok u ↔ condition := by
  cases condition <;> simp [require]

/-! ## Labels -/

/-- `int(digits)`, a `ValueError` on too many digits. -/
def toNat (digits : Text) : Except Exn ℕ :=
  if maxDigits < digits.length then .error (.raised .value "Exceeds the limit for integer string conversion")
  else .ok (Nat.ofDigitChars 10 digits 0)

/-- The digits behind each of the literals, if the text consists of just these. -/
def digitsAfter : List Text → Text → Option (List Text)
  | [], cs => if cs = [] then some [] else none
  | literal :: literals, cs =>
    if literal.isPrefixOf cs then
      let rest := cs.drop literal.length
      let digits := rest.takeWhile Char.isDigit
      if digits = [] then none
      else (digitsAfter literals (rest.drop digits.length)).map (digits :: ·)
    else none

/-- `base_version`: two digits, a dot and eight digits. -/
def baseVersion : Json → Except Exn (List ℕ)
  | .str value =>
    match digitsAfter ["".toList, ".".toList] value with
    | some [major, date] =>
      if major.length = 2 ∧ date.length = 8 then [major, date].mapM toNat
      else .error (.raised .value "invalid Bazzite version")
    | _ => .error (.raised .value "invalid Bazzite version")
  | _ => .error (.raised .value "invalid Bazzite version")

/-- `kernel_version`: major, minor, patch, ogc, ogc release, and Fedora major. -/
def kernelVersion : Json → Except Exn (List ℕ)
  | .str value =>
    match digitsAfter ["".toList, ".".toList, ".".toList, "-ogc".toList, ".".toList, ".fc".toList]
        value with
    | some groups => groups.mapM toNat
    | none => .error (.raised .value "invalid/unreviewed kernel version")
  | _ => .error (.raised .type "expected string or bytes-like object")

/-! ## The policy -/

def dest : String := "ghcr.io/bearyjd/bazzite-tower"

def workflow : String := ".github/workflows/base-refresh.yml"

def predicate : String := "https://github.com/bearyjd/bazzite-tower/attestations/base-refresh/v1"

def repository : String := "bearyjd/bazzite-tower"

def mainRef : String := "refs/heads/main"

def upstream : String := "ghcr.io/ublue-os/bazzite-nvidia-open"

/-- The two products of a refresh. -/
inductive Profile
  | legacy
  | system
  deriving DecidableEq, Repr

namespace Profile

def name : Profile → String
  | .legacy => "legacy"
  | .system => "system"

def imageTag : Profile → String
  | .legacy => "latest"
  | .system => "snitchwatch-system"

/-- The channels of a profile, in the order in which they are moved. -/
def channels : Profile → List String
  | .legacy => ["stable", "latest"]
  | .system => ["snitchwatch-system"]

/-- `p['profiles'][profile]['channels'][0]`. -/
def first (p : Profile) : String := p.channels.headD ""

/-- `p['bootstrap'][profile]['allowMissing']`. -/
def allowMissing : Profile → Bool
  | .legacy => true
  | .system => false

/-- `p['bootstrap'][profile]['digest']`. -/
def bootstrapDigest : Profile → Option String
  | .legacy => none
  | .system => some "sha256:3f9a0d238e69917a33a23710a53963e70b64526cc8e44f9d24787944dcca1f27"

end Profile

/-- A string in a document. -/
def text (s : String) : Json := .str s.toList

/-- The object with these members. -/
def object (members : List (String × Json)) : Json :=
  .obj (members.map fun m => (m.1.toList, m.2))

def bootstrapRun : String := "2"
def failedRunId : String := "40062419690"
def failedHead : String := "d8407c60f74ceafbcbc2e333198c9fd23ce4e260"

/-- The reviewed profiles. -/
def profiles : Json :=
  object [("legacy", object [("imageTag", text "latest"),
      ("channels", .arr [text "stable", text "latest"])]),
    ("system", object [("imageTag", text "snitchwatch-system"),
      ("channels", .arr [text "snitchwatch-system"])])]

/-- The reviewed bootstrap exceptions. -/
def bootstrap : Json :=
  object [("legacy", object [("allowMissing", .bool true), ("digest", .null),
      ("runNumber", text bootstrapRun), ("failedRunId", text failedRunId),
      ("failedHead", text failedHead)]),
    ("system", object [("allowMissing", .bool false), ("digest",
      text "sha256:3f9a0d238e69917a33a23710a53963e70b64526cc8e44f9d24787944dcca1f27")])]

/-- `hex_value(value, size)`. -/
def hexValue (size : ℕ) (v : Json) : Except Exn Unit :=
  require (match v with
    | .str s => s.length = size && s.all fun c => c.isDigit || ('a' ≤ c && c ≤ 'f')
    | _ => false) "invalid hash"

/-- `set(value) == names`, for a dictionary without equal keys. -/
def hasKeys (names : List String) : Json → Except Exn Bool
  | .obj ms => .ok (ms.all (fun m => (names.map String.toList).contains m.1) &&
      names.all fun n => (find n.toList ms).isSome)
  | _ => .error (.raised .type "object is not iterable")

/-- `value[key] == expected`. -/
def equals (value : Json) (key : String) (expected : Json) : Except Exn Bool := do
  return (← value.subscript key).pyEq expected

def policyKeys : List String :=
  ["schemaVersion", "repository", "ref", "destination", "upstream", "upstreamTag",
    "minimumBaseVersion", "minimumKernel", "sourceCommit", "sourceTree", "sourceCreated", "profiles",
    "bootstrap", "nativeSource", "daemonSource", "daemonPatchSha256"]

/-- `policy(root)`, from the decoded policy file on. -/
def policy (parseCreated : Json → Except Exn Json) (value : Json) : Except Exn Json := do
  require ((← hasKeys policyKeys value) && (← equals value "schemaVersion" (.int 1)))
    "invalid refresh policy schema"
  require ((← equals value "repository" (text repository)) && (← equals value "ref" (text mainRef)))
    "policy repository/ref substitution"
  require ((← equals value "destination" (text dest)) && (← equals value "upstream" (text upstream)) &&
    (← equals value "upstreamTag" (text "stable"))) "policy destination/upstream substitution"
  ["sourceCommit", "sourceTree"].forM fun key => do hexValue 40 (← value.subscript key)
  require (← equals value "profiles" profiles) "policy profile/channel substitution"
  require (← equals value "bootstrap" bootstrap) "unreviewed bootstrap exception"
  let native ← value.subscript "nativeSource"
  let daemon ← value.subscript "daemonSource"
  require ((← hasKeys ["commit", "tree", "submoduleCommit"] native) &&
    (← hasKeys ["commit", "tree"] daemon)) "invalid native source policy"
  (← native.items).forM fun m => hexValue 40 m.2
  (← daemon.items).forM fun m => hexValue 40 m.2
  hexValue 64 (← value.subscript "daemonPatchSha256")
  let _ ← baseVersion (← value.subscript "minimumBaseVersion")
  let _ ← kernelVersion (← value.subscript "minimumKernel")
  let created ← value.subscript "sourceCreated"
  require ((← parseCreated created).pyEq created) "invalid source timestamp"
  return value

/-- The policy file of this commit. -/
def reviewedPolicy : Json :=
  object [("schemaVersion", .int 1), ("repository", text repository), ("ref", text mainRef),
    ("destination", text dest), ("upstream", text upstream), ("upstreamTag", text "stable"),
    ("minimumBaseVersion", text "44.20261023"), ("minimumKernel", text "7.2.9-ogc3.1.fc44"),
    ("sourceCommit", text "07f48addb866ce74797ba620f7883ee4b4271984"),
    ("sourceTree", text "6b879cdb58db1ae60e4c3b849164404fee34e8e2"),
    ("sourceCreated", text "2026-11-07T01:33:27Z"), ("profiles", profiles), ("bootstrap", bootstrap),
    ("nativeSource", object [("commit", text "32eca9a74be1c67af4333b40c9711d61dee1cba4"),
      ("tree", text "b4d8d159f3ebd93848b2363785470108784d8315"),
      ("submoduleCommit", text "b404c4c6316760fa7bc415509d3f8d747f7dc9cc")]),
    ("daemonSource", object [("commit", text "b404c4c6316760fa7bc415509d3f8d747f7dc9cc"),
      ("tree", text "21593ba74c55b6f7ad7f220692c33477b65a3686")]),
    ("daemonPatchSha256", text "4b52c645864650acffa8244080800e442d02ca2a2efd90f1b0dd2dd0a8cbeaa8")]

/-! ## The signed baseline -/

/-- The versions that a predicate carries, in the order the code compares them. -/
def pairOf (proof : Json) : Except Exn (List ℕ × List ℕ) := do
  return (← baseVersion (← proof.subscript "baseVersion"),
    ← kernelVersion (← proof.subscript "kernel"))

/-- `monotonic(p, proof, previous)`. -/
def monotonic (proof previous : Json) : Except Exn Unit := do
  require ((← previous.get "kind").pyEq (text "accepted-source-base-refresh") &&
    (← previous.get "repository").pyEq (text repository) &&
    (← previous.get "workflow").pyEq (text workflow) &&
    (← previous.get "ref").pyEq (text mainRef) &&
    (← previous.get "profile").pyEq (← proof.subscript "profile"))
    "previous refresh provenance identity mismatch"
  require (decide ((← baseVersion (← previous.subscript "baseVersion")) ≤
    (← baseVersion (← proof.subscript "baseVersion"))))
    "Bazzite downgrade below signed channel baseline"
  require (decide ((← kernelVersion (← previous.subscript "kernel")) ≤
    (← kernelVersion (← proof.subscript "kernel"))))
    "kernel downgrade below signed channel baseline"

/-- A proof that passes against a signed predicate carries versions, and that
predicate's versions are at most these. -/
theorem pairOf_le_of_monotonic {proof previous : Json} {u : Unit}
    (h : monotonic proof previous = .ok u) :
    ∃ old new, pairOf previous = .ok old ∧ pairOf proof = .ok new ∧ old ≤ new := by
  simp only [monotonic, Except.bind_eq_ok, require_eq_ok, decide_eq_true_eq] at h
  obtain ⟨_, -, _, -, _, -, _, -, _, -, _, -, _, -, b, hb, v, hv, b', hb', v', hv', _, hbase, k, hk,
    w, hw, k', hk', w', hw', hkernel⟩ := h
  refine ⟨(v, w), (v', w'), ?_, ?_, hbase, hkernel⟩
  · simp [pairOf, hb, hv, hk, hw, bind, Except.bind, pure, Except.pure]
  · simp [pairOf, hb', hv', hk', hw', bind, Except.bind, pure, Except.pure]

end Refresh
