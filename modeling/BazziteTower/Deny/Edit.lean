import BazziteTower.Common

/-!
# The edit of DefaultAction

How the deny helper reads the action of a configuration and how it changes the
value bytes of that one key.

## Main definitions

* `currentAction` — the action of a configuration.
* `setAction` — the configuration with another action, or a refusal.
-/

namespace Deny

/-- `allow`, `deny`, or anything else. -/
inductive Action
  | allow | deny | other
  deriving DecidableEq, Repr

namespace Action

def word : Action → String
  | .allow => "allow"
  | .deny => "deny"
  | .other => "other"

/-- The action that a value of the key names. -/
def ofJson (v : Json) : Action :=
  match v with
  | .str s => if s = "allow".toList then .allow else if s = "deny".toList then .deny else .other
  | _ => .other

end Action

def currentAction (data : Bytes) : Except Exn Action :=
  match Json.loads data with
  | .ok (.obj ms) => .ok (.ofJson (Fields.get ms "DefaultAction"))
  | .ok _ | .error .value => .ok .other
  | .error .recursion => .error (.raised .recursion "maximum recursion depth exceeded")

/-- The bytes of an ASCII literal. -/
def ascii (s : String) : Bytes := s.toList.map fun c => UInt8.ofNat c.toNat

/-- `KEY`. -/
def key : Bytes := ascii "\"DefaultAction\""

/-- `data.count(KEY)`; the number of bytes to skip stands first. -/
def countKey : ℕ → Bytes → ℕ
  | _, [] => 0
  | skip + 1, _ :: bs => countKey skip bs
  | 0, b :: bs =>
    if key.isPrefixOf (b :: bs) then countKey (key.length - 1) bs + 1 else countKey 0 bs

/-- The class `\s` of a byte pattern. -/
def isSpaceByte (b : UInt8) : Bool := b = 32 || (9 ≤ b && b ≤ 13)

/-- `ACTION` at the start of the bytes: its first group, and its second one. -/
def matchAction (bs : Bytes) : Option (Bytes × Bytes) :=
  if key.isPrefixOf bs then
    let rest := bs.drop key.length
    let before := rest.takeWhile isSpaceByte
    let rest := rest.drop before.length
    if rest.head? = some 58 then
      let after := rest.tail.takeWhile isSpaceByte
      let rest := rest.tail.drop after.length
      let head := key ++ before ++ 58 :: after ++ [34]
      if (ascii "\"allow\"").isPrefixOf rest then some (head, ascii "allow")
      else if (ascii "\"deny\"").isPrefixOf rest then some (head, ascii "deny")
      else none
    else none
  else none

/-- `ACTION.sub` with another second group, and how many matches it found; the
number of bytes to skip stands first. -/
def subAction (value : Bytes) : ℕ → Bytes → Bytes × ℕ
  | _, [] => ([], 0)
  | skip + 1, _ :: bs => subAction value skip bs
  | 0, b :: bs =>
    match matchAction (b :: bs) with
    | some (head, old) =>
      let (rest, n) := subAction value (head.length + old.length) bs
      (head ++ value ++ 34 :: rest, n + 1)
    | none =>
      let (rest, n) := subAction value 0 bs
      (b :: rest, n)

/-- `value["DefaultAction"] = action`, a `TypeError` on anything but a dictionary. -/
def assignAction (action : Action) : Json → Except Exn Json
  | .obj ms => .ok (.obj (Json.insert "DefaultAction".toList (.str action.word.toList) ms))
  | _ => .error (.raised .type "object does not support item assignment")

/-- Change only the value bytes of the key; refuse any ambiguity. -/
def setAction (data : Bytes) (action : Action) : Except Exn Bytes := do
  let (result, found) := subAction (ascii action.word) 0 data
  refuseUnless (countKey 0 data = 1 && found = 1)
    "cannot edit DefaultAction: key is absent, ambiguous or not an allow/deny string"
  let before ← decoded (Json.loads data)
  let after ← decoded (Json.loads result)
  let before ← assignAction action before
  refuseUnless (before.pyEq after) "DefaultAction edit would change more than that key"
  return result

/-! ## What an edit guarantees -/

/-- What an edit takes to succeed. -/
theorem setAction_eq_ok {data result : Bytes} {action : Action} :
    setAction data action = .ok result ↔
      subAction (ascii action.word) 0 data = (result, 1) ∧ countKey 0 data = 1 ∧
        ∃ ms after, Json.loads data = .ok (.obj ms) ∧ Json.loads result = .ok after ∧
          (Json.obj (Json.insert "DefaultAction".toList (.str action.word.toList) ms)).pyEq after := by
  simp only [setAction, Except.bind_eq_ok, refuseUnless_eq_ok, decoded_eq_ok, Bool.and_eq_true,
    decide_eq_true_eq]
  constructor
  · rintro ⟨_, ⟨hcount, hfound⟩, before, hbefore, after, hafter, assigned, hassigned, _, heq, hresult⟩
    cases before with
    | obj ms =>
      cases hassigned
      cases hresult
      exact ⟨Prod.ext rfl hfound, hcount, ms, after, hbefore, hafter, heq⟩
    | _ => cases hassigned
  · rintro ⟨hsub, hcount, ms, after, hbefore, hafter, heq⟩
    rw [hsub]
    exact ⟨(), ⟨hcount, rfl⟩, _, hbefore, after, hafter, _, rfl, (), heq, rfl⟩

/-- What a successful edit went through. -/
theorem setAction_cases {data result : Bytes} {action : Action}
    (h : setAction data action = .ok result) :
    ∃ ms after, Json.loads data = .ok (.obj ms) ∧ Json.loads result = .ok after ∧
      (Json.obj (Json.insert "DefaultAction".toList (.str action.word.toList) ms)).pyEq after ∧
      result = (subAction (ascii action.word) 0 data).1 := by
  obtain ⟨hsub, -, ms, after, hdata, hresult, heq⟩ := setAction_eq_ok.mp h
  exact ⟨ms, after, hdata, hresult, heq, by rw [hsub]⟩

/-- **The edit sets the action.** -/
theorem currentAction_setAction {data result : Bytes} {action : Action}
    (h : setAction data action = .ok result) : currentAction result = .ok action := by
  obtain ⟨ms, after, -, hafter, heq, -⟩ := setAction_cases h
  obtain ⟨ns, rfl, hns⟩ := Json.pyEq_obj heq
  obtain ⟨v, hv, hvs⟩ := Json.pyEqMembers_find hns (Json.find_insert_self _ _ _)
  rw [Json.str_pySame, Json.pyEq_str] at hvs
  simp only [currentAction, hafter, Fields.get, hv, Option.getD_some, hvs]
  cases action <;> rfl

end Deny
