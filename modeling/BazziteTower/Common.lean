import BazziteTower.Host
import BazziteTower.Lib.Base64

/-!
# The shared module

`bazzite-tower-snitchwatch-common.py`, as far as the deny helper and the migration
use it: refusals, inspection of files, and the verdict whether a deny
configuration is an operator's confirmed opt-in.

## Main definitions

* `require`, `lookup`, `present` — refusals and inspection.
* `metadataAt`, `applyMetadata` — owner, mode and attributes, which both helpers
  capture and restore.
* `regularRootJson`, `denyOptIn` — whether a deny configuration is confirmed.
-/

open Prog (lift)

/-- A decoded JSON object. -/
abbrev Fields := List (Text × Json)

/-! ## Python expressions -/

/-- `require(condition, message)` in an expression that makes no call. -/
def refuseUnless (condition : Bool) (message : String) : Except Exn Unit :=
  if condition then .ok () else .error (.refusal message false)

@[simp] theorem refuseUnless_eq_ok {condition : Bool} {message : String} {u : Unit} :
    refuseUnless condition message = .ok u ↔ condition := by
  cases condition <;> simp [refuseUnless]

/-- `json.loads` on bytes or text raises `ValueError` or `RecursionError`. -/
def decoded : Except Json.Error Json → Except Exn Json
  | .ok v => .ok v
  | .error .value => .error (.raised .value "invalid JSON document")
  | .error .recursion => .error (.raised .recursion "maximum recursion depth exceeded")

theorem decoded_eq_ok {r : Except Json.Error Json} {v : Json} :
    decoded r = .ok v ↔ r = .ok v := by
  rcases r with (_ | _) | _ <;> simp [decoded]

/-- `path.read_text()`: the bytes as UTF-8. -/
def utf8 (data : Bytes) : Except Exn Text :=
  match Text.decodeUtf8 false data with
  | some cs => .ok cs
  | none => .error (.raised .value "'utf-8' codec can't decode")

/-- `json.loads(text)` after `read_text()`. -/
def loadsUtf8 (data : Bytes) : Except Exn Json := do
  decoded (Json.loadsText (← utf8 data))

namespace Json

/-- `value.get(key)`, an `AttributeError` on anything but a dictionary. -/
def get (key : String) : Json → Except Exn Json
  | .obj ms => .ok ((find key.toList ms).getD .null)
  | _ => .error (.raised .attribute "object has no attribute 'get'")

/-- `value[key]` for a string key. -/
def subscript (key : String) : Json → Except Exn Json
  | .obj ms =>
    match find key.toList ms with
    | some v => .ok v
    | none => .error (.raised .key key)
  | _ => .error (.raised .type "indices must be integers")

/-- `value.items()`. -/
def items : Json → Except Exn Fields
  | .obj ms => .ok ms
  | _ => .error (.raised .attribute "object has no attribute 'items'")

/-- The truth value of a value. -/
def truthy : Json → Bool
  | .null => false
  | .bool b => b
  | .int n => n ≠ 0
  | .float s =>
    match floatNumber s with
    | .decimal m _ => m ≠ 0
    | _ => true
  | .str s => s ≠ []
  | .arr xs => !xs.isEmpty
  | .obj ms => !ms.isEmpty

/-- A value where an integer is needed; `True` and `False` are integers. -/
def toInt : Json → Except Exn ℤ
  | .int n => .ok n
  | .bool b => .ok (if b then 1 else 0)
  | _ => .error (.raised .type "an integer is required")

/-- A user or group id as `fchown` takes it. -/
def toId (v : Json) : Except Exn ℤ := do
  let n ← v.toInt
  if -1 ≤ n ∧ n < 2 ^ 32 then return n else throw (.raised .overflow "id is out of range")

/-- A mode as `fchmod` takes it. -/
def toMode (v : Json) : Except Exn ℤ := do
  let n ← v.toInt
  if -2 ^ 31 ≤ n ∧ n < 2 ^ 31 then return n else throw (.raised .overflow "mode is out of range")

/-- `base64.b64decode(value, validate=True)`. -/
def fromBase64 : Json → Except Exn Bytes
  | .str s =>
    match Base64.decode s with
    | some data => .ok data
    | none => .error (.raised .value "invalid base64-encoded string")
  | _ => .error (.raised .type "argument should be a bytes-like object or ASCII string")

end Json

/-! ## Refusals and inspection -/

/-- `require(condition, message)`. -/
def require (condition : Bool) (message : String) : Script Unit :=
  lift (refuseUnless condition message)

/-- An owner and mode that nobody but root can write through. -/
def Stat.rootRegular (info : Stat) (mask : UInt32) : Bool :=
  info.kind = .regular && info.uid = 0 && info.mode &&& mask = 0

/-- One `lstat` decides; anything but a plain absence is refused. -/
def lookup (p : HostPath) : Script (Option Stat) := do
  try
    pure (some (← perform (.lstat (.file p))))
  catch error =>
    if error.isAbsent then pure none
    else if error.isOSError then
      throw (.refusal ("cannot inspect " ++ p.name ++ ": " ++ error.text) false)
    else throw error

def present (p : HostPath) : Script Bool := do
  return (← lookup p).isSome

/-! ## Security metadata -/

/-- `encoded`, as a JSON string. -/
def encoded (data : Bytes) : Json := .str (Base64.encode data)

/-- A dictionary of extended attributes. -/
def attributes (xattrs : List (Text × Bytes)) : Fields :=
  xattrs.foldl (fun ms x => Json.insert x.1 (encoded x.2) ms) []

/-- The metadata that a publication restores: owner, mode and attributes. -/
def metadataOf (info : Stat) (xattrs : List (Text × Bytes)) : Json :=
  .obj [("uid".toList, .int info.uid.toNat), ("gid".toList, .int info.gid.toNat),
    ("mode".toList, .int info.mode.toNat), ("xattrs".toList, .obj (attributes xattrs))]

def metadataAt (l : Loc) : Script Json := do
  let info ← perform (.lstat l)
  require (info.rootRegular 0o022) "live config must be a root-owned, non-writable regular file"
  let xattrs ← perform (.xattrs l)
  return metadataOf info xattrs

/-- Owner, mode and attributes of a temporary file, from any JSON value. -/
def applyMetadata (temporary : ℕ) (metadata : Json) : Script Unit := do
  let uid ← lift (metadata.subscript "uid")
  let gid ← lift (metadata.subscript "gid")
  perform (.fchown temporary (← lift uid.toId) (← lift gid.toId))
  let mode ← lift (metadata.subscript "mode")
  perform (.fchmod temporary (← lift mode.toMode))
  let xattrs ← lift (metadata.subscript "xattrs")
  (← lift xattrs.items).forM fun (name, value) => do
    perform (.setxattr temporary name (← lift value.fromBase64))

/-! ## The verdict -/

/-- The object in a root-owned, non-writable regular file. -/
def regularRootJson (p : HostPath) : Script (Option Fields) := do
  match ← lookup p with
  | none => return none
  | some info =>
    if info.rootRegular 0o022 then
      let value ← try
          let data ← perform (.read (.file p))
          pure (some (← lift (loadsUtf8 data)))
        catch error =>
          if error.isOSError || error.isValueError then pure none else throw error
      match value with
      | some (.obj ms) => return some ms
      | _ => return none
    else return none

/-- Whether a value is a string. -/
def Json.isStr : Json → Bool
  | .str _ => true
  | _ => false

/-- Whether a value is `True` or `False`. -/
def Json.isBool : Json → Bool
  | .bool _ => true
  | _ => false

/-- `fields.get(key)`, with `None` for an absent key. -/
def Fields.get (ms : Fields) (key : String) : Json := (Json.find key.toList ms).getD .null

/-- A marker that `confirm` may have written. -/
def validMarker (marker : Fields) : Bool :=
  (marker.get "schema").pyEq (.int 1) && (marker.get "confirmedAt").isStr &&
    (marker.get "id").isStr

/-- `value is False`. -/
def Json.isFalse : Json → Bool
  | .bool false => true
  | _ => false

def denyOptIn : Script Bool := do
  match ← regularRootJson .marker with
  | none => return false
  | some marker =>
    if marker.isEmpty || !validMarker marker then return false
    else if ← present .state then
      match ← regularRootJson .state with
      | none => return false
      | some state =>
        return !state.isEmpty && (state.get "pending").isFalse &&
          (state.get "id").pyEq (marker.get "id")
    else return true
