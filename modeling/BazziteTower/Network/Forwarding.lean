import BazziteTower.Lib.Dict
import BazziteTower.Lib.Program
import BazziteTower.Lib.Text
import Mathlib.Data.List.DropRight

/-!
# Forwarding for libvirt behind Docker

`docker-libvirt-forwarding`: the rules in the chain `DOCKER-USER` that let active NAT
bridges of libvirt forward through the default uplink.  A rule that is wanted and
missing is inserted, and a rule whose comment is one of the helper's, but not a wanted
one, is deleted.

`iptables` is an argument: what it saves of a rule, which rule its arguments mean, and
the comment of a rule.  So are the answers of `ip`, `virsh`, the XML parser and the
address parser.

## Main definitions

* `Iptables`, `Facts` — the firewall and the machine.
* `natBridge` — the bridge of a NAT network.
* `ownComment`, `staleRule` — what the helper takes for its own.
* `main` — the script.
-/

open Prog (lift)

namespace Forwarding

/-! ## Words -/

/-- `[A-Za-z0-9_.-]` -/
def isNameChar (c : Char) : Bool := c.isAlphanum || c = '_' || c = '.' || c = '-'

/-- `^[A-Za-z0-9_.-]{1,15}$` -/
def isInterface (name : Text) : Bool :=
  1 ≤ name.length && name.length ≤ 15 && name.all isNameChar

/-- `[0-9./]+` -/
def isCidr (cidr : Text) : Bool :=
  cidr ≠ [] && cidr.all fun c => c.isDigit || c = '.' || c = '/'

def commentPrefix : Text := "bazzite-tower-libvirt-forwarding".toList

/-- The shape of the comments that the helper generates. -/
def isOwnComment (comment : Text) : Bool :=
  match comment.splitOn ':' with
  | [head, bridge, cidr, uplink] =>
    head = commentPrefix && isInterface bridge && isCidr cidr && isInterface uplink
  | _ => false

/-- The fields that `read` and `awk` split a line into. -/
def fields (line : Text) : List Text :=
  (line.splitOnP fun c => c = ' ' || c = '\t').filter (· ≠ [])

def linesOf (text : Text) : List Text := text.splitOn '\n'

/-- `${word#\"}` and then `${word%\"}`. -/
def unquote (word : Text) : Text :=
  let word := if word.head? = some '"' then word.tail else word
  if word.getLast? = some '"' then word.dropLast else word

/-- The field that follows the first `--comment`. -/
def commentField : List Text → Option Text
  | word :: next :: rest =>
    if word = "--comment".toList then some next else commentField (next :: rest)
  | _ => none

/-- The comment of a rule, if the helper takes it for one of its own. -/
def ownComment (rule : List Text) : Option Text := do
  let field ← commentField rule
  -- A quoted comment with spaces is split across fields.
  guard (field.head? ≠ some '"' || field.getLast? = some '"')
  let comment := unquote field
  guard ((commentPrefix ++ [':']).isPrefixOf comment)
  guard (isOwnComment comment)
  return comment

/-- The arguments that delete the rule of a line of `iptables -S`, if it is stale. -/
def staleRule (desired : List Text) (line : Text) : Option (List Text) :=
  match fields line with
  | add :: chain :: rule =>
    if add = "-A".toList && chain = "DOCKER-USER".toList && 2 ≤ rule.length then
      match ownComment rule with
      | some comment => if desired.contains comment then none else some (rule.map unquote)
      | none => none
    else none
  | _ => none

/-! ## Wanted rules -/

/-- The bridge and the network of a NAT network, and the uplink. -/
structure Target where
  bridge : Text
  cidr : Text
  uplink : Text
  deriving DecidableEq

def Target.comment (t : Target) : Text :=
  [':'].intercalate [commentPrefix, t.bridge, t.cidr, t.uplink]

/-- Guest-originated traffic toward the uplink. -/
def Target.outbound (t : Target) : List Text :=
  ["-i".toList, t.bridge, "-o".toList, t.uplink, "-s".toList, t.cidr,
    "-m".toList, "conntrack".toList, "--ctstate".toList, "NEW,ESTABLISHED,RELATED".toList,
    "-m".toList, "comment".toList, "--comment".toList, t.comment, "-j".toList, "ACCEPT".toList]

/-- Replies into the bridge. -/
def Target.inbound (t : Target) : List Text :=
  ["-i".toList, t.uplink, "-o".toList, t.bridge, "-d".toList, t.cidr,
    "-m".toList, "conntrack".toList, "--ctstate".toList, "RELATED,ESTABLISHED".toList,
    "-m".toList, "comment".toList, "--comment".toList, t.comment, "-j".toList, "ACCEPT".toList]

/-- What follows the first `dev`. -/
def afterDev : List Text → Option Text
  | [] => none
  | word :: rest => if word = "dev".toList then some (rest.headD []) else afterDev rest

/-- The uplink that `ip -o route show default` names first. -/
def defaultInterface (routes : Text) : Text :=
  ((linesOf routes).findSome? fun line => afterDev (fields line)).getD []

/-- The addresses that `ip -4 -o addr show` prints. -/
def inetAddresses (text : Text) : List Text :=
  ((linesOf text).filterMap fun line =>
    let words := fields line
    if words[2]? = some "inet".toList then some (words[3]?.getD []) else none).filter (· ≠ [])

/-! ## The host -/

/-- How the script ends early. -/
inductive Stop
  /-- `exit 1`, with a message. -/
  | exit (message : String)
  /-- A command failed. -/
  | command
  deriving DecidableEq, Repr

/-- `iptables`. -/
structure Iptables where
  Rule : Type
  decide : DecidableEq Rule
  /-- What `-S` prints of a rule, behind `-A DOCKER-USER`. -/
  save : Rule → Text
  /-- The rule that arguments mean. -/
  parse : List Text → Option Rule
  comment : Rule → Option Text

instance (T : Iptables) : DecidableEq T.Rule := T.decide

/-- An element below the root of the XML of a network. -/
structure Element where
  tag : Text
  attributes : Dict Text Text
  deriving DecidableEq

/-- What the Python snippet prints of a network: the name of the bridge if it is one of NAT,
and nothing otherwise.  The substitution drops newlines at the end. -/
def natBridge (elements : List Element) : Text :=
  match elements.find? (·.tag = "forward".toList), elements.find? (·.tag = "bridge".toList) with
  | some forward, some bridge =>
    if forward.attributes.find "mode".toList = some "nat".toList
    then ((bridge.attributes.find "name".toList).getD []).rdropWhile (· = '\n')
    else []
  | _, _ => []

/-- What the other commands answer. -/
structure Facts where
  /-- Docker has created the chain. -/
  available : Bool
  routes : Except Stop Text
  networks : Except Stop Text
  dumpXml : Text → Except Stop Text
  /-- The elements below the root, or an error of the XML parser. -/
  elements : Text → Except Stop (List Element)
  addresses : Text → Except Stop Text
  network : Text → Except Stop Text

def Facts.bridgeName (E : Facts) (xml : Text) : Except Stop Text := (E.elements xml).map natBridge

inductive Op
  | lock
  | list
  | check (rule : List Text)
  | insert (rule : List Text)
  | delete (rule : List Text)
  | routes
  | networks
  | dumpXml (network : Text)
  | bridgeName (xml : Text)
  | addresses (bridge : Text)
  | network (address : Text)
  deriving DecidableEq

@[reducible] def Op.Res : Op → Type
  | .lock | .check _ | .insert _ | .delete _ => Unit
  | _ => Text

/-- `iptables -S DOCKER-USER` -/
def listing (T : Iptables) (chain : List T.Rule) : Text :=
  ['\n'].intercalate
    ("-N DOCKER-USER".toList :: chain.map fun r => "-A DOCKER-USER ".toList ++ T.save r)

/-- What a command does to the chain and answers. -/
def Op.perform (T : Iptables) (E : Facts) : (o : Op) → List T.Rule → Except Stop o.Res × List T.Rule
  | .lock, w => (.ok (), w)
  | .list, w => (if E.available then .ok (listing T w) else .error .command, w)
  | .check rule, w => (if (T.parse rule).any (· ∈ w) then .ok () else .error .command, w)
  | .insert rule, w =>
    match T.parse rule with
    | some r => (.ok (), r :: w)
    | none => (.error .command, w)
  | .delete rule, w =>
    match T.parse rule with
    | some r => if r ∈ w then (.ok (), w.erase r) else (.error .command, w)
    | none => (.error .command, w)
  | .routes, w => (E.routes, w)
  | .networks, w => (E.networks, w)
  | .dumpXml name, w => (E.dumpXml name, w)
  | .bridgeName xml, w => (E.bridgeName xml, w)
  | .addresses bridge, w => (E.addresses bridge, w)
  | .network address, w => (E.network address, w)

/-- The machine; any command may fail. -/
def host (T : Iptables) (E : Facts) : Host Op Op.Res Stop Unit (List T.Rule) :=
  ⟨Op.perform T E, fun _ => .command⟩

abbrev Script (α : Type) := Prog Op Op.Res Stop α

abbrev perform (o : Op) : Script o.Res := Prog.perform o

/-! ## The script -/

/-- `if ! command; then echo message; exit 1; fi` -/
def orExit {α : Type} (p : Script α) (message : String) : Script α := do
  try p catch _ => throw (.exit ("docker-libvirt-forwarding: " ++ message))

def exitUnless (condition : Bool) (message : String) : Script Unit :=
  lift (if condition then .ok () else .error (.exit ("docker-libvirt-forwarding: " ++ message)))

def ensureRule (rule : List Text) : Script Unit := do
  try perform (.check rule) catch _ => perform (.insert rule)

/-- Delete a rule; `failed` says whether a deletion failed. -/
def deleteRule (failed : Bool) (rule : List Text) : Script Bool := do
  try
    perform (.delete rule)
    pure failed
  catch _ => pure true

def reconcileStaleRules (desired : List Text) : Script Unit := do
  let chainRules ← orExit (perform .list) "unable to list DOCKER-USER rules"
  let failed ← ((linesOf chainRules).filterMap (staleRule desired)).foldlM deleteRule false
  if failed then throw (.exit "")

/-- The rules for an address of a bridge; `desired` are the comments so far. -/
def ensureAddress (bridge uplink : Text) (desired : List Text) (address : Text) :
    Script (List Text) := do
  let cidr ← perform (.network address)
  let target : Target := ⟨bridge, cidr, uplink⟩
  ensureRule target.outbound
  ensureRule target.inbound
  return desired ++ [target.comment]

/-- The rules for an active network. -/
def ensureNetwork (uplink : Text) (desired : List Text) (network : Text) : Script (List Text) := do
  if network = [] then return desired
  else
    let xml ← orExit (perform (.dumpXml network))
      ("unable to inspect libvirt network " ++ String.ofList network)
    let bridge ← orExit (perform (.bridgeName xml))
      ("unable to parse libvirt network " ++ String.ofList network)
    -- No NAT network, or a bridge with an unexpected name, which is ignored.
    if bridge = [] || !isInterface bridge then return desired
    else
      let addresses ← orExit (perform (.addresses bridge))
        ("unable to discover IPv4 addresses for " ++ String.ofList bridge)
      (inetAddresses addresses).foldlM (ensureAddress bridge uplink) desired

def main : Script Unit := do
  orExit (perform .lock) "timed out acquiring reconciliation lock"
  let _ ← orExit (perform .list) "DOCKER-USER chain is unavailable"
  let routes ← orExit (perform .routes) "unable to discover the default route"
  let uplink := defaultInterface routes
  exitUnless (uplink ≠ []) "no default-route interface found"
  exitUnless (isInterface uplink) "default-route interface has an unexpected name"
  let networks ← orExit (perform .networks) "unable to list active libvirt networks"
  let desired ← (linesOf networks).foldlM (ensureNetwork uplink) []
  reconcileStaleRules desired

end Forwarding
