import BazziteTower.Common
import BazziteTower.Lib.Dict
import BazziteTower.Lib.Telescope
import Mathlib.Data.Fin.VecNotation
import Mathlib.Data.Fintype.Basic
import Mathlib.Data.List.Sort
import Mathlib.Data.Rat.Defs

/-!
# The token report

`agent-token-report.py`: the usage that session logs of two agents record, one sample a
turn, and its sum.  Which texts are dates is Python's `date.fromisoformat`, so `isoDay`,
which stands for `date.fromisoformat(str(value)[:10]).isoformat()`, is a parameter.

A session file is given by its records.  The rate limits that `codex` also tabulates and
the weighted index, which is a float, are left out.

## Main definitions

* `Usage`, `Sample`, `summarize` — what is summed.
* `claude` — usage by message id, tool results by the user record that carries them.
* `codex` — the differences of cumulative counters.
-/

namespace TokenReport

/-! ## Usage -/

@[ext] structure Usage where
  input : ℕ := 0
  cacheWrite : ℕ := 0
  cacheRead : ℕ := 0
  output : ℕ := 0
  reasoning : ℕ := 0
  total : ℕ := 0
  turns : ℕ := 0
  largeContextTurns : ℕ := 0
  deriving DecidableEq

instance : Add Usage where
  add a b :=
    { input := a.input + b.input, cacheWrite := a.cacheWrite + b.cacheWrite
      cacheRead := a.cacheRead + b.cacheRead, output := a.output + b.output
      reasoning := a.reasoning + b.reasoning, total := a.total + b.total
      turns := a.turns + b.turns, largeContextTurns := a.largeContextTurns + b.largeContextTurns }

instance : Zero Usage := ⟨{}⟩

structure Sample where
  day : Text
  project : Text
  kind : Text
  model : Text
  usage : Usage
  deriving DecidableEq

/-- The usage of all samples, and of the samples of each day, project, kind and model. -/
structure Summary where
  total : Usage
  byDay : Dict Text Usage
  byProject : Dict Text Usage
  byKind : Dict Text Usage
  byModel : Dict Text Usage

/-- The groups of one dimension, sorted by their names. -/
def groupBy (dimension : Sample → Text) (samples : List Sample) : Dict Text Usage :=
  (samples.foldl (fun group s => Dict.alter (fun old => old.getD 0 + s.usage) (dimension s) group)
    []).mergeSort fun a b => a.1 ≤ b.1

def summarize (samples : List Sample) : Summary where
  total := samples.foldl (fun total s => total + s.usage) 0
  byDay := groupBy Sample.day samples
  byProject := groupBy Sample.project samples
  byKind := groupBy Sample.kind samples
  byModel := groupBy Sample.model samples

/-! ## Reading records -/

/-- A non-negative integer; anything else counts as nothing. -/
def count : Json → ℕ
  | .int n => n.toNat
  | _ => 0

/-- A dictionary; anything else counts as an empty one. -/
def mapping : Json → Fields
  | .obj ms => ms
  | _ => []

def unknown : Text := "unknown".toList

/-- A non-empty string, or `unknown`. -/
def label : Json → Text
  | .str s => if s = [] then unknown else s
  | _ => unknown

/-- The items of a list; anything else counts as an empty one. -/
def items : Json → List Json
  | .arr xs => xs
  | _ => []

/-- A part of a message of some type. -/
def partOf (type : String) : Json → Option Fields
  | .obj ms => if (Fields.get ms "type").pyEq (.str type.toList) then some ms else none
  | _ => none

/-- The length of a text in a list of parts. -/
def partChars : Json → ℕ
  | .obj ms =>
    match Fields.get ms "text" with
    | .str s => s.length
    | _ => 0
  | _ => 0

def contentChars : Json → ℕ
  | .str s => s.length
  | .arr xs => (xs.map partChars).sum
  | _ => 0

/-- What is selected: records from a day on, in the projects whose name has a text in it. -/
structure Selection where
  since : Text
  project : Text

/-- The day of a time stamp with hyphens. -/
def stampDay : Json → Option Text
  | .str s => if s.length < 10 then none else some (s.take 10)
  | _ => none

section Dates
variable (isoDay : Json → Option Text)

/-- `day_of`: the empty text for what is no date. -/
def dayOf (value : Json) : Text := (isoDay value).getD []

/-- The day is a date in the selected range. -/
def Selection.includesDay (sel : Selection) (day : Text) : Bool := day ≠ [] && sel.since ≤ day

def Selection.includesProject (sel : Selection) (project : Text) : Bool := sel.project <:+: project

/-! ## Claude -/

/-- A log: its path, the parts of the path below the root, and its records. -/
structure SessionFile where
  path : Text
  parts : List Text
  records : List Fields

/-- What identifies a tool result: the user record, the call, and the place in the record. -/
abbrev ResultKey := Text × Text × ℕ

structure ClaudeState where
  messages : Dict Text Sample := []
  /-- The number of calls of each tool and the characters that they returned. -/
  tools : Dict Text (ℕ × ℕ) := []
  seenResults : List ResultKey := []
  files : ℕ := 0

/-- Input, cache creation, cache read and output tokens. -/
abbrev Numbers := Fin 4 → ℕ

def numberKeys : Fin 4 → String :=
  !["input_tokens", "cache_creation_input_tokens", "cache_read_input_tokens", "output_tokens"]

def numbersOf (usage : Fields) : Numbers := fun i => count (usage.get (numberKeys i))

/-- The usage of one turn. -/
def usageOf (n : Numbers) : Usage :=
  { input := n 0, cacheWrite := n 1, cacheRead := n 2, output := n 3
    total := n 0 + n 1 + n 2 + n 3, turns := 1
    largeContextTurns := if 400000 ≤ n 0 + n 1 + n 2 then 1 else 0 }

/-- The numbers of a recorded turn. -/
def Usage.numbers (u : Usage) : Numbers := ![u.input, u.cacheWrite, u.cacheRead, u.output]

/-- A message is recorded with the largest numbers that any of its records has. -/
def recordMessage (day project kind model : Text) (numbers : Numbers) : Option Sample → Sample
  | none => ⟨day, project, kind, model, usageOf numbers⟩
  | some previous => { previous with usage := usageOf (numbers ⊔ previous.usage.numbers) }

/-- The names of the tools that a message calls. -/
def nameCalls (content : Json) (names : Dict Text Text) : Dict Text Text :=
  ((items content).filterMap (partOf "tool_use")).foldl
    (fun names part => Dict.alter (fun _ => label (part.get "name")) (label (part.get "id")) names) names

/-- The id and the numbers of an assistant record that has both. -/
def messageUsage (message : Fields) : Option (Text × Numbers) :=
  match message.get "id" with
  | .str mid =>
    if mapping (message.get "usage") = [] ∨ mid = [] then none
    else some (mid, numbersOf (mapping (message.get "usage")))
  | _ => none

/-- What stands for the user record: its uuid, or the file if it has none. -/
def resultOwner (path : Text) (record : Fields) : Text :=
  if (record.get "uuid").truthy then label (record.get "uuid") else path

/-- The tool results of a record, with their places. -/
def toolResults (record : Fields) : List (ℕ × Fields) :=
  ((items ((mapping (record.get "message")).get "content")).zipIdx.filterMap fun (part, index) =>
    (partOf "tool_result" part).map (index, ·))

/-- A tool result is counted once. -/
def countResult (path : Text) (names : Dict Text Text) (record : Fields) (st : ClaudeState)
    (result : ℕ × Fields) : ClaudeState :=
  let key := (resultOwner path record, label (result.2.get "tool_use_id"), result.1)
  if key ∈ st.seenResults then st
  else
    let name := (names.find (label (result.2.get "tool_use_id"))).getD unknown
    { st with
      seenResults := key :: st.seenResults
      tools := Dict.alter (fun old => ((old.getD (0, 0)).1 + 1,
        (old.getD (0, 0)).2 + contentChars (result.2.get "content"))) name st.tools }

/-- One record of a file; the names of the tools are those of the file so far. -/
def claudeRecord (sel : Selection) (file : SessionFile) (project kind : Text)
    (s : ClaudeState × Dict Text Text) (record : Fields) : ClaudeState × Dict Text Text :=
  let message := mapping (record.get "message")
  let day := dayOf isoDay (record.get "timestamp")
  if (record.get "type").pyEq (.str "assistant".toList) then
    let names := nameCalls (message.get "content") s.2
    match messageUsage message with
    | some (mid, numbers) =>
      if sel.includesDay day then
        ({ s.1 with
            messages := Dict.alter
              (recordMessage day project kind (label (message.get "model")) numbers) mid
              s.1.messages }, names)
      else (s.1, names)
    | none => (s.1, names)
  else if (record.get "type").pyEq (.str "user".toList) && sel.includesDay day then
    ((toolResults record).foldl (countResult file.path s.2 record) s.1, s.2)
  else s

/-- The project of a file is the directory below the root that it is in. -/
def SessionFile.project (file : SessionFile) : Text := file.parts.headD []

def SessionFile.kind (file : SessionFile) : Text :=
  if "subagents".toList ∈ file.parts then "subagent".toList else "main".toList

def claudeFile (sel : Selection) (st : ClaudeState) (file : SessionFile) : ClaudeState :=
  if sel.includesProject file.project then
    (file.records.foldl (claudeRecord isoDay sel file file.project file.kind)
      ({ st with files := st.files + 1 }, [])).1
  else st

/-- One row of the table of tools. -/
structure ToolRow where
  tool : Text
  calls : ℕ
  chars : ℕ
  approxTokens : ℚ
  deriving DecidableEq

/-- The tools, those that returned most first. -/
def toolRows (tools : Dict Text (ℕ × ℕ)) : List ToolRow :=
  (tools.mergeSort fun a b => b.2.2 < a.2.2 || (a.2.2 = b.2.2 && a.1 ≤ b.1)).map fun e =>
    ⟨e.1, e.2.1, e.2.2, e.2.2 / 4⟩

/-- `claude`, on the files in the order of their paths. -/
def claude (sel : Selection) (files : List SessionFile) : List Sample × List ToolRow × ℕ :=
  let st := files.foldl (claudeFile isoDay sel) {}
  (st.messages.map Prod.snd, toolRows st.tools, st.files)

/-! ## Codex -/

/-- Input, cached input, output, reasoning output and total tokens. -/
abbrev Counters := Fin 5 → ℕ

def counterKeys : Fin 5 → String :=
  !["input_tokens", "cached_input_tokens", "output_tokens", "reasoning_output_tokens", "total_tokens"]

/-- The total went down. -/
def resets (previous current : Counters) : Prop := current 4 < previous 4

instance : DecidableRel resets := fun previous current => Nat.decLt (current 4) (previous 4)

structure CodexState where
  project : Text := unknown
  kind : Text := "main".toList
  model : Text := unknown
  previous : Counters := 0
  selected : Bool := false
  samples : List Sample := []

/-- What the records that describe a session or a turn set. -/
def describe (s : CodexState) (record : Fields) : CodexState :=
  let payload := mapping (record.get "payload")
  if (record.get "type").pyEq (.str "session_meta".toList) then
    { s with
      project := label (payload.get "cwd")
      kind := if (Json.find "subagent".toList (mapping (payload.get "source"))).isSome
        then "subagent".toList else "main".toList }
  else if (record.get "type").pyEq (.str "turn_context".toList) then
    { s with model := label (payload.get "model") }
  else s

/-- The day of a record. -/
def recordDay (record : Fields) : Text := dayOf isoDay (.str (label (record.get "timestamp")))

def isTokenCount (record : Fields) : Bool :=
  ((mapping (record.get "payload")).get "type").pyEq (.str "token_count".toList)

def info (record : Fields) : Fields := mapping ((mapping (record.get "payload")).get "info")

/-- The counters of a record, unless it has none. -/
def reading (record : Fields) : Option Counters :=
  let total := mapping ((info record).get "total_token_usage")
  if isTokenCount record && total ≠ [] then some fun i => count (total.get (counterKeys i)) else none

/-- Whether a record is selected in the project that the records before it set. -/
def CodexState.included (sel : Selection) (s : CodexState) (record : Fields) : Bool :=
  sel.includesDay (recordDay isoDay record) && sel.includesProject s.project

/-- One record. -/
def codexRecord (sel : Selection) (s : CodexState) (record : Fields) : CodexState :=
  let s := describe s record
  if isTokenCount record then
    let included := s.included isoDay sel record
    let s := { s with selected := s.selected || included }
    match reading record with
    | none => s
    | some current =>
      let delta := Telescope.delta resets s.previous current
      let context := count ((mapping ((info record).get "last_token_usage")).get "input_tokens")
      let usage : Usage :=
        { input := delta 0, cacheRead := delta 1, output := delta 2, reasoning := delta 3
          total := delta 4, turns := 1, largeContextTurns := if 400000 ≤ context then 1 else 0 }
      { s with
        previous := current
        samples := if included ∧ delta ≠ 0
          then s.samples ++ [⟨recordDay isoDay record, s.project, s.kind, s.model, usage⟩]
          else s.samples }
  else s

/-- The records of one file. -/
def codexFile (sel : Selection) (records : List Fields) : CodexState :=
  records.foldl (codexRecord isoDay sel) {}

/-- `codex`, on the records of the files in the order of their paths. -/
def codex (sel : Selection) (files : List (List Fields)) : List Sample × ℕ :=
  let sts := files.map (codexFile isoDay sel)
  (sts.flatMap CodexState.samples, sts.countP CodexState.selected)

end Dates

end TokenReport
