import BazziteTower.Tokens.Report
import Mathlib.Algebra.Order.Group.Nat
import Mathlib.Tactic.FinCases
import Mathlib.Logic.Relation

/-!
# The totals of the claude logs

A message is logged again and again while it streams, and whole records are copied from
one session file into another one.  A message counts with the largest numbers that it
was logged with and a tool result counts once, so the totals depend only on which records
the selected files hold.

## Main definitions

* `Totals`, `totals` — the sums that a report shows.
* `Tallies` — what the state holds of the records so far.
* `Identified` — user records have uuids, and these identify them.
* `Replay` — records change places, or are copied.

## Main results

* `tallies_claude` — the state after all files.
* `totals_eq_of_replay` — the totals under any replay.
-/

namespace TokenReport

/-- The sums of a report. -/
structure Totals where
  usage : Usage
  calls : ℕ
  chars : ℕ
  deriving DecidableEq

/-- The sums of what `claude` returns. -/
def totals (isoDay : Json → Option Text) (sel : Selection) (files : List SessionFile) : Totals :=
  let (samples, tools, _) := claude isoDay sel files
  ⟨(summarize samples).total, (tools.map ToolRow.calls).sum, (tools.map ToolRow.chars).sum⟩

/-! ## Sums of usage -/

instance : AddCommMonoid Usage where
  add_assoc a b c := by ext <;> exact Nat.add_assoc ..
  zero_add a := by ext <;> exact Nat.zero_add _
  add_zero a := by ext <;> exact Nat.add_zero _
  add_comm a b := by ext <;> exact Nat.add_comm ..
  nsmul := nsmulRec

theorem total_summarize (samples : List Sample) :
    (summarize samples).total = (samples.map Sample.usage).sum := by
  rw [summarize, List.sum_eq_foldl, List.foldl_map]

@[simp] theorem numbers_usageOf (n : Numbers) : (usageOf n).numbers = n := by
  funext i
  fin_cases i <;> rfl

/-! ## What a record adds -/

/-- The calls and the characters of a table of tools. -/
def calls (tools : Dict Text (ℕ × ℕ)) : ℕ := (tools.map fun e => e.2.1).sum
def chars (tools : Dict Text (ℕ × ℕ)) : ℕ := (tools.map fun e => e.2.2).sum

theorem sum_calls_toolRows (tools : Dict Text (ℕ × ℕ)) :
    ((toolRows tools).map ToolRow.calls).sum = calls tools := by
  rw [toolRows, List.map_map]
  exact ((List.mergeSort_perm ..).map _).sum_eq

theorem sum_chars_toolRows (tools : Dict Text (ℕ × ℕ)) :
    ((toolRows tools).map ToolRow.chars).sum = chars tools := by
  rw [toolRows, List.map_map]
  exact ((List.mergeSort_perm ..).map _).sum_eq

theorem totals_eq (isoDay : Json → Option Text) (sel : Selection) (files : List SessionFile) :
    totals isoDay sel files =
      let st := files.foldl (claudeFile isoDay sel) {}
      ⟨(st.messages.map fun e => e.2.usage).sum, calls st.tools, chars st.tools⟩ := by
  simp only [totals, claude, total_summarize, List.map_map, sum_calls_toolRows, sum_chars_toolRows]
  rfl

section Records
variable (isoDay : Json → Option Text) (sel : Selection)

/-- A record whose day is selected. -/
def Selected (record : Fields) : Prop := sel.includesDay (dayOf isoDay (record.get "timestamp"))

def IsAssistant (record : Fields) : Prop := (record.get "type").pyEq (.str "assistant".toList)

def IsUser (record : Fields) : Prop := (record.get "type").pyEq (.str "user".toList)

theorem not_isAssistant_of_isUser {record : Fields} (h : IsUser record) : ¬ IsAssistant record := by
  intro hassistant
  rw [IsUser, Json.pyEq_of_str] at h
  rw [IsAssistant, Json.pyEq_of_str, h] at hassistant
  exact absurd hassistant (by simp)

/-- The numbers that some records log for messages. -/
def messageEntries (records : Set Fields) : Set (Text × Numbers) :=
  {e | ∃ r ∈ records, IsAssistant r ∧ Selected isoDay sel r ∧
    messageUsage (mapping (r.get "message")) = some e}

/-- A tool result of a record, by the uuid of the record, with its length. -/
def resultEntry (record : Fields) (result : ℕ × Fields) : ResultKey × ℕ :=
  ((label (record.get "uuid"), label (result.2.get "tool_use_id"), result.1),
    contentChars (result.2.get "content"))

/-- The tool results in some records. -/
def resultEntries (records : Set Fields) : Set (ResultKey × ℕ) :=
  {e | ∃ r ∈ records, IsUser r ∧ Selected isoDay sel r ∧ ∃ result ∈ toolResults r,
    e = resultEntry r result}

theorem mem_messageEntries_insert {e : Text × Numbers} {r : Fields} {records : Set Fields} :
    e ∈ messageEntries isoDay sel (insert r records) ↔
      (IsAssistant r ∧ Selected isoDay sel r ∧ messageUsage (mapping (r.get "message")) = some e) ∨
        e ∈ messageEntries isoDay sel records := by
  simp only [messageEntries, Set.mem_ofPred_eq, Set.mem_insert_iff, or_and_right, exists_or,
    exists_eq_left]

theorem mem_resultEntries_insert {e : ResultKey × ℕ} {r : Fields} {records : Set Fields} :
    e ∈ resultEntries isoDay sel (insert r records) ↔
      (IsUser r ∧ Selected isoDay sel r ∧ ∃ result ∈ toolResults r, e = resultEntry r result) ∨
        e ∈ resultEntries isoDay sel records := by
  simp only [resultEntries, Set.mem_ofPred_eq, Set.mem_insert_iff, or_and_right, exists_or,
    exists_eq_left]

end Records

/-! ## Tallies -/

/-- The messages hold the largest numbers that were logged for them. -/
structure MessageTally (entries : Set (Text × Numbers)) (messages : Dict Text Sample) : Prop where
  usage : ∀ e ∈ messages, e.2.usage = usageOf e.2.usage.numbers
  collects : Dict.Collects (messages.map fun e => (e.1, e.2.usage.numbers)) entries

/-- Each tool result was counted once, with its length. -/
structure ResultTally (length : ResultKey → ℕ) (entries : Set (ResultKey × ℕ))
    (seen : List ResultKey) (tools : Dict Text (ℕ × ℕ)) : Prop where
  nodup : seen.Nodup
  mem : ∀ k, k ∈ seen ↔ ∃ c, (k, c) ∈ entries
  calls : calls tools = seen.length
  chars : chars tools = (seen.map length).sum

theorem numbers_recordMessage (day project kind model : Text) (n : Numbers) (old : Option Sample) :
    (recordMessage day project kind model n old).usage.numbers =
      Dict.join n (old.map fun s => s.usage.numbers) := by
  cases old <;> simp [recordMessage, Dict.join]

theorem usage_recordMessage (day project kind model : Text) (n : Numbers) (old : Option Sample) :
    (recordMessage day project kind model n old).usage =
      usageOf (recordMessage day project kind model n old).usage.numbers := by
  cases old <;> simp [recordMessage]

theorem MessageTally.record {entries : Set (Text × Numbers)} {messages : Dict Text Sample}
    (h : MessageTally entries messages) (day project kind model mid : Text) (n : Numbers) :
    MessageTally (insert (mid, n) entries)
      (Dict.alter (recordMessage day project kind model n) mid messages) where
  usage e he := by
    rcases Dict.mem_alter he with ⟨old, rfl⟩ | he
    · exact usage_recordMessage ..
    · exact h.usage e he
  collects := by
    have hmap := Dict.map_alter (fun s : Sample => s.usage.numbers)
      (numbers_recordMessage day project kind model n) mid messages
    exact hmap ▸ h.collects.alter mid n

/-- Two tallies of the same entries have the same sum. -/
theorem MessageTally.sum_eq {entries : Set (Text × Numbers)} {messages messages' : Dict Text Sample}
    (h : MessageTally entries messages) (h' : MessageTally entries messages') :
    (messages.map fun e => e.2.usage).sum = (messages'.map fun e => e.2.usage).sum := by
  have hsum : ∀ {messages : Dict Text Sample}, MessageTally entries messages →
      (messages.map fun e => e.2.usage).sum =
        ((messages.map fun e => (e.1, e.2.usage.numbers)).map fun e => usageOf e.2).sum := by
    intro messages h
    rw [List.map_map]
    exact congrArg List.sum (List.map_congr_left fun e he => h.usage e he)
  rw [hsum h, hsum h']
  exact ((h.collects.perm h'.collects).map _).sum_eq

section Results
variable {length : ResultKey → ℕ} {entries : Set (ResultKey × ℕ)}

theorem ResultTally.sum_eq {seen seen' : List ResultKey} {tools tools' : Dict Text (ℕ × ℕ)}
    (h : ResultTally length entries seen tools) (h' : ResultTally length entries seen' tools') :
    TokenReport.calls tools = TokenReport.calls tools' ∧
      TokenReport.chars tools = TokenReport.chars tools' := by
  have hperm : seen.Perm seen' :=
    (List.perm_ext_iff_of_nodup h.nodup h'.nodup).mpr fun k => (h.mem k).trans (h'.mem k).symm
  rw [h.calls, h'.calls, h.chars, h'.chars]
  exact ⟨hperm.length_eq, (hperm.map _).sum_eq⟩

/-- Counting a result of a record that has a uuid. -/
theorem ResultTally.count {st : ClaudeState} (h : ResultTally length entries st.seenResults st.tools)
    {path : Text} (names : Dict Text Text) {record : Fields}
    (howner : resultOwner path record = label (record.get "uuid")) (result : ℕ × Fields)
    (hlength : length (resultEntry record result).1 = (resultEntry record result).2) :
    ResultTally length (insert (resultEntry record result) entries)
      (countResult path names record st result).seenResults
      (countResult path names record st result).tools := by
  have hmem : ∀ k, (∃ c, (k, c) ∈ insert (resultEntry record result) entries) ↔
      k = (resultEntry record result).1 ∨ ∃ c, (k, c) ∈ entries := by
    intro k
    simp only [Set.mem_insert_iff, Prod.ext_iff, exists_or, exists_and_left, exists_eq, and_true]
  by_cases hseen : (resultEntry record result).1 ∈ st.seenResults
  · have hsame : countResult path names record st result = st := by
      rw [countResult, howner]
      exact if_pos hseen
    rw [hsame]
    refine ⟨h.nodup, fun k => ?_, h.calls, h.chars⟩
    rw [hmem, ← h.mem]
    exact ⟨.inr, fun hk => hk.elim (fun hk => hk ▸ hseen) id⟩
  · have hnew : countResult path names record st result =
        { st with
          seenResults := (resultEntry record result).1 :: st.seenResults
          tools := Dict.alter (fun old => ((old.getD (0, 0)).1 + 1,
            (old.getD (0, 0)).2 + contentChars (result.2.get "content")))
            ((names.find (label (result.2.get "tool_use_id"))).getD unknown) st.tools } := by
      rw [countResult, howner]
      exact if_neg hseen
    rw [hnew]
    refine ⟨List.nodup_cons.mpr ⟨hseen, h.nodup⟩, fun k => ?_, ?_, ?_⟩
    · rw [hmem, ← h.mem, List.mem_cons]
    · have hsum := Dict.sum_alter (fun v : ℕ × ℕ => v.1) (fun old => ((old.getD (0, 0)).1 + 1,
        (old.getD (0, 0)).2 + contentChars (result.2.get "content")))
        ((names.find (label (result.2.get "tool_use_id"))).getD unknown) (m := 1)
        (fun old => by cases old <;> rfl) st.tools
      exact hsum.trans (congrArg (· + 1) h.calls)
    · have hsum := Dict.sum_alter (fun v : ℕ × ℕ => v.2) (fun old => ((old.getD (0, 0)).1 + 1,
        (old.getD (0, 0)).2 + contentChars (result.2.get "content")))
        ((names.find (label (result.2.get "tool_use_id"))).getD unknown)
        (m := contentChars (result.2.get "content")) (fun old => by cases old <;> simp) st.tools
      rw [List.map_cons, List.sum_cons, hlength, add_comm]
      exact hsum.trans (congrArg (· + contentChars (result.2.get "content")) h.chars)

end Results

/-! ## The loops -/

section Loops
variable {isoDay : Json → Option Text} {sel : Selection} {length : ResultKey → ℕ}

variable (isoDay sel length) in
/-- What the state holds of the records so far. -/
structure Tallies (records : Set Fields) (st : ClaudeState) : Prop where
  messages : MessageTally (messageEntries isoDay sel records) st.messages
  results : ResultTally length (resultEntries isoDay sel records) st.seenResults st.tools

variable (isoDay sel length) in
/-- A user record has a uuid, and its results have these lengths. -/
structure Measured (record : Fields) : Prop where
  uuid : IsUser record → ∃ s, s ≠ [] ∧ record.get "uuid" = .str s
  length : IsUser record → Selected isoDay sel record → ∀ result ∈ toolResults record,
    length (resultEntry record result).1 = (resultEntry record result).2

theorem resultOwner_eq {record : Fields} {s : Text} (hs : s ≠ []) (h : record.get "uuid" = .str s)
    (path : Text) : resultOwner path record = label (record.get "uuid") := by
  rw [resultOwner, h, if_pos (by simpa [Json.truthy] using hs)]

/-- Counting the results of a record. -/
theorem results_foldl {path : Text} (names : Dict Text Text) {record : Fields}
    (howner : resultOwner path record = label (record.get "uuid")) {results : List (ℕ × Fields)}
    (hlength : ∀ result ∈ results,
      length (resultEntry record result).1 = (resultEntry record result).2)
    {entries : Set (ResultKey × ℕ)} {st : ClaudeState}
    (h : ResultTally length entries st.seenResults st.tools) :
    (results.foldl (countResult path names record) st).messages = st.messages ∧
      ResultTally length ({e | ∃ result ∈ results, e = resultEntry record result} ∪ entries)
        (results.foldl (countResult path names record) st).seenResults
        (results.foldl (countResult path names record) st).tools := by
  induction results generalizing entries st with
  | nil =>
    have hset : {e | ∃ result ∈ ([] : List (ℕ × Fields)), e = resultEntry record result} ∪ entries =
        entries := by
      ext e
      simp
    rw [hset]
    exact ⟨rfl, h⟩
  | cons result results ih =>
    have hfirst := h.count names howner result (hlength result (List.mem_cons_self ..))
    obtain ⟨hmessages, hresults⟩ := ih (fun r hr => hlength r (List.mem_cons_of_mem _ hr)) hfirst
    have hsame : (countResult path names record st result).messages = st.messages := by
      simp only [countResult]
      split <;> rfl
    have hset : {e | ∃ r ∈ result :: results, e = resultEntry record r} ∪ entries =
        {e | ∃ r ∈ results, e = resultEntry record r} ∪ insert (resultEntry record result) entries := by
      ext e
      simp only [List.mem_cons, exists_eq_or_imp, Set.mem_union, Set.mem_ofPred_eq, Set.mem_insert_iff]
      exact or_assoc.trans or_left_comm
    rw [hset]
    exact ⟨hmessages.trans hsame, hresults⟩

/-- A record that is no user record, or not selected, adds no result. -/
theorem resultEntries_insert_of_not {record : Fields} {records : Set Fields}
    (h : ¬ (IsUser record ∧ Selected isoDay sel record)) :
    resultEntries isoDay sel (insert record records) = resultEntries isoDay sel records := by
  ext e
  rw [mem_resultEntries_insert]
  tauto

theorem messageEntries_insert_of_not {record : Fields} {records : Set Fields}
    (h : ¬ (IsAssistant record ∧ Selected isoDay sel record ∧
      (messageUsage (mapping (record.get "message"))).isSome)) :
    messageEntries isoDay sel (insert record records) = messageEntries isoDay sel records := by
  ext e
  rw [mem_messageEntries_insert]
  refine or_iff_right fun hnew => h ⟨hnew.1, hnew.2.1, ?_⟩
  rw [hnew.2.2]
  rfl

/-- **One record.** -/
theorem tallies_claudeRecord {file : SessionFile} {project kind : Text} {record : Fields}
    (hrecord : Measured isoDay sel length record) {records : Set Fields}
    {s : ClaudeState × Dict Text Text} (h : Tallies isoDay sel length records s.1) :
    Tallies isoDay sel length (insert record records)
      (claudeRecord isoDay sel file project kind s record).1 := by
  by_cases hassistant : IsAssistant record
  · have huser : ¬ (IsUser record ∧ Selected isoDay sel record) :=
      fun hu => not_isAssistant_of_isUser hu.1 hassistant
    have hbranch : (record.get "type").pyEq (.str "assistant".toList) = true := hassistant
    simp only [claudeRecord, hbranch, if_true]
    cases hmessage : messageUsage (mapping (record.get "message")) with
    | none =>
      refine ⟨?_, ?_⟩
      · rw [messageEntries_insert_of_not (by simp [hmessage])]
        exact h.messages
      · rw [resultEntries_insert_of_not huser]
        exact h.results
    | some entry =>
      obtain ⟨mid, numbers⟩ := entry
      by_cases hselected : Selected isoDay sel record
      · have hday : sel.includesDay (dayOf isoDay (record.get "timestamp")) = true := hselected
        have hset : messageEntries isoDay sel (insert record records) =
            insert (mid, numbers) (messageEntries isoDay sel records) := by
          ext e
          rw [mem_messageEntries_insert, hmessage, Set.mem_insert_iff]
          simp [hassistant, hselected, eq_comm]
        simp only [hday, if_true]
        refine ⟨?_, ?_⟩
        · rw [hset]
          exact h.messages.record ..
        · rw [resultEntries_insert_of_not huser]
          exact h.results
      · have hday : ¬ sel.includesDay (dayOf isoDay (record.get "timestamp")) = true := hselected
        simp only [if_neg hday]
        refine ⟨?_, ?_⟩
        · rw [messageEntries_insert_of_not fun hall => hselected hall.2.1]
          exact h.messages
        · rw [resultEntries_insert_of_not huser]
          exact h.results
  · have hbranch : ¬ (record.get "type").pyEq (.str "assistant".toList) = true := hassistant
    have hset : messageEntries isoDay sel (insert record records) = messageEntries isoDay sel records :=
      messageEntries_insert_of_not fun hall => hassistant hall.1
    simp only [claudeRecord, if_neg hbranch]
    by_cases huser : IsUser record ∧ Selected isoDay sel record
    · have hday : ((record.get "type").pyEq (.str "user".toList) &&
          sel.includesDay (dayOf isoDay (record.get "timestamp"))) = true :=
        Bool.and_eq_true_iff.mpr huser
      obtain ⟨uuid, hne, huuid⟩ := hrecord.uuid huser.1
      obtain ⟨hmessages, hresults⟩ := results_foldl s.2 (resultOwner_eq hne huuid file.path)
        (hrecord.length huser.1 huser.2) h.results
      simp only [if_pos hday]
      refine ⟨?_, ?_⟩
      · rw [hset, hmessages]
        exact h.messages
      · have hentries : resultEntries isoDay sel (insert record records) =
            {e | ∃ result ∈ toolResults record, e = resultEntry record result} ∪
              resultEntries isoDay sel records := by
          ext e
          rw [mem_resultEntries_insert]
          exact or_congr_left ⟨fun hnew => hnew.2.2, fun hnew => ⟨huser.1, huser.2, hnew⟩⟩
        rw [hentries]
        exact hresults
    · have hday : ¬ ((record.get "type").pyEq (.str "user".toList) &&
          sel.includesDay (dayOf isoDay (record.get "timestamp"))) = true :=
        fun hall => huser (Bool.and_eq_true_iff.mp hall)
      simp only [if_neg hday]
      refine ⟨?_, ?_⟩
      · rw [hset]
        exact h.messages
      · rw [resultEntries_insert_of_not huser]
        exact h.results

/-- The records of one file. -/
theorem tallies_foldl {file : SessionFile} {project kind : Text} {rs : List Fields}
    (hrs : ∀ r ∈ rs, Measured isoDay sel length r) {records : Set Fields}
    {s : ClaudeState × Dict Text Text} (h : Tallies isoDay sel length records s.1) :
    Tallies isoDay sel length ({r | r ∈ rs} ∪ records)
      (rs.foldl (claudeRecord isoDay sel file project kind) s).1 := by
  induction rs generalizing records s with
  | nil => simpa using h
  | cons r rs ih =>
    have hset : {x | x ∈ r :: rs} ∪ records = {x | x ∈ rs} ∪ insert r records := by
      ext x
      simp only [List.mem_cons, Set.mem_union, Set.mem_ofPred_eq, Set.mem_insert_iff]
      tauto
    rw [List.foldl_cons, hset]
    exact ih (fun x hx => hrs x (List.mem_cons_of_mem _ hx))
      (tallies_claudeRecord (hrs r (List.mem_cons_self ..)) h)

variable (sel) in
/-- The records of the selected files. -/
def selectedRecords (files : List SessionFile) : Set Fields :=
  {r | ∃ file ∈ files, sel.includesProject file.project ∧ r ∈ file.records}

/-- **All files.** -/
theorem tallies_claude {files : List SessionFile}
    (hfiles : ∀ r ∈ selectedRecords sel files, Measured isoDay sel length r) {records : Set Fields}
    {st : ClaudeState} (h : Tallies isoDay sel length records st) :
    Tallies isoDay sel length (selectedRecords sel files ∪ records)
      (files.foldl (claudeFile isoDay sel) st) := by
  induction files generalizing records st with
  | nil =>
    have hset : selectedRecords sel [] ∪ records = records := by
      ext r
      simp [selectedRecords]
    rwa [hset]
  | cons file files ih =>
    have hlater : ∀ r ∈ selectedRecords sel files, Measured isoDay sel length r := by
      rintro r ⟨f, hf, hrest⟩
      exact hfiles r ⟨f, List.mem_cons_of_mem _ hf, hrest⟩
    rw [List.foldl_cons]
    by_cases hproject : sel.includesProject file.project
    · have hfile : ∀ r ∈ file.records, Measured isoDay sel length r := fun r hr =>
        hfiles r ⟨file, List.mem_cons_self .., hproject, hr⟩
      have hset : selectedRecords sel (file :: files) ∪ records =
          selectedRecords sel files ∪ ({r | r ∈ file.records} ∪ records) := by
        ext r
        simp only [selectedRecords, Set.mem_union, Set.mem_ofPred_eq, List.mem_cons, exists_eq_or_imp,
          hproject, true_and]
        exact or_assoc.trans or_left_comm
      rw [hset, claudeFile, if_pos hproject]
      exact ih hlater (tallies_foldl hfile ⟨h.messages, h.results⟩)
    · have hset : selectedRecords sel (file :: files) = selectedRecords sel files := by
        ext r
        simp [selectedRecords, hproject]
      rw [hset, claudeFile, if_neg hproject]
      exact ih hlater h

end Loops

/-! ## Replays -/

section Replay
variable {isoDay : Json → Option Text} {sel : Selection}

/-- User records have uuids, and these identify them. -/
structure Identified (records : Set Fields) : Prop where
  uuid : ∀ r ∈ records, IsUser r → ∃ s, s ≠ [] ∧ r.get "uuid" = .str s
  unique : ∀ r ∈ records, ∀ r' ∈ records, IsUser r → IsUser r' → r.get "uuid" = r'.get "uuid" → r = r'

/-- A place in a record holds one result. -/
theorem toolResults_unique {record : Fields} {index : ℕ} {a b : Fields}
    (ha : (index, a) ∈ toolResults record) (hb : (index, b) ∈ toolResults record) : a = b := by
  obtain ⟨⟨v, i⟩, hv, ha⟩ := List.mem_filterMap.mp ha
  obtain ⟨⟨v', i'⟩, hv', hb⟩ := List.mem_filterMap.mp hb
  obtain ⟨part, hpart, ha⟩ := Option.map_eq_some_iff.mp ha
  obtain ⟨part', hpart', hb⟩ := Option.map_eq_some_iff.mp hb
  cases ha
  cases hb
  have hsame : some v = some v' :=
    (List.mem_zipIdx_iff_getElem?.mp hv).symm.trans (List.mem_zipIdx_iff_getElem?.mp hv')
  rw [Option.some.inj hsame, hpart'] at hpart
  exact (Option.some.inj hpart).symm

variable (isoDay sel) in
/-- Identified records give each tool result one length. -/
theorem Identified.exists_length {records : Set Fields} (h : Identified records) :
    ∃ length : ResultKey → ℕ, ∀ r ∈ records, Measured isoDay sel length r := by
  classical
  have hunique : ∀ k c c', (k, c) ∈ resultEntries isoDay sel records →
      (k, c') ∈ resultEntries isoDay sel records → c = c' := by
    rintro k c c' ⟨r, hr, huser, -, result, hresult, heq⟩ ⟨r', hr', huser', -, result', hresult', heq'⟩
    obtain ⟨uuid, hne, huuid⟩ := h.uuid r hr huser
    obtain ⟨uuid', hne', huuid'⟩ := h.uuid r' hr' huser'
    obtain ⟨hk, hc⟩ := Prod.mk.inj heq
    obtain ⟨hk', hc'⟩ := Prod.mk.inj heq'
    obtain ⟨howner, hrest⟩ := Prod.mk.inj (hk.symm.trans hk')
    rw [huuid, huuid', label, label, if_neg hne, if_neg hne'] at howner
    obtain rfl : r = r' := h.unique r hr r' hr' huser huser' (by rw [huuid, huuid', howner])
    obtain ⟨index, part⟩ := result
    obtain ⟨index', part'⟩ := result'
    obtain rfl : index = index' := (Prod.mk.inj hrest).2
    rw [hc, hc', toolResults_unique hresult hresult']
  refine ⟨fun k => if hk : ∃ c, (k, c) ∈ resultEntries isoDay sel records then hk.choose else 0,
    fun r hr => ⟨h.uuid r hr, fun huser hselected result hresult => ?_⟩⟩
  have hentry : ((resultEntry r result).1, (resultEntry r result).2) ∈
      resultEntries isoDay sel records := ⟨r, hr, huser, hselected, result, hresult, rfl⟩
  have hex : ∃ c, ((resultEntry r result).1, c) ∈ resultEntries isoDay sel records := ⟨_, hentry⟩
  simp only [dif_pos hex]
  exact hunique _ _ _ hex.choose_spec hentry

/-- **The totals are those of the set of records.** -/
theorem totals_eq_of_records_eq {files files' : List SessionFile}
    (h : Identified (selectedRecords sel files))
    (heq : selectedRecords sel files' = selectedRecords sel files) :
    totals isoDay sel files' = totals isoDay sel files := by
  obtain ⟨length, hlength⟩ := h.exists_length isoDay sel
  have hstart : Tallies isoDay sel length ∅ {} := by
    have hmessages : messageEntries isoDay sel ∅ = ∅ := by simp [messageEntries]
    have hresults : resultEntries isoDay sel ∅ = ∅ := by simp [resultEntries]
    refine ⟨?_, ?_⟩
    · rw [hmessages]
      exact ⟨nofun, Dict.collects_nil⟩
    · rw [hresults]
      exact ⟨List.nodup_nil, by simp, rfl, rfl⟩
  have hfirst := tallies_claude hlength hstart
  have hsecond := tallies_claude (heq.symm ▸ hlength) hstart
  rw [heq] at hsecond
  obtain ⟨hcalls, hchars⟩ := hsecond.results.sum_eq hfirst.results
  simp only [totals_eq, hcalls, hchars, hsecond.messages.sum_eq hfirst.messages]

variable (sel) in
/-- The records of one selected file change places, or one of `sources` is copied into it. -/
inductive ReplayStep (sources : List SessionFile → Set Fields) :
    List SessionFile → List SessionFile → Prop
  | permute (before after : List SessionFile) (file : SessionFile) (records : List Fields)
      (perm : records.Perm file.records) :
      ReplayStep sources (before ++ file :: after) (before ++ { file with records := records } :: after)
  | copy (before after : List SessionFile) (file : SessionFile) (record : Fields)
      (xs ys : List Fields) (split : file.records = xs ++ ys)
      (selected : sel.includesProject file.project)
      (source : record ∈ sources (before ++ file :: after)) :
      ReplayStep sources (before ++ file :: after)
        (before ++ { file with records := xs ++ record :: ys } :: after)

variable (sel) in
/-- Records change places within files, and records of selected files are copied into others. -/
abbrev Replay : List SessionFile → List SessionFile → Prop :=
  Relation.ReflTransGen (ReplayStep sel (selectedRecords sel))

theorem selectedRecords_append (before after : List SessionFile) (file : SessionFile) :
    selectedRecords sel (before ++ file :: after) =
      {r | sel.includesProject file.project ∧ r ∈ file.records} ∪ selectedRecords sel (before ++ after) := by
  ext r
  simp only [selectedRecords, Set.mem_ofPred_eq, List.mem_append, List.mem_cons, Set.mem_union]
  constructor
  · rintro ⟨f, hf | rfl | hf, hrest⟩
    · exact .inr ⟨f, .inl hf, hrest⟩
    · exact .inl hrest
    · exact .inr ⟨f, .inr hf, hrest⟩
  · rintro (hrest | ⟨f, hf | hf, hrest⟩)
    · exact ⟨file, .inr (.inl rfl), hrest⟩
    · exact ⟨f, .inl hf, hrest⟩
    · exact ⟨f, .inr (.inr hf), hrest⟩

/-- A step leaves the set of selected records as it is. -/
theorem selectedRecords_step {files files' : List SessionFile}
    (h : ReplayStep sel (selectedRecords sel) files files') :
    selectedRecords sel files' = selectedRecords sel files := by
  cases h with
  | permute before after file records perm =>
    rw [selectedRecords_append, selectedRecords_append]
    refine congrArg (· ∪ _) (Set.ext fun r => and_congr_right fun _ => perm.mem_iff)
  | copy before after file record xs ys split selected source =>
    rw [selectedRecords_append] at source ⊢
    rw [selectedRecords_append]
    ext r
    simp only [Set.mem_union, Set.mem_ofPred_eq, List.mem_append, List.mem_cons] at source ⊢
    rw [split] at source ⊢
    constructor
    · rintro (⟨hproject, hr | rfl | hr⟩ | hr)
      · exact .inl ⟨hproject, List.mem_append_left _ hr⟩
      · exact source
      · exact .inl ⟨hproject, List.mem_append_right _ hr⟩
      · exact .inr hr
    · rintro (⟨hproject, hr⟩ | hr)
      · exact .inl ⟨hproject, (List.mem_append.mp hr).imp id .inr⟩
      · exact .inr hr

/-- **The totals are the same under any replay.** -/
theorem totals_eq_of_replay (isoDay : Json → Option Text) {files files' : List SessionFile}
    (h : Identified (selectedRecords sel files)) (hreplay : Replay sel files files') :
    totals isoDay sel files' = totals isoDay sel files := by
  refine totals_eq_of_records_eq h ?_
  induction hreplay with
  | refl => rfl
  | tail _ hstep ih => exact (selectedRecords_step hstep).trans ih

end Replay

/-! ## Two logs -/

/-- Every project, since the third of the month. -/
def everyProject : Selection := ⟨"2026-10-03".toList, []⟩

/-- A user record that carries one tool result. -/
def userRecord (uuid : String) : Fields :=
  [("type".toList, .str "user".toList), ("uuid".toList, .str uuid.toList),
    ("timestamp".toList, .str "2026-10-10T12:00:00Z".toList),
    ("message".toList, .obj [("content".toList, .arr [.obj [
      ("type".toList, .str "tool_result".toList), ("tool_use_id".toList, .str "tool-1".toList),
      ("content".toList, .str "done".toList)]])])]

/-- An assistant record of one message. -/
def assistantRecord (output : ℕ) : Fields :=
  [("type".toList, .str "assistant".toList), ("timestamp".toList, .str "2026-10-10T12:00:00Z".toList),
    ("message".toList, .obj [("id".toList, .str "one".toList),
      ("usage".toList, .obj [("output_tokens".toList, .int output)])])]

/-- A session file of a project. -/
def session (project : String) (records : List Fields) : SessionFile :=
  ⟨project.toList ++ "/log.jsonl".toList, [project.toList, "log.jsonl".toList], records⟩

theorem not_isUser_assistantRecord (output : ℕ) : ¬ IsUser (assistantRecord output) := by
  rw [IsUser, Json.pyEq_of_str]
  exact fun h => absurd h (by simp [assistantRecord, Fields.get, Json.find])

/-- The records of a list of files. -/
theorem mem_of_mem_selectedRecords {sel : Selection} {files : List SessionFile} {r : Fields}
    (h : r ∈ selectedRecords sel files) : r ∈ files.flatMap SessionFile.records := by
  obtain ⟨f, hf, -, hr⟩ := h
  exact List.mem_flatMap.mpr ⟨f, hf, hr⟩

theorem identified_of_eq {records : Set Fields} (uuid : String) (hne : uuid.toList ≠ [])
    (h : ∀ r ∈ records, IsUser r → r = userRecord uuid) : Identified records where
  uuid r hr huser := ⟨uuid.toList, hne, by rw [h r hr huser]; rfl⟩
  unique r hr r' hr' huser huser' _ := by rw [h r hr huser, h r' hr' huser']

/-- A message that streams twice, whose records change places, and a copied result. -/
theorem totals_eq_of_replay_log :
    totals stampDay everyProject [session "a" [assistantRecord 15, assistantRecord 10, userRecord "u"],
      session "b" [userRecord "u"]] =
    totals stampDay everyProject [session "a" [assistantRecord 10, assistantRecord 15, userRecord "u"],
      session "b" []] := by
  refine totals_eq_of_replay stampDay (identified_of_eq "u" (by decide) fun r hr huser => ?_)
    (.tail (.single (.permute [] _ _ _ (.swap ..))) (.copy [_] [] _ (userRecord "u") [] [] rfl
      (by decide) ?_))
  · have hmem := mem_of_mem_selectedRecords hr
    simp only [session, List.flatMap_cons, List.flatMap_nil, List.append_nil, List.mem_cons,
      List.not_mem_nil, or_false] at hmem
    rcases hmem with rfl | rfl | rfl
    · exact absurd huser (not_isUser_assistantRecord _)
    · exact absurd huser (not_isUser_assistantRecord _)
    · rfl
  · exact ⟨_, List.mem_cons_self .., by decide, by simp⟩

/-- User records have uuids that may be empty. -/
structure Carried (records : Set Fields) : Prop where
  uuid : ∀ r ∈ records, IsUser r → ∃ s, r.get "uuid" = .str s
  unique : ∀ r ∈ records, ∀ r' ∈ records, IsUser r → IsUser r' → r.get "uuid" = r'.get "uuid" → r = r'

/-- An empty uuid counts as none, and a record of a file that is not selected counts once it
is copied into one that is. -/
theorem not_totals_eq :
    (∃ files files', Carried (selectedRecords everyProject files) ∧ Replay everyProject files files' ∧
      totals stampDay everyProject files' ≠ totals stampDay everyProject files) ∧
    ∃ sel files files', Identified {r | r ∈ files.flatMap SessionFile.records} ∧
      Relation.ReflTransGen (ReplayStep sel fun files => {r | r ∈ files.flatMap SessionFile.records})
        files files' ∧ totals stampDay sel files' ≠ totals stampDay sel files := by
  constructor
  · refine ⟨[session "a" [userRecord ""], session "b" []],
      [session "a" [userRecord ""], session "b" [userRecord ""]], ⟨?_, ?_⟩, .single
        (.copy [_] [] (session "b" []) (userRecord "") [] [] rfl (by decide) ?_), ?_⟩
    · intro r hr _
      have hmem := mem_of_mem_selectedRecords hr
      obtain rfl : r = userRecord "" := by simpa [session] using hmem
      exact ⟨[], rfl⟩
    · intro r hr r' hr' _ _ _
      have hmem := mem_of_mem_selectedRecords hr
      have hmem' := mem_of_mem_selectedRecords hr'
      obtain rfl : r = userRecord "" := by simpa [session] using hmem
      obtain rfl : r' = userRecord "" := by simpa [session] using hmem'
      rfl
    · exact ⟨_, List.mem_cons_self .., by decide, by simp [session]⟩
    · rw [totals_eq, totals_eq]
      decide
  · refine ⟨⟨"2026-10-03".toList, "b".toList⟩, [session "a" [userRecord "u"], session "b" []],
      [session "a" [userRecord "u"], session "b" [userRecord "u"]],
      identified_of_eq "u" (by decide) fun r hr _ => by simpa [session] using hr,
      .single (.copy [_] [] (session "b" []) (userRecord "u") [] [] rfl (by decide) ?_), ?_⟩
    · simp [session]
    · rw [totals_eq, totals_eq]
      decide

end TokenReport
