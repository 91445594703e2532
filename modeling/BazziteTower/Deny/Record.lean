import BazziteTower.Deny.Trial
import BazziteTower.Lib.JsonRoundTrip

/-!
# The records of a trial

The states that `on` and `confirm` write are plain JSON objects with a schema, a
boolean `pending` and a textual id, so `load_state` reads them back.

## Main definitions

* `IsRecord` — what every written state satisfies.

## Main results

* `stateOf_recordBytes` — a written state loads.
* `isRecord_trialState`, `IsRecord.confirmed` — what `on` and `confirm` write.
-/

namespace Deny

theorem plain_attributes (depth : ℕ) (xattrs : List (Text × Bytes)) :
    ((attributes xattrs).map Prod.fst).Nodup ∧ Json.PlainMembers depth (attributes xattrs) := by
  suffices h : ∀ ms : Fields, (ms.map Prod.fst).Nodup ∧ Json.PlainMembers depth ms →
      ((xattrs.foldl (fun ms x => Json.insert x.1 (encoded x.2) ms) ms).map Prod.fst).Nodup ∧
        Json.PlainMembers depth
          (xattrs.foldl (fun ms x => Json.insert x.1 (encoded x.2) ms) ms) from
    h [] ⟨List.nodup_nil, trivial⟩
  induction xattrs with
  | nil => exact fun _ h => h
  | cons x xs ih =>
    intro ms h
    exact ih _ ⟨Json.nodup_insert h.1 _ _,
      Json.plainMembers_insert h.2 _ (show Json.Plain _ (encoded x.2) from trivial)⟩

theorem plain_metadataOf (depth : ℕ) (info : Stat) (xattrs : List (Text × Bytes)) :
    Json.Plain (depth + 2) (metadataOf info xattrs) := by
  obtain ⟨hkeys, hplain⟩ := plain_attributes depth xattrs
  have hnames : ["uid".toList, "gid".toList, "mode".toList, "xattrs".toList].Nodup := by decide
  exact ⟨by omega, hnames, Json.plain_uint32 _ _, Json.plain_uint32 _ _, Json.plain_uint32 _ _,
    ⟨by omega, hkeys, hplain⟩, trivial⟩

/-- What every state that a command writes satisfies. -/
structure IsRecord (state : Fields) : Prop where
  keys : (state.map Prod.fst).Nodup
  plain : Json.PlainMembers (Json.recursionLimit - 1) state
  schema : Json.find "schema".toList state = some (.int 1)
  pending : ∃ b, Json.find "pending".toList state = some (.bool b)
  id : ∃ s, Json.find "id".toList state = some (.str s)

/-- A written state loads, with its keys sorted. -/
theorem stateOf_recordBytes {state : Fields} (h : IsRecord state) :
    stateOf (recordBytes state) = .ok (Json.sortMembers state) := by
  obtain ⟨b, hpending⟩ := h.pending
  have hplain : Json.Plain Json.recursionLimit (.obj state) := ⟨by decide, h.keys, h.plain⟩
  have hloads := Json.loads_dumpsSorted hplain 2
  have hschema : Fields.get (Json.sortMembers state) "schema" = .int 1 := by
    rw [Fields.get, Json.find_sortMembers h.keys, h.schema]
    rfl
  have hbool : Fields.get (Json.sortMembers state) "pending" = .bool b := by
    rw [Fields.get, Json.find_sortMembers h.keys, hpending]
    rfl
  rw [stateOf, recordBytes, hloads]
  simp only [Json.sortKeys, hschema, hbool]
  rfl

theorem IsRecord.sorted {state : Fields} (h : IsRecord state) : IsRecord (Json.sortMembers state) where
  keys := (Json.keys_sortMembers state).nodup_iff.mpr h.keys
  plain := Json.plainMembers_sortMembers state h.plain
  schema := by rw [Json.find_sortMembers h.keys, h.schema]; rfl
  pending := by
    obtain ⟨b, hb⟩ := h.pending
    exact ⟨b, by rw [Json.find_sortMembers h.keys, hb]; rfl⟩
  id := by
    obtain ⟨s, hs⟩ := h.id
    exact ⟨s, by rw [Json.find_sortMembers h.keys, hs]; rfl⟩

/-- The state that `on` writes. -/
theorem isRecord_trialState (id : Text) (now : Moment) (minutes : Minutes) (data deny : Bytes)
    {metadata : Json} (hmetadata : Json.Plain (Json.recursionLimit - 1) metadata)
    (boot : Option Text) : IsRecord (trialState id now minutes data deny metadata boot) where
  keys := by
    have hnames : ["schema".toList, "id".toList, "pending".toList, "createdAt".toList,
        "minutes".toList, "expiresAt".toList, "backupSha256".toList, "backupMetadata".toList,
        "denySha256".toList, "bootId".toList].Nodup := by
      decide
    exact hnames
  plain := by
    have hminutes : Json.Plain (Json.recursionLimit - 1) (.int minutes.val) :=
      Json.plain_nat _ (lt_of_le_of_lt minutes.2.2 (by decide))
    have hone : Json.Plain (Json.recursionLimit - 1) (.int 1) := Json.plain_nat _ (by decide)
    have hboot : Json.Plain (Json.recursionLimit - 1) (optionalText boot) := by
      cases boot <;> trivial
    exact ⟨hone, trivial, trivial, trivial, hminutes, trivial, trivial, hmetadata, trivial, hboot,
      trivial⟩
  schema := rfl
  pending := ⟨true, rfl⟩
  id := ⟨id, rfl⟩

/-- The state that `confirm` writes. -/
theorem IsRecord.confirmed {state : Fields} (h : IsRecord state) (confirmedAt : Text) :
    IsRecord (confirmedState state confirmedAt) where
  keys := Json.nodup_insert (Json.nodup_insert h.keys _ _) _ _
  plain := Json.plainMembers_insert
    (Json.plainMembers_insert h.plain _ (show Json.Plain _ (.bool false) from trivial)) _
    (show Json.Plain _ (.str confirmedAt) from trivial)
  schema := by
    rw [confirmedState, Json.find_insert_ne (by decide), Json.find_insert_ne (by decide), h.schema]
  pending := ⟨false, by
    rw [confirmedState, Json.find_insert_ne (by decide), Json.find_insert_self]⟩
  id := by
    obtain ⟨s, hs⟩ := h.id
    exact ⟨s, by
      rw [confirmedState, Json.find_insert_ne (by decide), Json.find_insert_ne (by decide), hs]⟩

end Deny
