import BazziteTower.Ci.Inventory

/-!
# The inventory between its table and its document

The parser of the package inventory accepts the tables of distinct valid records, in
any order of the lines, and nothing else; and the document of an inventory determines
the inventory.

A field may hold any character of Unicode but a tab and the ten that end a line, so the
round trip goes through the encoding, the translation of line ends and the splitting of
lines, each of which leaves such a field alone.

## Main definitions

* `Rpm.Valid`, `Rpm.row` — a record whose fields fit into a table, and its line there.
* `Table` — a file holds the lines of records.

## Main results

* `parseInventory_eq_ok` — what the parser accepts.
* `inventory_document` — the parser and the document.
-/

namespace Inventory

variable {isDecimal : Char → Bool}

/-- The line of a record. -/
def Rpm.row (r : Rpm) : Text := ['\t'].intercalate r.fields

/-- The records fit into a table: the fields are there, not surrounded by white space, and
hold neither tab nor end of line; the epoch is a number. -/
structure Rpm.Valid (isDecimal : Char → Bool) (r : Rpm) : Prop where
  nonempty : ∀ f ∈ r.fields, f ≠ []
  stripped : ∀ f ∈ r.fields, Text.strip f = f
  plain : ∀ f ∈ r.fields, ∀ c ∈ f, c ≠ '\t' ∧ Text.isBreak c = false
  epoch : r.epoch.all isDecimal

/-- The lines of records, with what follows the last one. -/
def render (records : List Rpm) (last : Text) : Text :=
  ['\n'].intercalate (records.map Rpm.row) ++ last

theorem Rpm.splitOn_row {r : Rpm} (h : ∀ f ∈ r.fields, '\t' ∉ f) : r.row.splitOn '\t' = r.fields :=
  List.splitOn_intercalate _ h (by simp [Rpm.fields])

/-- What a row of the table is read as. -/
theorem parseRow_eq_ok {line : Text} {number : ℕ} {r : Rpm} :
    parseRow isDecimal line number = .ok r ↔
      line.splitOn '\t' = r.fields ∧ (∀ f ∈ r.fields, f ≠ [] ∧ Text.strip f = f) ∧
        r.epoch.all isDecimal := by
  constructor
  · intro h
    have hfields := fields_of_parseRow h
    unfold parseRow at h
    split at h
    · split_ifs at h with hany hepoch
      obtain rfl := Except.ok.inj h
      refine ⟨hfields, ?_, hepoch⟩
      intro f hf
      have := List.any_eq_false.mp (Bool.eq_false_iff.mpr hany) f hf
      simp only [Bool.or_eq_true, decide_eq_true_eq, not_or, not_not] at this
      exact ⟨this.1, this.2.symm⟩
    · cases h
  · rintro ⟨hsplit, hfields, hepoch⟩
    have hany : (r.fields.any fun f => decide (f = []) || decide (f ≠ Text.strip f)) = false := by
      rw [List.any_eq_false]
      intro f hf
      simp only [Bool.or_eq_true, decide_eq_true_eq, not_or, not_not]
      exact ⟨(hfields f hf).1, (hfields f hf).2.symm⟩
    rw [parseRow, hsplit]
    simp only [Rpm.fields] at hany ⊢
    rw [hany, if_neg (by simp), if_pos hepoch]

/-- A line that holds no end of line is the row of what it is read as. -/
theorem parseRow_eq_ok_iff_row {line : Text} {number : ℕ} {r : Rpm}
    (hline : ∀ c ∈ line, Text.isBreak c = false) :
    parseRow isDecimal line number = .ok r ↔ line = r.row ∧ r.Valid isDecimal := by
  rw [parseRow_eq_ok]
  constructor
  · rintro ⟨hsplit, hfields, hepoch⟩
    refine ⟨?_, fun f hf => (hfields f hf).1, fun f hf => (hfields f hf).2, ?_, hepoch⟩
    · rw [Rpm.row, ← hsplit, List.intercalate_splitOn]
    · intro f hf c hc
      rw [← hsplit, List.splitOn_eq_splitOnP] at hf
      obtain ⟨hmem, htab⟩ := Text.of_mem_splitOnP hf hc
      exact ⟨by simpa using htab, hline c hmem⟩
  · rintro ⟨rfl, hvalid⟩
    refine ⟨Rpm.splitOn_row fun f hf ht => ?_, fun f hf => ⟨hvalid.nonempty f hf, hvalid.stripped f hf⟩,
      hvalid.epoch⟩
    exact (hvalid.plain f hf _ ht).1 rfl

theorem mapM_parseRow_eq_ok {lines : List Text} {number : ℕ} {records : List Rpm}
    (hlines : ∀ line ∈ lines, ∀ c ∈ line, Text.isBreak c = false) :
    (lines.zipIdx number).mapM (fun row => parseRow isDecimal row.1 row.2) = .ok records ↔
      lines = records.map Rpm.row ∧ ∀ r ∈ records, r.Valid isDecimal := by
  induction lines generalizing number records with
  | nil => cases records <;> simp [pure, Except.pure]
  | cons line lines ih =>
    have hrest : ∀ l ∈ lines, ∀ c ∈ l, Text.isBreak c = false :=
      fun l hl => hlines l (List.mem_cons_of_mem _ hl)
    simp only [List.zipIdx_cons, List.mapM_cons, Except.bind_eq_ok, ih hrest,
      parseRow_eq_ok_iff_row (hlines line (by simp))]
    constructor
    · rintro ⟨r, ⟨rfl, hr⟩, rs, ⟨rfl, hrs⟩, h⟩
      obtain rfl : r :: rs = records := Except.ok.inj h
      exact ⟨rfl, List.forall_mem_cons.mpr ⟨hr, hrs⟩⟩
    · rintro ⟨hmap, hvalid⟩
      cases records with
      | nil => cases hmap
      | cons r rs =>
        rw [List.map_cons, List.cons.injEq] at hmap
        rw [List.forall_mem_cons] at hvalid
        exact ⟨r, ⟨hmap.1, hvalid.1⟩, rs, ⟨hmap.2, hvalid.2⟩, rfl⟩

/-- A file holds the lines of distinct valid records. -/
structure Table (isDecimal : Char → Bool) (data : Bytes) (records : List Rpm) : Prop where
  lines : ∃ text : Text, Text.decodeUtf8 false data = some text ∧
    text.universalNewlines.splitlines = records.map Rpm.row
  valid : ∀ r ∈ records, r.Valid isDecimal
  nonempty : records ≠ []
  nodup : records.Nodup

/-- **The parser accepts tables of distinct valid records.** -/
theorem parseInventory_eq_ok {data : Bytes} {sorteds : List Rpm} :
    parseInventory isDecimal data = .ok sorteds ↔
      ∃ records, Table isDecimal data records ∧ sorteds = sorted records := by
  have hlines (text : Text) : ∀ line ∈ text.splitlines, ∀ c ∈ line, Text.isBreak c = false := by
    intro line hline c hc
    by_contra hbreak
    exact Text.not_mem_of_mem_splitlines hline (by simpa using hbreak) hc
  have hutf8 (text : Text) : utf8 data = .ok text ↔ Text.decodeUtf8 false data = some text := by
    rw [utf8]
    cases Text.decodeUtf8 false data <;> simp
  simp only [parseInventory, Except.bind_eq_ok, Refresh.require_eq_ok, hutf8,
    mapM_parseRow_eq_ok (hlines _), pure, Except.pure, Except.ok.injEq]
  constructor
  · rintro ⟨text, htext, records, ⟨hrows, hvalid⟩, _, hne, _, hnodup, rfl⟩
    exact ⟨records, ⟨⟨text, htext, hrows⟩, hvalid, by simpa using hne, by simpa using hnodup⟩, rfl⟩
  · rintro ⟨records, ⟨⟨text, htext, hrows⟩, hvalid, hne, hnodup⟩, rfl⟩
    exact ⟨text, htext, records, ⟨hrows, hvalid⟩, (), by simpa using hne, (), by simpa using hnodup,
      rfl⟩

/-- What is wrong with a file: it is no text, it has no lines, a line is not the row of any
valid record, or a line is there twice. -/
inductive Faulty (isDecimal : Char → Bool) (data : Bytes) : Prop
  | bytes (h : Text.decodeUtf8 false data = none)
  | empty (text : Text) (h : Text.decodeUtf8 false data = some text)
      (hlines : text.universalNewlines.splitlines = [])
  | row (text line : Text) (h : Text.decodeUtf8 false data = some text)
      (hline : line ∈ text.universalNewlines.splitlines)
      (hrow : ∀ r : Rpm, r.Valid isDecimal → line ≠ r.row)
  | duplicate (text : Text) (h : Text.decodeUtf8 false data = some text)
      (hlines : ¬ text.universalNewlines.splitlines.Nodup)

theorem Rpm.Valid.row_inj {r s : Rpm} (hr : r.Valid isDecimal) (hs : s.Valid isDecimal)
    (h : r.row = s.row) : r = s := by
  have hfields : r.row.splitOn '\t' = s.row.splitOn '\t' := by rw [h]
  rw [splitOn_row fun f hf ht => (hr.plain f hf _ ht).1 rfl,
    splitOn_row fun f hf ht => (hs.plain f hf _ ht).1 rfl] at hfields
  exact Rpm.fields_injective hfields

theorem exists_records {lines : List Text}
    (h : ∀ line ∈ lines, ∃ r : Rpm, r.Valid isDecimal ∧ line = r.row) :
    ∃ records : List Rpm, lines = records.map Rpm.row ∧ ∀ r ∈ records, r.Valid isDecimal := by
  induction lines with
  | nil => exact ⟨[], rfl, by simp⟩
  | cons line lines ih =>
    obtain ⟨r, hr, rfl⟩ := h line (by simp)
    obtain ⟨rs, rfl, hrs⟩ := ih fun l hl => h l (List.mem_cons_of_mem _ hl)
    exact ⟨r :: rs, rfl, List.forall_mem_cons.mpr ⟨hr, hrs⟩⟩

/-- **The parser refuses faulty files**, and no others. -/
theorem parseInventory_eq_error {data : Bytes} :
    (∃ e, parseInventory isDecimal data = .error e) ↔ Faulty isDecimal data := by
  constructor
  · rintro ⟨e, he⟩
    by_contra hfault
    obtain ⟨text, htext⟩ : ∃ text : Text, Text.decodeUtf8 false data = some text := by
      cases hdecode : Text.decodeUtf8 false data with
      | none => exact absurd (.bytes hdecode) hfault
      | some text => exact ⟨text, rfl⟩
    obtain ⟨records, hrows, hvalid⟩ :=
        @exists_records isDecimal text.universalNewlines.splitlines <| by
      intro line hline
      by_contra hno
      exact hfault (.row text line htext hline fun r hr hrow => hno ⟨r, hr, hrow⟩)
    have hne : records ≠ [] := by
      rintro rfl
      exact hfault (.empty text htext hrows)
    have hnodup : records.Nodup := by
      by_contra hdup
      refine hfault (.duplicate text htext fun h => hdup ?_)
      rw [hrows] at h
      exact h.of_map
    have hok := parseInventory_eq_ok.mpr ⟨records, ⟨⟨text, htext, hrows⟩, hvalid, hne, hnodup⟩, rfl⟩
    rw [he] at hok
    cases hok
  · intro hfault
    cases hparse : parseInventory isDecimal data with
    | error e => exact ⟨e, rfl⟩
    | ok sorteds =>
      exfalso
      obtain ⟨records, ⟨⟨text, htext, hrows⟩, hvalid, hne, hnodup⟩, -⟩ :=
        parseInventory_eq_ok.mp hparse
      cases hfault with
      | bytes h => simp [h] at htext
      | empty text' h hlines =>
        obtain rfl := Option.some.inj (htext.symm.trans h)
        rw [hlines, eq_comm, List.map_eq_nil_iff] at hrows
        exact hne hrows
      | row text' line h hline hrow =>
        obtain rfl := Option.some.inj (htext.symm.trans h)
        obtain ⟨r, hr, rfl⟩ := List.mem_map.mp (hrows ▸ hline)
        exact hrow r (hvalid r hr) rfl
      | duplicate text' h hlines =>
        obtain rfl := Option.some.inj (htext.symm.trans h)
        refine hlines (hrows ▸ hnodup.map_on ?_)
        exact fun r hr s hs h => (hvalid r hr).row_inj (hvalid s hs) h

/-- The rendering of valid records is a table of them. -/
theorem table_render {records : List Rpm} {last : Text} (hvalid : ∀ r ∈ records, r.Valid isDecimal)
    (hne : records ≠ []) (hnodup : records.Nodup) (hlast : last = [] ∨ last = ['\n']) :
    Table isDecimal (Text.encode (render records last)) records := by
  have hrow : ∀ line ∈ records.map Rpm.row, line ≠ [] ∧ ∀ c ∈ line, Text.isBreak c = false := by
    intro line hline
    obtain ⟨r, hr, rfl⟩ := List.mem_map.mp hline
    constructor
    · simp [Rpm.row, Rpm.fields]
    · intro c hc
      by_cases htab : c = '\t'
      · rw [htab]
        decide
      · obtain ⟨f, hf, hcf⟩ := Text.mem_intercalate htab hc
        exact ((hvalid r hr).plain f hf c hcf).2
  have hreturn : '\r' ∉ render records last := by
    rw [render, List.mem_append, not_or]
    constructor
    · intro hr
      obtain ⟨line, hline, hc⟩ := Text.mem_intercalate (by decide) hr
      have := (hrow line hline).2 _ hc
      revert this
      decide
    · rcases hlast with rfl | rfl <;> simp
  refine ⟨⟨_, Text.decodeUtf8_encode false _, ?_⟩, hvalid, hne, hnodup⟩
  rw [Text.universalNewlines_eq_self hreturn, render]
  exact Text.splitlines_intercalate (by simpa using hne) hrow hlast

/-! ## Sorting -/

theorem perm_sorted (records : List Rpm) : (sorted records).Perm records :=
  List.perm_insertionSort _ _

theorem pairwise_sorted (records : List Rpm) :
    (sorted records).Pairwise fun r s => r.fields ≤ s.fields := by
  have : Std.Total fun r s : Rpm => r.fields ≤ s.fields := ⟨fun r s => Std.le_total⟩
  have : IsTrans Rpm fun r s => r.fields ≤ s.fields := ⟨fun _ _ _ => Std.le_trans⟩
  exact List.pairwise_insertionSort (fun r s : Rpm => r.fields ≤ s.fields) records

theorem sorted_eq_of_perm {records records' : List Rpm} (h : records.Perm records') :
    sorted records = sorted records' := by
  refine List.Perm.eq_of_pairwise (fun r s _ _ hrs hsr => ?_) (pairwise_sorted _)
    (pairwise_sorted _) ((perm_sorted _).trans (h.trans (perm_sorted _).symm))
  exact Rpm.fields_injective (Std.le_antisymm hrs hsr)

/-! ## The document -/

theorem namespaceOf_eq_of_makeDocument {records records' : List Rpm} {created : Text}
    (h : makeDocument records created = makeDocument records' created) :
    namespaceOf records created = namespaceOf records' created := by
  simp only [makeDocument, Refresh.object, List.map_cons, Json.obj.injEq, List.cons.injEq,
    Prod.mk.injEq, Json.str.injEq] at h
  exact h.2.2.2.2.1.2

/-- **The parser and the document.**  The parser turns the rendering of distinct valid records
into the same records in ascending order, whatever the order of the lines, and refuses what is
faulty; and inventories that it accepts have different documents, unless their digests collide. -/
theorem inventory_document (isDecimal : Char → Bool) :
    (∀ (records lines : List Rpm) (last : Text), records ≠ [] → records.Nodup →
      (∀ r ∈ records, r.Valid isDecimal) → lines.Perm records → (last = [] ∨ last = ['\n']) →
        parseInventory isDecimal (Text.encode (render lines last)) = .ok (sorted records) ∧
        (sorted records).Perm records ∧
        (sorted records).Pairwise fun r s => r.fields ≤ s.fields) ∧
    (∀ data : Bytes, Faulty isDecimal data → ∃ e, parseInventory isDecimal data = .error e) ∧
    ∀ (data data' : Bytes) (records records' : List Rpm) (created : Text),
      parseInventory isDecimal data = .ok records → parseInventory isDecimal data' = .ok records' →
      (sha256 (Text.encode (canonical records created)) =
        sha256 (Text.encode (canonical records' created)) →
          Text.encode (canonical records created) = Text.encode (canonical records' created)) →
      makeDocument records created = makeDocument records' created → records = records' := by
  refine ⟨?_, fun data => parseInventory_eq_error.mpr, ?_⟩
  · intro records lines last hne hnodup hvalid hperm hlast
    have htable := @table_render isDecimal lines last (fun r hr => hvalid r (hperm.subset hr))
      (fun hnil => hne (hnil ▸ hperm).nil_eq.symm) (hperm.nodup_iff.mpr hnodup) hlast
    exact ⟨parseInventory_eq_ok.mpr ⟨lines, htable, sorted_eq_of_perm hperm.symm⟩,
      perm_sorted records, pairwise_sorted records⟩
  · intro data data' records records' created hparse hparse' hfree hdocument
    have hdigest := List.append_cancel_left (namespaceOf_eq_of_makeDocument hdocument)
    exact canonical_injective (tabular_parseInventory hparse) (tabular_parseInventory hparse')
      (Text.encode_injective (hfree hdigest))

def bash : Rpm := ⟨"bash".toList, "0".toList, "5.2".toList, "1.fc41".toList, "x86_64".toList⟩

def zlib : Rpm := ⟨"zlib-ng".toList, "1".toList, "2.2".toList, "3.fc41".toList, "x86_64".toList⟩

theorem plain_of_all {fields : List Text}
    (h : fields.all fun f => f.all fun c => c ≠ '\t' && !Text.isBreak c) :
    ∀ f ∈ fields, ∀ c ∈ f, c ≠ '\t' ∧ Text.isBreak c = false := by
  simpa using h

theorem valid_samples : ∀ r ∈ [bash, zlib], r.Valid Char.isDigit := by
  intro r hr
  obtain rfl | rfl : r = bash ∨ r = zlib := by simpa using hr
  · exact ⟨by decide, by decide, plain_of_all (by decide), by decide⟩
  · exact ⟨by decide, by decide, plain_of_all (by decide), by decide⟩

/-- Two packages, listed in either order, and a file whose row lacks a field. -/
theorem inventory_document_samples :
    (parseInventory Char.isDigit (Text.encode (render [zlib, bash] ['\n'])) = .ok (sorted [bash, zlib]) ∧
      sorted [bash, zlib] = [bash, zlib]) ∧
    (∃ e, parseInventory Char.isDigit (Text.encode "bash\t0\t5.2".toList) = .error e) ∧
    sorted [bash, zlib] = sorted [zlib, bash] := by
  have htheorem := inventory_document Char.isDigit
  have ⟨hreversed, _⟩ := htheorem.1 [bash, zlib] [zlib, bash] ['\n'] (by simp) (by decide)
    valid_samples (List.Perm.swap ..) (.inr rfl)
  have ⟨hstraight, _⟩ := htheorem.1 [zlib, bash] [zlib, bash] ['\n'] (by simp) (by decide)
    (fun r hr => valid_samples r (by simpa [or_comm] using hr)) (List.Perm.refl _) (.inr rfl)
  refine ⟨⟨hreversed, by decide⟩, htheorem.2.1 _ ?_, ?_⟩
  · refine .row _ "bash\t0\t5.2".toList (Text.decodeUtf8_encode false _) (by decide) ?_
    intro r hr hrow
    have hfields := @Rpm.splitOn_row r fun f hf ht => (hr.plain f hf _ ht).1 rfl
    rw [← hrow] at hfields
    have hlength : ("bash\t0\t5.2".toList.splitOn '\t').length = 5 := by rw [hfields]; rfl
    revert hlength
    decide
  · exact htheorem.2.2 _ _ _ _ [] hreversed hstraight (fun _ => rfl) rfl

end Inventory
