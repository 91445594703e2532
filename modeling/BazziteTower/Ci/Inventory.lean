import BazziteTower.Ci.Refresh
import BazziteTower.Lib.Sha256
import BazziteTower.Lib.Strings
import Mathlib.Data.List.Sort

/-!
# The package inventory and its SPDX document

`rpm-inventory-spdx.py`: the rows of an installed-RPM table, and the document that is
derived from them.  Which characters are decimal digits is a table of Unicode, so
`isDecimal` is a parameter.

The document names the digest of the whole inventory, so two inventories with one
document are the same, as long as their digests do not collide.

## Main definitions

* `Rpm`, `parseInventory` — the rows, each valid, no two alike, sorted.
* `canonical`, `makeDocument` — the text that is hashed, and the document.

## Main results

* `canonical_injective` — the hashed text determines the inventory.
-/

namespace Inventory

/-- One row. -/
structure Rpm where
  name : Text
  epoch : Text
  version : Text
  release : Text
  arch : Text
  deriving DecidableEq

def Rpm.fields (r : Rpm) : List Text := [r.name, r.epoch, r.version, r.release, r.arch]

theorem Rpm.fields_injective : Function.Injective Rpm.fields := by
  rintro ⟨⟩ ⟨⟩ h
  simpa [Rpm.fields] using h

/-- The failure of a row. -/
def invalidRow (what : String) (number : ℕ) : Exn :=
  .raised .value ("invalid RPM " ++ what ++ " row " ++ toString number)

section Parse
variable (isDecimal : Char → Bool)

/-- One row of the table. -/
def parseRow (line : Text) (number : ℕ) : Except Exn Rpm :=
  match line.splitOn '\t' with
  | [name, epoch, version, release, arch] =>
    if [name, epoch, version, release, arch].any fun f => f = [] || f ≠ Text.strip f then
      .error (invalidRow "inventory" number)
    else if epoch.all isDecimal then .ok ⟨name, epoch, version, release, arch⟩
    else .error (.raised .value ("invalid RPM epoch at row " ++ toString number))
  | _ => .error (invalidRow "inventory" number)

/-- `sorted(records)`. -/
def sorted (records : List Rpm) : List Rpm :=
  records.insertionSort fun r s => r.fields ≤ s.fields

/-- `parse_inventory`, from the bytes of the file on. -/
def parseInventory (data : Bytes) : Except Exn (List Rpm) := do
  let text := (← utf8 data).universalNewlines
  let records ← (text.splitlines.zipIdx 1).mapM fun row => parseRow isDecimal row.1 row.2
  Refresh.require (!records.isEmpty) "RPM inventory is empty"
  Refresh.require records.Nodup "RPM inventory contains duplicate EVRA records"
  return sorted records

end Parse

/-- `"\n".join("\t".join(record) for record in records)` and the time of creation. -/
def canonical (records : List Rpm) (created : Text) : Text :=
  ['\n'].intercalate (records.map fun r => ['\t'].intercalate r.fields) ++
    "\ncreated=".toList ++ created

/-- `package_id`. -/
def packageId (r : Rpm) : Text :=
  "SPDXRef-RPM-".toList ++ (sha256 (Text.encode (['\t'].intercalate r.fields))).take 16

open Refresh (object text)

def packageOf (r : Rpm) : Json :=
  object [("SPDXID", .str (packageId r)), ("name", .str r.name),
    ("versionInfo", .str (r.epoch ++ ':' :: r.version ++ '-' :: r.release ++ '.' :: r.arch)),
    ("downloadLocation", text "NOASSERTION"), ("filesAnalyzed", .bool false),
    ("licenseConcluded", text "NOASSERTION"), ("licenseDeclared", text "NOASSERTION"),
    ("copyrightText", text "NOASSERTION")]

def relationshipOf (r : Rpm) : Json :=
  object [("spdxElementId", text "SPDXRef-DOCUMENT"), ("relationshipType", text "DESCRIBES"),
    ("relatedSpdxElement", .str (packageId r))]

/-- The name of the document, with the digest of the inventory. -/
def namespaceOf (records : List Rpm) (created : Text) : Text :=
  "https://spdx.org/spdxdocs/bazzite-tower-rpm-inventory-".toList ++
    sha256 (Text.encode (canonical records created))

/-- `make_document`. -/
def makeDocument (records : List Rpm) (created : Text) : Json :=
  object [("spdxVersion", text "SPDX-2.3"), ("dataLicense", text "CC0-1.0"),
    ("SPDXID", text "SPDXRef-DOCUMENT"), ("name", text "bazzite-tower installed RPM inventory"),
    ("documentNamespace", .str (namespaceOf records created)),
    ("creationInfo", object [("created", .str created),
      ("creators", .arr [text "Tool: bazzite-tower-rpm-inventory-spdx-1.0.0"])]),
    ("packages", .arr (records.map packageOf)),
    ("relationships", .arr (records.map relationshipOf))]

/-! ## The inventory behind a document -/

/-- Rows of a table: at least one, and no separator in a field. -/
structure Tabular (records : List Rpm) : Prop where
  nonempty : records ≠ []
  plain : ∀ r ∈ records, ∀ f ∈ r.fields, '\t' ∉ f ∧ '\n' ∉ f

theorem fields_of_parseRow {isDecimal : Char → Bool} {line : Text} {number : ℕ} {r : Rpm}
    (h : parseRow isDecimal line number = .ok r) : line.splitOn '\t' = r.fields := by
  unfold parseRow at h
  split at h
  · split at h
    · cases h
    · split at h
      · obtain rfl := Except.ok.inj h
        assumption
      · cases h
  · cases h

theorem tabular_parseInventory {isDecimal : Char → Bool} {data : Bytes} {records : List Rpm}
    (h : parseInventory isDecimal data = .ok records) : Tabular records := by
  simp only [parseInventory, Except.bind_eq_ok, Refresh.require_eq_ok] at h
  obtain ⟨cs, -, rows, hrows, _, hne, _, -, h⟩ := h
  obtain rfl : sorted rows = records := Except.ok.inj h
  have hperm : (sorted rows).Perm rows := List.perm_insertionSort _ _
  refine ⟨fun hnil => ?_, fun r hr f hf => ?_⟩
  · rw [hnil] at hperm
    simp [hperm.nil_eq.symm] at hne
  · obtain ⟨⟨line, number⟩, hrow, hparse⟩ := Except.exists_of_mem_mapM hrows (hperm.subset hr)
    have hline : line ∈ cs.universalNewlines.splitlines :=
      (List.mem_zipIdx hrow).2.2 ▸ List.getElem_mem _
    rw [← fields_of_parseRow hparse, List.splitOn_eq_splitOnP] at hf
    refine ⟨fun ht => ?_, fun hn => ?_⟩
    · simpa using (Text.of_mem_splitOnP hf ht).2
    · exact Text.not_mem_of_mem_splitlines hline (by decide) (Text.of_mem_splitOnP hf hn).1

/-- The text that is hashed determines the inventory. -/
theorem canonical_injective {records records' : List Rpm} {created : Text} (h : Tabular records)
    (h' : Tabular records') (heq : canonical records created = canonical records' created) :
    records = records' := by
  have hfields (rs : List Rpm) (hrs : Tabular rs) (r : Rpm) (hr : r ∈ rs) :
      (['\t'].intercalate r.fields).splitOn '\t' = r.fields :=
    List.splitOn_intercalate _ (fun f hf => (hrs.plain r hr f hf).1) (by simp [Rpm.fields])
  have hlines (rs : List Rpm) (hrs : Tabular rs) :
      (['\n'].intercalate (rs.map fun r => ['\t'].intercalate r.fields)).splitOn '\n' =
        rs.map fun r => ['\t'].intercalate r.fields := by
    refine List.splitOn_intercalate _ (fun l hl => ?_) (by simpa using hrs.nonempty)
    obtain ⟨r, hr, rfl⟩ := List.mem_map.mp hl
    intro hn
    obtain ⟨f, hf, hnf⟩ := Text.mem_intercalate (by decide) hn
    exact (hrs.plain r hr f hf).2 hnf
  have hsplit (rs : List Rpm) (hrs : Tabular rs) :
      ((['\n'].intercalate (rs.map fun r => ['\t'].intercalate r.fields)).splitOn '\n').map
        (fun l => l.splitOn '\t') = rs.map Rpm.fields := by
    rw [hlines rs hrs, List.map_map]
    exact List.map_congr_left fun r hr => hfields rs hrs r hr
  simp only [canonical, List.append_cancel_right_eq] at heq
  refine (List.map_injective_iff.mpr Rpm.fields_injective) ?_
  rw [← hsplit records h, heq, hsplit records' h']

end Inventory
