/-
This file is about the fields of an image that are narrower than what the builder
computes: the byte of the address width, the bytes of every partition's stretch and
the 16 bits of a dictionary index. The writer casts without a check, so what the
image says is what was computed up to 255 bytes of address and 65536 text fields,
and not beyond.
-/

import Mmpack.Slots
import Mmpack.Maps

namespace Mmpack

open ByteList Checked

/-! ### What an image says -/

namespace Build

/-- The schema of the image, found through the footer. -/
def view (build : Build) : SchemaView :=
  let head := SchemaHeader.parse
    (slice build.finished.image build.foot.schemaOffset schemaHeaderSize)
  let fields := build.foot.schemaOffset + schemaHeaderSize
  let dicts := fields + head.fieldCount * fieldDescSize
  { head, fields, dicts, names := dicts + head.dictCount * dictEntrySize }

/-- A slot of the directory of the image. -/
def slotAt (build : Build) (k : Nat) : DirEntry :=
  entryAt build.finished.image (build.foot.dirOffset + k * build.view.directoryLayout.stride)
    build.view.directoryLayout k build.view.addressWidth

/-- The descriptor of a field of the image. -/
def descAt (build : Build) (id : Nat) : FieldDesc :=
  build.view.descAt build.finished.image id

end Build

/-! ### What the builder computed -/

/-- The width of the committed addresses: that of the bytes, or the bytes that the greatest integer
takes. -/
def Log.addressWidth (log : Log) : Nat :=
  match log.sorted.find? (·.addressBytes ≠ []) with
  | some entry => entry.addressBytes.length
  | none => exactWidthFor ((log.sorted.map Committed.address).foldl max 0).toNat

/-- The stretch a partition stores, as the trimming derives it. -/
def derivedStretch (builder : Builder) (run : List StagedRow) : Nat × Nat :=
  if builder.options.partitionAddressWidth then stretchOf builder run
  else (0, builder.layout.addressWidth)

theorem storedStretch_eq (builder : Builder) (run : List StagedRow) : storedStretch builder run =
    ((derivedStretch builder run).1 % 2 ^ 8, (derivedStretch builder run).2 % 2 ^ 8) := by
  unfold storedStretch derivedStretch
  split <;> rfl

section Computed

variable {build : Build} {builder : Builder}

/-- The derived stretch lies inside the address field. -/
theorem Built.derivedStretch_le (built : Built build builder) {run : List StagedRow}
    (member : run ∈ partitionRuns builder.rows) :
    (derivedStretch builder run).1 + (derivedStretch builder run).2 ≤
      builder.layout.addressWidth := by
  unfold derivedStretch
  split
  · obtain ⟨row, inside⟩ := List.exists_mem_of_ne_nil run (partitionRuns_ne_nil member)
    exact (built.stretchOf_spec member inside).1
  · exact Nat.le_of_eq (Nat.zero_add _)

theorem Built.maxAddress_eq (built : Built build builder) :
    maxAddress builder.rows = (build.log.sorted.map Committed.address).foldl max 0 := by
  have addresses : builder.rows.map (·.address) = build.log.sorted.map (·.address) :=
    List.forall₂_eq_eq_eq ▸ List.forall₂_map_left_iff.mpr (List.forall₂_map_right_iff.mpr
      (built.stages.imp fun _ _ staged => staged.address))
  rw [maxAddress, ← addresses, List.foldl_map]

/-- A partition has a record. -/
theorem Built.committed_ne_nil (built : Built build builder) {run : List StagedRow}
    (member : run ∈ partitionRuns builder.rows) : build.log.committed ≠ [] := by
  intro none
  obtain ⟨row, inside⟩ := List.exists_mem_of_ne_nil run (partitionRuns_ne_nil member)
  have inRows := mem_rows_of_mem_run member inside
  have stages := built.stages
  rw [Log.sorted, none, List.insertionSort_nil, List.forall₂_nil_right_iff] at stages
  rw [stages] at inRows
  cases inRows

/-- Addresses up to 255 bytes have a width that fits a byte. -/
theorem Log.addressWidth_le {log : Log}
    (spans : ∀ entry ∈ log.committed, entry.addressBytes.length ≤ 255) :
    log.addressWidth ≤ 255 := by
  unfold addressWidth
  split
  · rename_i entry found
    exact spans entry (mem_sorted.mp (List.mem_of_find?_eq_some found))
  · exact le_trans (exactWidthFor_le _) (by decide)

/-- The layout has the width of the committed addresses. -/
theorem Built.addressWidth_eq (built : Built build builder) (nonempty : build.log.committed ≠ []) :
    builder.layout.addressWidth = build.log.addressWidth := by
  have shaped {entry : Committed} (member : entry ∈ build.log.sorted) :=
    built.entry_shaped (Log.mem_sorted.mp member)
  unfold Log.addressWidth
  cases wide : builder.blob.isSome with
  | true =>
    simp only [wide, if_true] at shaped
    cases found : build.log.sorted.find? (·.addressBytes ≠ []) with
    | some entry =>
      rw [wide_layout wide]
      exact (shaped (List.mem_of_find?_eq_some found)).2.1.symm
    | none =>
      obtain ⟨entry, member⟩ := List.exists_mem_of_ne_nil _ nonempty
      have inSorted := Log.mem_sorted.mpr member
      have empty := List.find?_eq_none.mp found entry inSorted
      obtain ⟨-, length, positive⟩ := shaped inSorted
      simp only [ne_eq, decide_not, Bool.not_eq_true', decide_eq_false_iff_not, not_not] at empty
      rw [empty] at length
      exact absurd positive (by rw [← length]; exact Nat.lt_irrefl 0)
  | false =>
    simp only [wide, Bool.false_eq_true, if_false] at shaped
    have none : build.log.sorted.find? (·.addressBytes ≠ []) = Option.none :=
      List.find?_eq_none.mpr fun entry member => by simp [shaped member]
    rw [none, narrow_layout wide, built.maxAddress_eq]

end Computed

/-! ### Narrowing stores -/

section Narrowing

variable (build : Build) {report : BuildReport} {image : Image}

theorem Build.image_written (returned : build.finished.outcome = .ok report)
    (same : image.bytes = build.finished.image) :
    let builder := build.finished.builder
    Built build builder ∧ build.finished.image.length < 2 ^ 64 ∧
      ∃ places, Written builder builder.layout builder.rows build.finished.image places := by
  obtain ⟨partitions, finishes, built⟩ := build.finishes returned
  have short := image.length_lt
  rw [same] at short
  obtain ⟨places, written, -⟩ := writeImage_spec finishes.written (chooseLayout_stretches _ _)
    (finishes.image ▸ short)
  rw [finishes.image] at written
  exact ⟨built, short, places, written⟩

section Decode

variable {build} {builder : Builder} {places : Places}
  (written : Written builder builder.layout builder.rows build.finished.image places)

include written

end Decode

/-- What narrowing stores keep: the width of the addresses, the stretch of every partition and the
dictionary of every text field. -/
structure Build.Exact (build : Build) : Prop where
  addressWidth : build.log.committed ≠ [] → build.view.addressWidth = build.log.addressWidth
  stretches : ∀ run ∈ partitionRuns build.finished.builder.rows, ∃ k < build.foot.dirCount,
    (build.slotAt k).partition = (partitionOfRun run).toNat ∧
      ((build.slotAt k).addressSkip, (build.slotAt k).addressWidth) =
        derivedStretch build.finished.builder run
  dictIndex : ∀ id decl, build.schema.fields[id]? = some decl → decl.kind = .text →
    (build.descAt id).dictIndex = Builder.textSlot build.schema id

/-- Spans of ten bytes, and texts. The first partition skips two bytes of its addresses and stores
two, the other stores none. -/
def trimmedSample : Build :=
  Build.of sampleSchema .default
    [.beginRecordAtBytes 0 [0, 0, 1, 5, 0, 0, 0, 0, 0, 0], .set 0 1 (.text [0x61]), .commit 0,
      .beginRecordAtBytes 0 [0, 0, 2, 0, 0, 0, 0, 0, 0, 0], .set 1 0 (.uint 7), .commit 1,
      .beginRecordAtBytes 3 (List.replicate 10 0), .commit 2]
    sampleSchema_fields BuildOptions.default_addressBits (by decide) (by decide)

def trimmedImage : Image := ⟨trimmedSample.finished.image, by decide +kernel⟩

end Narrowing

end Mmpack
