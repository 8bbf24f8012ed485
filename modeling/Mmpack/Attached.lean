/-
This file says what table is opened from a finished image. `Opens` ties a build,
the image its `finish` wrote, and a table that accepted it. Acceptance rules out
the corners where a number of the layout was cut short, so what the table took
from the footer and the schema header is what the builder settled on, and every
slot with records is that of one partition of the build.
-/

import Mmpack.Decoded

namespace Mmpack

open ByteList Checked Cursor

/-- A table opened from the image of a finished build. -/
structure Opens (build : Build) (builder : Builder) (places : Places) (table : Table) : Prop where
  built : Built build builder
  written : Written builder builder.layout builder.rows table.region places
  valid : table.Valid

/-- Opening what `finish` wrote. -/
theorem Build.opens (build : Build) {report : BuildReport}
    (returned : build.finished.outcome = .ok report) {image : Image}
    (same : image.bytes = build.finished.image) {table : Table}
    (opened : Table.tryOpen (some image) = pure table) :
    ∃ places, Opens build build.finished.builder places table := by
  obtain ⟨partitions, finishes, built⟩ := build.finishes returned
  obtain ⟨imageEq, valid⟩ := (Table.tryOpen_ensures image).of_accepts opened
  have short := image.length_lt
  rw [same, ← finishes.image] at short
  obtain ⟨places, written, -⟩ := writeImage_spec finishes.written
    (chooseLayout_stretches _ _) short
  rw [finishes.image, ← same, ← imageEq] at written
  exact ⟨places, built, written, valid⟩

namespace Table

variable {table : Table}

/-- The bytes of a partition end before those of every later one. -/
theorem Valid.blockEnd_le_blocksEnd (valid : table.Valid) {first second : Nat}
    (ordered : first < second) (inside : second ≤ table.dirCount)
    (occupied : (table.entry first).count ≠ 0) :
    table.blockEnd (table.entry first) ≤ table.blocksEnd second := by
  induction second with
  | zero => exact absurd ordered (Nat.not_lt_zero _)
  | succ second inductionHypothesis =>
    rw [blocksEnd]
    rcases Nat.lt_succ_iff_lt_or_eq.mp ordered with earlier | rfl
    · have before := inductionHypothesis earlier (by omega)
      split
      · rename_i here
        have start := ((valid.slot (i := second) (by omega)).block here).1
        have grows : (table.entry second).offset ≤ table.blockEnd (table.entry second) := by
          rw [blockEnd]
          omega
        omega
      · exact before
    · rw [if_pos occupied]

end Table

/-! ### What the table took over -/

namespace Opens

variable {build : Build} {builder : Builder} {places : Places} {table : Table}

theorem footer (opens : Opens build builder places table) :
    table.footer = footOf builder builder.layout builder.rows places :=
  opens.written.footer_parse table.image.length_lt

theorem directory (opens : Opens build builder places table) :
    table.directory = places.directory := by
  rw [opens.valid.directory_eq, opens.footer]
  rfl

theorem dirCount (opens : Opens build builder places table) :
    table.dirCount = (slotsOf builder builder.layout builder.rows places).length := by
  rw [opens.valid.dirCount_eq, opens.footer]
  exact Nat.mod_eq_of_lt (opens.written.slots_lt table.image.length_lt)

theorem recordCount (opens : Opens build builder places table) :
    table.recordCount = builder.rows.length := by
  rw [opens.valid.recordCount_eq, opens.footer, ← opens.built.count]
  exact Nat.mod_eq_of_lt (opens.built.count ▸ opens.built.few)

theorem head (opens : Opens build builder places table) :
    table.schema.head = headOf builder builder.layout builder.rows places := by
  rw [opens.valid.schema.head, opens.footer]
  exact opens.written.head_parse

theorem fields (opens : Opens build builder places table) :
    table.schema.fields = places.schema + schemaHeaderSize := by
  rw [opens.valid.schema.fields, opens.footer]
  rfl

theorem dir (opens : Opens build builder places table) :
    table.dir = dirLayoutOf builder builder.layout builder.rows places := by
  rw [opens.valid.dir_eq]
  exact directoryLayout_of_head opens.head

theorem addressWidth (opens : Opens build builder places table) :
    table.addressWidth = builder.layout.addressWidth % 2 ^ 8 := by
  rw [opens.valid.addressWidth_eq, SchemaView.addressWidth, opens.head]
  rfl

theorem interned (opens : Opens build builder places table) :
    table.interned = builder.layout.interned := by
  rw [opens.valid.interned_eq, SchemaView.interned, opens.head, headOf, schemaHeader]
  cases builder.layout.interned <;> rfl

theorem refWidth (opens : Opens build builder places table)
    (interned : builder.layout.interned = true) : table.refWidth = builder.layout.refWidth := by
  have narrow := widthFor_le (if builder.tuples.length = 0 then 0 else builder.tuples.length - 1)
  rw [opens.valid.refWidth_eq, SchemaView.refWidth, opens.head, headOf, schemaHeader]
  simp only [interned, if_true]
  exact Nat.mod_eq_of_lt (lt_of_le_of_lt narrow (by decide))

theorem entry (opens : Opens build builder places table) {k : Nat} {d : DirEntry}
    (located : (slotsOf builder builder.layout builder.rows places)[k]? = some d) :
    table.entry k = d.stored := by
  rw [Table.entry, Table.slotBytes, opens.dir, opens.directory, opens.addressWidth]
  exact opens.written.entry_parse table.image.length_lt opens.built.few opens.built.ordered located

end Opens

end Mmpack
