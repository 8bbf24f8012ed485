/-
This file bounds the length of an image from above. Every block has a bound of its own,
and an inline image of not too many fields and records is one that a machine can hold.
-/

import Mmpack.Opening

namespace Mmpack

open ByteList Emitter

/-! ### Blocks -/

theorem BlobDictionaryBuilder.serializedSize_le (dict : BlobDictionaryBuilder) :
    dict.serializedSize + 7 ≤ 2 ^ 35 := by
  have entries := dict.size_lt
  have bytes := dict.blobSize_lt
  unfold serializedSize dictHeaderSize
  omega

/-- A text dictionary takes less than 32 GiB. -/
theorem writeTextDictionaries_length_le (dicts : List BlobDictionaryBuilder) (emitter : Emitter) :
    (writeTextDictionaries dicts emitter).1.out.length ≤
      emitter.out.length + dicts.length * 2 ^ 35 := by
  induction dicts generalizing emitter with
  | nil => exact Nat.le_add_right _ _
  | cons dict rest inductionHypothesis =>
    have later := inductionHypothesis ((emitter.padTo 8).write dict.write dict.serializedSize)
    have padded := padTo_length_le emitter 8
    have size := dict.serializedSize_le
    rw [write, List.length_append, dict.write_length] at later
    rw [writeTextDictionaries, List.length_cons, Nat.succ_mul]
    exact le_trans later (by omega)

/-- A slot takes at most 43 bytes. -/
theorem directoryLayoutFor_stride_le (dense : Bool) (addressWidth : Nat)
    (directory : List DirEntry) :
    (directoryLayoutFor dense addressWidth directory).stride ≤ 43 := by
  have partition := widthFor_le (largest (directory.map (·.partition)))
  have offset := widthFor_le (largest (directory.map (·.offset)))
  have count := widthFor_le (largest (directory.map (·.count)))
  have remap := widthFor_le (largest (directory.map (·.remapCount)))
  simp only [directoryLayoutFor, makeDirLayout]
  split_ifs <;> omega

/-- What the blocks behind the partitions take. -/
theorem writeTail_length_le (builder : Builder) (layout : Layout) (dicts : List DictEntry)
    (valueDict : Nat) (directory : List DirEntry) (emitter : Emitter) :
    (writeTail builder layout dicts valueDict directory emitter).out.length ≤
      emitter.out.length + (directorySlots (useDense builder.options directory)
        layout.addressWidth directory).length * 43 + schemaHeaderSize +
        layout.descs.length * fieldDescSize + dicts.length * dictEntrySize +
        (nameBlob builder.schema.fields).length + footerSize + 14 := by
  have stride := directoryLayoutFor_stride_le (useDense builder.options directory)
    layout.addressWidth directory
  have bound := Nat.mul_le_mul_left (directorySlots (useDense builder.options directory)
    layout.addressWidth directory).length stride
  have slots : ∀ block ∈ (directorySlots (useDense builder.options directory)
      layout.addressWidth directory).map (encodeDirEntry (directoryLayoutFor
        (useDense builder.options directory) layout.addressWidth directory)),
      block.length = (directoryLayoutFor (useDense builder.options directory)
        layout.addressWidth directory).stride := by
    simp [encodeDirEntry_length]
  have first := padTo_length_le emitter 8
  obtain ⟨gap, second, out⟩ := schemaStart_out builder layout directory emitter
  have length := congrArg List.length out
  rw [List.length_append, List.length_append, flatten_length_of_uniform _ slots,
    List.length_map] at length
  rw [writeTail_length, length]
  omega

/-! ### Inline images -/

section Inline

variable {build : Build} {report : BuildReport}

theorem Build.textEnd_length_le :
    build.textEnd.out.length ≤
      headerSize + build.finished.builder.textDicts.length * 2 ^ 35 :=
  writeTextDictionaries_length_le _ _

/-- Records that are kept inline take less than 4 GiB each. -/
theorem Build.partitionBytes_le (returned : build.finished.outcome = .ok report)
    (inline : report.interned = false) :
    build.partitionBytes ≤ build.finished.builder.count * 2 ^ 32 := by
  obtain ⟨partitions, -, built⟩ := build.finishes returned
  obtain ⟨form, -⟩ := build.report_layout returned
  rw [build.partitionBytes_eq returned, built.count_runs, ← List.sum_map_mul_right]
  refine List.sum_le_sum fun run _ => ?_
  rw [planOf, planPartition_inline (form ▸ inline)]
  exact Nat.mul_le_mul_left _ (Nat.le_of_lt (Nat.mod_lt _ (by decide)))

/-- An inline image is bounded by its fields, its records and its slots. -/
theorem Build.inline_length_le (returned : build.finished.outcome = .ok report)
    (inline : report.interned = false) :
    build.finished.image.length ≤ build.textEnd.out.length + build.partitionBytes +
      build.slots.length * 43 + schemaHeaderSize + build.schema.fields.length * fieldDescSize +
        build.finished.builder.textDicts.length * dictEntrySize +
        (nameBlob build.schema.fields).length + footerSize + 21 := by
  obtain ⟨partitions, finishes, built⟩ := build.finishes returned
  obtain ⟨form, -⟩ := build.report_layout returned
  have descs := descs_length built.statCount build.finished.builder.rows
  obtain ⟨dicts, valueDict, emitter, dictionaries, start, walked, image⟩ :=
    writeImage_cases finishes.written
  have textual : writeDictionaries build.finished.builder build.finished.builder.layout
      (Emitter.start.emit header.encode) = (build.textEnd, .ok ((writeTextDictionaries
        build.finished.builder.textDicts (Emitter.start.emit header.encode)).2, 0)) := by
    rw [writeDictionaries, Build.textEnd]
    simp only
    rw [if_neg]
    rw [← form, inline]
    decide
  have directory : build.directory = partitions.map Prod.fst := by
    rw [Build.directory, Builder.layout, finishes.written]
  have headExact := emit_exact exact_start header.encode
  obtain ⟨-, -, count, -⟩ :=
    writeTextDictionaries_spec build.finished.builder.textDicts headExact
  have partitionStart : build.partitionStart = build.textEnd.padTo 8 := by
    rw [Build.partitionStart, textual]
  have padded := padTo_length_le build.textEnd 8
  have tail := writeTail_length_le build.finished.builder build.finished.builder.layout dicts
    valueDict (partitions.map Prod.fst) build.partitionWalk.1
  rw [textual] at dictionaries
  obtain ⟨rfl, rfl⟩ := Prod.mk.inj (Except.ok.inj dictionaries)
  obtain rfl : emitter = build.partitionStart := start
  have slots : build.slots.length = (directorySlots (useDense build.finished.builder.options
      (partitions.map Prod.fst)) build.finished.builder.layout.addressWidth
        (partitions.map Prod.fst)).length := by
    rw [Build.slots, directory, built.options]
  have walked : build.partitionWalk.1.out.length ≤
      build.partitionStart.out.length + build.partitionBytes := by
    rw [Build.partitionBytes]
    omega
  rw [← slots, count, descs, built.schema] at tail
  rw [← finishes.image, image]
  refine le_trans tail ?_
  rw [partitionStart] at walked
  omega

end Inline

end Mmpack
