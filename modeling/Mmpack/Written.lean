/-
This file says where everything is in a finished image. `Written` gives the place
of each block: header, text dictionaries, composite dictionary, partitions,
directory slots, schema and footer, each at the offset the image records for it.
`finish_written` shows that an image `finish` returns is laid out so, as long as
its length is a 64-bit number.
-/

import Mmpack.Emission

namespace Mmpack

open ByteList Emitter

/-! ### The plan of an image -/

/-- Where the blocks of an image start, and its dictionary table. -/
structure Places where
  dicts : List DictEntry
  valueDict : Nat
  records : Nat
  directory : Nat
  schema : Nat
  deriving DecidableEq, Repr

section Plan

variable (builder : Builder) (layout : Layout) (rows : List StagedRow) (places : Places)

/-- The slots of the partitions with records. -/
def directoryOf : List DirEntry :=
  entriesFrom builder layout places.records (piecesOf builder layout rows)

def denseOf : Bool := useDense builder.options (directoryOf builder layout rows places)

def dirLayoutOf : DirLayout :=
  directoryLayoutFor (denseOf builder layout rows places) layout.addressWidth
    (directoryOf builder layout rows places)

/-- All slots, gaps included. -/
def slotsOf : List DirEntry :=
  directorySlots (denseOf builder layout rows places) layout.addressWidth
    (directoryOf builder layout rows places)

/-- The bytes of all partitions. -/
def recordBlock : List UInt8 :=
  ((piecesOf builder layout rows).map (pieceBlock builder layout)).flatten

def slotBlock : List UInt8 :=
  ((slotsOf builder layout rows places).map
    (encodeDirEntry (dirLayoutOf builder layout rows places))).flatten

def headOf : SchemaHeader :=
  schemaHeader builder layout (dirLayoutOf builder layout rows places) places.dicts.length
    (nameBlob builder.schema.fields).length places.valueDict

def schemaBlock : List UInt8 :=
  (headOf builder layout rows places).encode ++
    ((nameFields builder.schema.fields layout.descs).map FieldDesc.encode).flatten ++
    (places.dicts.map DictEntry.encode).flatten ++ nameBlob builder.schema.fields

def footOf : Footer where
  magic := magic
  formatVersion := formatVersion
  flags := if denseOf builder layout rows places then denseDirectoryFlag else 0
  recordCount := builder.count % 2 ^ 64
  dirOffset := places.directory
  dirCount := (slotsOf builder layout rows places).length % 2 ^ 64
  schemaOffset := places.schema
  schemaSize := (schemaBlock builder layout rows places).length
  imageSize := places.schema + (schemaBlock builder layout rows places).length + footerSize

end Plan

/-- A text dictionary written where its entry says. -/
structure TextWritten (image : List UInt8) (limit : Nat) (entry : DictEntry)
    (dict : BlobDictionaryBuilder) : Prop where
  size : entry.size = dict.serializedSize
  start : headerSize ≤ entry.offset
  finish : entry.offset + dict.serializedSize ≤ limit
  holds : Holds image entry.offset dict.write

/-- The composite dictionary written where its entry says. -/
structure TuplesWritten (layout : Layout) (tuples : List (List UInt64)) (image : List UInt8)
    (limit : Nat) (entry : DictEntry) : Prop where
  count : tuples.length < 2 ^ 32
  size : entry.size = dictHeaderSize + tuples.length * layout.valueStride
  start : headerSize ≤ entry.offset
  finish : entry.offset + dictHeaderSize + tuples.length * layout.valueStride ≤ limit
  head : Holds image entry.offset (fixedHeader tuples.length layout.valueStride).encode
  tuple : ∀ (t : Nat) (inside : t < tuples.length),
    Holds image (entry.offset + dictHeaderSize + t * layout.valueStride)
      (encodeTuple layout tuples[t])

/-- Where the blocks of a finished image lie. -/
structure Written (builder : Builder) (layout : Layout) (rows : List StagedRow)
    (image : List UInt8) (places : Places) : Prop where
  header : Holds image 0 header.encode
  dictCount : places.dicts.length = builder.textDicts.length + if layout.interned then 1 else 0
  text : ∀ (i : Nat) (inside : i < builder.textDicts.length), ∃ entry,
    places.dicts[i]? = some entry ∧ TextWritten image places.records entry builder.textDicts[i]
  composite : layout.interned = true →
    places.valueDict = builder.textDicts.length % 2 ^ 32 ∧ ∃ entry,
      places.dicts[builder.textDicts.length]? = some entry ∧
        TuplesWritten layout builder.tuples image places.records entry
  recordsStart : headerSize ≤ places.records
  stretches : layout.stretches.length = (partitionRuns rows).length
  records : Holds image places.records (recordBlock builder layout rows)
  recordsEnd : places.records + (recordBlock builder layout rows).length ≤ places.directory
  directoryClose : places.directory < places.records + (recordBlock builder layout rows).length + 8
  slots : Holds image places.directory (slotBlock builder layout rows places)
  slotsEnd : places.directory + (slotBlock builder layout rows places).length ≤ places.schema
  schema : Holds image places.schema (schemaBlock builder layout rows places)
  footer : Holds image (places.schema + (schemaBlock builder layout rows places).length)
    (footOf builder layout rows places).encode
  length : image.length =
    places.schema + (schemaBlock builder layout rows places).length + footerSize

/-! ### Dictionaries -/

/-- The dictionaries as `writeDictionaries` leaves them. -/
structure DictionariesWritten (builder : Builder) (layout : Layout) (start : Nat)
    (image : List UInt8) (limit : Nat) (dicts : List DictEntry) (valueDict : Nat) : Prop where
  dictCount : dicts.length = builder.textDicts.length + if layout.interned then 1 else 0
  text : ∀ (i : Nat) (inside : i < builder.textDicts.length), ∃ entry,
    dicts[i]? = some entry ∧ (headerSize ≤ start →
      TextWritten image limit entry builder.textDicts[i])
  composite : layout.interned = true →
    valueDict = builder.textDicts.length % 2 ^ 32 ∧ ∃ entry,
      dicts[builder.textDicts.length]? = some entry ∧ (headerSize ≤ start →
        TuplesWritten layout builder.tuples image limit entry)

theorem texts_written {builder : Builder} {emitter later : Emitter} (exact' : emitter.Exact)
    (extends' : Extends (writeTextDictionaries builder.textDicts emitter).1 later)
    (bounded : later.out.length < 2 ^ 64) (start : headerSize ≤ emitter.out.length) {i : Nat}
    (inside : i < builder.textDicts.length) :
    ∃ entry, (writeTextDictionaries builder.textDicts emitter).2[i]? = some entry ∧
      TextWritten later.out later.out.length entry builder.textDicts[i] := by
  obtain ⟨-, -, length, texts⟩ := writeTextDictionaries_spec builder.textDicts exact'
  have short := lt_of_le_of_lt extends'.length_le bounded
  have inTable : i < (writeTextDictionaries builder.textDicts emitter).2.length := by
    rwa [length]
  have member : ((writeTextDictionaries builder.textDicts emitter).2[i], builder.textDicts[i]) ∈
      (writeTextDictionaries builder.textDicts emitter).2.zip builder.textDicts := by
    have inZip : i < ((writeTextDictionaries builder.textDicts emitter).2.zip
        builder.textDicts).length := by
      rw [List.length_zip]
      omega
    rw [← List.getElem_zip (h := inZip)]
    exact List.getElem_mem _
  obtain ⟨size, after, holds⟩ := texts short _ member
  have within := (extends'.holds holds).within
  rw [BlobDictionaryBuilder.write_length] at within
  exact ⟨_, List.getElem?_eq_getElem inTable, size, le_trans start after, within,
    extends'.holds holds⟩

theorem writeDictionaries_spec {builder : Builder} {layout : Layout} {emitter : Emitter}
    (exact' : emitter.Exact) (start : headerSize ≤ emitter.out.length)
    {dicts : List DictEntry} {valueDict : Nat}
    (accepted : (writeDictionaries builder layout emitter).2 = .ok (dicts, valueDict)) :
    let after := (writeDictionaries builder layout emitter).1
    after.Exact ∧ Extends emitter after ∧ (after.out.length < 2 ^ 64 →
      DictionariesWritten builder layout emitter.out.length after.out after.out.length dicts
        valueDict) := by
  obtain ⟨textExact, textExtends, textLength, -⟩ :=
    writeTextDictionaries_spec builder.textDicts exact'
  unfold writeDictionaries at accepted ⊢
  by_cases interned : layout.interned = true
  · simp only [interned, if_true] at accepted ⊢
    cases written : writeValueDictionary layout builder.tuples
        (writeTextDictionaries builder.textDicts emitter).1 with
    | mk last result =>
      cases result with
      | error error =>
        rw [written] at accepted
        nomatch accepted
      | ok entry =>
        rw [written] at accepted
        simp only [Except.ok.injEq, Prod.mk.injEq] at accepted
        obtain ⟨rfl, rfl⟩ := accepted
        obtain ⟨lastExact, lastExtends, few, size, placed⟩ :=
          writeValueDictionary_spec layout builder.tuples textExact
            (show _ = Except.ok entry by rw [written])
        rw [written] at lastExact lastExtends placed
        simp only at lastExact lastExtends placed ⊢
        refine ⟨lastExact, textExtends.trans lastExtends, fun bounded => ?_⟩
        obtain ⟨after, finish, head, tuple⟩ := placed bounded
        refine ⟨by simp [textLength, interned], fun i inside => ?_, fun _ => ⟨by rw [textLength],
          entry, ?_, fun _ => ?_⟩⟩
        · obtain ⟨found, located, textWritten⟩ :=
            texts_written exact' lastExtends bounded start inside
          exact ⟨found, by rw [List.getElem?_append_left (by omega)]; exact located,
            fun _ => textWritten⟩
        · rw [← textLength]
          exact List.getElem?_concat_length
        · refine ⟨few, ?_, ?_, by omega, head, tuple⟩
          · rw [size, fixedDictionarySize, Nat.mod_eq_of_lt (by omega)]
          · exact le_trans start (le_trans textExtends.length_le after)
  · simp only [interned] at accepted ⊢
    simp only [Bool.false_eq_true, if_false, Except.ok.injEq, Prod.mk.injEq] at accepted ⊢
    obtain ⟨rfl, rfl⟩ := accepted
    refine ⟨textExact, textExtends, fun bounded => ⟨by simp [textLength, interned],
      fun i inside => ?_, fun other => absurd other interned⟩⟩
    obtain ⟨found, located, textWritten⟩ :=
      texts_written exact' (extends_refl _) bounded start inside
    exact ⟨found, located, fun _ => textWritten⟩

/-! ### The schema and the tail -/

theorem writeSchema_out (builder : Builder) (layout : Layout) (dir : DirLayout)
    (dicts : List DictEntry) (valueDict : Nat) (emitter : Emitter) :
    (writeSchema builder layout dir dicts valueDict emitter).out = emitter.out ++
      ((schemaHeader builder layout dir dicts.length (nameBlob builder.schema.fields).length
          valueDict).encode ++
        ((nameFields builder.schema.fields layout.descs).map FieldDesc.encode).flatten ++
        (dicts.map DictEntry.encode).flatten ++ nameBlob builder.schema.fields) := by
  simp only [writeSchema, emit, write, List.append_assoc]

theorem writeSchema_exact {emitter : Emitter} (exact' : emitter.Exact) (builder : Builder)
    (layout : Layout) (dir : DirLayout) (dicts : List DictEntry) (valueDict : Nat) :
    (writeSchema builder layout dir dicts valueDict emitter).Exact :=
  emit_exact (emit_exact (emit_exact (emit_exact exact' _) _) _) _

theorem writeSchema_length (builder : Builder) (layout : Layout) (dir : DirLayout)
    (dicts : List DictEntry) (valueDict : Nat) (emitter : Emitter) :
    (writeSchema builder layout dir dicts valueDict emitter).out.length = emitter.out.length +
      (schemaHeaderSize + layout.descs.length * fieldDescSize + dicts.length * dictEntrySize +
        (nameBlob builder.schema.fields).length) := by
  have fields : ((nameFields builder.schema.fields layout.descs).map
      FieldDesc.encode).flatten.length = layout.descs.length * fieldDescSize := by
    rw [flatten_length_of_uniform fieldDescSize (by simp), List.length_map, nameFields,
      List.length_mapIdx]
  have entries : (dicts.map DictEntry.encode).flatten.length = dicts.length * dictEntrySize := by
    rw [flatten_length_of_uniform dictEntrySize (by simp), List.length_map]
  simp only [writeSchema_out, List.length_append, SchemaHeader.encode_length, fields, entries]

section Tail

variable (builder : Builder) (layout : Layout) (dicts : List DictEntry) (valueDict : Nat)
  (directory : List DirEntry) (emitter : Emitter)

/-- The emitter where the schema begins. -/
def schemaStart : Emitter :=
  let dense := useDense builder.options directory
  (writeSlots (directoryLayoutFor dense layout.addressWidth directory)
    (directorySlots dense layout.addressWidth directory) (emitter.padTo 8)).padTo 8

/-- The emitter where the footer begins. -/
def footStart : Emitter :=
  writeSchema builder layout (directoryLayoutFor (useDense builder.options directory)
    layout.addressWidth directory) dicts valueDict (schemaStart builder layout directory emitter)

/-- The footer with the offsets of the counter. -/
def tailFoot : Footer where
  magic := magic
  formatVersion := formatVersion
  flags := if useDense builder.options directory then denseDirectoryFlag else 0
  recordCount := builder.count % 2 ^ 64
  dirOffset := (emitter.padTo 8).pos
  dirCount := (directorySlots (useDense builder.options directory) layout.addressWidth
    directory).length % 2 ^ 64
  schemaOffset := (schemaStart builder layout directory emitter).pos
  schemaSize := ((footStart builder layout dicts valueDict directory emitter).pos +
    (2 ^ 64 - (schemaStart builder layout directory emitter).pos)) % 2 ^ 64
  imageSize := ((footStart builder layout dicts valueDict directory emitter).pos +
    footerSize) % 2 ^ 64

theorem writeTail_eq : writeTail builder layout dicts valueDict directory emitter =
    (footStart builder layout dicts valueDict directory emitter).emit
      (tailFoot builder layout dicts valueDict directory emitter).encode := rfl

theorem tailFoot_fits : (tailFoot builder layout dicts valueDict directory emitter).Fits where
  magic := rfl
  formatVersion := (by decide : 4 < 256 ^ 4)
  flags := by
    simp only [tailFoot]
    split <;> decide
  recordCount := Nat.mod_lt _ (Nat.two_pow_pos 64)
  dirOffset := Nat.mod_lt _ (Nat.two_pow_pos 64)
  dirCount := Nat.mod_lt _ (Nat.two_pow_pos 64)
  schemaOffset := Nat.mod_lt _ (Nat.two_pow_pos 64)
  schemaSize := Nat.mod_lt _ (Nat.two_pow_pos 64)
  imageSize := Nat.mod_lt _ (Nat.two_pow_pos 64)

theorem schemaStart_out : ∃ gap : List UInt8, gap.length ≤ 7 ∧
    (schemaStart builder layout directory emitter).out = (emitter.padTo 8).out ++
      ((directorySlots (useDense builder.options directory) layout.addressWidth directory).map
        (encodeDirEntry (directoryLayoutFor (useDense builder.options directory)
          layout.addressWidth directory))).flatten ++ gap := by
  unfold schemaStart
  simp only [writeSlots_eq]
  obtain ⟨gap, out⟩ := padTo_extends ((emitter.padTo 8).emitAll ((directorySlots
    (useDense builder.options directory) layout.addressWidth directory).map (encodeDirEntry
      (directoryLayoutFor (useDense builder.options directory) layout.addressWidth
        directory)))) 8
  have length := padTo_length_le ((emitter.padTo 8).emitAll ((directorySlots
    (useDense builder.options directory) layout.addressWidth directory).map (encodeDirEntry
      (directoryLayoutFor (useDense builder.options directory) layout.addressWidth
        directory)))) 8
  rw [out, List.length_append] at length
  rw [emitAll_out] at out
  exact ⟨gap, by omega, out⟩

theorem schemaStart_extends :
    Extends (emitter.padTo 8) (schemaStart builder layout directory emitter) := by
  obtain ⟨gap, -, out⟩ := schemaStart_out builder layout directory emitter
  exact ⟨_, out.trans (List.append_assoc _ _ _)⟩

variable {emitter} in
theorem schemaStart_exact (exact' : emitter.Exact) :
    (schemaStart builder layout directory emitter).Exact := by
  unfold schemaStart
  simp only [writeSlots_eq]
  exact padTo_exact (emitAll_exact (padTo_exact exact' 8) _) 8

theorem footStart_extends : Extends (schemaStart builder layout directory emitter)
    (footStart builder layout dicts valueDict directory emitter) :=
  ⟨_, writeSchema_out _ _ _ _ _ _⟩

theorem writeTail_length :
    (writeTail builder layout dicts valueDict directory emitter).out.length =
      (schemaStart builder layout directory emitter).out.length +
        (schemaHeaderSize + layout.descs.length * fieldDescSize + dicts.length * dictEntrySize +
          (nameBlob builder.schema.fields).length) + footerSize := by
  rw [writeTail_eq, emit, write, List.length_append, Footer.encode_length rfl, footStart,
    writeSchema_length]

theorem writeTail_extends :
    Extends emitter (writeTail builder layout dicts valueDict directory emitter) :=
  (padTo_extends emitter 8).trans ((schemaStart_extends _ _ _ _).trans
    ((footStart_extends _ _ _ _ _ _).trans (emit_extends _ _)))

end Tail

@[simp] theorem footOf_encode_length (builder : Builder) (layout : Layout)
    (rows : List StagedRow) (places : Places) :
    (footOf builder layout rows places).encode.length = footerSize :=
  Footer.encode_length rfl

/-- The places of the blocks, by what had been emitted before each. -/
def placesOf (builder : Builder) (layout : Layout) (rows : List StagedRow)
    (dicts : List DictEntry) (valueDict start : Nat) (emitter : Emitter) : Places where
  dicts := dicts
  valueDict := valueDict
  records := start
  directory := (emitter.padTo 8).out.length
  schema := (schemaStart builder layout
    (entriesFrom builder layout start (piecesOf builder layout rows)) emitter).out.length

section Tail

variable {builder : Builder} {layout : Layout} {rows : List StagedRow} {dicts : List DictEntry}
  {valueDict start : Nat} {emitter : Emitter}

theorem footStart_out : (footStart builder layout dicts valueDict
      (entriesFrom builder layout start (piecesOf builder layout rows)) emitter).out =
    (schemaStart builder layout (entriesFrom builder layout start (piecesOf builder layout rows))
      emitter).out ++
    schemaBlock builder layout rows (placesOf builder layout rows dicts valueDict start emitter) :=
  writeSchema_out _ _ _ _ _ _

/-- Below 2⁶⁴ bytes the counter is the number of bytes emitted, so the offsets of the footer are
those of the blocks. -/
theorem tailFoot_eq (exact' : emitter.Exact)
    (bounded : (writeTail builder layout dicts valueDict
      (entriesFrom builder layout start (piecesOf builder layout rows)) emitter).out.length <
        2 ^ 64) :
    tailFoot builder layout dicts valueDict
        (entriesFrom builder layout start (piecesOf builder layout rows)) emitter =
      footOf builder layout rows (placesOf builder layout rows dicts valueDict start emitter) := by
  have schemaExact := schemaStart_exact builder layout
    (entriesFrom builder layout start (piecesOf builder layout rows)) exact'
  have footExact : (footStart builder layout dicts valueDict
      (entriesFrom builder layout start (piecesOf builder layout rows)) emitter).Exact :=
    writeSchema_exact schemaExact _ _ _ _ _
  have directoryLe := (schemaStart_extends builder layout
    (entriesFrom builder layout start (piecesOf builder layout rows)) emitter).length_le
  have footLength := congrArg List.length (@footStart_out builder layout rows dicts valueDict
    start emitter)
  rw [List.length_append] at footLength
  rw [writeTail_eq, emit, write, List.length_append, Footer.encode_length rfl] at bounded
  have directoryPos := padTo_exact exact' 8 (by omega)
  have schemaPos := schemaExact (by omega)
  have footPos := footExact (by omega)
  simp only [tailFoot, footOf, Footer.mk.injEq, true_and]
  refine ⟨rfl, directoryPos, rfl, schemaPos, ?_, ?_⟩
  · have sizes : (footStart builder layout dicts valueDict
          (entriesFrom builder layout start (piecesOf builder layout rows)) emitter).pos +
        (2 ^ 64 - (schemaStart builder layout
          (entriesFrom builder layout start (piecesOf builder layout rows)) emitter).pos) =
        (schemaBlock builder layout rows
          (placesOf builder layout rows dicts valueDict start emitter)).length + 2 ^ 64 := by
      rw [footPos, schemaPos, footLength]
      omega
    rw [sizes, Nat.add_mod_right, Nat.mod_eq_of_lt (by omega)]
  · rw [footPos, Nat.mod_eq_of_lt bounded, footLength]
    rfl

/-- The blocks from the directory on, when everything before them is in place. -/
theorem writeTail_spec (exact' : emitter.Exact)
    (bounded : (writeTail builder layout dicts valueDict
      (entriesFrom builder layout start (piecesOf builder layout rows)) emitter).out.length <
        2 ^ 64) :
    let places := placesOf builder layout rows dicts valueDict start emitter
    let image := (writeTail builder layout dicts valueDict
      (entriesFrom builder layout start (piecesOf builder layout rows)) emitter).out
    (writeTail builder layout dicts valueDict
        (entriesFrom builder layout start (piecesOf builder layout rows)) emitter).Exact ∧
      Holds image places.directory (slotBlock builder layout rows places) ∧
      places.directory + (slotBlock builder layout rows places).length ≤ places.schema ∧
      Holds image places.schema (schemaBlock builder layout rows places) ∧
      Holds image (places.schema + (schemaBlock builder layout rows places).length)
        (footOf builder layout rows places).encode ∧
      image.length =
        places.schema + (schemaBlock builder layout rows places).length + footerSize := by
  intro places image
  have foot := tailFoot_eq exact' bounded
  obtain ⟨gap, -, schemaOut⟩ := schemaStart_out builder layout
    (entriesFrom builder layout start (piecesOf builder layout rows)) emitter
  have out : image = (emitter.padTo 8).out ++ slotBlock builder layout rows places ++ gap ++
      schemaBlock builder layout rows places ++ (footOf builder layout rows places).encode := by
    change (writeTail _ _ _ _ _ _).out = _
    rw [writeTail_eq, foot, emit, write, footStart_out, schemaOut]
    rfl
  have schemaLength : places.schema = (emitter.padTo 8).out.length +
      (slotBlock builder layout rows places).length + gap.length := by
    have length := congrArg List.length schemaOut
    rwa [List.length_append, List.length_append] at length
  refine ⟨?_, ?_, by rw [schemaLength]; exact Nat.le_add_right _ _, ?_, ?_, ?_⟩
  · rw [writeTail_eq]
    exact emit_exact (writeSchema_exact (schemaStart_exact _ _ _ exact') _ _ _ _ _) _
  · refine ⟨(emitter.padTo 8).out, gap ++ schemaBlock builder layout rows places ++
      (footOf builder layout rows places).encode, ?_, rfl⟩
    rw [out]
    simp only [List.append_assoc]
  · refine ⟨(emitter.padTo 8).out ++ slotBlock builder layout rows places ++ gap,
      (footOf builder layout rows places).encode, out, ?_⟩
    rw [List.length_append, List.length_append, schemaLength]
  · refine ⟨(emitter.padTo 8).out ++ slotBlock builder layout rows places ++ gap ++
      schemaBlock builder layout rows places, [], by rw [out, List.append_nil], ?_⟩
    rw [List.length_append, List.length_append, List.length_append, schemaLength]
  · rw [out]
    simp only [List.length_append, footOf_encode_length, schemaLength]

end Tail

/-! ### The image -/

/-- What `write_image` does when it does not throw. -/
theorem writeImage_cases {builder : Builder} {layout : Layout} {rows : List StagedRow}
    {partitions : List (DirEntry × PartitionPlan)}
    (accepted : (writeImage builder layout rows).2 = .ok partitions) :
    ∃ dicts valueDict emitter,
      (writeDictionaries builder layout (Emitter.start.emit header.encode)).2 =
        .ok (dicts, valueDict) ∧
      emitter = (writeDictionaries builder layout (Emitter.start.emit header.encode)).1.padTo 8 ∧
      (writePartitions builder layout (partitionRuns rows) layout.stretches emitter).2 =
        .ok partitions ∧
      (writeImage builder layout rows).1 =
        writeTail builder layout dicts valueDict (partitions.map Prod.fst)
          (writePartitions builder layout (partitionRuns rows) layout.stretches emitter).1 := by
  unfold writeImage at accepted ⊢
  cases dictionaries : writeDictionaries builder layout (Emitter.start.emit header.encode) with
  | mk dicted result =>
    cases result with
    | error error =>
      rw [dictionaries] at accepted
      nomatch accepted
    | ok pair =>
      rw [dictionaries] at accepted
      simp only at accepted ⊢
      cases recorded : writePartitions builder layout (partitionRuns rows) layout.stretches
          (dicted.padTo 8) with
      | mk after result =>
        cases result with
        | error error =>
          rw [recorded] at accepted
          nomatch accepted
        | ok written =>
          rw [recorded] at accepted
          obtain rfl := Except.ok.inj accepted
          exact ⟨pair.1, pair.2, dicted.padTo 8, rfl, rfl, by rw [recorded], by rw [recorded]⟩

theorem writeImage_spec {builder : Builder} {layout : Layout} {rows : List StagedRow}
    {partitions : List (DirEntry × PartitionPlan)}
    (accepted : (writeImage builder layout rows).2 = .ok partitions)
    (stretches : layout.stretches.length = (partitionRuns rows).length)
    (bounded : (writeImage builder layout rows).1.out.length < 2 ^ 64) :
    ∃ places, Written builder layout rows (writeImage builder layout rows).1.out places ∧
      partitions.map Prod.fst = directoryOf builder layout rows places ∧
      partitions.map Prod.snd = (piecesOf builder layout rows).map Prod.snd ∧
      (writeImage builder layout rows).1.pos = (writeImage builder layout rows).1.out.length := by
  obtain ⟨dicts, valueDict, padded, dictionaries, start, recorded, image⟩ :=
    writeImage_cases accepted
  rw [image] at bounded ⊢
  have headHolds := emit_holds Emitter.start header.encode
  have headStart : headerSize ≤ (Emitter.start.emit header.encode).out.length := Nat.le_refl _
  obtain ⟨dictedExact, dictedExtends, dictsWritten⟩ :=
    writeDictionaries_spec (emit_exact exact_start header.encode) headStart dictionaries
  have paddedExact : padded.Exact := start ▸ padTo_exact dictedExact 8
  have paddedExtends : Extends _ padded := start ▸ padTo_extends _ 8
  obtain ⟨afterExact, afterOut, plans, slots⟩ :=
    writePartitions_spec builder layout (partitionRuns rows) layout.stretches paddedExact recorded
  generalize (writeDictionaries builder layout (Emitter.start.emit header.encode)).1 = dicted at *
  generalize (writePartitions builder layout (partitionRuns rows) layout.stretches padded).1 =
    after at *
  generalize Emitter.start.emit header.encode = headed at *
  have afterExtends : Extends padded after := ⟨_, afterOut⟩
  have tailExtends := writeTail_extends builder layout dicts valueDict
    (partitions.map Prod.fst) after
  have entries := slots (lt_of_le_of_lt tailExtends.length_le bounded)
  rw [entries] at bounded tailExtends ⊢
  obtain ⟨tailExact, slotsHold, slotsEnd, schemaHolds, footHolds, length⟩ :=
    writeTail_spec afterExact bounded
  have toEnd := paddedExtends.trans (afterExtends.trans tailExtends)
  have dictsDone := dictsWritten (lt_of_le_of_lt toEnd.length_le bounded)
  have total : after.out.length =
      padded.out.length + (recordBlock builder layout rows).length := by
    rw [afterOut, List.length_append]
    rfl
  refine ⟨placesOf builder layout rows dicts valueDict padded.out.length after, ?_, rfl, plans,
    tailExact bounded⟩
  exact
    { header := (dictedExtends.trans toEnd).holds headHolds
      dictCount := dictsDone.dictCount
      text := fun i inside => by
        obtain ⟨entry, located, textWritten⟩ := dictsDone.text i inside
        obtain ⟨size, first, finish, holds⟩ := textWritten headStart
        exact ⟨entry, located, size, first, le_trans finish paddedExtends.length_le,
          toEnd.holds holds⟩
      composite := fun interned => by
        obtain ⟨index, entry, located, tuples⟩ := dictsDone.composite interned
        obtain ⟨count, size, first, finish, head, tuple⟩ := tuples headStart
        exact ⟨index, entry, located, count, size, first,
          le_trans finish paddedExtends.length_le, toEnd.holds head,
          fun t inside => toEnd.holds (tuple t inside)⟩
      recordsStart := le_trans headStart (dictedExtends.trans paddedExtends).length_le
      stretches := stretches
      records := tailExtends.holds (afterOut ▸ holds_end _ _)
      recordsEnd := le_trans (Nat.le_of_eq total.symm) (padTo_extends after 8).length_le
      directoryClose := total ▸ Nat.lt_succ_of_le (padTo_length_le after 8)
      slots := slotsHold
      slotsEnd := slotsEnd
      schema := schemaHolds
      footer := footHolds
      length := length }

theorem chooseLayout_stretches (builder : Builder) (rows : List StagedRow) :
    (chooseLayout builder rows).stretches.length = (partitionRuns rows).length :=
  List.length_map ..

end Mmpack
