/-
This file says what the writer looks at. Builders with the same statistics,
dictionaries and tuples, told to lay fields, addresses, references and the
directory out alike, choose the same layout as long as both intern or neither
does, and then write the same blocks. The key mode shows in one byte of the schema
header and nowhere else.
-/

import Mmpack.Twins
import Mmpack.Returning

namespace Mmpack

open ByteList Emitter

namespace Builder

/-- Builders the writer tells apart by the policy of interning and by the key mode only. -/
structure SameInput (first second : Builder) : Prop where
  schema : second.schema = first.schema
  stats : second.stats = first.stats
  textDicts : second.textDicts = first.textDicts
  tuples : second.tuples = first.tuples
  count : second.count = first.count
  wide : second.blob.isSome = first.blob.isSome
  wideWidth : second.wideWidth = first.wideWidth
  addressBits : second.options.addressBits = first.options.addressBits
  alignFields : second.options.alignFields = first.options.alignFields
  partitionAddressWidth :
    second.options.partitionAddressWidth = first.options.partitionAddressWidth
  partitionRemap : second.options.partitionRemap = first.options.partitionRemap
  maxDenseSlots : second.options.maxDenseSlots = first.options.maxDenseSlots

/-- Twins that collapse tuples alike are told apart by what else their options say. -/
theorem Twins.sameInput {splits : Bool} {first second : Builder}
    (twins : Twins splits true first second)
    (alignFields : second.options.alignFields = first.options.alignFields)
    (partitionAddressWidth :
      second.options.partitionAddressWidth = first.options.partitionAddressWidth)
    (partitionRemap : second.options.partitionRemap = first.options.partitionRemap)
    (maxDenseSlots : second.options.maxDenseSlots = first.options.maxDenseSlots) :
    SameInput first second := by
  have equal := twins.tables rfl
  obtain ⟨_, _, _, _, _, _, _, _, same⟩ := twins.same
  refine ⟨?_, ?_, ?_, equal.tuples, ?_, twins.wide, ?_, twins.addressBits, alignFields,
    partitionAddressWidth, partitionRemap, maxDenseSlots⟩ <;> rw [same]

/-- What finishing does to the builder is no matter. -/
theorem SameInput.finishing {first second : Builder} (same : SameInput first second)
    (staging staging' : Option StagingObject) (nextObject nextObject' : Nat) :
    SameInput { first with staging, finished := true, nextObject }
      { second with staging := staging', finished := true, nextObject := nextObject' } :=
  ⟨same.schema, same.stats, same.textDicts, same.tuples, same.count, same.wide, same.wideWidth,
    same.addressBits, same.alignFields, same.partitionAddressWidth, same.partitionRemap,
    same.maxDenseSlots⟩

/-- What the schema header records of the key mode. -/
def keyBits (builder : Builder) : Nat :=
  if builder.mode = .explicit ∨ builder.mode = .explicitWide then noKeyMapping
  else builder.options.addressBits % 2 ^ 8

end Builder

open Builder

variable {first second : Builder}

/-! ### The layout -/

theorem planRemap_congr {options options' : BuildOptions}
    (same : options'.partitionRemap = options.partitionRemap) :
    planRemap options' = planRemap options := by
  funext refWidth distinctHere count
  rw [planRemap, planRemap, same]

namespace Builder.SameInput

theorem shapeFields (same : SameInput first second) : shapeFields second = shapeFields first := by
  have shapes : shapeField second = shapeField first := by
    funext i decl stats
    rw [shapeField, shapeField, same.schema, same.textDicts]
  rw [Mmpack.shapeFields, Mmpack.shapeFields, shapes, same.schema, same.stats]

theorem stretchOf (same : SameInput first second) : stretchOf second = stretchOf first := by
  funext run
  rw [Mmpack.stretchOf, Mmpack.stretchOf, same.wide, same.wideWidth]

theorem globalAddressWidth (same : SameInput first second) :
    globalAddressWidth second = globalAddressWidth first := by
  funext rows
  rw [Mmpack.globalAddressWidth, Mmpack.globalAddressWidth, same.wide, same.wideWidth]

theorem chooseStretches (same : SameInput first second) :
    chooseStretches second = chooseStretches first := by
  funext addressWidth runs
  rw [Mmpack.chooseStretches, Mmpack.chooseStretches, same.partitionAddressWidth, same.stretchOf]

theorem priceAddresses (same : SameInput first second) :
    priceAddresses second = priceAddresses first := by
  funext addressWidth runs
  rw [Mmpack.priceAddresses, Mmpack.priceAddresses, same.partitionAddressWidth, same.stretchOf,
    same.count]

theorem priceRemaps (same : SameInput first second) : priceRemaps second = priceRemaps first := by
  funext refWidth runs
  rw [Mmpack.priceRemaps, Mmpack.priceRemaps, planRemap_congr same.partitionRemap]

/-- The estimates are the same, whatever the policy. -/
theorem estimates (same : SameInput first second) (rows : List StagedRow) :
    (chooseLayout second rows).inlineEstimate = (chooseLayout first rows).inlineEstimate ∧
      (chooseLayout second rows).internedEstimate =
        (chooseLayout first rows).internedEstimate := by
  unfold chooseLayout
  rw [same.shapeFields, same.globalAddressWidth, same.chooseStretches, same.priceAddresses,
    same.priceRemaps, same.tuples, same.count, same.alignFields]
  exact ⟨rfl, rfl⟩

/-- Under one policy both intern or neither does. -/
theorem choice (same : SameInput first second)
    (policy : second.options.valueInterning = first.options.valueInterning)
    (rows : List StagedRow) :
    (chooseLayout second rows).interned = (chooseLayout first rows).interned := by
  obtain ⟨inline, interned⟩ := same.estimates rows
  unfold Mmpack.chooseLayout at inline interned ⊢
  simp only at inline interned ⊢
  rw [policy, inline, interned]

/-- What the choice is not about is the same. -/
theorem chooseLayout_with (same : SameInput first second) (rows : List StagedRow) :
    chooseLayout second rows = { chooseLayout first rows with
      interned := (chooseLayout second rows).interned
      recordStride := (chooseLayout second rows).recordStride } := by
  unfold Mmpack.chooseLayout
  rw [same.shapeFields, same.globalAddressWidth, same.chooseStretches, same.priceAddresses,
    same.priceRemaps, same.tuples, same.count, same.alignFields]

/-- Where both intern or neither does, the layout is the same. -/
theorem chooseLayout (same : SameInput first second) {rows : List StagedRow}
    (choice : (chooseLayout second rows).interned = (chooseLayout first rows).interned) :
    chooseLayout second rows = chooseLayout first rows := by
  unfold Mmpack.chooseLayout at choice ⊢
  rw [same.shapeFields, same.globalAddressWidth, same.chooseStretches, same.priceAddresses,
    same.priceRemaps, same.tuples, same.count, same.alignFields] at choice ⊢
  simp only at choice ⊢
  rw [choice]

/-! ### The blocks -/

theorem writeDictionaries (same : SameInput first second) :
    writeDictionaries second = writeDictionaries first := by
  funext layout emitter
  rw [Mmpack.writeDictionaries, Mmpack.writeDictionaries, same.textDicts, same.tuples]

theorem planPartition (same : SameInput first second) :
    planPartition second = planPartition first := by
  funext layout run stretch
  rw [Mmpack.planPartition, Mmpack.planPartition, planRemap_congr same.partitionRemap]

theorem encodeRecord (same : SameInput first second) :
    encodeRecord second = encodeRecord first := by
  funext layout plan row
  rw [encodeRecord_eq, encodeRecord_eq, storedValue, storedValue, storedAddress, storedAddress,
    same.wide, same.tuples]

theorem writePartitions (same : SameInput first second) (layout : Layout)
    (runs : List (List StagedRow)) (stretches : List (Nat × Nat)) (emitter : Emitter) :
    writePartitions second layout runs stretches emitter =
      writePartitions first layout runs stretches emitter := by
  induction runs generalizing stretches emitter with
  | nil => cases stretches <;> rfl
  | cons run runs inductionHypothesis =>
    cases stretches with
    | nil => rfl
    | cons stretch stretches =>
      rw [Mmpack.writePartitions, Mmpack.writePartitions, same.planPartition]
      simp only [writeRecords_eq, same.encodeRecord, inductionHypothesis]

theorem useDense (same : SameInput first second) (directory : List DirEntry) :
    useDense second.options directory = useDense first.options directory := by
  rw [Mmpack.useDense, Mmpack.useDense, same.maxDenseSlots]

/-- The schema header tells the key mode, and is the same otherwise. -/
theorem schemaHeader (_ : SameInput first second) (layout : Layout) (dir : DirLayout)
    (dictCount nameBytes valueDict : Nat) :
    schemaHeader second layout dir dictCount nameBytes valueDict =
      { schemaHeader first layout dir dictCount nameBytes valueDict with
        addressBits := second.keyBits } := rfl

/-- Builds of one key mode write the same image. -/
theorem writeImage (same : SameInput first second) (mode : second.mode = first.mode) :
    writeImage second = writeImage first := by
  have heads : Mmpack.schemaHeader second = Mmpack.schemaHeader first := by
    funext layout dir dictCount nameBytes valueDict
    rw [same.schemaHeader, keyBits, mode, same.addressBits]
    rfl
  have tails : writeTail second = writeTail first := by
    funext layout dicts valueDict directory emitter
    unfold writeTail writeSchema
    rw [same.useDense, same.count, same.schema, heads]
  funext layout rows
  unfold Mmpack.writeImage
  rw [same.writeDictionaries, tails]
  simp only [same.writePartitions]

end Builder.SameInput

/-! ### The place of the key mode -/

/-- The offset of `address_bits` in a schema header. -/
def addressBitsAt : Nat := 25

/-- The bytes of a schema header around its address bits. -/
theorem SchemaHeader.encode_split (head : SchemaHeader) : ∃ front back : List UInt8,
    front.length = addressBitsAt ∧ ∀ addressBits, ({ head with addressBits }).encode =
      front ++ UInt8.ofNat addressBits :: back := by
  refine ⟨pack [(4, head.magic), (4, head.fieldCount), (4, head.dictCount), (4, head.recordStride),
    (4, head.valueStride), (4, head.nameBytes), (1, head.addressWidth)],
    pack [(1, head.mode), (1, head.refWidth), (4, head.valueDict), (1, head.dirPartitionWidth),
      (1, head.dirOffsetWidth), (1, head.dirCountWidth), (1, head.dirRemapWidth),
      (1, head.dirAddrWidth), (1, head.dirSkipWidth), (2, 0)], ?_, fun addressBits => ?_⟩
  · simp only [pack_cons, pack_nil, List.length_append, leBytes_length, List.length_nil]
    rfl
  · simp only [encode, pack_cons, pack_nil, leBytes, List.cons_append, List.nil_append]

/-- The footer of an image. -/
def footerOf (image : List UInt8) : Footer :=
  Footer.parse (slice image (image.length - footerSize) footerSize)

theorem footerOf_writeTail (builder : Builder) (layout : Layout) (dicts : List DictEntry)
    (valueDict : Nat) (directory : List DirEntry) (emitter : Emitter) :
    footerOf (writeTail builder layout dicts valueDict directory emitter).out =
      tailFoot builder layout dicts valueDict directory emitter :=
  Footer.parse_end (tailFoot_fits builder layout dicts valueDict directory emitter) _

/-- The blocks from the schema on are the header, what the key mode does not touch, and a footer
that does not tell the mode. -/
theorem writeTail_split (same : SameInput first second) (layout : Layout) (dicts : List DictEntry)
    (valueDict : Nat) (directory : List DirEntry) (emitter : Emitter) :
    ∃ (head : SchemaHeader) (rest : List UInt8), head.addressBits = first.keyBits ∧
      (writeTail first layout dicts valueDict directory emitter).out =
        (schemaStart first layout directory emitter).out ++ head.encode ++ rest ++
          (tailFoot first layout dicts valueDict directory emitter).encode ∧
      (writeTail second layout dicts valueDict directory emitter).out =
        (schemaStart first layout directory emitter).out ++
          ({ head with addressBits := second.keyBits }).encode ++ rest ++
          (tailFoot first layout dicts valueDict directory emitter).encode := by
  have start : schemaStart second layout directory emitter =
      schemaStart first layout directory emitter := by
    unfold schemaStart
    rw [same.useDense]
  have pos : (footStart second layout dicts valueDict directory emitter).pos =
      (footStart first layout dicts valueDict directory emitter).pos := by
    simp only [footStart, start, same.useDense, writeSchema, emit, write,
      SchemaHeader.encode_length, same.schema]
  have foot : tailFoot second layout dicts valueDict directory emitter =
      tailFoot first layout dicts valueDict directory emitter := by
    unfold tailFoot
    rw [pos, start, same.useDense, same.count]
  refine ⟨schemaHeader first layout (directoryLayoutFor (useDense first.options directory)
      layout.addressWidth directory) dicts.length (nameBlob first.schema.fields).length valueDict,
    ((nameFields first.schema.fields layout.descs).map FieldDesc.encode).flatten ++
      ((dicts.map DictEntry.encode).flatten ++ nameBlob first.schema.fields), rfl, ?_, ?_⟩
  · rw [writeTail_eq, emit, write, footStart, writeSchema_out]
    simp only [List.append_assoc]
  · rw [writeTail_eq, emit, write, footStart, writeSchema_out, foot, start, same.useDense,
      same.schemaHeader, same.schema]
    simp only [List.append_assoc]

/-- The key mode does not decide whether the writer throws. -/
theorem Builder.SameInput.writeImage_result (same : SameInput first second) (layout : Layout)
    (rows : List StagedRow) :
    (Mmpack.writeImage second layout rows).2 = (Mmpack.writeImage first layout rows).2 := by
  unfold Mmpack.writeImage
  rw [same.writeDictionaries]
  cases Mmpack.writeDictionaries first layout (Emitter.start.emit header.encode) with
  | mk dicted result =>
    cases result with
    | error error => rfl
    | ok pair =>
      simp only [same.writePartitions]
      cases Mmpack.writePartitions first layout (partitionRuns rows) layout.stretches
          (dicted.padTo 8) with
      | mk after result => cases result <;> rfl

/-- Images of two key modes are the same but for the byte that records the mode. -/
theorem writeImage_split (same : SameInput first second) (layout : Layout)
    (rows : List StagedRow) :
    (writeImage second layout rows).2 = (writeImage first layout rows).2 ∧
      ∀ partitions, (writeImage first layout rows).2 = .ok partitions → ∃ front back,
        (writeImage first layout rows).1.out = front ++ UInt8.ofNat first.keyBits :: back ∧
        (writeImage second layout rows).1.out = front ++ UInt8.ofNat second.keyBits :: back ∧
        ((writeImage first layout rows).1.out.length < 2 ^ 64 → front.length =
          (footerOf (writeImage first layout rows).1.out).schemaOffset + addressBitsAt) := by
  have result := same.writeImage_result layout rows
  refine ⟨result, fun partitions accepted => ?_⟩
  obtain ⟨dicts, valueDict, padded, dictionaries, begun, recorded, image⟩ :=
    writeImage_cases accepted
  obtain ⟨dicts', valueDict', padded', dictionaries', begun', -, image'⟩ :=
    writeImage_cases (result.trans accepted)
  rw [same.writeDictionaries] at dictionaries' begun'
  rw [same.writePartitions] at image'
  obtain rfl : padded' = padded := begun'.trans begun.symm
  obtain ⟨rfl, rfl⟩ := Prod.mk.inj (Except.ok.inj (dictionaries'.symm.trans dictionaries))
  obtain ⟨dictedExact, -⟩ := writeDictionaries_spec (emit_exact exact_start header.encode)
    (Nat.le_refl _) dictionaries
  obtain ⟨afterExact, -⟩ := writePartitions_spec first layout (partitionRuns rows)
    layout.stretches (begun ▸ padTo_exact dictedExact 8) recorded
  rw [image, image']
  generalize (writePartitions first layout (partitionRuns rows) layout.stretches padded').1 =
    after at *
  obtain ⟨head, rest, bits, out, out'⟩ :=
    writeTail_split same layout dicts' valueDict' (partitions.map Prod.fst) after
  obtain ⟨front, back, at_, split⟩ := head.encode_split
  have here := split first.keyBits
  rw [← bits] at here
  refine ⟨(schemaStart first layout (partitions.map Prod.fst) after).out ++ front,
    back ++ rest ++ (tailFoot first layout dicts' valueDict' (partitions.map Prod.fst)
      after).encode, ?_, ?_, fun short => ?_⟩
  · rw [out, bits.symm]
    simp only [here, List.append_assoc, List.cons_append]
  · rw [out', split]
    simp only [List.append_assoc, List.cons_append]
  · have startExact := schemaStart_exact first layout (partitions.map Prod.fst) afterExact
    have length := writeTail_length first layout dicts' valueDict' (partitions.map Prod.fst) after
    rw [footerOf_writeTail, tailFoot, startExact (by omega), List.length_append, at_]

/-! ### Finishing -/

/-- Builders the writer does not tell apart are finished alike, but for the byte of the key
mode. -/
theorem finish_split (same : SameInput first second) (sound : first.Sound) (sound' : second.Sound)
    (running : first.finished = false) (running' : second.finished = false)
    (rows : second.rows = first.rows) (order : second.options.order = first.options.order)
    (choice : ∀ rows, (chooseLayout second rows).interned = (chooseLayout first rows).interned) :
    (finish second).outcome.isOk = (finish first).outcome.isOk ∧
      ∀ report, (finish first).outcome = .ok report → ∃ front back,
        (finish first).image = front ++ UInt8.ofNat first.keyBits :: back ∧
        (finish second).image = front ++ UInt8.ofNat second.keyBits :: back ∧
        ((finish first).image.length < 2 ^ 64 → front.length =
          (footerOf (finish first).image).schemaOffset + addressBitsAt) := by
  have orderable : second.Orderable ↔ first.Orderable := by
    rw [Orderable, Orderable, rows, order]
  rcases finish_rows sound running with ⟨disordered, ⟨error, thrown⟩, -⟩ | ⟨orders, staging,
    nextObject, image, outcome, reports⟩
  · rcases finish_rows sound' running' with ⟨-, ⟨error', thrown'⟩, -⟩ | ⟨orders', -⟩
    · rw [thrown, thrown']
      exact ⟨rfl, fun report impossible => nomatch impossible⟩
    · exact absurd (orderable.mp orders') disordered
  · rcases finish_rows sound' running' with ⟨disordered', -⟩ | ⟨-, staging', nextObject', image',
      outcome', -⟩
    · exact absurd (orderable.mpr orders) disordered'
    · have finals := same.finishing staging staging' nextObject nextObject'
      have layouts := finals.chooseLayout (choice (StagedRow.sortRows first.rows))
      obtain ⟨result, bytes⟩ := writeImage_split finals (chooseLayout
        { first with staging, finished := true, nextObject } (StagedRow.sortRows first.rows))
        (StagedRow.sortRows first.rows)
      rw [rows, layouts] at image' outcome'
      rw [outcome, outcome', result, image, image']
      refine ⟨rfl, fun report returned => ?_⟩
      obtain ⟨flag, partitions, written, -⟩ := reports report returned
      exact bytes partitions written

end Mmpack
