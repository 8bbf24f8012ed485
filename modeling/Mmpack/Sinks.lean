/-
This file embeds `sink.hpp`: where the bytes of an image go. A write that throws may
have taken a part of its chunk, so its outcome carries what it leaves behind as well.

The two sinks over streams are thin: what counts is the stream under them, which is a
parameter here. All that is asked of one is that it appends, and that it tells when it
has not taken everything.
-/

import Mmpack.Errors
import Mmpack.Slices
import Mmpack.Streams

namespace Mmpack

open ByteList Streaming

/-- What a sink throws: a `std::runtime_error`. -/
inductive SinkError
  | shortWrite
  | bufferOverrun
  deriving DecidableEq, Repr

def SinkError.what : SinkError → List UInt8
  | .shortWrite => text "mmpack: short write"
  | .bufferOverrun => text "mmpack: buffer overrun"

/-- A `byte_sink`. -/
abbrev ByteSink (State : Type) := Sink UInt8 State SinkError

/-! ### Sinks in memory -/

/-- `vector_sink`: collects the image. -/
structure VectorSink where
  bytes : List UInt8
  deriving DecidableEq, Repr

def VectorSink.empty : VectorSink := ⟨[]⟩

def VectorSink.append (sink : VectorSink) (data : List UInt8) : VectorSink :=
  ⟨sink.bytes ++ data⟩

def vectorSink : ByteSink VectorSink where
  write sink data := (.ok (), sink.append data)

/-- `counting_sink`: counts bytes without storing them. -/
structure CountingSink where
  size : UInt64
  deriving DecidableEq, Repr

def CountingSink.empty : CountingSink := ⟨0⟩

def CountingSink.count (sink : CountingSink) (data : List UInt8) : CountingSink :=
  ⟨sink.size + UInt64.ofNat data.length⟩

def countingSink : ByteSink CountingSink where
  write sink data := (.ok (), sink.count data)

/-- `buffer_sink`: writes into memory that the caller provides. -/
structure BufferSink where
  /-- The caller's memory, from the base on. -/
  memory : List UInt8
  capacity : Nat
  offset : Nat
  within : offset ≤ capacity
  /-- There is as much memory as the caller says. -/
  backed : capacity ≤ memory.length

/-- A buffer before the first write. -/
def BufferSink.ofMemory (memory : List UInt8) (capacity : Nat) (backed : capacity ≤ memory.length) :
    BufferSink where
  memory := memory
  capacity := capacity
  offset := 0
  within := Nat.zero_le _
  backed := backed

/-- The room left in a buffer. -/
def BufferSink.room (sink : BufferSink) : Nat := sink.capacity - sink.offset

def BufferSink.write (sink : BufferSink) (data : List UInt8) :
    Except SinkError Unit × BufferSink :=
  if fits : data.length ≤ sink.room then
    (.ok (), { sink with
      memory := overwrite sink.memory sink.offset data
      offset := sink.offset + data.length
      within := by
        have within := sink.within
        unfold room at fits
        omega
      backed := by
        rw [overwrite_length]
        exact sink.backed })
  else (.error .bufferOverrun, sink)

def bufferSink : ByteSink BufferSink where
  write := BufferSink.write

/-! ### Sinks over streams -/

/-- A stdio stream as `fwrite` writes to it: how many bytes were taken, not more than there are, and
the stream then. What was taken follows what the stream held. -/
structure Stdio (File : Type) where
  fwrite : File → List UInt8 → Nat × File
  content : File → List UInt8
  taken_le : ∀ file data, (fwrite file data).1 ≤ data.length
  appends : ∀ file data, content (fwrite file data).2 =
    content file ++ data.take (fwrite file data).1

def Stdio.write {File : Type} (stdio : Stdio File) (file : File) (data : List UInt8) :
    Except SinkError Unit × File :=
  if data.length = 0 then (.ok (), file)
  else
    let taken := stdio.fwrite file data
    if taken.1 ≠ data.length then (.error .shortWrite, taken.2) else (.ok (), taken.2)

/-- `stdio_sink`. -/
def stdioSink {File : Type} (stdio : Stdio File) : ByteSink File where
  write := stdio.write

/-- A `std::ostream` as unformatted output writes to it. Some first part of the data is taken, and
all of it unless the stream has failed. -/
structure Ostream (Stream : Type) where
  put : Stream → List UInt8 → Stream
  failed : Stream → Bool
  content : Stream → List UInt8
  appends : ∀ stream data, ∃ part, part <+: data ∧
    content (put stream data) = content stream ++ part ∧
      (failed (put stream data) = false → part = data)

def Ostream.write {Stream : Type} (ostream : Ostream Stream) (stream : Stream)
    (data : List UInt8) : Except SinkError Unit × Stream :=
  let stream := ostream.put stream data
  if ostream.failed stream then (.error .shortWrite, stream) else (.ok (), stream)

/-- `ostream_sink`. -/
def ostreamSink {Stream : Type} (ostream : Ostream Stream) : ByteSink Stream where
  write := ostream.write

/-! ### What the sinks keep -/

theorem vectorSink_accepts : vectorSink.Accepts VectorSink.append := fun _ _ => rfl

theorem countingSink_accepts : countingSink.Accepts CountingSink.count := fun _ _ => rfl

theorem vectorSink_appends : vectorSink.Appends VectorSink.bytes :=
  fun _ data => ⟨data, List.prefix_refl _, rfl, fun _ => rfl⟩

theorem vectorSink_cuts : vectorSink.Cuts VectorSink.bytes fun _ _ => False :=
  fun _ _ _ _ refused => by cases refused

theorem foldl_count (sink : CountingSink) (chunks : List (List UInt8)) :
    (chunks.foldl CountingSink.count sink).size =
      sink.size + UInt64.ofNat chunks.flatten.length := by
  induction chunks generalizing sink with
  | nil => exact (UInt64.add_zero _).symm
  | cons chunk rest inductionHypothesis =>
    rw [List.foldl_cons, inductionHypothesis, List.flatten_cons, List.length_append,
      UInt64.ofNat_add, CountingSink.count, UInt64.add_assoc]

/-- What a stdio stream holds follows what it held. -/
theorem stdioSink_appends {File : Type} (stdio : Stdio File) :
    (stdioSink stdio).Appends stdio.content := by
  intro file data
  show ∃ part, part <+: data ∧ stdio.content (stdio.write file data).2 =
    stdio.content file ++ part ∧ ((stdio.write file data).1 = .ok () → part = data)
  have appends := stdio.appends file data
  unfold Stdio.write
  by_cases empty : data.length = 0
  · rw [if_pos empty]
    exact ⟨[], List.nil_prefix, (List.append_nil _).symm,
      fun _ => (List.eq_nil_of_length_eq_zero empty).symm⟩
  · rw [if_neg empty]
    refine ⟨data.take (stdio.fwrite file data).1, List.take_prefix _ _, ?_, ?_⟩
    · simp only
      split <;> exact appends
    · simp only
      split
      · exact fun accepted => by cases accepted
      · rename_i whole
        exact fun _ => by rw [not_not.mp whole, List.take_length]

/-- A stdio stream that falls short has a proper part of the chunk. -/
theorem stdioSink_cuts {File : Type} (stdio : Stdio File) :
    (stdioSink stdio).Cuts stdio.content fun part chunk => part <+: chunk ∧ part ≠ chunk := by
  intro file data error next written
  have refused : stdio.write file data = (.error error, next) := written
  unfold Stdio.write at refused
  by_cases empty : data.length = 0
  · rw [if_pos empty] at refused
    cases refused
  · rw [if_neg empty] at refused
    simp only at refused
    split at refused
    · rename_i less
      cases refused
      refine ⟨_, ⟨List.take_prefix (stdio.fwrite file data).1 _, fun whole => ?_⟩,
        stdio.appends file data⟩
      have length := congrArg List.length whole
      rw [List.length_take, Nat.min_eq_left (stdio.taken_le file data)] at length
      exact less length
    · cases refused

/-- A stream that takes all it is given refuses nothing. -/
theorem stdioSink_accepts {File : Type} {stdio : Stdio File}
    (takes : ∀ file data, (stdio.fwrite file data).1 = data.length) :
    (stdioSink stdio).Accepts fun file data =>
      if data.length = 0 then file else (stdio.fwrite file data).2 := by
  intro file data
  show stdio.write file data =
    (.ok (), if data.length = 0 then file else (stdio.fwrite file data).2)
  unfold Stdio.write
  by_cases empty : data.length = 0
  · rw [if_pos empty, if_pos empty]
  · rw [if_neg empty, if_neg empty]
    simp only [takes, ne_eq, not_true_eq_false, if_false]

/-- What a stream holds follows what it held. -/
theorem ostreamSink_appends {Stream : Type} (ostream : Ostream Stream) :
    (ostreamSink ostream).Appends ostream.content := by
  intro stream data
  show ∃ part, part <+: data ∧ ostream.content (ostream.write stream data).2 =
    ostream.content stream ++ part ∧ ((ostream.write stream data).1 = .ok () → part = data)
  obtain ⟨part, first, same, whole⟩ := ostream.appends stream data
  unfold Ostream.write
  refine ⟨part, first, ?_, ?_⟩
  · simp only
    split <;> exact same
  · simp only
    split
    · exact fun accepted => by cases accepted
    · rename_i good
      exact fun _ => whole (by simpa using good)

/-- A stream may fail with any first part of the chunk taken, and with the whole of it. -/
theorem ostreamSink_cuts {Stream : Type} (ostream : Ostream Stream) :
    (ostreamSink ostream).Cuts ostream.content fun part chunk => part <+: chunk := by
  intro stream data error next written
  have refused : ostream.write stream data = (.error error, next) := written
  obtain ⟨part, first, same, -⟩ := ostream.appends stream data
  unfold Ostream.write at refused
  simp only at refused
  split at refused
  · cases refused
    exact ⟨part, first, same⟩
  · cases refused

/-! ### Buffers -/

namespace BufferSink

variable {sink : BufferSink} {data : List UInt8}

theorem write_ok (fits : data.length ≤ sink.room) :
    (sink.write data).1 = .ok () ∧ (sink.write data).2.capacity = sink.capacity ∧
      (sink.write data).2.offset = sink.offset + data.length ∧
      (sink.write data).2.memory = overwrite sink.memory sink.offset data := by
  unfold write
  rw [dif_pos fits]
  exact ⟨rfl, rfl, rfl, rfl⟩

theorem write_error (overruns : sink.room < data.length) :
    sink.write data = (.error .bufferOverrun, sink) := by
  unfold write
  rw [dif_neg (Nat.not_le.mpr overruns)]

/-- The bytes written so far. -/
def written (sink : BufferSink) : List UInt8 := sink.memory.take sink.offset

end BufferSink

theorem bufferSink_rations : bufferSink.Rations BufferSink.room .bufferOverrun where
  accepts := by
    intro sink data fits
    obtain ⟨accepted, capacity, offset, -⟩ := BufferSink.write_ok fits
    refine ⟨(sink.write data).2, Prod.ext accepted rfl, ?_⟩
    unfold BufferSink.room at fits ⊢
    rw [capacity, offset]
    omega
  refuses := fun sink data overruns => BufferSink.write_error overruns

theorem bufferSink_appends : bufferSink.Appends BufferSink.written := by
  intro sink data
  show ∃ part, part <+: data ∧ (sink.write data).2.written = sink.written ++ part ∧
    ((sink.write data).1 = .ok () → part = data)
  by_cases fits : data.length ≤ sink.room
  · obtain ⟨accepted, -, offset, memory⟩ := BufferSink.write_ok fits
    refine ⟨data, List.prefix_refl _, ?_, fun _ => rfl⟩
    have within := sink.within
    have backed := sink.backed
    unfold BufferSink.room at fits
    rw [BufferSink.written, BufferSink.written, offset, memory, overwrite, List.take_take,
      List.take_append_of_le_length, List.take_of_length_le]
    · rw [List.length_append, List.length_take]
      omega
    · rw [List.length_append, List.length_take]
      omega
  · rw [BufferSink.write_error (Nat.not_le.mp fits)]
    exact ⟨[], List.nil_prefix, (List.append_nil _).symm, fun impossible => by cases impossible⟩

/-- A buffer takes nothing of a chunk it has no room for. -/
theorem bufferSink_cuts :
    bufferSink.Cuts BufferSink.written fun part chunk => part = [] ∧ chunk ≠ [] := by
  intro sink data error next written
  have refused : sink.write data = (.error error, next) := written
  by_cases fits : data.length ≤ sink.room
  · obtain ⟨accepted, -⟩ := BufferSink.write_ok fits
    rw [refused] at accepted
    cases accepted
  · rw [BufferSink.write_error (Nat.not_le.mp fits)] at refused
    cases refused
    refine ⟨[], ⟨rfl, fun empty => fits ?_⟩, (List.append_nil _).symm⟩
    rw [empty]
    exact Nat.zero_le _

/-- A buffer that was written to: it still has its size, what was written before stays, and so does
what lies past the last byte written. -/
structure BufferSink.Grows (sink later : BufferSink) : Prop where
  capacity : later.capacity = sink.capacity
  size : later.memory.length = sink.memory.length
  offset : sink.offset ≤ later.offset
  before : later.memory.take sink.offset = sink.memory.take sink.offset
  past : later.memory.drop later.offset = sink.memory.drop later.offset

theorem BufferSink.Grows.trans {first second third : BufferSink} (grows : first.Grows second)
    (grows' : second.Grows third) : first.Grows third where
  capacity := grows'.capacity.trans grows.capacity
  size := grows'.size.trans grows.size
  offset := grows.offset.trans grows'.offset
  before := by
    have shorter (memory : List UInt8) : memory.take first.offset =
        (memory.take second.offset).take first.offset := by
      rw [List.take_take, Nat.min_eq_left grows.offset]
    rw [shorter third.memory, grows'.before, ← shorter, grows.before]
  past := by
    have further (memory : List UInt8) : memory.drop third.offset =
        (memory.drop second.offset).drop (third.offset - second.offset) := by
      rw [List.drop_drop, Nat.add_sub_cancel' grows'.offset]
    rw [grows'.past, further second.memory, grows.past, ← further]

theorem BufferSink.write_grows (sink : BufferSink) (data : List UInt8) :
    sink.Grows (sink.write data).2 := by
  by_cases fits : data.length ≤ sink.room
  · obtain ⟨-, capacity, offset, memory⟩ := BufferSink.write_ok fits
    have within := sink.within
    have backed := sink.backed
    unfold room at fits
    refine ⟨capacity, by rw [memory, overwrite_length], by omega, ?_, ?_⟩
    · rw [memory]
      refine List.ext_getElem? fun index => ?_
      rw [List.getElem?_take, List.getElem?_take]
      split
      · rw [overwrite_getElem? (by omega), if_neg (by omega)]
      · rfl
    · rw [memory, offset]
      refine List.ext_getElem? fun index => ?_
      rw [List.getElem?_drop, List.getElem?_drop, overwrite_getElem? (by omega),
        if_neg (by omega)]
  · rw [BufferSink.write_error (Nat.not_le.mp fits)]
    exact ⟨rfl, rfl, Nat.le_refl _, rfl, rfl⟩

/-- Whatever a buffer is fed, it grows. -/
theorem bufferSink_grows (sink : BufferSink) (chunks : List (List UInt8)) :
    sink.Grows (bufferSink.feed sink chunks).2 :=
  Sink.feed_keeps (fun _ => ⟨rfl, rfl, Nat.le_refl _, rfl, rfl⟩) (fun _ _ _ => .trans)
    BufferSink.write_grows sink chunks

end Mmpack
