/-
This file says what a sink has when `finish` is done with it. Any sink that appends ends
with the whole image, or with the writes before the one it refused and a part of that
one; whatever was thrown, the builder is spent. A pass that counts tells how much memory
a second build of the same calls needs: with less it throws, and never writes past what
it was given.
-/

import Mmpack.Delivery
import Mmpack.Policies

namespace Mmpack

open ByteList Streaming

/-! ### Sinks that append -/

/-- What `finish` leaves in a sink and in the builder, whatever becomes of it. The writes make up
the image. If the sink takes them all, it has the image behind what it had, and `finish` ends as
the build does. If it refuses one, that ends `finish`, and the sink has the writes before it and
what it may keep of this one. -/
structure Delivers {State : Type} (sink : ByteSink State) (content : State → List UInt8)
    (cut : List UInt8 → List UInt8 → Prop) (before : State) (builder : Builder) : Prop where
  writes : (finishChunks builder).flatten = (finish builder).image
  whole : (sink.feed before (finishChunks builder)).1 = .ok () →
    (finishInto sink before builder).outcome = (finish builder).outcome.mapError .build ∧
      content (finishInto sink before builder).state = content before ++ (finish builder).image
  broken : ∀ error, (sink.feed before (finishChunks builder)).1 = .error error →
    (finishInto sink before builder).outcome = .error (.sink error) ∧
      ∃ taken chunk rest part middle, finishChunks builder = taken ++ chunk :: rest ∧
        sink.feed before taken = (.ok (), middle) ∧
        sink.write middle chunk = (.error error, (finishInto sink before builder).state) ∧
        cut part chunk ∧ content (finishInto sink before builder).state =
          content before ++ (taken.flatten ++ part)
  spent : (finishInto sink before builder).builder.finished = true
  silent : ∀ {Other : Type} (sink' : ByteSink Other) (other : Other),
    finishInto sink' other (finishInto sink before builder).builder =
      { state := other
        outcome := .error (.build .finishCalledTwice)
        builder := (finishInto sink before builder).builder }

section Appending

variable {State : Type} {sink : ByteSink State}

theorem finish_spent (builder : Builder) : (finish builder).builder.finished = true := by
  obtain ⟨staging, nextObject, same⟩ := builder.finish_builder
  rw [same]

theorem finishInto_of_ok {state : State} {builder : Builder}
    (accepted : (sink.feed state (finishChunks builder)).1 = .ok ()) :
    (finishInto sink state builder).outcome = (finish builder).outcome.mapError .build := by
  simp only [finishInto, accepted]

theorem finishInto_of_error {state : State} {builder : Builder} {error : SinkError}
    (refused : (sink.feed state (finishChunks builder)).1 = .error error) :
    (finishInto sink state builder).outcome = .error (.sink error) := by
  simp only [finishInto, refused]

/-- A `finish` that ends without the sink throwing has fed it everything. -/
theorem feed_of_outcome {state : State} {builder : Builder}
    (ended : ∀ error, (finishInto sink state builder).outcome ≠ .error (.sink error)) :
    (sink.feed state (finishChunks builder)).1 = .ok () := by
  cases fed : (sink.feed state (finishChunks builder)).1 with
  | ok _ => rfl
  | error error => exact absurd (finishInto_of_error fed) (ended error)

/-- `finish` returns into a sink what it returns, when it has fed it everything. -/
theorem finishInto_returned {state : State} {builder : Builder} {report : BuildReport}
    (returned : (finishInto sink state builder).outcome = .ok report) :
    (sink.feed state (finishChunks builder)).1 = .ok () ∧
      (finish builder).outcome = .ok report := by
  have accepted := feed_of_outcome fun error other => by
    rw [returned] at other
    cases other
  refine ⟨accepted, ?_⟩
  rw [finishInto_of_ok accepted] at returned
  cases outcome : (finish builder).outcome with
  | error error =>
    rw [outcome] at returned
    cases returned
  | ok other =>
    rw [outcome] at returned
    cases returned
    rfl

/-- A builder that was finished gives a sink nothing. -/
theorem finishInto_finished {builder : Builder} (finished : builder.finished = true)
    (state : State) :
    finishInto sink state builder =
      { state := state, outcome := .error (.build .finishCalledTwice), builder := builder } := by
  have twice : finish builder =
      { image := [], outcome := .error .finishCalledTwice, builder } := by
    rw [finish, if_pos finished]
  have nothing : finishChunks builder = [] := by
    rw [finishChunks, if_pos finished]
  rw [finishInto, twice, nothing]
  rfl

/-- `finish` into a sink that refuses nothing is `finish`. -/
theorem finishInto_of_accepts {grow : State → List UInt8 → State} (accepts : sink.Accepts grow)
    (state : State) (builder : Builder) :
    finishInto sink state builder =
      { state := (finishChunks builder).foldl grow state
        outcome := (finish builder).outcome.mapError .build
        builder := (finish builder).builder } := by
  rw [finishInto, accepts.feed]

theorem finishInto_delivers_of_appends {kept : State → List UInt8}
    {cut : List UInt8 → List UInt8 → Prop} (appends : sink.Appends kept) (cuts : sink.Cuts kept cut)
    (state : State) (builder : Builder) : Delivers sink kept cut state builder where
  writes := finishChunks_flatten builder
  whole accepted := by
    obtain ⟨part, -, same, all⟩ := appends.feed state (finishChunks builder)
    refine ⟨finishInto_of_ok accepted, same.trans ?_⟩
    rw [all accepted, finishChunks_flatten]
  broken error refused := ⟨finishInto_of_error refused, appends.feed_refused cuts refused⟩
  spent := finish_spent builder
  silent sink' other := finishInto_finished (finish_spent builder) other

/-- Where a sink keeps less than a refused chunk, it has the whole image exactly if it refused
nothing, that is if it threw nothing. -/
theorem finishInto_whole_iff {kept : State → List UInt8} {cut : List UInt8 → List UInt8 → Prop}
    (appends : sink.Appends kept) (cuts : sink.Cuts kept cut)
    (short : ∀ part chunk, cut part chunk → part.length < chunk.length) (state : State)
    (builder : Builder) :
    kept (finishInto sink state builder).state = kept state ++ (finish builder).image ↔
      ∀ error, (finishInto sink state builder).outcome ≠ .error (.sink error) := by
  rw [← finishChunks_flatten]
  refine (appends.feed_whole_iff cuts short).trans ⟨fun accepted error => ?_, feed_of_outcome⟩
  rw [finishInto_of_ok accepted]
  cases (finish builder).outcome <;> exact fun same => by cases same

/-- What `finish` leaves in the sinks of the library. A vector and a counter refuse nothing. A
buffer keeps nothing of the write it refuses, a stdio stream a proper part of it and an ostream
some first part, so a buffer and a stdio stream have the whole image exactly if they threw
nothing. -/
theorem finishInto_delivers {File Stream : Type} (stdio : Stdio File) (ostream : Ostream Stream)
    (builder : Builder) :
    (∀ vector, Delivers vectorSink VectorSink.bytes (fun _ _ => False) vector builder ∧
      (finishInto vectorSink vector builder).outcome = (finish builder).outcome.mapError .build) ∧
    (∀ counter, (finishInto countingSink counter builder).state.size =
        counter.size + UInt64.ofNat (finish builder).image.length ∧
      (finishInto countingSink counter builder).outcome =
        (finish builder).outcome.mapError .build) ∧
    (∀ buffer, Delivers bufferSink BufferSink.written (fun part chunk => part = [] ∧ chunk ≠ [])
        buffer builder ∧
      ((finishInto bufferSink buffer builder).state.written =
          buffer.written ++ (finish builder).image ↔
        ∀ error, (finishInto bufferSink buffer builder).outcome ≠ .error (.sink error))) ∧
    (∀ file, Delivers (stdioSink stdio) stdio.content
        (fun part chunk => part <+: chunk ∧ part ≠ chunk) file builder ∧
      (stdio.content (finishInto (stdioSink stdio) file builder).state =
          stdio.content file ++ (finish builder).image ↔
        ∀ error, (finishInto (stdioSink stdio) file builder).outcome ≠ .error (.sink error))) ∧
    ∀ stream, Delivers (ostreamSink ostream) ostream.content (fun part chunk => part <+: chunk)
      stream builder := by
  refine ⟨fun vector => ⟨?_, ?_⟩, fun counter => ⟨?_, ?_⟩, fun buffer => ⟨?_, ?_⟩,
    fun file => ⟨?_, ?_⟩, fun stream => ?_⟩
  · exact finishInto_delivers_of_appends vectorSink_appends vectorSink_cuts vector builder
  · rw [finishInto_of_accepts vectorSink_accepts]
  · rw [finishInto_of_accepts countingSink_accepts, foldl_count, finishChunks_flatten]
  · rw [finishInto_of_accepts countingSink_accepts]
  · exact finishInto_delivers_of_appends bufferSink_appends bufferSink_cuts buffer builder
  · refine finishInto_whole_iff bufferSink_appends bufferSink_cuts ?_ buffer builder
    rintro part chunk ⟨rfl, some⟩
    exact List.length_pos_of_ne_nil some
  · exact finishInto_delivers_of_appends (stdioSink_appends stdio) (stdioSink_cuts stdio) file
      builder
  · refine finishInto_whole_iff (stdioSink_appends stdio) (stdioSink_cuts stdio) ?_ file builder
    rintro part chunk ⟨first, other⟩
    exact lt_of_le_of_ne first.length_le fun same => other (first.eq_of_length same)
  · exact finishInto_delivers_of_appends (ostreamSink_appends ostream) (ostreamSink_cuts ostream)
      stream builder

end Appending

/-- A file with room for so many bytes. -/
def fullStdio (room : Nat) : Stdio (List UInt8) where
  fwrite file data :=
    ((data.take (room - file.length)).length, file ++ data.take (room - file.length))
  content := id
  taken_le _ _ := List.length_take_le' _ _
  appends file data := by
    simp only [id_eq, List.length_take, List.append_cancel_left_eq]
    rw [← List.take_take, List.take_length]

/-- A stream that fails when it has so many bytes. -/
def fullOstream (room : Nat) : Ostream (List UInt8) where
  put stream data := stream ++ data.take (room - stream.length)
  failed stream := decide (room ≤ stream.length)
  content := id
  appends stream data := by
    refine ⟨_, List.take_prefix (room - stream.length) data, rfl, fun good => ?_⟩
    have less := of_decide_eq_false good
    rw [List.length_append, List.length_take] at less
    exact List.take_of_length_le (by omega)

/-- The sample in a file that is too short, cut inside a write, and in a stream that fails when it
has it all. -/
theorem sample_delivers :
    let builder := sampleBuild.session.builder
    (finishInto (stdioSink (fullStdio 100)) [] builder).outcome = .error (.sink .shortWrite) ∧
      (finishInto (ostreamSink (fullOstream 236)) [] builder).outcome =
        .error (.sink .shortWrite) ∧
      (finishInto (ostreamSink (fullOstream 236)) [] builder).state = (finish builder).image ∧
      ∃ taken chunk rest part, finishChunks builder = taken ++ chunk :: rest ∧
        part <+: chunk ∧ part ≠ chunk ∧
        (finishInto (stdioSink (fullStdio 100)) [] builder).state = taken.flatten ++ part := by
  obtain ⟨-, -, -, files, -⟩ :=
    finishInto_delivers (fullStdio 100) (fullOstream 236) sampleBuild.session.builder
  have refused : ((stdioSink (fullStdio 100)).feed []
      (finishChunks sampleBuild.session.builder)).1 = .error .shortWrite := by decide +kernel
  obtain ⟨thrown, taken, chunk, rest, part, middle, split, -, -, ⟨first, proper⟩, has⟩ :=
    (files []).1.broken _ refused
  exact ⟨thrown, by decide +kernel, by decide +kernel, taken, chunk, rest, part, split, first,
    proper, has⟩

/-! ### Two passes -/

section Passes

variable (build : Build) {report : BuildReport}

/-- A build into memory of the caller's. -/
def Build.finishedInto (build : Build) (memory : List UInt8) (capacity : Nat)
    (backed : capacity ≤ memory.length) : Delivered BufferSink :=
  finishInto bufferSink (BufferSink.ofMemory memory capacity backed) build.session.builder

/-- What was written into a buffer, and what was there before behind it. -/
theorem BufferSink.memory_of_grows {memory : List UInt8} {capacity : Nat}
    {backed : capacity ≤ memory.length} {later : BufferSink}
    (grows : (BufferSink.ofMemory memory capacity backed).Grows later) {part : List UInt8}
    (written : later.written = part) : later.memory = part ++ memory.drop part.length := by
  have within := later.within
  have room := later.backed
  have length : part.length = later.offset := by
    rw [← written, BufferSink.written, List.length_take]
    omega
  rw [← List.take_append_drop later.offset later.memory, grows.past, length, ← written]
  rfl

/-- A pass that counts tells the memory that a build of the same calls needs. With that much the
second pass writes the image and nothing else; with less it throws, having written the chunks that
fit and nothing past them. -/
theorem Build.two_passes (returned : build.finished.outcome = .ok report)
    (short : build.finished.image.length < 2 ^ 64) :
    (∃ size, (finishInto countingSink .empty build.session.builder).outcome = .ok report ∧
      (finishInto countingSink .empty build.session.builder).state.size = size ∧
      size.toNat = report.imageBytes ∧ report.imageBytes = build.finished.image.length) ∧
    ∀ memory capacity (backed : capacity ≤ memory.length),
      (report.imageBytes ≤ capacity →
        (build.finishedInto memory capacity backed).outcome = .ok report ∧
        (build.finishedInto memory capacity backed).state.memory =
          build.finished.image ++ memory.drop report.imageBytes) ∧
      (capacity < report.imageBytes →
        (build.finishedInto memory capacity backed).outcome = .error (.sink .bufferOverrun) ∧
        ∃ taken chunk rest, finishChunks build.session.builder = taken ++ chunk :: rest ∧
          taken.flatten.length ≤ capacity ∧ capacity < taken.flatten.length + chunk.length ∧
          (build.finishedInto memory capacity backed).state.memory =
            taken.flatten ++ memory.drop taken.flatten.length) := by
  have bytes := (Build.measured returned short).imageBytes
  have whole : (finish build.session.builder).outcome = .ok report := returned
  have chunks := finishChunks_flatten build.session.builder
  refine ⟨⟨_, ?_, rfl, ?_, bytes⟩, fun memory capacity backed => ?_⟩
  · rw [finishInto_of_accepts countingSink_accepts, whole]
    rfl
  · rw [finishInto_of_accepts countingSink_accepts, foldl_count, chunks, bytes,
      CountingSink.empty, UInt64.zero_add]
    exact UInt64.toNat_ofNat_of_lt short
  · have room : (BufferSink.ofMemory memory capacity backed).room = capacity := Nat.sub_zero _
    have grows := bufferSink_grows (BufferSink.ofMemory memory capacity backed)
      (finishChunks build.session.builder)
    obtain ⟨part, -, written, all⟩ := bufferSink_appends.feed
      (BufferSink.ofMemory memory capacity backed) (finishChunks build.session.builder)
    obtain ⟨fits, overruns⟩ := bufferSink_rations.feed (BufferSink.ofMemory memory capacity backed)
      (finishChunks build.session.builder)
    have start : (BufferSink.ofMemory memory capacity backed).written = [] := rfl
    rw [chunks, room] at fits overruns
    rw [start, List.nil_append] at written
    have stored := BufferSink.memory_of_grows grows written
    unfold Build.finishedInto
    rw [bytes]
    refine ⟨fun enough => ?_, fun less => ?_⟩
    · have accepted := (fits enough).1
      have parts : part = build.finished.image := (all accepted).trans chunks
      rw [parts] at stored
      rw [finishInto_of_ok accepted, whole]
      exact ⟨rfl, stored⟩
    · obtain ⟨refused, taken, chunk, rest, cut, fed, used, small⟩ := overruns less
      obtain ⟨part', -, written', all'⟩ := bufferSink_appends.feed
        (BufferSink.ofMemory memory capacity backed) taken
      rw [fed] at written' all'
      rw [start, List.nil_append, all' rfl] at written'
      rw [written.symm.trans written'] at stored
      exact ⟨finishInto_of_error refused, taken, chunk, rest, cut, by omega, by omega, stored⟩

/-- The sample of two records needs its size to the byte. -/
theorem sample_two_passes : ∃ report, sampleBuild.finished.outcome = .ok report ∧
    (sampleBuild.finishedInto (List.replicate sampleBuild.finished.image.length 0xff)
        sampleBuild.finished.image.length (Nat.le_of_eq (List.length_replicate).symm)).outcome =
      .ok report := by
  obtain ⟨report, returned⟩ := sampleBuild.exists_report (by decide +kernel)
  have short : sampleBuild.finished.image.length < 2 ^ 64 := by decide +kernel
  obtain ⟨⟨size, -, -, -, bytes⟩, passes⟩ := sampleBuild.two_passes returned short
  exact ⟨report, returned, ((passes _ _ (Nat.le_of_eq (List.length_replicate).symm)).1
    (Nat.le_of_eq bytes)).1⟩

end Passes

end Mmpack
