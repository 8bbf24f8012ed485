/-
This file is about calls that throw and are caught. Such a call leaves the data of the
builder as it was, whatever came before it, so the builder goes on as if the call had not
been made. Setting a field may have widened a range or grown a dictionary for a record
that is never committed; no reader sees that, and the table that is opened in the end
holds the records whose commits returned.
-/

import Mmpack.Handles
import Mmpack.Orders

namespace Mmpack

open ByteList

/-! ### What a call that throws leaves -/

/-- Two states of a session with the same data: the records staged, the table of tuples and its
index, the key committed last, the mode, and the address and the slots of the open record. -/
structure Session.Unchanged (earlier later : Session) : Prop where
  handles : later.handles = earlier.handles
  count : later.builder.count = earlier.builder.count
  rows : later.builder.rows = earlier.builder.rows
  tuples : later.builder.tuples = earlier.builder.tuples
  index : later.builder.index = earlier.builder.index
  dedupActive : later.builder.dedupActive = earlier.builder.dedupActive
  lastPartition : later.builder.lastPartition = earlier.builder.lastPartition
  lastAddress : later.builder.lastAddress = earlier.builder.lastAddress
  lastWide : later.builder.lastWide = earlier.builder.lastWide
  mode : later.builder.mode = earlier.builder.mode
  blob : later.builder.blob = earlier.builder.blob
  wideWidth : later.builder.wideWidth = earlier.builder.wideWidth
  pendingAddress : later.builder.pendingAddress = earlier.builder.pendingAddress
  slots : later.builder.slots = earlier.builder.slots

theorem Session.unchanged_refl (session : Session) : Unchanged session session :=
  ⟨rfl, rfl, rfl, rfl, rfl, rfl, rfl, rfl, rfl, rfl, rfl, rfl, rfl, rfl⟩

namespace Builder

variable {builder : Builder}

/-- A setter that throws has not touched the builder. -/
theorem set_thrown {id : Nat} {value : FieldValue} {error : BuildError}
    (thrown : (builder.set id value).1 = .error error) : (builder.set id value).2 = builder := by
  have field {kind : FieldKind} {wrongKind : List UInt8 → BuildError}
      {set : FieldDecl → Outcome Unit}
      (alone : ∀ decl, (set decl).1 = .error error → (set decl).2 = builder)
      (thrown : (builder.withField id kind wrongKind set).1 = .error error) :
      (builder.withField id kind wrongKind set).2 = builder := by
    rcases withField_eq builder id kind wrongKind set with ⟨error, equation⟩ | ⟨decl, -, -,
      equation⟩
    · rw [equation]
    · rw [equation] at thrown ⊢
      exact alone decl thrown
  cases value with
  | uint v | sint v | f32 v | f64 v => exact field (fun decl other => nomatch other) thrown
  | text v =>
    refine field (fun decl other => ?_) thrown
    split at other
    · rfl
    · nomatch other
  | bytes v =>
    refine field (fun decl other => ?_) thrown
    split at other
    · rename_i size
      rw [if_pos size]
    · nomatch other

/-- Where the input is assumed sorted, `finish` neither adds nor moves a record. -/
theorem finish_unchanged (assumes : builder.options.order = .assumeSorted)
    (handles : List RecordRef) :
    Session.Unchanged ⟨builder, handles⟩ ⟨(finish builder).builder, handles⟩ := by
  by_cases finished : builder.finished = true
  · rw [finish, if_pos finished]
    exact Session.unchanged_refl _
  · obtain ⟨owned, nextObject, owns, equation⟩ := finish_eq (by simpa using finished)
    have kept : (orderStaging { builder with
        staging := some owned, finished := true, nextObject } owned.staging).1 = owned.staging := by
      unfold orderStaging
      rw [if_pos assumes]
      split <;> rfl
    have same : (finishOwned { builder with
        staging := some owned, finished := true, nextObject } owned).builder =
        { builder with staging := some owned, finished := true, nextObject } := by
      unfold finishOwned
      simp only [kept]
      split
      · rfl
      · split <;> rfl
    have rows : owned.staging.view = builder.rows := by
      unfold Builder.rows
      rcases owns with owns | ⟨none, fresh⟩
      · rw [owns]
      · rw [none, fresh, makeStaging_view]
    rw [equation, same]
    exact ⟨rfl, rfl, rows, rfl, rfl, rfl, rfl, rfl, rfl, rfl, rfl, rfl, rfl, rfl⟩

end Builder

namespace Session

open Builder

variable {schema : SchemaBuilder} {options : BuildOptions} {session : Session} {log : Log}
  {call : Call}

/-- A call that begins no record leaves the data as it was. It may enter wide mode, though only
where that was the mode already: the span that decides the mode has its own length. -/
theorem begins_unchanged {wanted : KeyMode} {pending : List UInt8} {rec : RecordRef}
    (begins : beginsOf session.builder.options.addressBits call = some (wanted, pending, rec))
    (short : ∀ partition address, call = .beginRecordAtBytes partition address →
      address.length < 2 ^ 32) {error : BuildError}
    (thrown : (session.perform call).1 = .error error) :
    Unchanged session (session.perform call).2 := by
  obtain ⟨outcome, equation, comes⟩ := perform_begins begins
  rw [equation] at thrown ⊢
  cases comes with
  | refused error => exact unchanged_refl session
  | mismatched error entered enters wide width =>
    subst wide
    obtain ⟨staging, nextObject, rfl⟩ := enters.fields
    have decided : session.builder.mode ≠ .undecided := by
      intro undecided
      have whole := Nat.mod_eq_of_lt (short rec.partition pending (span_of_begins begins))
      exact width (whole.symm.trans (if_pos ⟨rfl, undecided⟩).symm)
    refine ⟨rfl, rfl, enters.rows, rfl, rfl, rfl, rfl, rfl, rfl, ?_, ?_, ?_, rfl, rfl⟩
    · exact (enters.admits.2.resolve_left decided).symm
    · exact if_neg fun both => decided both.2.1
    · exact if_neg fun both => decided both.2
  | begun entered enters => cases thrown

/-- A call that throws leaves the data as it was. -/
theorem perform_unchanged
    (tracks : session.builder.finished = true ∨ Tracks schema options session log)
    (assumes : options.order = .assumeSorted) (builtIn : call.BuiltIn)
    (short : ∀ partition address, call = .beginRecordAtBytes partition address →
      address.length < 2 ^ 32) {error : BuildError}
    (thrown : (session.perform call).1 = .error error) :
    Unchanged session (session.perform call).2 := by
  cases call with
  | setStaging staging => exact builtIn.elim
  | beginRecord | beginRecordAt | beginRecordAtBytes => exact begins_unchanged rfl short thrown
  | set handle id value =>
    simp only [perform] at thrown ⊢
    split at thrown
    · simp only [after] at thrown ⊢
      rw [set_thrown thrown]
      exact unchanged_refl session
    · cases thrown
  | commit handle =>
    cases given : session.handles[handle]? with
    | none =>
      simp only [perform, given] at thrown
      cases thrown
    | some rec =>
      simp only [perform, given, after] at thrown ⊢
      rcases tracks with finished | tracks
      · rw [Builder.commit, if_pos finished]
        exact unchanged_refl session
      · rcases commit_eq tracks.sound tracks.narrow
          (tracks.handles rec (List.mem_of_getElem? given)) with ⟨-, error, equation⟩ |
          ⟨-, staging, equation, -⟩
        · rw [equation]
          exact unchanged_refl session
        · rw [equation] at thrown
          cases thrown
  | finish =>
    rcases tracks with finished | tracks
    · simp only [perform, Mmpack.finish, finished, if_true]
      exact unchanged_refl session
    · exact finish_unchanged (tracks.options ▸ assumes) session.handles

/-- Every call of a run that throws leaves the data as it was. -/
def Traceless (session : Session) : List Call → Prop
  | [] => True
  | call :: rest =>
    (∀ error, (session.perform call).1 = .error error →
      Unchanged session (session.perform call).2) ∧ (session.perform call).2.Traceless rest

theorem run_traceless
    (tracks : session.builder.finished = true ∨ Tracks schema options session log)
    (assumes : options.order = .assumeSorted) {calls : List Call}
    (builtIn : ∀ call ∈ calls, call.BuiltIn)
    (short : ∀ partition address, .beginRecordAtBytes partition address ∈ calls →
      address.length < 2 ^ 32) : session.Traceless calls := by
  induction calls generalizing session log with
  | nil => trivial
  | cons call rest inductionHypothesis =>
    have here := builtIn call List.mem_cons_self
    constructor
    · intro error thrown
      refine perform_unchanged tracks assumes here (fun partition address same => ?_) thrown
      exact short partition address (same ▸ List.mem_cons_self)
    · refine @inductionHypothesis (session.perform call).2 _
        (run_tracks [call] (List.forall_mem_singleton.mpr here) tracks)
        (fun other member => builtIn other (List.mem_cons_of_mem _ member))
        fun partition address member => short partition address (List.mem_cons_of_mem _ member)


/-! ### The records of the commits -/

/-- The draft a call commits. -/
def booked (session : Session) (drafts : List Committed) (call : Call) : List Committed :=
  match call, (session.perform call).1 with
  | .commit handle, .ok _ => drafts[handle]?.toList
  | _, _ => []

/-- The records of the commits that return, each as the owner of its handle knows it. -/
def ledger (session : Session) (drafts : List Committed) : List Call → List Committed
  | [] => []
  | call :: rest =>
    session.booked drafts call ++
      (session.perform call).2.ledger (session.drafted drafts call) rest

/-- The last draft is the one the log is noting. -/
def Abreast (drafts : List Committed) (log : Log) : Prop :=
  ∀ draft, drafts.getLast? = some draft → draft.sets = log.sets ∧ draft.addressBytes = log.pending

variable {drafts : List Committed}

/-- The handle that may be used is that of the last draft. -/
theorem Drafts.getLast_of_usesLast (holds : session.Drafts drafts) {handle : Nat}
    (last : session.handles.length ≤ handle + 1) (inside : handle < drafts.length) :
    drafts.getLast? = drafts[handle]? := by
  have count : session.handles.length = drafts.length := by rw [holds.parts, List.length_map]
  rw [List.getLast?_eq_getElem?]
  congr 1
  omega

theorem perform_abreast (holds : session.Drafts drafts) (abreast : Abreast drafts log)
    (last : session.UsesLast call) :
    Abreast (session.drafted drafts call)
      (log.noteResult session.handles call (session.perform call).1) := by
  unfold drafted
  cases (session.perform call).1 with
  | error error => exact abreast
  | ok _ =>
    cases call with
    | beginRecord key | beginRecordAt partition address | beginRecordAtBytes partition address =>
      intro draft isLast
      rw [noteDraft, List.getLast?_concat, Option.some.injEq] at isLast
      subst isLast
      exact ⟨rfl, rfl⟩
    | set handle id value =>
      have count : session.handles.length = drafts.length := by rw [holds.parts, List.length_map]
      cases given : session.handles[handle]? with
      | none =>
        have outside := List.getElem?_eq_none_iff.mp given
        simp only [noteDraft, Log.noteResult, Log.note, given]
        rw [List.modify_eq_self (by omega)]
        exact abreast
      | some rec =>
        have inside := (List.getElem?_eq_some_iff.mp given).1
        have isLast := holds.getLast_of_usesLast last (by omega)
        simp only [noteDraft, Log.noteResult, Log.note, given]
        intro changed found
        obtain rfl : handle = drafts.length - 1 := by
          have bound : session.handles.length ≤ handle + 1 := last
          omega
        rw [List.getLast?_eq_getElem?, List.length_modify, List.getElem?_modify,
          ← isLast] at found
        simp only [if_true] at found
        obtain ⟨draft, before, rfl⟩ := Option.map_eq_some_iff.mp found
        obtain ⟨sets, pending⟩ := abreast draft before
        exact ⟨congrArg (· ++ [(id, value)]) sets, pending⟩
    | commit handle =>
      simp only [noteDraft, Log.noteResult, Log.note]
      split <;> exact abreast
    | setStaging staging => exact abreast
    | finish => exact abreast

/-- A commit that returns commits the last draft. -/
theorem noteResult_committed (holds : session.Drafts drafts) (abreast : Abreast drafts log)
    (last : session.UsesLast call) :
    (log.noteResult session.handles call (session.perform call).1).committed =
      log.committed ++ session.booked drafts call := by
  unfold booked
  cases outcome : (session.perform call).1 with
  | error error => cases call <;> exact (List.append_nil _).symm
  | ok _ =>
    cases call with
    | commit handle =>
      cases given : session.handles[handle]? with
      | none =>
        have outside := List.getElem?_eq_none_iff.mp given
        rw [holds.parts, List.length_map] at outside
        simp only [Log.noteResult, Log.note, given]
        rw [List.getElem?_eq_none outside]
        exact (List.append_nil _).symm
      | some rec =>
        have parts := given
        rw [holds.parts, List.getElem?_map] at parts
        obtain ⟨draft, found, rfl⟩ := Option.map_eq_some_iff.mp parts
        have isLast := holds.getLast_of_usesLast last (List.getElem?_eq_some_iff.mp found).1
        obtain ⟨sets, pending⟩ := abreast draft (isLast.trans found)
        simp only [Log.noteResult, Log.note, given]
        rw [← sets, ← pending, found]
        rfl
    | set handle id value =>
      simp only [Log.noteResult, Log.note, List.append_nil]
      split <;> rfl
    | beginRecord | beginRecordAt | beginRecordAtBytes | setStaging | finish =>
      exact (List.append_nil _).symm

/-- Where handles are used one after the other, the log has the records of their owners. -/
theorem logged_committed (holds : session.Drafts drafts) (abreast : Abreast drafts log)
    {calls : List Call} (oneByOne : session.OneByOne calls) :
    (session.logged log calls).committed = log.committed ++ session.ledger drafts calls := by
  induction calls generalizing session drafts log with
  | nil => exact (List.append_nil _).symm
  | cons call rest inductionHypothesis =>
    obtain ⟨last, others⟩ := oneByOne
    have here := noteResult_committed holds abreast last
    have later := inductionHypothesis (perform_drafts holds call)
      (perform_abreast holds abreast last) others
    rw [logged, later, here, ledger, List.append_assoc]

end Session

/-! ### Builds -/

section Builds

variable (build : Build)

/-- The records of the commits of a build that returned. -/
def Build.ledger : List Committed := (Session.start build.fresh).ledger [] build.calls

theorem Build.committed_eq_ledger
    (oneByOne : (Session.start build.fresh).OneByOne build.calls) :
    build.log.committed = build.ledger :=
  Session.logged_committed (Session.start_drafts build.made) (fun _ isLast => nomatch isLast)
    oneByOne

/-- Short spans that are begun are short spans that are committed. -/
theorem Build.spansFit {report : BuildReport} (returned : build.finished.outcome = .ok report)
    (spans : ∀ partition address, .beginRecordAtBytes partition address ∈ build.calls →
      address.length ≤ 255) : build.SpansFit where
  begun := fun _ => spans
  committed := fun entry member => by
    have running := build.running returned
    have tracks := build.tracks running
    have shaped := tracks.shaped member
    obtain ⟨-, -, -, -, undecided, -⟩ := Builder.make_eq build.made
    split at shaped
    · rename_i wide
      have width := Session.run_width (Session.start_tracks build.made) build.builtIn
        (Session.not_finish_of_running build.builtIn running) spans
        (fun entered => by
          rw [Session.start, undecided] at entered
          cases entered) (tracks.sound.wide_iff.mp wide)
      rw [shaped.2]
      exact width.2
    · rw [shaped]
      decide

/-- The calls of a build that throw leave no trace in its data: nothing changes when they throw,
the image is accepted if its sizes fit, and the table holds the records of the commits that
returned, in their order and with the values set on them. -/
structure Build.Spotless : Prop where
  calls : (Session.start build.fresh).Traceless build.calls
  opens : ∀ report (image : Image), build.finished.outcome = .ok report →
    image.bytes = build.finished.image → build.SizesFit report →
      ∃ table, Table.tryOpen (some image) = pure table
  records : ∀ report (image : Image) table, build.finished.outcome = .ok report →
    image.bytes = build.finished.image → Table.tryOpen (some image) = pure table →
      table.HoldsRecords build.ledger

/-- Calls that throw leave no trace in any run under `assume_sorted` that uses the handles one
after the other, with spans up to 255 bytes and up to 65536 text fields. -/
theorem Build.refusals_spotless (assumes : build.options.order = .assumeSorted)
    (oneByOne : (Session.start build.fresh).OneByOne build.calls)
    (spans : ∀ partition address, .beginRecordAtBytes partition address ∈ build.calls →
      address.length ≤ 255)
    (texts : build.schema.fields.countP (·.kind = .text) ≤ 65536) : build.Spotless where
  calls := by
    refine Session.run_traceless (Or.inr (Session.start_tracks build.made)) assumes build.builtIn
      fun partition address member => ?_
    have short := spans partition address member
    omega
  opens := fun report image returned same sizes =>
    (build.opens_iff returned same (build.spansFit returned spans)).mpr sizes
  records := fun report image table returned same opened => by
    obtain ⟨places, opens⟩ := build.opens returned same opened
    have fit := build.spansFit returned spans
    have holds := opens.holdsRecords texts fun entry member =>
      Nat.lt_succ_of_le (fit.committed entry member)
    rw [build.sorted_eq_committed returned assumes, build.committed_eq_ledger oneByOne] at holds
    exact holds

/-- Two records among calls that throw: another mode, another kind, an id past the fields, a key
committed twice and a key below it. -/
def caughtCalls : List Call :=
  [.beginRecord 5, .beginRecordAt 0 1, .set 0 0 (.text [0x61]), .set 0 9 (.uint 1),
    .set 0 0 (.uint 7), .commit 0, .commit 0, .beginRecord 4, .set 1 0 (.uint 1000), .commit 1,
    .beginRecordAtBytes 0 [1, 2, 3, 4, 5, 6, 7, 8, 9], .beginRecord 6, .set 2 0 (.uint 8),
    .commit 2]

def caughtSample : Build :=
  Build.of numberSchema .default caughtCalls numberSchema_fields BuildOptions.default_addressBits
    (by decide) (by decide)

theorem sample_spotless : caughtSample.Spotless ∧
    caughtSample.ledger = [⟨0, 5, [], [(0, .uint 7)]⟩, ⟨0, 6, [], [(0, .uint 8)]⟩] ∧
    ∃ table, Table.tryOpen (some ⟨caughtSample.finished.image, by decide +kernel⟩) = pure table ∧
      table.HoldsRecords caughtSample.ledger := by
  have calls : caughtSample.calls = caughtCalls := (Build.of_spec _ _ _ _).2.2
  have oneByOne : (Session.start caughtSample.fresh).OneByOne caughtSample.calls := by
    refine ⟨trivial, trivial, ?_, ?_, ?_, ?_, ?_, trivial, ?_, ?_, trivial, trivial, ?_, ?_,
      trivial⟩
    all_goals
      unfold Session.UsesLast
      decide +kernel
  have spans : ∀ partition address, .beginRecordAtBytes partition address ∈ caughtSample.calls →
      address.length ≤ 255 := by
    intro partition address member
    rw [calls] at member
    have begun : partition = 0 ∧ address = [1, 2, 3, 4, 5, 6, 7, 8, 9] := by
      simpa [caughtCalls] using member
    rw [begun.2]
    decide
  have spotless := caughtSample.refusals_spotless (by decide +kernel) oneByOne spans (by decide)
  refine ⟨spotless, by decide +kernel, ?_⟩
  obtain ⟨report, returned⟩ := caughtSample.exists_report (by decide +kernel)
  have sizes : caughtSample.SizesFit report := by
    refine ⟨by decide, by decide +kernel, fun _ => ?_⟩
    rw [(caughtSample.report_layout returned).2]
    decide +kernel
  obtain ⟨table, opened⟩ := spotless.opens report
    ⟨caughtSample.finished.image, by decide +kernel⟩ returned rfl sizes
  exact ⟨table, opened, spotless.records report _ table returned rfl opened⟩

end Builds

end Mmpack
