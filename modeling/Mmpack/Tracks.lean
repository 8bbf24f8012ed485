/-
This file relates a session to the log of its caller. `Tracks` is what holds
after any calls in any order, as long as the build is not finished: the staged
rows are the committed records of the log, one by one, the tuple of each holds
what was set on it, and the statistics span what was ever set.
-/

import Mmpack.Calls

namespace Mmpack

open ByteList

/-! ### What is last set -/

theorem lastSet_nil (id : Nat) : lastSet [] id = none := rfl

theorem lastSet_append (sets : List (Nat × Builder.FieldValue)) (id other : Nat)
    (value : Builder.FieldValue) :
    lastSet (sets ++ [(id, value)]) other =
      if id = other then some value else lastSet sets other := by
  unfold lastSet
  rw [List.reverse_append, List.reverse_singleton, List.singleton_append]
  by_cases same : id = other
  · rw [if_pos same, List.find?_cons_of_pos (by simpa using same)]
    rfl
  · rw [if_neg same, List.find?_cons_of_neg (by simpa using same)]

theorem mem_of_lastSet {sets : List (Nat × Builder.FieldValue)} {id : Nat}
    {value : Builder.FieldValue} (last : lastSet sets id = some value) : (id, value) ∈ sets := by
  obtain ⟨set, found, rfl⟩ := Option.map_eq_some_iff.mp last
  have same : set.1 = id := by simpa using List.find?_some found
  have member := List.mem_reverse.mp (List.mem_of_find?_eq_some found)
  rwa [← same]

/-! ### Tuples and rows of a log -/

namespace Builder

/-- Values as the sets on a record leave them: the last one of each field, or zero. -/
def Fills (builder : Builder) (sets : List (Nat × FieldValue)) (values : List UInt64) : Prop :=
  values.length = builder.schema.fields.length ∧
    ∀ (i : Nat) (decl : FieldDecl) (raw : UInt64), builder.schema.fields[i]? = some decl →
      values[i]? = some raw →
        match lastSet sets i with
        | some value => builder.Keeps i decl value raw
        | none => raw = 0

/-- A staged row is a committed record. -/
structure Stages (builder : Builder) (row : StagedRow) (entry : Committed) : Prop where
  partition : row.partition = entry.partition
  address : row.address = entry.address
  addressBytes : row.addressBytes = entry.addressBytes
  tuple : ∃ values, builder.tuples[row.tuple]? = some values ∧ builder.Fills entry.sets values

/-- Nothing interned is lost. -/
structure Grows (earlier later : Builder) : Prop where
  schema : later.schema = earlier.schema
  dicts : ∀ i, (earlier.dictOf i).order <+: (later.dictOf i).order
  tuples : earlier.tuples <+: later.tuples

variable {earlier later : Builder}

theorem Fills.grows (grows : Grows earlier later) {sets : List (Nat × FieldValue)}
    {values : List UInt64} (fills : earlier.Fills sets values) : later.Fills sets values := by
  refine ⟨by rw [grows.schema, fills.1], fun i decl raw declared found => ?_⟩
  rw [grows.schema] at declared
  have kept := fills.2 i decl raw declared found
  cases last : lastSet sets i with
  | none =>
    rw [last] at kept
    exact kept
  | some value =>
    rw [last] at kept
    exact kept.grows (grows.dicts i)

/-- Nothing is set in cleared slots. -/
theorem fills_cleared {values : List UInt64}
    (length : values.length = earlier.schema.fields.length) :
    earlier.Fills [] (values.map fun _ => 0) := by
  refine ⟨by rw [List.length_map, length], fun i decl raw _ found => ?_⟩
  rw [List.getElem?_map, Option.map_eq_some_iff] at found
  obtain ⟨-, -, zero⟩ := found
  rw [lastSet_nil]
  exact zero.symm

/-- A value written to its slot is the last one set for the field. -/
theorem Fills.set {sets : List (Nat × FieldValue)} {values : List UInt64}
    (fills : earlier.Fills sets values) {id : Nat} {value : FieldValue} {decl : FieldDecl}
    {raw : UInt64} (declared : earlier.schema.fields[id]? = some decl)
    (keeps : earlier.Keeps id decl value raw) :
    earlier.Fills (sets ++ [(id, value)]) (values.set id raw) := by
  refine ⟨by rw [List.length_set, fills.1], fun i other kept found written => ?_⟩
  rw [lastSet_append]
  by_cases same : id = i
  · subst same
    have inside := (List.getElem?_eq_some_iff.mp written).1
    rw [List.length_set] at inside
    rw [List.getElem?_set_self inside] at written
    obtain rfl := Option.some.inj written
    obtain rfl := Option.some.inj (declared.symm.trans found)
    rw [if_pos rfl]
    exact keeps
  · rw [if_neg same]
    rw [List.getElem?_set_ne same] at written
    exact fills.2 i other kept found written

theorem Stages.grows (grows : Grows earlier later) {row : StagedRow} {entry : Committed}
    (stages : earlier.Stages row entry) : later.Stages row entry := by
  obtain ⟨values, found, fills⟩ := stages.tuple
  obtain ⟨inside, same⟩ := List.getElem?_eq_some_iff.mp found
  exact { stages with
    tuple := ⟨values, by rw [List.prefix_iff_getElem?.mp grows.tuples _ inside, same],
      fills.grows grows⟩ }

theorem grows_of_same (schema : later.schema = earlier.schema)
    (textDicts : later.textDicts = earlier.textDicts) (tuples : later.tuples = earlier.tuples) :
    Grows earlier later :=
  ⟨schema, fun i => by rw [dictOf, dictOf, textDicts, schema], by rw [tuples]⟩

end Builder

/-! ### The invariant of a session -/

structure Session.Tracks (schema : SchemaBuilder) (options : BuildOptions) (session : Session)
    (log : Log) : Prop where
  schema : session.builder.schema = schema
  options : session.builder.options = options
  sound : session.builder.Sound
  running : session.builder.finished = false
  handles : ∀ rec ∈ session.handles, session.builder.Begun rec
  pending : session.builder.pendingAddress = log.pending
  narrow : session.builder.mode ≠ .explicitWide → session.builder.pendingAddress = []
  slots : session.builder.Fills log.sets session.builder.slots
  rows : List.Forall₂ session.builder.Stages session.builder.rows log.committed
  declared : ∀ set ∈ log.observed, set.1 < session.builder.schema.fields.length
  setsObserved : ∀ set ∈ log.sets, set ∈ log.observed
  rowsObserved : ∀ entry ∈ log.committed, ∀ set ∈ entry.sets, set ∈ log.observed
  stats : ∀ i decl, session.builder.schema.fields[i]? = some decl →
    (session.builder.statsAt i).Spans decl.kind (observedAt log.observed i)

namespace Session

open Builder

variable {schema : SchemaBuilder} {options : BuildOptions} {session : Session} {log : Log}

theorem start_tracks {builder : Builder} (made : Builder.make schema options = .ok builder) :
    Tracks schema options (Session.start builder) .empty := by
  obtain ⟨sound, schemaEq, optionsEq, rows, -, running, pending, slots, stats, -⟩ := make_eq made
  refine
    { schema := schemaEq
      options := optionsEq
      sound := sound
      running := running
      handles := fun rec member => nomatch member
      pending := pending
      narrow := fun _ => pending
      slots := ⟨by simp [start, slots, schemaEq], fun i decl raw _ found => ?_⟩
      rows := by simp [start, rows, Log.empty]
      declared := fun set member => nomatch member
      setsObserved := fun set member => nomatch member
      rowsObserved := fun entry member => nomatch member
      stats := fun i decl declared => ?_ }
  · simp only [start, slots] at found
    exact List.eq_of_mem_replicate (List.mem_of_getElem? found)
  · have empty : (start builder).builder.statsAt i = .empty := by
      simp only [start, statsAt, stats, List.getD_eq_getElem?_getD, List.getElem?_replicate]
      split <;> rfl
    rw [empty]
    exact FieldStats.spans_empty decl.kind

/-- A call that only enters a mode changes nothing the log knows. -/
theorem Tracks.keep (tracks : Tracks schema options session log) {later : Builder}
    (sound : later.Sound) (kept : Kept session.builder later) :
    Tracks schema options { session with builder := later } log := by
  have grows := grows_of_same kept.schema kept.textDicts kept.tuples
  exact
    { schema := kept.schema.trans tracks.schema
      options := kept.options.trans tracks.options
      sound := sound
      running := kept.finished.trans tracks.running
      handles := fun rec member => by
        have begun := tracks.handles rec member
        have decided : session.builder.mode ≠ .undecided := by
          intro undecided
          rw [Begun, undecided] at begun
          exact begun
        rwa [kept.decided decided]
      pending := kept.pendingAddress.trans tracks.pending
      narrow := fun notWide => kept.pendingAddress.trans (by
        by_cases undecided : session.builder.mode = .undecided
        · exact tracks.narrow (by rw [undecided]; decide)
        · exact tracks.narrow (by rwa [← kept.decided undecided]))
      slots := by
        rw [show ({ session with builder := later } : Session).builder.slots =
          session.builder.slots from kept.slots]
        exact tracks.slots.grows grows
      rows := by
        rw [show ({ session with builder := later } : Session).builder.rows =
          session.builder.rows from kept.rows]
        exact tracks.rows.imp fun _ _ stages => stages.grows grows
      declared := fun set member => by
        simp only [kept.schema]
        exact tracks.declared set member
      setsObserved := tracks.setsObserved
      rowsObserved := tracks.rowsObserved
      stats := fun i decl declared => by
        rw [show ({ session with builder := later } : Session).builder.statsAt i =
          session.builder.statsAt i by rw [statsAt, statsAt, kept.stats]]
        exact tracks.stats i decl (kept.schema ▸ declared) }

theorem Tracks.begin (tracks : Tracks schema options session log) {pending : List UInt8}
    {rec : RecordRef} {later : Builder} (begins : Begins session.builder pending rec later)
    (narrow : later.mode ≠ .explicitWide → pending = []) :
    Tracks schema options { builder := later, handles := session.handles ++ [rec] }
      { log with pending := pending, sets := [] } := by
  have grows := grows_of_same begins.schema begins.textDicts begins.tuples
  exact
    { schema := begins.schema.trans tracks.schema
      options := begins.options.trans tracks.options
      sound := begins.sound
      running := begins.finished.trans tracks.running
      handles := fun other member => by
        rcases List.mem_append.mp member with old | new
        · exact begins.handles other (tracks.handles other old)
        · rw [List.mem_singleton.mp new]
          exact begins.begun
      pending := begins.pendingAddress
      narrow := fun notWide => begins.pendingAddress.trans (narrow notWide)
      slots := by
        simp only [begins.slots]
        exact (fills_cleared tracks.sound.slotCount).grows grows
      rows := by
        rw [begins.rows]
        exact tracks.rows.imp fun _ _ stages => stages.grows grows
      declared := fun set member => by
        simp only [begins.schema]
        exact tracks.declared set member
      setsObserved := fun set member => nomatch member
      rowsObserved := tracks.rowsObserved
      stats := fun i decl declared => by
        rw [show later.statsAt i = session.builder.statsAt i by
          rw [statsAt, statsAt, begins.stats]]
        exact tracks.stats i decl (begins.schema ▸ declared) }

theorem Tracks.set (tracks : Tracks schema options session log) {id : Nat} {value : FieldValue}
    {later : Builder} (sets : Sets session.builder id value later) :
    Tracks schema options { session with builder := later }
      { log with sets := log.sets ++ [(id, value)],
                 observed := log.observed ++ [(id, value)] } := by
  have grows : Grows session.builder later := ⟨sets.schema, sets.dicts, by rw [sets.tuples]⟩
  exact
    { schema := sets.schema.trans tracks.schema
      options := sets.options.trans tracks.options
      sound := sets.sound
      running := sets.finished.trans tracks.running
      handles := fun rec member => sets.handles rec (tracks.handles rec member)
      pending := sets.pendingAddress.trans tracks.pending
      narrow := fun notWide =>
        sets.pendingAddress.trans (tracks.narrow (by rwa [← sets.mode]))
      slots := by
        obtain ⟨decl, raw, declared, keeps, slots⟩ := sets.slots
        simp only [slots]
        exact (tracks.slots.grows grows).set (by rw [sets.schema, declared]) keeps
      rows := by
        simp only [sets.rows]
        exact tracks.rows.imp fun _ _ stages => stages.grows grows
      declared := fun set member => by
        obtain ⟨written, kept, declared, -, -⟩ := sets.slots
        simp only [sets.schema]
        rcases List.mem_append.mp member with old | new
        · exact tracks.declared set old
        · rw [List.mem_singleton.mp new]
          exact (List.getElem?_eq_some_iff.mp declared).1
      setsObserved := fun set member => by
        rcases List.mem_append.mp member with old | new
        · exact List.mem_append_left _ (tracks.setsObserved set old)
        · exact List.mem_append_right _ new
      rowsObserved := fun entry member set inside =>
        List.mem_append_left _ (tracks.rowsObserved entry member set inside)
      stats := fun i decl declared => by
        simp only [sets.schema] at declared
        have spans := tracks.stats i decl declared
        simp only [sets.stats i decl declared, observedAt_append]
        by_cases same : id = i
        · simp only [same, if_true]
          cases value.observed with
          | none => simpa using spans
          | some raw => exact spans.observe raw
        · simpa [same] using spans }

theorem Tracks.commit (tracks : Tracks schema options session log) {rec : RecordRef}
    {later : Builder} (commits : Commits session.builder rec later) :
    Tracks schema options { session with builder := later }
      { log with committed := log.committed ++
          [{ partition := rec.partition, address := rec.address
             addressBytes := log.pending, sets := log.sets }] } := by
  have grows : Grows session.builder later :=
    ⟨commits.schema, fun i => by rw [dictOf, dictOf, commits.textDicts, commits.schema],
      commits.tuples⟩
  exact
    { schema := commits.schema.trans tracks.schema
      options := commits.options.trans tracks.options
      sound := commits.sound
      running := commits.finished.trans tracks.running
      handles := fun rec member => commits.handles rec (tracks.handles rec member)
      pending := commits.pendingAddress.trans tracks.pending
      narrow := fun notWide =>
        commits.pendingAddress.trans (tracks.narrow (by rwa [← commits.mode]))
      slots := by
        simp only [commits.slots]
        exact tracks.slots.grows grows
      rows := by
        simp only [commits.rows]
        refine List.rel_append (tracks.rows.imp fun _ _ stages => stages.grows grows)
          (List.Forall₂.cons ?_ List.Forall₂.nil)
        exact ⟨rfl, rfl, tracks.pending, _, commits.tuple, tracks.slots.grows grows⟩
      declared := fun set member => by
        simp only [commits.schema]
        exact tracks.declared set member
      setsObserved := tracks.setsObserved
      rowsObserved := fun entry member => by
        rcases List.mem_append.mp member with old | new
        · exact tracks.rowsObserved entry old
        · rw [List.mem_singleton.mp new]
          exact tracks.setsObserved
      stats := fun i decl declared => by
        simp only [commits.schema] at declared
        have same : later.statsAt i = session.builder.statsAt i := by
          rw [statsAt, statsAt, commits.stats]
        simp only [same]
        exact tracks.stats i decl declared }

/-! ### The calls that begin a record -/

/-- The mode a call begins its record in, the bytes of its span, and the handle. -/
def beginsOf (bits : Nat) : Call → Option (KeyMode × List UInt8 × RecordRef)
  | .beginRecord key => some (.keyed, [], ⟨partitionOf bits key, addressOf bits key⟩)
  | .beginRecordAt partition address => some (.explicit, [], ⟨partition, address⟩)
  | .beginRecordAtBytes partition address => some (.explicitWide, address, ⟨partition, 0⟩)
  | .set _ _ _ | .commit _ | .setStaging _ | .finish => none

/-- The three calls that begin a record do one thing, each in its mode. -/
theorem perform_begins {call : Call} {wanted : KeyMode} {pending : List UInt8} {rec : RecordRef}
    (begins : beginsOf session.builder.options.addressBits call = some (wanted, pending, rec)) :
    ∃ outcome, session.perform call = session.keep outcome ∧
      session.builder.BeginsAs wanted pending rec outcome := by
  cases call with
  | beginRecord key =>
    cases begins
    exact ⟨_, rfl, session.builder.beginRecord_beginsAs key⟩
  | beginRecordAt partition address =>
    cases begins
    exact ⟨_, rfl, session.builder.beginRecordAt_beginsAs partition address⟩
  | beginRecordAtBytes partition address =>
    cases begins
    exact ⟨_, rfl, session.builder.beginRecordAtBytes_beginsAs partition pending⟩
  | set | commit | setStaging | finish => cases begins

theorem span_of_begins {bits : Nat} {call : Call} {pending : List UInt8} {rec : RecordRef}
    (begins : beginsOf bits call = some (.explicitWide, pending, rec)) :
    call = .beginRecordAtBytes rec.partition pending := by
  cases call with
  | beginRecordAtBytes partition address =>
    cases begins
    rfl
  | beginRecord | beginRecordAt | set | commit | setStaging | finish => cases begins

/-! ### One call -/

/-- Every call but the last keeps a session in step with its log. -/
theorem perform_tracks (tracks : Tracks schema options session log) {call : Call}
    (builtIn : call.BuiltIn) (notLast : call ≠ .finish) :
    Tracks schema options (session.perform call).2
      (log.noteResult session.handles call (session.perform call).1) := by
  cases call with
  | finish => exact absurd rfl notLast
  | setStaging staging => exact builtIn.elim
  | beginRecord key =>
    rcases beginRecord_eq tracks.sound tracks.narrow key with ⟨error, equation⟩ | ⟨rec, later,
      equation, mode, begins⟩
    · simp only [perform, equation, keep]
      exact tracks
    · simp only [perform, equation, keep]
      exact tracks.begin begins fun _ => rfl
  | beginRecordAt partition address =>
    rcases beginRecordAt_eq tracks.sound tracks.narrow partition address with ⟨error, equation⟩ |
      ⟨rec, later, equation, mode, begins⟩
    · simp only [perform, equation, keep]
      exact tracks
    · simp only [perform, equation, keep]
      exact tracks.begin begins fun _ => rfl
  | beginRecordAtBytes partition address =>
    rcases beginRecordAtBytes_eq tracks.sound partition address with ⟨error, later, equation,
      sound, kept⟩ | ⟨rec, later, equation, mode, begins⟩
    · simp only [perform, equation, keep]
      exact tracks.keep sound kept
    · simp only [perform, equation, keep]
      exact tracks.begin begins fun notWide => absurd mode notWide
  | set handle id value =>
    cases given : session.handles[handle]? with
    | none =>
      simp only [perform, given, Log.noteResult, Log.note]
      exact tracks
    | some rec =>
      rcases set_eq tracks.sound id value with ⟨error, equation⟩ | ⟨later, equation, sets⟩
      · simp only [perform, given, equation, after]
        exact tracks
      · simp only [perform, given, equation, after, Log.noteResult, Log.note]
        exact tracks.set sets
  | commit handle =>
    cases given : session.handles[handle]? with
    | none =>
      simp only [perform, given, Log.noteResult, Log.note]
      exact tracks
    | some rec =>
      rcases commit_eq tracks.sound tracks.narrow
        (tracks.handles rec (List.mem_of_getElem? given)) with ⟨-, error, equation⟩ |
        ⟨-, staging, equation, commits⟩
      · simp only [perform, given, equation, after]
        exact tracks
      · simp only [perform, given, equation, after, Log.noteResult, Log.note]
        exact tracks.commit commits

/-! ### After finishing -/

theorem finish_finished (builder : Builder) : (finish builder).builder.finished = true := by
  obtain ⟨staging, nextObject, equation⟩ := builder.finish_builder
  rw [equation]

theorem set_finished (builder : Builder) (id : Nat) (value : FieldValue) :
    (builder.set id value).2.finished = builder.finished := by
  obtain ⟨slots, stats, textDicts, equation⟩ := set_frame builder id value
  rw [equation]

/-- A finished build stays finished. -/
theorem perform_finished (finished : session.builder.finished = true) {call : Call}
    (builtIn : call.BuiltIn) : (session.perform call).2.builder.finished = true := by
  cases call with
  | finish => exact finish_finished _
  | setStaging staging => exact builtIn.elim
  | beginRecord key =>
    simp only [perform, Builder.beginRecord, enterMode, finished, if_true, andThen, keep]
  | beginRecordAt partition address =>
    simp only [perform, Builder.beginRecordAt, enterMode, finished, if_true, andThen, keep]
  | beginRecordAtBytes partition address =>
    simp only [perform, Builder.beginRecordAtBytes]
    split
    · exact finished
    · simp only [enterWideMode, finished, if_true, andThen, keep]
  | set handle id value =>
    simp only [perform]
    split
    · exact (set_finished _ id value).trans finished
    · exact finished
  | commit handle =>
    simp only [perform]
    split
    · simp only [Builder.commit, finished, if_true, after]
    · exact finished

/-! ### Whole runs -/

theorem run_tracks (calls : List Call) (builtIn : ∀ call ∈ calls, call.BuiltIn)
    (start : session.builder.finished = true ∨ Tracks schema options session log) :
    (session.run calls).builder.finished = true ∨
      Tracks schema options (session.run calls) (session.logged log calls) := by
  induction calls generalizing session log with
  | nil => exact start
  | cons call rest inductionHypothesis =>
    have here := builtIn call List.mem_cons_self
    refine inductionHypothesis (fun other member => builtIn other (List.mem_cons_of_mem _ member))
      ?_
    rcases start with finished | tracks
    · exact Or.inl (perform_finished finished here)
    · by_cases last : call = .finish
      · subst last
        exact Or.inl (finish_finished _)
      · exact Or.inr (perform_tracks tracks here last)

end Session

/-- The session of a build that is not finished is in step with its log. -/
theorem Build.tracks (build : Build) (running : build.session.builder.finished = false) :
    Session.Tracks build.schema build.options build.session build.log := by
  refine (Session.run_tracks build.calls build.builtIn
    (Or.inr (Session.start_tracks build.made))).resolve_left fun finished => ?_
  have same : build.session.builder.finished = true := finished
  rw [running] at same
  nomatch same

end Mmpack
