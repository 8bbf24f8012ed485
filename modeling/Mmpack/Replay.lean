/-
This file is about what an image is a function of. Handles may be open side by side,
records may be begun and dropped, and calls may throw; what `finish` writes depends on
none of it, but on the setter calls that returned and on the records that were
committed, each in its order.

The builder is told from these alone. Its statistics and dictionaries are those of the
setter calls made on a new builder, and its table of tuples is that of the committed
tuples interned one after the other.
-/

import Mmpack.Interning
import Mmpack.RoundTrip
import Mmpack.SameInput
import Mmpack.Slots

namespace Mmpack

open ByteList

namespace Builder

/-! ### Setter calls -/

/-- Setter calls, one after the other. What they throw is caught. -/
def setAll (builder : Builder) (sets : List (Nat × FieldValue)) : Builder :=
  sets.foldl (fun builder set => (builder.set set.1 set.2).2) builder

theorem setAll_snoc (builder : Builder) (sets : List (Nat × FieldValue))
    (set : Nat × FieldValue) :
    builder.setAll (sets ++ [set]) = ((builder.setAll sets).set set.1 set.2).2 := by
  rw [setAll, List.foldl_append]
  rfl

/-- Builders that have seen the same values. -/
structure SeenAlike (first second : Builder) : Prop where
  schema : second.schema = first.schema
  stats : second.stats = first.stats
  textDicts : second.textDicts = first.textDicts

variable {first second builder : Builder}

theorem SeenAlike.withField (alike : SeenAlike first second) {id : Nat} {kind : FieldKind}
    {wrongKind : List UInt8 → BuildError} {set set' : FieldDecl → Outcome Unit}
    (sets : ∀ decl, SeenAlike (set decl).2 (set' decl).2) :
    SeenAlike (first.withField id kind wrongKind set).2
      (second.withField id kind wrongKind set').2 := by
  unfold Builder.withField
  rw [alike.schema]
  split
  · exact alike
  · rename_i decl _
    split
    · exact alike
    · exact sets decl

theorem SeenAlike.observe (alike : SeenAlike first second) (id : Nat) (kind : FieldKind)
    (raw : UInt64) : SeenAlike ((first.setSlot id raw).observe id kind raw)
      ((second.setSlot id raw).observe id kind raw) :=
  ⟨alike.schema,
    congrArg (fun all : List FieldStats => all.modify id (·.observe kind raw)) alike.stats,
    alike.textDicts⟩

/-- A setter looks at the schema, the statistics and the dictionaries. -/
theorem SeenAlike.set (alike : SeenAlike first second) (id : Nat) (value : FieldValue) :
    SeenAlike (first.set id value).2 (second.set id value).2 := by
  have slot (raw : UInt64) : SeenAlike (first.setSlot id raw) (second.setSlot id raw) :=
    ⟨alike.schema, alike.stats, alike.textDicts⟩
  cases value with
  | uint v => exact alike.withField fun _ => alike.observe id .uint v
  | sint v => exact alike.withField fun _ => alike.observe id .sint v.toUInt64
  | f32 bits => exact alike.withField fun _ => slot bits.toUInt64
  | f64 bits => exact alike.withField fun _ => slot bits
  | bytes v =>
    refine alike.withField fun decl => ?_
    split
    · exact alike
    · exact slot (UInt64.ofNat (leNat v))
  | text v =>
    refine alike.withField fun _ => ?_
    rw [alike.schema, alike.textDicts]
    split
    · exact alike
    · exact ⟨rfl, alike.stats, rfl⟩

/-! ### Values of a record -/

/-- A slot holds one thing of a value. -/
theorem Keeps.unique {i : Nat} {decl : FieldDecl} {value : FieldValue} {raw raw' : UInt64}
    (keeps : builder.Keeps i decl value raw) (keeps' : builder.Keeps i decl value raw') :
    raw' = raw := by
  cases value with
  | uint | sint | f32 | f64 => exact keeps'.2.trans keeps.2.symm
  | bytes v => exact keeps'.2.2.trans keeps.2.2.symm
  | text v =>
    obtain ⟨inside, same⟩ := List.getElem?_eq_some_iff.mp keeps.2
    obtain ⟨inside', same'⟩ := List.getElem?_eq_some_iff.mp keeps'.2
    have distinct := (builder.dictOf i).distinct
    exact UInt64.toNat_inj.mp ((List.Nodup.getElem_inj_iff distinct).mp (same'.trans same.symm))

/-- The sets on a record leave one thing in every slot. -/
theorem Fills.unique {sets : List (Nat × FieldValue)} {values values' : List UInt64}
    (fills : builder.Fills sets values) (fills' : builder.Fills sets values') :
    values' = values := by
  refine List.ext_getElem (fills'.1.trans fills.1.symm) fun i inside' inside => ?_
  have declared := List.getElem?_eq_getElem (fills.1 ▸ inside)
  have left := fills.2 i _ _ declared (List.getElem?_eq_getElem inside)
  have right := fills'.2 i _ _ declared (List.getElem?_eq_getElem inside')
  cases last : lastSet sets i with
  | none =>
    rw [last] at left right
    exact right.trans left.symm
  | some value =>
    rw [last] at left right
    exact left.unique right

/-! ### Tuples -/

/-- The tuples of some records interned one after the other: the ids they get, and the builder with
the table. -/
def internAll : Builder → List (List UInt64) → List Nat × Builder
  | builder, [] => ([], builder)
  | builder, values :: rest =>
    let interned := { builder with slots := values }.internTuple
    let last := internAll { interned.2 with count := builder.count + 1 } rest
    (interned.1 :: last.1, last.2)

theorem internAll_snoc (builder : Builder) (tuples : List (List UInt64)) (values : List UInt64) :
    let before := builder.internAll tuples
    let interned := { before.2 with slots := values }.internTuple
    builder.internAll (tuples ++ [values]) =
      (before.1 ++ [interned.1], { interned.2 with count := before.2.count + 1 }) := by
  induction tuples generalizing builder with
  | nil => rfl
  | cons tuple rest inductionHypothesis =>
    simp only [List.cons_append, internAll]
    rw [inductionHypothesis]

/-- Interning leaves the options alone, and counts the records. -/
theorem internAll_frame (builder : Builder) (tuples : List (List UInt64)) :
    (builder.internAll tuples).2.options = builder.options ∧
      (builder.internAll tuples).2.count = builder.count + tuples.length := by
  induction tuples generalizing builder with
  | nil => exact ⟨rfl, rfl⟩
  | cons tuple rest inductionHypothesis =>
    obtain ⟨id, table, index, dedupActive, interned, -⟩ :=
      internTuple_eq { builder with slots := tuple }
    rw [internAll, interned]
    obtain ⟨options, count⟩ := inductionHypothesis
      { builder with
        slots := tuple, tuples := table, index, dedupActive, count := builder.count + 1 }
    refine ⟨options, count.trans ?_⟩
    rw [List.length_cons]
    exact Nat.add_right_comm _ _ _

/-- A builder has the table of the tuples of some records. -/
structure Interned (fresh builder : Builder) (taken : List (List UInt64)) : Prop where
  ids : builder.rows.map (·.tuple) = (fresh.internAll taken).1
  tuples : builder.tuples = (fresh.internAll taken).2.tuples
  index : builder.index = (fresh.internAll taken).2.index
  dedupActive : builder.dedupActive = (fresh.internAll taken).2.dedupActive
  count : builder.count = (fresh.internAll taken).2.count

/-- A commit takes the tuple at hand. -/
theorem Interned.commit {fresh : Builder} {taken : List (List UInt64)}
    (interned : Interned fresh builder taken) (options : builder.options = fresh.options)
    {rec : RecordRef} {staging : Option StagingObject}
    (commits : Commits builder rec (builder.committed rec staging)) :
    Interned fresh (builder.committed rec staging) (taken ++ [builder.slots]) := by
  have frame := (internAll_frame fresh taken).1
  obtain ⟨id, table, index, dedupActive⟩ := @internTuple_of_eq
    { (fresh.internAll taken).2 with slots := builder.slots } builder rfl interned.count
    (by rw [options, ← frame]) (by rw [options, ← frame]) interned.tuples interned.index
    interned.dedupActive
  refine ⟨?_, ?_, ?_, ?_, ?_⟩ <;> rw [fresh.internAll_snoc taken builder.slots]
  · rw [commits.rows, List.map_append, interned.ids, id]
    rfl
  · exact table
  · exact index
  · exact dedupActive
  · exact congrArg (· + 1) interned.count

/-- What was seen and what was interned are left alone. -/
structure Untouched (earlier later : Builder) : Prop where
  seen : SeenAlike earlier later
  tuples : later.tuples = earlier.tuples
  index : later.index = earlier.index
  dedupActive : later.dedupActive = earlier.dedupActive
  count : later.count = earlier.count
  rows : later.rows = earlier.rows

end Builder

/-! ### Sessions -/

/-- A session has seen what was observed, and interned what was committed. -/
structure Session.Replays (fresh : Builder) (session : Session) (log : Log) : Prop where
  seen : Builder.SeenAlike (fresh.setAll log.observed) session.builder
  interned : ∃ taken, Builder.Interned fresh session.builder taken ∧
    List.Forall₂ (fun entry values => session.builder.Fills entry.sets values) log.committed taken

namespace Session

open Builder

variable {schema : SchemaBuilder} {options : BuildOptions} {fresh : Builder} {session : Session}
  {log : Log}

theorem start_replays (made : Builder.make schema options = .ok fresh) :
    Replays fresh (start fresh) .empty := by
  obtain ⟨-, -, rfl⟩ := make_blank made
  exact ⟨⟨rfl, rfl, rfl⟩, [], ⟨rfl, rfl, rfl, rfl, rfl⟩, List.Forall₂.nil⟩

/-- What was seen and interned may be taken from a builder that has the same of both. -/
theorem Replays.keep (replays : Replays fresh session log) {later : Builder}
    {handles : List RecordRef} {log' : Log} (untouched : Untouched session.builder later)
    (observed : log'.observed = log.observed) (committed : log'.committed = log.committed) :
    Replays fresh { builder := later, handles } log' := by
  obtain ⟨⟨schema, stats, textDicts⟩, tuples, index, dedupActive, count, rows⟩ := untouched
  obtain ⟨seen, taken, interned, filled⟩ := replays
  refine ⟨⟨?_, ?_, ?_⟩, taken, ⟨?_, ?_, ?_, ?_, ?_⟩, ?_⟩
  · rw [observed]
    exact schema.trans seen.schema
  · rw [observed]
    exact stats.trans seen.stats
  · rw [observed]
    exact textDicts.trans seen.textDicts
  · rw [rows]
    exact interned.ids
  · exact tuples.trans interned.tuples
  · exact index.trans interned.index
  · exact dedupActive.trans interned.dedupActive
  · exact count.trans interned.count
  · rw [committed]
    exact filled.imp fun _ _ fills => fills.grows (grows_of_same schema textDicts tuples)

/-- Beginning a record changes neither what was seen nor what was interned. -/
theorem Replays.begins (replays : Replays fresh session log) {call : Call} {wanted : KeyMode}
    {pending : List UInt8} {rec : RecordRef}
    (begins : beginsOf session.builder.options.addressBits call = some (wanted, pending, rec)) :
    Replays fresh (session.perform call).2
      (log.noteResult session.handles call (session.perform call).1) := by
  have quiet (result : Except BuildError Unit) :
      (log.noteResult session.handles call result).observed = log.observed ∧
        (log.noteResult session.handles call result).committed = log.committed := by
    cases result with
    | error error => exact ⟨rfl, rfl⟩
    | ok returned =>
      cases call with
      | beginRecord | beginRecordAt | beginRecordAtBytes => exact ⟨rfl, rfl⟩
      | set | commit | setStaging | finish => cases begins
  obtain ⟨observed, committed⟩ := quiet (session.perform call).1
  refine replays.keep ?_ observed committed
  have rows := perform_begins_rows begins
  obtain ⟨outcome, equation, comes⟩ := perform_begins begins
  rw [equation, keep_builder] at rows ⊢
  cases comes with
  | refused error => exact ⟨⟨rfl, rfl, rfl⟩, rfl, rfl, rfl, rfl, rfl⟩
  | mismatched error entered enters =>
    obtain ⟨staging, nextObject, rfl⟩ := enters.fields
    exact ⟨⟨rfl, rfl, rfl⟩, rfl, rfl, rfl, rfl, rows⟩
  | begun entered enters =>
    obtain ⟨staging, nextObject, rfl⟩ := enters.fields
    exact ⟨⟨rfl, rfl, rfl⟩, rfl, rfl, rfl, rfl, rows⟩

/-- A setter that returns is seen. -/
theorem Replays.set (replays : Replays fresh session log) {id : Nat} {value : FieldValue}
    {later : Builder} (equation : session.builder.set id value = (.ok (), later))
    (sets : Sets session.builder id value later) :
    Replays fresh { session with builder := later }
      { log with sets := log.sets ++ [(id, value)],
                 observed := log.observed ++ [(id, value)] } := by
  obtain ⟨seen, taken, interned, filled⟩ := replays
  have seen' := seen.set id value
  have frame := set_frame session.builder id value
  rw [equation] at seen' frame
  obtain ⟨slots, stats, textDicts, same⟩ := frame
  obtain rfl : later = { session.builder with slots, stats, textDicts } := same
  refine ⟨by rw [setAll_snoc]; exact seen', taken,
    ⟨interned.ids, interned.tuples, interned.index, interned.dedupActive, interned.count⟩, ?_⟩
  exact filled.imp fun _ _ fills => fills.grows ⟨sets.schema, sets.dicts, by rw [sets.tuples]⟩

/-- A commit that returns is interned. -/
theorem Replays.commit (replays : Replays fresh session log)
    (tracks : Tracks schema options session log) (options : session.builder.options = fresh.options)
    {rec : RecordRef} {staging : Option StagingObject}
    (commits : Commits session.builder rec (session.builder.committed rec staging)) :
    Replays fresh { session with builder := session.builder.committed rec staging }
      { log with committed := log.committed ++
          [{ partition := rec.partition, address := rec.address
             addressBytes := log.pending, sets := log.sets }] } := by
  obtain ⟨seen, taken, interned, filled⟩ := replays
  have grows : Grows session.builder (session.builder.committed rec staging) :=
    ⟨rfl, fun i => List.prefix_rfl, commits.tuples⟩
  refine ⟨⟨seen.schema, seen.stats, seen.textDicts⟩, taken ++ [session.builder.slots],
    interned.commit options commits, ?_⟩
  exact List.rel_append (filled.imp fun _ _ fills => fills.grows grows)
    (List.Forall₂.cons (tracks.slots.grows grows) List.Forall₂.nil)

/-- Every call but the last is replayed. -/
theorem perform_replays (replays : Replays fresh session log)
    (tracks : Tracks schema options session log) (made : Builder.make schema options = .ok fresh)
    {call : Call} (builtIn : call.BuiltIn) (notLast : call ≠ .finish) :
    Replays fresh (session.perform call).2
      (log.noteResult session.handles call (session.perform call).1) := by
  cases call with
  | finish => exact absurd rfl notLast
  | setStaging staging => exact builtIn.elim
  | beginRecord | beginRecordAt | beginRecordAtBytes => exact replays.begins rfl
  | set handle id value =>
    cases given : session.handles[handle]? with
    | none =>
      simp only [perform, given, Log.noteResult, Log.note]
      exact replays
    | some rec =>
      rcases set_eq tracks.sound id value with ⟨error, equation⟩ | ⟨later, equation, sets⟩
      · simp only [perform, given, equation, after]
        exact replays
      · simp only [perform, given, equation, after, Log.noteResult, Log.note]
        exact replays.set equation sets
  | commit handle =>
    cases given : session.handles[handle]? with
    | none =>
      simp only [perform, given, Log.noteResult, Log.note]
      exact replays
    | some rec =>
      rcases commit_eq tracks.sound tracks.narrow
        (tracks.handles rec (List.mem_of_getElem? given)) with ⟨-, error, equation⟩ |
        ⟨-, staging, equation, commits⟩
      · simp only [perform, given, equation, after]
        exact replays
      · simp only [perform, given, equation, after, Log.noteResult, Log.note]
        obtain ⟨-, -, same, -⟩ := make_eq made
        exact replays.commit tracks (tracks.options.trans same.symm) commits

theorem run_replays (replays : Replays fresh session log)
    (tracks : Tracks schema options session log) (made : Builder.make schema options = .ok fresh)
    {calls : List Call} (builtIn : ∀ call ∈ calls, call.BuiltIn)
    (running : ∀ call ∈ calls, call ≠ .finish) :
    Replays fresh (session.run calls) (session.logged log calls) ∧
      Tracks schema options (session.run calls) (session.logged log calls) := by
  induction calls generalizing session log with
  | nil => exact ⟨replays, tracks⟩
  | cons call rest inductionHypothesis =>
    have here := builtIn call List.mem_cons_self
    have notLast := running call List.mem_cons_self
    exact inductionHypothesis (perform_replays replays tracks made here notLast)
      (perform_tracks tracks here notLast)
      (fun other member => builtIn other (List.mem_cons_of_mem _ member))
      fun other member => running other (List.mem_cons_of_mem _ member)

end Session

/-! ### Builds -/

open Builder

/-- Builders that the writer does not tell apart are finished alike. -/
theorem finish_congr {first second : Builder} (same : SameInput first second)
    (sound : first.Sound) (sound' : second.Sound) (running : first.finished = false)
    (running' : second.finished = false) (rows : second.rows = first.rows)
    (mode : second.mode = first.mode) (order : second.options.order = first.options.order)
    (policy : second.options.valueInterning = first.options.valueInterning) :
    (finish second).outcome.isOk = (finish first).outcome.isOk ∧
      (finish second).image = (finish first).image := by
  have orderable : second.Orderable ↔ first.Orderable := by
    rw [Orderable, Orderable, rows, order]
  rcases finish_rows sound running with ⟨disordered, ⟨error, thrown⟩, silent⟩ | ⟨orders, staging,
    nextObject, image, outcome, -⟩
  · rcases finish_rows sound' running' with ⟨-, ⟨error', thrown'⟩, silent'⟩ | ⟨orders', -⟩
    · rw [thrown, thrown', silent, silent']
      exact ⟨rfl, rfl⟩
    · exact absurd (orderable.mp orders') disordered
  · rcases finish_rows sound' running' with ⟨disordered', -⟩ | ⟨-, staging', nextObject', image',
      outcome', -⟩
    · exact absurd (orderable.mpr orders) disordered'
    · have finals := same.finishing staging staging' nextObject nextObject'
      have layouts := finals.chooseLayout (finals.choice policy (StagedRow.sortRows first.rows))
      rw [rows, layouts, finals.writeImage mode] at image' outcome'
      exact ⟨outcome'.trans outcome.symm, image'.trans image.symm⟩

attribute [ext] StagedRow

/-- Rows of the same records with the same tuples. -/
theorem rows_eq_of_stages {builder builder' : Builder} {rows rows' : List StagedRow}
    {entries : List Committed} (stages : List.Forall₂ builder.Stages rows entries)
    (stages' : List.Forall₂ builder'.Stages rows' entries)
    (tuples : rows'.map (·.tuple) = rows.map (·.tuple)) : rows' = rows := by
  induction stages generalizing rows' with
  | nil =>
    cases stages'
    rfl
  | @cons row _ _ _ staged _ inductionHypothesis =>
    cases stages' with
    | @cons row' _ _ _ staged' rest =>
      obtain ⟨tuple, others⟩ := List.cons.inj tuples
      rw [inductionHypothesis rest others]
      obtain ⟨partition, address, addressBytes, -⟩ := staged
      obtain ⟨partition', address', addressBytes', -⟩ := staged'
      have same : row' = row := StagedRow.ext (partition'.trans partition.symm)
        (address'.trans address.symm) (addressBytes'.trans addressBytes.symm) tuple
      rw [same]

/-- Two builds of one schema under the same options, in which the same setter calls returned and the
same records were committed, and which are in one key mode. -/
structure Build.SameHistory (first second : Build) : Prop where
  schema : second.schema = first.schema
  options : second.options = first.options
  observed : second.log.observed = first.log.observed
  committed : second.log.committed = first.log.committed
  mode : second.session.builder.mode = first.session.builder.mode
  wideWidth : second.session.builder.wideWidth = first.session.builder.wideWidth

section Builds

variable {build first second : Build}

theorem Build.replays (open_ : ∀ call ∈ build.calls, call ≠ .finish) :
    Session.Replays build.fresh build.session build.log ∧
      Session.Tracks build.schema build.options build.session build.log :=
  Session.run_replays (Session.start_replays build.made) (Session.start_tracks build.made)
    build.made build.builtIn open_

/-- An image is a function of what was set and what was committed: two builds of one history end
alike, and write the same image byte for byte, however their records were begun and their calls
interleaved, and whatever was refused. -/
theorem Build.image_of_history (same : first.SameHistory second)
    (open_ : ∀ call ∈ first.calls, call ≠ .finish)
    (open' : ∀ call ∈ second.calls, call ≠ .finish) :
    second.finished.outcome.isOk = first.finished.outcome.isOk ∧
      second.finished.image = first.finished.image := by
  obtain ⟨⟨seen, taken, interned, filled⟩, tracks⟩ := Build.replays open_
  obtain ⟨⟨seen', taken', interned', filled'⟩, tracks'⟩ := Build.replays open'
  have fresh : second.fresh = first.fresh := by
    have made := second.made
    rw [same.schema, same.options, first.made] at made
    exact (Except.ok.inj made).symm
  rw [fresh, same.observed] at seen'
  rw [fresh] at interned'
  rw [same.committed] at filled'
  have schema : second.session.builder.schema = first.session.builder.schema :=
    seen'.schema.trans seen.schema.symm
  have textDicts : second.session.builder.textDicts = first.session.builder.textDicts :=
    seen'.textDicts.trans seen.textDicts.symm
  -- The same dictionaries give the same values the same raw form.
  have sameFills (entry : Committed) (values : List UInt64)
      (fills : second.session.builder.Fills entry.sets values) :
      first.session.builder.Fills entry.sets values :=
    fills.grows (@grows_of_same second.session.builder
      { first.session.builder with tuples := second.session.builder.tuples } schema.symm
      textDicts.symm rfl)
  have unique : Relator.RightUnique fun (entry : Committed) (values : List UInt64) =>
      first.session.builder.Fills entry.sets values :=
    fun entry values values' fills fills' => (fills.unique fills').symm
  obtain rfl : taken' = taken :=
    List.right_unique_forall₂' unique (filled'.imp sameFills) filled
  have stages' := tracks'.rows
  rw [same.committed] at stages'
  have rows := rows_eq_of_stages tracks.rows stages' (interned'.ids.trans interned.ids.symm)
  have options : second.session.builder.options = first.session.builder.options := by
    rw [tracks.options, tracks'.options, same.options]
  refine finish_congr ?_ tracks.sound tracks'.sound tracks.running tracks'.running rows same.mode
    (by rw [options]) (by rw [options])
  refine
    { schema
      stats := seen'.stats.trans seen.stats.symm
      textDicts
      tuples := interned'.tuples.trans interned.tuples.symm
      count := interned'.count.trans interned.count.symm
      wide := ?_
      wideWidth := same.wideWidth
      addressBits := by rw [options]
      alignFields := by rw [options]
      partitionAddressWidth := by rw [options]
      partitionRemap := by rw [options]
      maxDenseSlots := by rw [options] }
  rw [Bool.eq_iff_iff, tracks.sound.wide_iff, tracks'.sound.wide_iff, same.mode]

end Builds

/-- Two records, committed out of order. -/
def plainBuild : Build :=
  Build.of numberSchema .default
    [.beginRecordAt 2 7, .set 0 0 (.uint 9), .commit 0, .beginRecordAt 0 300, .commit 1]
    numberSchema_fields BuildOptions.default_addressBits (by decide) (by decide)

/-- The same records. The first is begun twice, a key is refused, an unknown field is set, and the
second is committed through a handle that was given out earlier. -/
def noisyBuild : Build :=
  Build.of numberSchema .default
    [.beginRecordAt 2 7, .beginRecord 5, .beginRecordAt 0 300, .beginRecordAt 8 1,
      .beginRecordAt 2 7, .set 0 4 (.uint 3), .set 2 0 (.uint 9), .commit 0, .beginRecordAt 1 1,
      .commit 6, .commit 1]
    numberSchema_fields BuildOptions.default_addressBits (by decide) (by decide)

theorem noisy_same_history : plainBuild.SameHistory noisyBuild where
  schema := rfl
  options := rfl
  observed := by decide +kernel
  committed := by decide +kernel
  mode := by decide +kernel
  wideWidth := by decide +kernel

theorem sample_image_of_history :
    noisyBuild.finished.outcome.isOk = plainBuild.finished.outcome.isOk ∧
      noisyBuild.finished.image = plainBuild.finished.image := by
  have running : plainBuild.session.builder.finished = false := by decide +kernel
  have running' : noisyBuild.session.builder.finished = false := by decide +kernel
  exact Build.image_of_history noisy_same_history
    (Session.not_finish_of_running plainBuild.builtIn running)
    (Session.not_finish_of_running noisyBuild.builtIn running')

end Mmpack
