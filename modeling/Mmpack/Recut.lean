/-
This file cuts the keys of a build at another bit. Which bits of a key choose the
partition decides how an image is laid out and how large it becomes, but not what it
holds: a builder that is given the same keys and values with other `address_bits` runs
in step with the first one, the parts of every key taken from the same word.

The second run is the image of the first one under `recut`, call by call.
-/

import Mmpack.Twins
import Mmpack.Maps

namespace Mmpack

open ByteList

/-! ### Keys in parts -/

namespace RecordRef

/-- The handle of a key. -/
def ofKey (bits : Nat) (key : UInt64) : RecordRef where
  partition := partitionOf bits key
  address := addressOf bits key

/-- The parts of the same key, cut at another bit. -/
def recut (bits bits' : Nat) (rec : RecordRef) : RecordRef :=
  ofKey bits' (packKey bits rec.partition rec.address)

theorem recut_ofKey {bits : Nat} (bound : bits ≤ 64) (bits' : Nat) (key : UInt64) :
    (ofKey bits key).recut bits bits' = ofKey bits' key :=
  congrArg (ofKey bits') (packKey_split bound key)

/-- The parts of a key are in the order of the keys. -/
theorem ofKey_lt_iff {bits : Nat} (bound : bits ≤ 64) (first second : UInt64) :
    (partitionOf bits first < partitionOf bits second ∨
        partitionOf bits first = partitionOf bits second ∧
          addressOf bits first < addressOf bits second) ↔ first < second := by
  rw [keyPlace_lt bound first second, keyPlace, keyPlace, Prod.Lex.toLex_lt_toLex,
    UInt64.toNat_inj]
  rfl

end RecordRef

/-! ### Stagings and builders -/

/-- The same key is pushed, wherever it is cut. -/
theorem MemoryStaging.push_recut {staging : MemoryStaging} (bound : staging.addressBits ≤ 64)
    {bits : Nat} (bound' : bits ≤ 64) (key : UInt64) (tuple : Nat) :
    ({ staging with addressBits := bits } : MemoryStaging).push (partitionOf bits key)
        (addressOf bits key) tuple =
      { staging.push (partitionOf staging.addressBits key) (addressOf staging.addressBits key)
          tuple with addressBits := bits } := by
  simp only [push, packKey_split bound, packKey_split bound']

/-- A keyed staging holds whole keys. Where they are cut matters only to its view. -/
def Staging.recut (bits : Nat) : Staging → Staging
  | .memory staging => .memory { staging with addressBits := bits }
  | staging => staging

def StagingObject.recut (bits : Nat) (owned : StagingObject) : StagingObject :=
  { owned with staging := owned.staging.recut bits }

namespace Builder

/-- The record committed last, as a handle. -/
def lastRef (builder : Builder) : RecordRef where
  partition := builder.lastPartition
  address := builder.lastAddress

/-- The builder of the same keys, cut at another bit. -/
def recut (bits : Nat) (builder : Builder) : Builder :=
  { builder with
    options := { builder.options with addressBits := bits }
    staging := builder.staging.map (·.recut bits)
    lastPartition := (builder.lastRef.recut builder.options.addressBits bits).partition
    lastAddress := (builder.lastRef.recut builder.options.addressBits bits).address }

variable {builder : Builder} {bits : Nat} {key last : UInt64}

/-- A setter asks neither for the options nor for what is staged. -/
theorem set_recut (builder : Builder) (bits id : Nat) (value : FieldValue) :
    (builder.recut bits).set id value =
      ((builder.set id value).1, (builder.set id value).2.recut bits) := by
  cases value <;>
    simp only [set, setUint, setSint, setF32, setF64, setText, setBytes, withField, recut] <;>
    split <;> try rfl
  all_goals split <;> try rfl
  all_goals split <;> rfl

theorem maybeGiveUpOnDedup_recut (builder : Builder) (bits : Nat) :
    (builder.recut bits).maybeGiveUpOnDedup = builder.maybeGiveUpOnDedup.recut bits := by
  simp only [maybeGiveUpOnDedup, apply_ite (recut bits)]
  rfl

/-- Collapsing a tuple does not ask for the parts of keys. -/
theorem internTuple_recut (builder : Builder) (bits : Nat) :
    (builder.recut bits).internTuple =
      (builder.internTuple.1, builder.internTuple.2.recut bits) := by
  cases active : builder.dedupActive with
  | false => simp [internTuple, recut, lastRef, active]
  | true =>
    have active' : (builder.recut bits).dedupActive = true := active
    cases found : builder.index.find? fun id =>
        decide (builder.tuples[id]? = some builder.slots) with
    | some id => simp [internTuple, recut, lastRef, active, found]
    | none =>
      have found' : (builder.recut bits).index.find? (fun id =>
          decide ((builder.recut bits).tuples[id]? = some (builder.recut bits).slots)) = none :=
        found
      simp only [internTuple, active, active', found, found', if_true,
        ← maybeGiveUpOnDedup_recut]
      rfl

/-- Entering the keyed mode a second time does nothing. -/
theorem enterMode_of_keyed (running : builder.finished = false) (keyed : builder.mode = .keyed) :
    builder.enterMode .keyed = (.ok (), builder) := by
  rw [enterMode, if_neg (by rw [running]; decide), if_neg (by rw [keyed]; decide),
    if_neg (not_not.mpr keyed)]

/-- Entering it first makes an empty staging. -/
def entered (builder : Builder) : Builder :=
  { builder with
    mode := .keyed
    staging := some ⟨builder.nextObject, .memory
      { addressBits := builder.options.addressBits, rows := [], sorted := true }⟩
    nextObject := builder.nextObject + 1 }

theorem enterMode_of_undecided (running : builder.finished = false)
    (undecided : builder.mode = .undecided) (missing : builder.staging = none) :
    builder.enterMode .keyed = (.ok (), builder.entered) := by
  rw [enterMode, if_neg (by rw [running]; decide), if_pos undecided, ensureStaging]
  simp only [missing]
  rfl

/-- A keyed builder begins a record of the same key. -/
theorem beginRecord_recut (staging : builder.StagingOk) (running : builder.finished = false)
    (mode : builder.mode = .undecided ∨ builder.mode = .keyed) (bits : Nat) (key : UInt64) :
    ∃ begun, builder.beginRecord key = (.ok (.ofKey builder.options.addressBits key), begun) ∧
      begun.options = builder.options ∧ begun.mode = .keyed ∧ begun.lastRef = builder.lastRef ∧
      (builder.recut bits).beginRecord key = (.ok (.ofKey bits key), begun.recut bits) := by
  unfold StagingOk at staging
  have running' : (builder.recut bits).finished = false := running
  rcases mode with undecided | keyed
  · rw [undecided] at staging
    obtain ⟨missing, -⟩ := staging
    have missing' : (builder.recut bits).staging = none := by rw [recut, missing]; rfl
    refine ⟨builder.entered.clearSlots, ?_, rfl, rfl, rfl, ?_⟩
    · rw [beginRecord, enterMode_of_undecided running undecided missing]
      rfl
    · rw [beginRecord, enterMode_of_undecided running' undecided missing']
      rfl
  · refine ⟨builder.clearSlots, ?_, rfl, keyed, rfl, ?_⟩
    · rw [beginRecord, enterMode_of_keyed running keyed]
      rfl
    · rw [beginRecord, enterMode_of_keyed running' keyed]
      rfl

/-- The record committed last is one of a key. -/
def LastOfKey (builder : Builder) (last : UInt64) : Prop :=
  builder.lastRef = .ofKey builder.options.addressBits last

/-- Records of keys come in the order of the keys. -/
theorem increasing_ofKey (narrow : builder.blob = none) (bound : builder.options.addressBits ≤ 64)
    (lastOfKey : builder.LastOfKey last) (key : UInt64) :
    builder.increasing (.ofKey builder.options.addressBits key) = decide (last < key) := by
  obtain ⟨partition, address⟩ := RecordRef.mk.inj lastOfKey
  rw [Bool.eq_iff_iff, decide_eq_true_iff]
  refine Iff.trans ?_ (RecordRef.ofKey_lt_iff bound last key)
  rw [← partition, ← address]
  simp only [increasing, narrow, Option.isSome_none, Bool.false_eq_true, if_false,
    Bool.or_eq_true, Bool.and_eq_true, decide_eq_true_iff]
  exact Iff.rfl

theorem LastOfKey.recut (lastOfKey : builder.LastOfKey last)
    (bound : builder.options.addressBits ≤ 64) (bits : Nat) :
    (builder.recut bits).LastOfKey last := by
  have cut := RecordRef.recut_ofKey bound bits last
  rw [← lastOfKey] at cut
  exact cut

/-- Committing a record of a keyed build. -/
theorem commit_memory (running : builder.finished = false) (narrow : builder.blob = none)
    {id : Nat} {staging : MemoryStaging} (owned : builder.staging = some ⟨id, .memory staging⟩)
    {rec : RecordRef} (accepted : ¬ (builder.options.order = .assumeSorted ∧ builder.count ≠ 0 ∧
      builder.increasing rec = false)) :
    builder.commit rec = (.ok (), builder.committed rec (some ⟨id, .memory
      (staging.push rec.partition rec.address builder.internTuple.1)⟩)) := by
  obtain ⟨tuple, tuples, index, dedupActive, interned, -⟩ := internTuple_eq builder
  have unfinished : ¬ builder.finished = true := by rw [running]; decide
  rw [commit, if_neg unfinished, if_neg accepted, interned]
  cases builder
  cases narrow
  cases owned
  simp only [committed, interned]
  rfl

/-- A record that is committed is committed with the same tuple, and its key stays whole. -/
theorem committed_recut {id : Nat} {staging : MemoryStaging}
    (cut : staging.addressBits = builder.options.addressBits)
    (bound : builder.options.addressBits ≤ 64) (bound' : bits ≤ 64) (key : UInt64) (tuple : Nat) :
    (builder.recut bits).committed (.ofKey bits key) (some ⟨id, .memory
        (({ staging with addressBits := bits } : MemoryStaging).push (partitionOf bits key)
          (addressOf bits key) tuple)⟩) =
      (builder.committed (.ofKey builder.options.addressBits key) (some ⟨id, .memory
        (staging.push (partitionOf builder.options.addressBits key)
          (addressOf builder.options.addressBits key) tuple)⟩)).recut bits := by
  have pushed := MemoryStaging.push_recut (cut ▸ bound) bound' key tuple
  have parts := RecordRef.recut_ofKey bound bits key
  rw [cut] at pushed
  rw [committed, internTuple_recut, pushed, committed]
  simp only [recut, lastRef, RecordRef.ofKey] at parts ⊢
  rw [parts]
  rfl

/-- A keyed builder commits or refuses a record of the same key. -/
theorem commit_recut (staging : builder.StagingOk) (running : builder.finished = false)
    (keyed : builder.mode = .keyed) (bound : builder.options.addressBits ≤ 64)
    (lastOfKey : builder.LastOfKey last) (bound' : bits ≤ 64) (key : UInt64) :
    (∃ error error',
        builder.commit (.ofKey builder.options.addressBits key) = (.error error, builder) ∧
          (builder.recut bits).commit (.ofKey bits key) = (.error error', builder.recut bits)) ∨
      ∃ later, builder.commit (.ofKey builder.options.addressBits key) = (.ok (), later) ∧
        later.options = builder.options ∧ later.mode = .keyed ∧ later.LastOfKey key ∧
        (builder.recut bits).commit (.ofKey bits key) = (.ok (), later.recut bits) := by
  rw [StagingOk, keyed] at staging
  obtain ⟨narrow, id, staged, owned, cut⟩ := staging
  have unfinished : ¬ builder.finished = true := by rw [running]; decide
  have unfinished' : ¬ (builder.recut bits).finished = true := unfinished
  have order := increasing_ofKey narrow bound lastOfKey key
  have order' : (builder.recut bits).increasing (.ofKey bits key) = decide (last < key) :=
    @increasing_ofKey (builder.recut bits) last narrow bound' (lastOfKey.recut bound bits) key
  by_cases disordered : builder.options.order = .assumeSorted ∧ builder.count ≠ 0 ∧
    decide (last < key) = false
  · refine Or.inl ⟨.notIncreasing (partitionOf builder.options.addressBits key).toNat,
      .notIncreasing (partitionOf bits key).toNat, ?_, ?_⟩
    · rw [commit, if_neg unfinished, order, if_pos disordered]
      rfl
    · rw [commit, if_neg unfinished', order']
      exact if_pos disordered
  · have owned' : (builder.recut bits).staging =
        some ⟨id, .memory { staged with addressBits := bits }⟩ := by
      rw [recut, owned]
      rfl
    refine Or.inr ⟨_, commit_memory running narrow owned (by rwa [order]), rfl, keyed, rfl, ?_⟩
    rw [@commit_memory (builder.recut bits) running narrow id _ owned' _ (by rwa [order']),
      internTuple_recut]
    exact congrArg (Prod.mk _) (committed_recut cut bound bound' key _)

end Builder

/-! ### Sessions -/

theorem Call.Keyed.builtIn {call : Call} (keyed : call.Keyed) : call.BuiltIn := by
  cases call with
  | setStaging => exact keyed.elim
  | beginRecord | beginRecordAt | beginRecordAtBytes | set | commit | finish => exact True.intro

theorem Call.Keyed.open_ {call : Call} (keyed : call.Keyed) : call ≠ .finish := by
  rintro rfl
  exact keyed

/-- The place of a record, as a handle. -/
def Committed.ref (entry : Committed) : RecordRef where
  partition := entry.partition
  address := entry.address

/-- A record of the log, its key cut at another bit. -/
def Committed.recut (bits bits' : Nat) (entry : Committed) : Committed :=
  { entry with
    partition := (entry.ref.recut bits bits').partition
    address := (entry.ref.recut bits bits').address }

def Log.recut (bits bits' : Nat) (log : Log) : Log :=
  { log with committed := log.committed.map (·.recut bits bits') }

/-- The log of the other cut notes the same calls. -/
theorem Log.noteResult_recut (log : Log) (bits bits' : Nat) (handles : List RecordRef) {call : Call}
    (keyed : call.Keyed) {result result' : Except BuildError Unit}
    (same : result'.isOk = result.isOk) :
    (log.recut bits bits').noteResult (handles.map (·.recut bits bits')) call result' =
      (log.noteResult handles call result).recut bits bits' := by
  have noted : (log.recut bits bits').note (handles.map (·.recut bits bits')) call =
      (log.note handles call).recut bits bits' := by
    cases call with
    | beginRecord key => rfl
    | set handle id value =>
      simp only [Log.note, List.getElem?_map]
      cases handles[handle]? with
      | none => rfl
      | some rec => rfl
    | commit handle =>
      simp only [Log.note, List.getElem?_map]
      cases handles[handle]? with
      | none => rfl
      | some rec =>
        simp only [Option.map_some, Log.recut, List.map_append]
        rfl
    | beginRecordAt | beginRecordAtBytes | setStaging | finish => exact keyed.elim
  cases result with
  | ok returned =>
    cases result' with
    | ok returned' => exact noted
    | error error => cases same
  | error error =>
    cases result' with
    | ok returned => cases same
    | error error' => rfl

namespace Session

open Builder

variable {schema : SchemaBuilder} {options : BuildOptions} {session : Session} {log : Log}
  {bits : Nat} {call : Call}

def recut (bits : Nat) (session : Session) : Session where
  builder := session.builder.recut bits
  handles := session.handles.map (·.recut session.builder.options.addressBits bits)

/-- What a session knows of a record is known by its key. -/
structure OfKeys (session : Session) (log : Log) : Prop where
  mode : session.builder.mode = .undecided ∨ session.builder.mode = .keyed
  last : ∃ last, session.builder.LastOfKey last
  handles : ∀ rec ∈ session.handles, ∃ key, rec = .ofKey session.builder.options.addressBits key
  pending : log.pending = []
  committed : ∀ entry ∈ log.committed, entry.addressBytes = [] ∧
    ∃ key, entry.ref = .ofKey session.builder.options.addressBits key

/-- A call is in step with itself on the other cut. -/
structure InStep (bits : Nat) (session : Session) (log : Log) (call : Call) : Prop where
  ofKeys : OfKeys (session.perform call).2
    (log.noteResult session.handles call (session.perform call).1)
  options : (session.perform call).2.builder.options = session.builder.options
  returns : ((session.recut bits).perform call).1.isOk = (session.perform call).1.isOk
  sessions : ((session.recut bits).perform call).2 = (session.perform call).2.recut bits

/-- A call that does nothing is in step. -/
theorem inStep_of_same (ofKeys : OfKeys session log) (result result' : Except BuildError Unit)
    (same : result'.isOk = result.isOk) (performs : session.perform call = (result, session))
    (performs' : (session.recut bits).perform call = (result', session.recut bits))
    (quiet : log.noteResult session.handles call result = log) : InStep bits session log call := by
  refine ⟨?_, ?_, ?_, ?_⟩
  · rw [performs]
    simp only
    rw [quiet]
    exact ofKeys
  · rw [performs]
  · rw [performs, performs']
    exact same
  · rw [performs, performs']

theorem inStep_beginRecord (tracks : Tracks schema options session log)
    (ofKeys : OfKeys session log) (bits : Nat) (key : UInt64) :
    InStep bits session log (.beginRecord key) := by
  have bound := tracks.sound.addressBits
  obtain ⟨begun, begins, sameOptions, mode, last, begins'⟩ :=
    beginRecord_recut tracks.sound.staging tracks.running ofKeys.mode bits key
  have performs : session.perform (.beginRecord key) = (.ok (), ⟨begun, session.handles ++
      [.ofKey session.builder.options.addressBits key]⟩) := by
    rw [perform, begins]
    rfl
  have performs' : (session.recut bits).perform (.beginRecord key) = (.ok (), ⟨begun.recut bits,
      (session.recut bits).handles ++ [.ofKey bits key]⟩) := by
    rw [perform, recut, begins']
    rfl
  refine ⟨?_, ?_, ?_, ?_⟩
  · rw [performs]
    refine ⟨Or.inr mode, ?_, ?_, rfl, ?_⟩
    · obtain ⟨key', lastOfKey⟩ := ofKeys.last
      exact ⟨key', by rw [LastOfKey, last, sameOptions]; exact lastOfKey⟩
    · intro rec member
      rw [sameOptions]
      rcases List.mem_append.mp member with old | new
      · exact ofKeys.handles rec old
      · exact ⟨key, List.mem_singleton.mp new⟩
    · intro entry member
      rw [sameOptions]
      exact ofKeys.committed entry member
  · rw [performs]
    exact sameOptions
  · rw [performs, performs']
  · rw [performs, performs', recut, recut]
    simp only [sameOptions, List.map_append, List.map_cons, List.map_nil,
      RecordRef.recut_ofKey bound]

theorem inStep_set (ofKeys : OfKeys session log) (bits handle id : Nat) (value : FieldValue) :
    InStep bits session log (.set handle id value) := by
  cases given : session.handles[handle]? with
  | none =>
    have given' : (session.recut bits).handles[handle]? = none := by
      rw [recut, List.getElem?_map, given]
      rfl
    refine inStep_of_same ofKeys (.ok ()) (.ok ()) rfl ?_ ?_ ?_
    · simp only [perform, given]
    · simp only [perform, given']
    · simp only [Log.noteResult, Log.note, given]
  | some rec =>
    have given' : (session.recut bits).handles[handle]? =
        some (rec.recut session.builder.options.addressBits bits) := by
      rw [recut, List.getElem?_map, given]
      rfl
    have same := set_recut session.builder bits id value
    obtain ⟨slots, stats, textDicts, frame⟩ := set_frame session.builder id value
    have performs : session.perform (.set handle id value) = ((session.builder.set id value).1,
        { session with builder := { session.builder with slots, stats, textDicts } }) := by
      simp only [perform, given, after, frame]
    have performs' : (session.recut bits).perform (.set handle id value) =
        ((session.builder.set id value).1, { session.recut bits with
          builder := { session.builder with slots, stats, textDicts }.recut bits }) := by
      rw [← frame]
      simp only [perform, given', after]
      rw [recut, same]
    refine ⟨?_, ?_, ?_, ?_⟩
    · rw [performs]
      have pending : (log.noteResult session.handles (.set handle id value)
          (session.builder.set id value).1).pending = log.pending ∧
          (log.noteResult session.handles (.set handle id value)
            (session.builder.set id value).1).committed = log.committed := by
        cases (session.builder.set id value).1 with
        | ok returned => simp only [Log.noteResult, Log.note, given, and_self]
        | error error => exact ⟨rfl, rfl⟩
      exact ⟨ofKeys.mode, ofKeys.last, ofKeys.handles, pending.1.trans ofKeys.pending,
        pending.2 ▸ ofKeys.committed⟩
    · rw [performs]
    · rw [performs, performs']
    · rw [performs, performs']
      rfl

theorem inStep_commit (tracks : Tracks schema options session log)
    (ofKeys : OfKeys session log) (bound' : bits ≤ 64) (handle : Nat) :
    InStep bits session log (.commit handle) := by
  cases given : session.handles[handle]? with
  | none =>
    have given' : (session.recut bits).handles[handle]? = none := by
      rw [recut, List.getElem?_map, given]
      rfl
    refine inStep_of_same ofKeys (.ok ()) (.ok ()) rfl ?_ ?_ ?_
    · simp only [perform, given]
    · simp only [perform, given']
    · simp only [Log.noteResult, Log.note, given]
  | some rec =>
    have bound := tracks.sound.addressBits
    have member := List.mem_of_getElem? given
    obtain ⟨key, rfl⟩ := ofKeys.handles rec member
    have given' : (session.recut bits).handles[handle]? = some (.ofKey bits key) := by
      rw [recut, List.getElem?_map, given]
      exact congrArg some (RecordRef.recut_ofKey bound bits key)
    have keyed : session.builder.mode = .keyed := by
      refine ofKeys.mode.resolve_left fun undecided => ?_
      have begun := tracks.handles _ member
      rw [Begun, undecided] at begun
      exact begun
    obtain ⟨last, lastOfKey⟩ := ofKeys.last
    rcases commit_recut tracks.sound.staging tracks.running keyed bound lastOfKey bound' key with
      ⟨error, error', commits, commits'⟩ | ⟨later, commits, sameOptions, mode, lastOfKey',
        commits'⟩
    · refine inStep_of_same ofKeys (.error error) (.error error') rfl ?_ ?_ rfl
      · simp only [perform, given, after, commits]
      · simp only [perform, given', after]
        rw [recut, commits']
    · have performs : session.perform (.commit handle) =
          (.ok (), { session with builder := later }) := by
        simp only [perform, given, after, commits]
      have performs' : (session.recut bits).perform (.commit handle) =
          (.ok (), { session.recut bits with builder := later.recut bits }) := by
        simp only [perform, given', after]
        rw [recut, commits']
      refine ⟨?_, ?_, ?_, ?_⟩
      · rw [performs]
        refine ⟨Or.inr mode, ⟨key, lastOfKey'⟩, ?_, ?_, ?_⟩
        · rw [sameOptions]
          exact ofKeys.handles
        · simp only [Log.noteResult, Log.note, given]
          exact ofKeys.pending
        · rw [sameOptions]
          simp only [Log.noteResult, Log.note, given]
          intro entry inside
          rcases List.mem_append.mp inside with old | new
          · exact ofKeys.committed entry old
          · rw [List.mem_singleton.mp new]
            exact ⟨ofKeys.pending, key, rfl⟩
      · rw [performs]
        exact sameOptions
      · rw [performs, performs']
      · rw [performs, performs', recut, recut]
        simp only [sameOptions]

theorem perform_recut (tracks : Tracks schema options session log) (ofKeys : OfKeys session log)
    (bound' : bits ≤ 64) {call : Call} (keyed : call.Keyed) : InStep bits session log call := by
  cases call with
  | beginRecord key => exact inStep_beginRecord tracks ofKeys bits key
  | set handle id value => exact inStep_set ofKeys bits handle id value
  | commit handle => exact inStep_commit tracks ofKeys bound' handle
  | beginRecordAt | beginRecordAtBytes | setStaging | finish => exact keyed.elim

/-- So is a run: it returns from the same calls, and ends on the other cut of the same session with
the other cut of the same log. -/
theorem run_recut (tracks : Tracks schema options session log) (ofKeys : OfKeys session log)
    (bound' : bits ≤ 64) {calls : List Call} (keyed : ∀ call ∈ calls, call.Keyed) :
    (session.recut bits).returns calls = session.returns calls ∧
      (session.recut bits).run calls = (session.run calls).recut bits ∧
      (session.recut bits).logged (log.recut session.builder.options.addressBits bits) calls =
        (session.logged log calls).recut session.builder.options.addressBits bits ∧
      OfKeys (session.run calls) (session.logged log calls) := by
  induction calls generalizing session log with
  | nil => exact ⟨rfl, rfl, rfl, ofKeys⟩
  | cons call rest inductionHypothesis =>
    have here := keyed call List.mem_cons_self
    obtain ⟨stillOfKeys, sameOptions, same, sessions⟩ := perform_recut tracks ofKeys bound' here
    obtain ⟨returned, runs, logs, ends⟩ := inductionHypothesis
      (perform_tracks tracks here.builtIn here.open_) stillOfKeys
      fun other member => keyed other (List.mem_cons_of_mem _ member)
    rw [sameOptions] at logs
    refine ⟨?_, ?_, ?_, ends⟩
    · rw [returns, returns, same, sessions, returned]
    · exact (congrArg (fun later : Session => later.run rest) sessions).trans runs
    · rw [logged, logged, sessions]
      refine Eq.trans ?_ logs
      exact congrArg (fun log => (Session.recut bits _).logged log rest)
        (log.noteResult_recut _ bits session.handles here same)

end Session

end Mmpack
