/-
This file is about the table of tuples. The builder keeps the slots of its tuples in
one vector, and a hash index of their ids that reads the slots through it: a
candidate is appended first, looked up by its id, and taken off again when the
index already has an equal one.

`internFlat` is that in the source's own steps, with the hash as a parameter, and
does what `internTuple` does for every hash. `TupleTable` is the invariant of the
table over any run, against a ledger of what the commits interned.
-/

import Mmpack.Numbering
import Mmpack.Handles
import Mmpack.Returning
import Mathlib.Data.List.Find

namespace Mmpack

open ByteList Numbering

namespace Builder

variable {builder later : Builder}

/-! ### The vector of slots -/

/-- The slots of a tuple. -/
def tupleAt (width : Nat) (words : List UInt64) (id : Nat) : List UInt64 :=
  slice words (id * width) width

/-- `tuple_count`. -/
def tupleCount (width : Nat) (words : List UInt64) : Nat :=
  if width = 0 then 0 else words.length / width

/-- Insert into the hash index: the id there is, unless it is new, the index after, and whether
the candidate went in. An id is found by an equal hash and an equal tuple. -/
def insertId (hash : List UInt64 → UInt64) (width : Nat) (words : List UInt64) (index : List Nat)
    (candidate : Nat) : Nat × List Nat × Bool :=
  match index.find? fun id =>
    decide (hash (tupleAt width words id) = hash (tupleAt width words candidate)) &&
      decide (tupleAt width words id = tupleAt width words candidate) with
  | some id => (id, index, false)
  | none => (candidate, index ++ [candidate], true)

/-- `intern_tuple` and `maybe_give_up_on_dedup` on the vector: the id, and the vector, the index and
the flag after. -/
def internFlat (hash : List UInt64 → UInt64) (builder : Builder) (words : List UInt64) :
    Nat × List UInt64 × List Nat × Bool :=
  let width := builder.slots.length
  let candidate := tupleCount width words
  let words := words ++ builder.slots
  if builder.dedupActive then
    match insertId hash width words builder.index candidate with
    | (id, index, false) => (id, words.take (words.length - width), index, true)
    | (_, index, true) =>
      if builder.count + 1 < builder.options.dedupSample.toNat then (candidate, words, index, true)
      else if builder.options.dedupKeeps (tupleCount width words) (builder.count + 1) then
        (candidate, words, index, true)
      else (candidate, words, [], false)
  else (candidate, words, builder.index, false)

variable {tuples : List (List UInt64)} {width : Nat}

theorem tupleCount_flatten (uniform : ∀ tuple ∈ tuples, tuple.length = width)
    (positive : 0 < width) : tupleCount width tuples.flatten = tuples.length := by
  rw [tupleCount, if_neg (Nat.ne_of_gt positive), flatten_length_of_uniform width uniform,
    Nat.mul_div_cancel _ positive]

theorem tupleAt_flatten (uniform : ∀ tuple ∈ tuples, tuple.length = width) {id : Nat}
    (inside : id < tuples.length) : tupleAt width tuples.flatten id = tuples[id] := by
  have stored := (holds_flatten tuples width id uniform inside).slice_eq
  rwa [uniform _ (List.getElem_mem inside)] at stored

/-- A lookup by hash and tuple is a lookup by tuple. -/
theorem insertId_flatten (hash : List UInt64 → UInt64) {slots : List UInt64}
    (uniform : ∀ tuple ∈ tuples, tuple.length = slots.length) {index : List Nat}
    (inside : ∀ id ∈ index, id < tuples.length) :
    insertId hash slots.length (tuples.flatten ++ slots) index tuples.length =
      match index.find? fun id => decide (tuples[id]? = some slots) with
      | some id => (id, index, false)
      | none => (tuples.length, index ++ [tuples.length], true) := by
  have grown : ∀ tuple ∈ tuples ++ [slots], tuple.length = slots.length := fun tuple member =>
    (List.mem_append.mp member).elim (uniform tuple) fun last =>
      congrArg List.length (List.mem_singleton.mp last)
  have words : tuples.flatten ++ slots = (tuples ++ [slots]).flatten := by simp
  have candidate : tupleAt slots.length (tuples.flatten ++ slots) tuples.length = slots := by
    rw [words, tupleAt_flatten grown (by simp)]
    simp
  have lookup : (index.find? fun id =>
      decide (hash (tupleAt slots.length (tuples.flatten ++ slots) id) = hash slots) &&
        decide (tupleAt slots.length (tuples.flatten ++ slots) id = slots)) =
      index.find? fun id => decide (tuples[id]? = some slots) := by
    refine List.find?_congr fun id member => ?_
    have bound := inside id member
    have old : tupleAt slots.length (tuples.flatten ++ slots) id = tuples[id] := by
      rw [words, tupleAt_flatten grown (by simp; omega), List.getElem_append_left bound]
    rw [old, List.getElem?_eq_getElem bound, ← Bool.decide_and]
    refine decide_eq_decide.mpr ⟨fun both => congrArg some both.2, fun same => ?_⟩
    have equal := Option.some.inj same
    exact ⟨congrArg hash equal, equal⟩
  unfold insertId
  rw [candidate, lookup]

/-! ### The invariant of the table -/

/-- What a commit that was not rejected interned. -/
structure Interning where
  /-- The record at hand. -/
  record : Committed
  /-- The id the record was staged with. -/
  tuple : Nat
  /-- The field slots at the time. -/
  values : List UInt64
  /-- Whether the staging took the record. -/
  staged : Bool

/-- The row a staging holds of it. -/
def Interning.row (entry : Interning) : StagedRow where
  partition := entry.record.partition
  address := entry.record.address
  addressBytes := entry.record.addressBytes
  tuple := entry.tuple

/-- The numbers that were given to tuples. -/
def numbering (ledger : List Interning) : List (Nat × List UInt64) :=
  ledger.map fun entry => (entry.tuple, entry.values)

structure TupleTable (builder : Builder) (ledger : List Interning) : Prop where
  found : ∀ entry ∈ ledger, entry.tuple < builder.tuples.length ∧
    builder.tuples[entry.tuple]? = some entry.values
  uniform : ∀ tuple ∈ builder.tuples, tuple.length = builder.slots.length
  index : builder.index =
    if builder.dedupActive then List.range builder.tuples.length else []
  nonempty : 0 < builder.slots.length
  numbered : builder.dedupActive = true → Numbered builder.tuples (numbering ledger)

variable {ledger : List Interning}

theorem TupleTable.inside (table : builder.TupleTable ledger) :
    ∀ id ∈ builder.index, id < builder.tuples.length := by
  rw [table.index]
  split
  · exact fun id member => List.mem_range.mp member
  · exact fun _ member => nomatch member

/-- Where the table and the index are left alone, so is the invariant. -/
theorem TupleTable.keep (table : builder.TupleTable ledger) (tuples : later.tuples = builder.tuples)
    (index : later.index = builder.index) (active : later.dedupActive = builder.dedupActive)
    (slots : later.slots.length = builder.slots.length) : later.TupleTable ledger where
  found := by rw [tuples]; exact table.found
  uniform := by rw [tuples, slots]; exact table.uniform
  index := by rw [tuples, index, active]; exact table.index
  nonempty := slots ▸ table.nonempty
  numbered := by rw [tuples, active]; exact table.numbered

/-! ### Interning a tuple -/

/-- While dedup is active a tuple is found in the index exactly if it is in the table. -/
theorem TupleTable.lookup (table : builder.TupleTable ledger)
    (active : builder.dedupActive = true) :
    (∃ id, (builder.index.find? fun id => decide (builder.tuples[id]? = some builder.slots)) =
        some id ∧ builder.tuples[id]? = some builder.slots) ∨
      (builder.index.find? fun id => decide (builder.tuples[id]? = some builder.slots)) = none ∧
        builder.slots ∉ builder.tuples := by
  cases found : builder.index.find? fun id => decide (builder.tuples[id]? = some builder.slots) with
  | some id => exact Or.inl ⟨id, rfl, by simpa using List.find?_some found⟩
  | none =>
    refine Or.inr ⟨rfl, fun member => ?_⟩
    obtain ⟨id, bound, same⟩ := List.getElem_of_mem member
    have indexed : id ∈ builder.index := by
      rw [table.index, if_pos active]
      exact List.mem_range.mpr bound
    have missed := List.find?_eq_none.mp found id indexed
    rw [List.getElem?_eq_getElem bound, same] at missed
    simp at missed

/-- Everything interning can do: find the tuple, append it and stay in step with the index, append
it and drop the index, or append it without one. -/
theorem internTuple_cases (table : builder.TupleTable ledger) :
    (builder.dedupActive = true ∧ ∃ id, builder.tuples[id]? = some builder.slots ∧
        builder.internTuple = (id, builder)) ∨
      (builder.dedupActive = true ∧ builder.slots ∉ builder.tuples ∧
        (builder.internTuple = (builder.tuples.length, { builder with
            tuples := builder.tuples ++ [builder.slots]
            index := builder.index ++ [builder.tuples.length] }) ∨
          builder.internTuple = (builder.tuples.length, { builder with
            tuples := builder.tuples ++ [builder.slots], index := [], dedupActive := false }))) ∨
      (builder.dedupActive = false ∧ builder.internTuple = (builder.tuples.length, { builder with
        tuples := builder.tuples ++ [builder.slots] })) := by
  unfold internTuple
  by_cases active : builder.dedupActive = true
  · rw [if_pos active]
    rcases table.lookup active with ⟨id, found, same⟩ | ⟨missed, new⟩
    · exact Or.inl ⟨active, id, same, by simp only [found]⟩
    · refine Or.inr (Or.inl ⟨active, new, ?_⟩)
      simp only [missed, maybeGiveUpOnDedup]
      split
      · exact Or.inl rfl
      · split
        · exact Or.inl rfl
        · exact Or.inr rfl
  · refine Or.inr (Or.inr ⟨by simpa using active, ?_⟩)
    rw [if_neg active]

/-- Appending a tuple keeps those that were found. -/
theorem TupleTable.found_append (table : builder.TupleTable ledger) (values : List UInt64)
    {new : Interning} (tuple : new.tuple = builder.tuples.length) (same : new.values = values) :
    ∀ entry ∈ ledger ++ [new], entry.tuple < (builder.tuples ++ [values]).length ∧
      (builder.tuples ++ [values])[entry.tuple]? = some entry.values := by
  intro entry member
  rw [List.length_append, List.length_singleton]
  rcases List.mem_append.mp member with old | last
  · obtain ⟨bound, found⟩ := table.found entry old
    exact ⟨by omega, by rw [List.getElem?_append_left bound, found]⟩
  · rw [List.mem_singleton.mp last, tuple, same]
    exact ⟨by omega, List.getElem?_concat_length⟩

theorem TupleTable.uniform_append (table : builder.TupleTable ledger) :
    ∀ tuple ∈ builder.tuples ++ [builder.slots], tuple.length = builder.slots.length := by
  intro tuple member
  rcases List.mem_append.mp member with old | last
  · exact table.uniform tuple old
  · rw [List.mem_singleton.mp last]

/-- Interning keeps the invariant, whether dedup goes on, is given up or was before. -/
theorem TupleTable.intern (table : builder.TupleTable ledger) {new : Interning}
    (tuple : new.tuple = builder.internTuple.1) (same : new.values = builder.slots) :
    builder.internTuple.2.TupleTable (ledger ++ [new]) := by
  have numberingEq : numbering (ledger ++ [new]) =
      numbering ledger ++ [(new.tuple, new.values)] := List.map_append
  rcases internTuple_cases table with ⟨active, id, found, equation⟩ | ⟨active, unseen, equation⟩ |
    ⟨inactive, equation⟩
  · rw [equation] at tuple ⊢
    refine ⟨fun entry member => ?_, table.uniform, table.index, table.nonempty, fun _ => ?_⟩
    · rcases List.mem_append.mp member with old | last
      · exact table.found entry old
      · rw [List.mem_singleton.mp last, tuple, same]
        exact ⟨(List.getElem?_eq_some_iff.mp found).1, found⟩
    · rw [numberingEq, tuple, same]
      exact (table.numbered active).again found
  · rcases equation with equation | equation
    · rw [equation] at tuple ⊢
      refine ⟨table.found_append _ tuple same, table.uniform_append, ?_, table.nonempty,
        fun _ => ?_⟩
      · simp only [active, if_true]
        rw [table.index, if_pos active, List.length_append, List.length_singleton,
          List.range_succ]
      · rw [numberingEq, tuple, same]
        exact (table.numbered active).fresh unseen
    · rw [equation] at tuple ⊢
      exact ⟨table.found_append _ tuple same, table.uniform_append, rfl, table.nonempty,
        fun on => nomatch on⟩
  · rw [equation] at tuple ⊢
    refine ⟨table.found_append _ tuple same, table.uniform_append, ?_, table.nonempty,
      fun on => ?_⟩
    · simp only [inactive]
      rw [table.index, inactive]
      rfl
    · rw [show builder.dedupActive = true from on] at inactive
      nomatch inactive

/-- For every hash, interning on the vector of slots is interning. -/
theorem TupleTable.internFlat_eq (table : builder.TupleTable ledger)
    (hash : List UInt64 → UInt64) :
    internFlat hash builder builder.tuples.flatten =
      (builder.internTuple.1, builder.internTuple.2.tuples.flatten,
        builder.internTuple.2.index, builder.internTuple.2.dedupActive) := by
  have positive := table.nonempty
  have grown : builder.tuples.flatten ++ builder.slots =
      (builder.tuples ++ [builder.slots]).flatten := by simp
  unfold internFlat internTuple
  simp only [tupleCount_flatten table.uniform positive]
  by_cases active : builder.dedupActive = true
  · rw [if_pos active, if_pos active, insertId_flatten hash table.uniform table.inside]
    rcases table.lookup active with ⟨id, found, -⟩ | ⟨missed, -⟩
    · simp only [found, List.length_append, Nat.add_sub_cancel, List.take_left, active]
    · simp only [missed, maybeGiveUpOnDedup]
      rw [grown, tupleCount_flatten table.uniform_append positive]
      split
      · rw [active]
      · split
        · rw [active]
        · rfl
  · have inactive : builder.dedupActive = false := by simpa using active
    rw [if_neg active, if_neg active, grown, inactive]

/-! ### What the calls do to the table -/

instance (builder : Builder) (rec : RecordRef) : Decidable (builder.Rejects rec) := by
  unfold Rejects
  infer_instance

/-- What a commit interns. -/
def interning (builder : Builder) (rec : RecordRef) : Interning where
  record := builder.atHand rec
  tuple := builder.internTuple.1
  values := builder.slots
  staged := (builder.commit rec).1.isOk

theorem stage_frame (builder : Builder) (rec : RecordRef) (tuple : Nat) :
    ∃ staging lastWide, (builder.stage rec tuple).2 = { builder with staging, lastWide } := by
  unfold stage
  split
  · unfold pushWide
    split
    · split
      · exact ⟨_, _, rfl⟩
      · split <;> exact ⟨_, _, rfl⟩
    · exact ⟨_, _, rfl⟩
  · unfold pushNarrow
    split
    · split <;> exact ⟨_, _, rfl⟩
    · exact ⟨_, _, rfl⟩

theorem commit_rejected {rec : RecordRef} (rejects : builder.Rejects rec) :
    ∃ error, builder.commit rec = (.error error, builder) := by
  unfold commit
  by_cases finished : builder.finished = true
  · exact ⟨_, if_pos finished⟩
  · rw [if_neg finished]
    exact ⟨_, if_pos (rejects.resolve_left finished)⟩

/-- A commit that is not rejected interns the slots, and goes on to the staging. -/
theorem commit_interns {rec : RecordRef} (accepts : ¬ builder.Rejects rec) :
    builder.commit rec =
      andThen (builder.internTuple.2.stage rec builder.internTuple.1) fun _ builder =>
        (.ok (), { builder with
          lastPartition := rec.partition
          lastAddress := rec.address
          count := builder.count + 1 }) := by
  unfold commit
  rw [if_neg fun finished => accepts (Or.inl finished),
    if_neg fun disordered => accepts (Or.inr disordered)]

/-- The table after a commit is the one interning leaves, whether or not the staging throws. -/
theorem TupleTable.commit (table : builder.TupleTable ledger) {rec : RecordRef}
    (accepts : ¬ builder.Rejects rec) :
    (builder.commit rec).2.TupleTable (ledger ++ [builder.interning rec]) := by
  have interned : builder.internTuple.2.TupleTable (ledger ++ [builder.interning rec]) :=
    table.intern rfl rfl
  obtain ⟨staging, lastWide, staged⟩ := stage_frame builder.internTuple.2 rec builder.internTuple.1
  rw [commit_interns accepts]
  generalize builder.internTuple.2.stage rec builder.internTuple.1 = outcome at staged
  obtain ⟨result, after⟩ := outcome
  cases result <;>
  · simp only [andThen]
    simp only at staged
    rw [staged]
    exact interned.keep rfl rfl rfl rfl

/-- A commit that returns hands the staging the record with the id it interned. -/
theorem interning_handed {rec : RecordRef}
    (nonempty : builder.blob.isSome = true → builder.pendingAddress ≠ [])
    (returned : (builder.commit rec).1 = .ok ()) :
    ¬ builder.Rejects rec ∧ ∃ owned after, builder.staging = some owned ∧
      (builder.commit rec).2.staging = some { owned with staging := after } ∧
      Hands owned.staging (builder.interning rec).record (builder.interning rec).tuple after := by
  have accepts : ¬ builder.Rejects rec := fun rejects => by
    obtain ⟨error, thrown⟩ := commit_rejected rejects
    rw [thrown] at returned
    cases returned
  refine ⟨accepts, ?_⟩
  obtain ⟨tuple, tuples, index, dedupActive, interned, -, -⟩ := internTuple_eq builder
  rw [commit_interns accepts] at returned ⊢
  simp only [interning]
  rw [interned] at returned ⊢
  rcases @stage_hands { builder with tuples, index, dedupActive } rec tuple nonempty with
    ⟨error, equation⟩ | ⟨owned, after, lastWide, owns, hands, equation⟩
  · simp only [equation, andThen] at returned
    cases returned
  · simp only [equation, andThen]
    exact ⟨owned, after, owns, rfl, hands⟩

theorem set_slots_length (builder : Builder) (id : Nat) (value : FieldValue) :
    (builder.set id value).2.slots.length = builder.slots.length := by
  have field (kind : FieldKind) (wrongKind : List UInt8 → BuildError)
      (set : FieldDecl → Outcome Unit)
      (same : ∀ decl, (set decl).2.slots.length = builder.slots.length) :
      (builder.withField id kind wrongKind set).2.slots.length = builder.slots.length := by
    rcases withField_eq builder id kind wrongKind set with ⟨error, equation⟩ | ⟨decl, -, -,
      equation⟩
    · rw [equation]
    · rw [equation]
      exact same decl
  cases value with
  | uint v | sint v | f32 v | f64 v => exact field _ _ _ fun _ => List.length_set
  | text v =>
    refine field _ _ _ fun _ => ?_
    split
    · rfl
    · exact List.length_set
  | bytes v =>
    refine field _ _ _ fun _ => ?_
    split
    · rfl
    · exact List.length_set

/-- `finish` keeps the rows, in whatever order. -/
theorem finish_perm (sound : builder.Sound) :
    (finish builder).builder.rows.Perm builder.rows := by
  by_cases finished : builder.finished = true
  · rw [finish, if_pos finished]
  · obtain ⟨owned, nextObject, owns, equation⟩ := finish_eq (by simpa using finished)
    obtain ⟨view, -, sorts⟩ := finish_staging sound owns
    obtain ⟨staging, after, either⟩ := finishOwned_builder
      { builder with staging := some owned, finished := true, nextObject } owned
    rw [equation, after]
    change staging.view.Perm builder.rows
    rcases either with rfl | rfl
    · rw [view]
    · rw [sorts]
      exact StagedRow.sortRows_perm _

/-- What a report says of the table. -/
theorem finish_distinct {report : BuildReport} (returned : (finish builder).outcome = .ok report) :
    report.distinctValues = builder.tuples.length ∧
      report.dedupAbandoned = !builder.dedupActive := by
  by_cases finished : builder.finished = true
  · rw [finish, if_pos finished] at returned
    cases returned
  · obtain ⟨owned, nextObject, -, equation⟩ := finish_eq (by simpa using finished)
    rw [equation] at returned
    obtain ⟨flag, partitions, -, same, -, -, -, rfl, -⟩ := finishOwned_spec returned
    rw [same]
    exact ⟨rfl, rfl⟩

end Builder

/-! ### Whole runs -/

namespace Session

open Builder

variable {schema : SchemaBuilder} {options : BuildOptions} {session : Session} {log : Log}
  {ledger : List Interning}

/-- What a call interns: nothing, unless it is a commit that is not rejected. -/
def interns (session : Session) : Call → List Interning
  | .commit handle =>
    match session.handles[handle]? with
    | some rec =>
      if session.builder.Rejects rec then [] else [session.builder.interning rec]
    | none => []
  | .beginRecord _ | .beginRecordAt _ _ | .beginRecordAtBytes _ _ | .set _ _ _ | .setStaging _
  | .finish => []

/-- What the calls of a session intern, in order. -/
def interned (session : Session) : List Call → List Interning
  | [] => []
  | call :: rest => session.interns call ++ (session.perform call).2.interned rest

theorem interns_begins {call : Call} {wanted : KeyMode} {pending : List UInt8} {rec : RecordRef}
    (begins : beginsOf session.builder.options.addressBits call = some (wanted, pending, rec)) :
    session.interns call = [] := by
  cases call with
  | beginRecord | beginRecordAt | beginRecordAtBytes => rfl
  | set | commit | setStaging | finish => cases begins

theorem TupleTable.performBegins (table : session.builder.TupleTable ledger) {call : Call}
    {wanted : KeyMode} {pending : List UInt8} {rec : RecordRef}
    (begins : beginsOf session.builder.options.addressBits call = some (wanted, pending, rec)) :
    (session.perform call).2.builder.TupleTable (ledger ++ session.interns call) := by
  obtain ⟨outcome, equation, comes⟩ := perform_begins begins
  rw [interns_begins begins, List.append_nil, equation, keep_builder]
  cases comes with
  | refused error => exact table
  | mismatched error entered enters =>
    obtain ⟨staging, nextObject, rfl⟩ := enters.fields
    exact table.keep rfl rfl rfl rfl
  | begun entered enters =>
    obtain ⟨staging, nextObject, rfl⟩ := enters.fields
    exact table.keep rfl rfl rfl (List.length_map _)

/-- Every call keeps the table in step with the ledger. -/
theorem perform_table (table : session.builder.TupleTable ledger) (call : Call) :
    (session.perform call).2.builder.TupleTable (ledger ++ session.interns call) := by
  cases call with
  | beginRecord | beginRecordAt | beginRecordAtBytes => exact TupleTable.performBegins table rfl
  | set handle id value =>
    rw [interns, List.append_nil, perform]
    split
    · obtain ⟨slots, stats, textDicts, equation⟩ := set_frame session.builder id value
      have length := set_slots_length session.builder id value
      rw [equation] at length
      rw [after, equation]
      exact table.keep rfl rfl rfl length
    · exact table
  | commit handle =>
    rw [interns, perform]
    cases session.handles[handle]? with
    | none => rwa [List.append_nil]
    | some rec =>
      by_cases rejects : session.builder.Rejects rec
      · obtain ⟨error, thrown⟩ := commit_rejected rejects
        simp only [if_pos rejects, List.append_nil, after, thrown]
        exact table
      · simp only [if_neg rejects, after]
        exact table.commit rejects
  | setStaging staging =>
    rw [interns, List.append_nil, perform, after, setStaging]
    split
    · split
      · exact table
      · exact table.keep rfl rfl rfl rfl
    · exact table.keep rfl rfl rfl rfl
  | finish =>
    rw [interns, List.append_nil, perform]
    obtain ⟨staging, nextObject, equation⟩ := finish_builder session.builder
    simp only [equation]
    exact table.keep rfl rfl rfl rfl

theorem run_table (table : session.builder.TupleTable ledger) (calls : List Call) :
    (session.run calls).builder.TupleTable (ledger ++ session.interned calls) := by
  induction calls generalizing session ledger with
  | nil => rwa [interned, List.append_nil]
  | cons call rest inductionHypothesis =>
    rw [interned, ← List.append_assoc]
    exact inductionHypothesis (perform_table table call)

theorem start_table {builder : Builder} (made : Builder.make schema options = .ok builder) :
    (start builder).builder.TupleTable [] := by
  obtain ⟨fields, -, rfl⟩ := make_blank made
  exact
    { found := fun _ member => by cases member
      uniform := fun _ member => by cases member
      index := rfl
      nonempty := by
        rw [start, blank, List.length_replicate]
        exact List.length_pos_iff.mpr fields
      numbered := fun _ => numbered_nil }

/-! ### What is staged -/

theorem perform_begins_rows {call : Call} {wanted : KeyMode} {pending : List UInt8}
    {rec : RecordRef}
    (begins : beginsOf session.builder.options.addressBits call = some (wanted, pending, rec)) :
    (session.perform call).2.builder.rows = session.builder.rows := by
  obtain ⟨outcome, equation, comes⟩ := perform_begins begins
  rw [equation, keep_builder]
  cases comes with
  | refused error => rfl
  | mismatched error entered enters => exact enters.rows
  | begun entered enters => exact enters.rows

/-- With the built-in staging, what a call interns is what it stages. -/
theorem perform_staged
    (tracks : session.builder.finished = true ∨ Tracks schema options session log) {call : Call}
    (builtIn : call.BuiltIn) :
    (session.perform call).2.builder.rows.Perm
        (session.builder.rows ++ (session.interns call).map Interning.row) ∧
      ∀ entry ∈ session.interns call, entry.staged = true := by
  have quiet {later : Builder} (rows : later.rows.Perm session.builder.rows) :
      later.rows.Perm (session.builder.rows ++ ([] : List Interning).map Interning.row) ∧
        ∀ entry ∈ ([] : List Interning), entry.staged = true :=
    ⟨by rwa [List.map_nil, List.append_nil], fun _ member => nomatch member⟩
  cases call with
  | setStaging staging => exact builtIn.elim
  | beginRecord | beginRecordAt | beginRecordAtBytes =>
    rw [interns_begins rfl]
    exact quiet (List.Perm.of_eq (perform_begins_rows rfl))
  | set handle id value =>
    rw [interns, perform]
    split
    · obtain ⟨slots, stats, textDicts, equation⟩ := set_frame session.builder id value
      rw [after, equation]
      exact quiet (List.Perm.refl _)
    · exact quiet (List.Perm.refl _)
  | commit handle =>
    rw [interns, perform]
    cases given : session.handles[handle]? with
    | none => exact quiet (List.Perm.refl _)
    | some rec =>
      by_cases rejects : session.builder.Rejects rec
      · obtain ⟨error, thrown⟩ := commit_rejected rejects
        simp only [if_pos rejects, after, thrown]
        exact quiet (List.Perm.refl _)
      · have tracks := tracks.resolve_left fun finished => rejects (Or.inl finished)
        rcases commit_eq tracks.sound tracks.narrow
          (tracks.handles rec (List.mem_of_getElem? given)) with ⟨rejected, -⟩ |
          ⟨-, staging, equation, commits⟩
        · exact absurd rejected rejects
        · simp only [if_neg rejects, after, equation]
          rw [commits.rows]
          refine ⟨List.Perm.of_eq ?_, fun entry member => ?_⟩
          · have bytes : (if session.builder.blob.isSome then session.builder.pendingAddress
                else []) = session.builder.pendingAddress := by
              split
              · rfl
              · rename_i narrow
                exact (tracks.narrow fun wide => narrow (tracks.sound.wide_iff.mpr wide)).symm
            rw [List.map_singleton, Interning.row, interning, atHand, bytes]
          · rw [List.mem_singleton.mp member, interning, equation]
            rfl
  | finish =>
    rw [interns, perform]
    rcases tracks with finished | tracks
    · exact quiet (by rw [Mmpack.finish, if_pos finished])
    · exact quiet (finish_perm tracks.sound)

theorem run_staged (calls : List Call) (builtIn : ∀ call ∈ calls, call.BuiltIn)
    (tracks : session.builder.finished = true ∨ Tracks schema options session log) :
    (session.run calls).builder.rows.Perm
        (session.builder.rows ++ (session.interned calls).map Interning.row) ∧
      ∀ entry ∈ session.interned calls, entry.staged = true := by
  induction calls generalizing session log with
  | nil =>
    rw [interned, List.map_nil, List.append_nil]
    exact ⟨List.Perm.refl _, fun _ member => nomatch member⟩
  | cons call rest inductionHypothesis =>
    have here := builtIn call List.mem_cons_self
    obtain ⟨rows, staged⟩ := perform_staged tracks here
    obtain ⟨later, stagedLater⟩ := inductionHypothesis
      (fun other member => builtIn other (List.mem_cons_of_mem _ member))
      (run_tracks [call] (fun other member => List.mem_singleton.mp member ▸ here) tracks)
    rw [interned, List.map_append, ← List.append_assoc]
    exact ⟨later.trans (rows.append_right _), fun entry member =>
      (List.mem_append.mp member).elim (staged entry) (stagedLater entry)⟩

/-! ### Tuples and the commits that interned them -/

theorem run_drafts {drafts : List Committed} (holds : session.Drafts drafts) (calls : List Call) :
    ∃ drafts, (session.run calls).Drafts drafts := by
  induction calls generalizing session drafts with
  | nil => exact ⟨drafts, holds⟩
  | cons call rest inductionHypothesis => exact inductionHypothesis (perform_drafts holds call)

/-- A commit that returns interned the slots, and handed the staging its record under their id. -/
def StagesInterned (session : Session) (handle : Nat) : Prop :=
  ∃ entry owned after, session.interns (.commit handle) = [entry] ∧
    entry.values = session.builder.slots ∧ session.builder.staging = some owned ∧
    (session.perform (.commit handle)).2.builder.staging =
      some { owned with staging := after } ∧
    Hands owned.staging entry.record entry.tuple after

theorem commit_stagesInterned {drafts : List Committed} (holds : session.Drafts drafts)
    {handle : Nat} {rec : RecordRef} (given : session.handles[handle]? = some rec)
    (returned : (session.perform (.commit handle)).1 = .ok ()) :
    session.StagesInterned handle := by
  have some : drafts ≠ [] := by
    rintro rfl
    rw [holds.parts] at given
    nomatch given
  simp only [perform, given, after] at returned
  obtain ⟨accepts, owned, staging, owns, handed, hands⟩ :=
    interning_handed (fun isSome => holds.pending (holds.blob isSome) some) returned
  refine ⟨session.builder.interning rec, owned, staging, ?_, rfl, owns, ?_, hands⟩
  · simp only [interns, given, if_neg accepts]
  · simp only [perform, given, after]
    exact handed

/-- After any calls, whenever dedup is given up and whatever the hash: every id a commit was given
is in the table and holds the slots of that commit; while dedup is active the table is what the
commits interned, each tuple once and in the order they first appeared, and the index is its ids;
and a report that dedup was not abandoned counts the distinct tuples. -/
theorem tuples_in_step {builder : Builder} (made : Builder.make schema options = .ok builder)
    (calls : List Call) :
    let session := (start builder).run calls
    let table := session.builder.tuples
    let ledger := (start builder).interned calls
    (∀ entry ∈ ledger, entry.tuple < table.length ∧ table[entry.tuple]? = some entry.values) ∧
    (session.builder.dedupActive = true → table.Nodup ∧
      session.builder.index = List.range table.length ∧
      table = firstSeen (ledger.map Interning.values) ∧
      ∀ entry ∈ ledger, entry.tuple = table.idxOf entry.values) ∧
    (∀ report, (finish session.builder).outcome = .ok report → report.dedupAbandoned = false →
      report.distinctValues = (ledger.map Interning.values).toFinset.card) ∧
    (∀ handle rec, session.handles[handle]? = some rec →
      (session.perform (.commit handle)).1 = .ok () → session.StagesInterned handle) ∧
    ((∀ call ∈ calls, call.BuiltIn) → session.builder.rows.Perm (ledger.map Interning.row) ∧
      ∀ entry ∈ ledger, entry.staged = true) ∧
    ∀ hash, internFlat hash session.builder table.flatten =
      (session.builder.internTuple.1, session.builder.internTuple.2.tuples.flatten,
        session.builder.internTuple.2.index, session.builder.internTuple.2.dedupActive) := by
  intro session table ledger
  have holds : session.builder.TupleTable ledger := run_table (start_table made) calls
  have values : (numbering ledger).map Prod.snd = ledger.map Interning.values := by
    rw [numbering, List.map_map]
    rfl
  refine ⟨holds.found, fun active => ?_, fun report returned kept => ?_,
    fun handle rec given returned => ?_, fun builtIn => ?_, holds.internFlat_eq⟩
  · have numbered := holds.numbered active
    refine ⟨numbered.nodup, ?_, values ▸ numbered.seen, fun entry member => ?_⟩
    · rw [holds.index, if_pos active]
    · exact numbered.numbers (entry.tuple, entry.values) (List.mem_map_of_mem member)
  · obtain ⟨distinct, abandoned⟩ := finish_distinct returned
    have active : session.builder.dedupActive = true := by
      rw [kept] at abandoned
      simpa using abandoned.symm
    rw [distinct, (holds.numbered active).length, values]
  · obtain ⟨drafts, running⟩ := run_drafts (start_drafts made) calls
    exact commit_stagesInterned running given returned
  · have staged := run_staged calls builtIn (Or.inr (start_tracks made))
    have none : (start builder).builder.rows = [] := (make_eq made).2.2.2.1
    rwa [none, List.nil_append] at staged

/-- Three records, the first and the last with equal slots. -/
def repeated : List Call :=
  [.beginRecord 1, .set 0 0 (.uint 7), .commit 0, .beginRecord 2, .set 1 0 (.uint 8), .commit 1,
    .beginRecord 3, .set 2 0 (.uint 7), .commit 2]

theorem repeated_in_step : ∃ builder, Builder.make flagSchema .default = .ok builder ∧
    ((start builder).interned repeated).map Interning.tuple = [0, 1, 0] ∧
    ((start builder).run repeated).builder.index = [0, 1] ∧
    ((start builder).run repeated).builder.tuples.Nodup := by
  obtain ⟨builder, made⟩ := exists_fresh
  refine ⟨builder, made, ?_, ?_, ((tuples_in_step made repeated).2.1 ?_).1⟩ <;>
    obtain rfl := Except.ok.inj made
  · rfl
  · rfl
  · rfl

end Session

end Mmpack
