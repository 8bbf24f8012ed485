/-
This file is about callers that give whole records, one after the other: a key, the
values of its fields, and the commit. It says which of these calls return. Where the
values suit their fields and the texts of each come to less than 4 GiB, nothing is
thrown but for a key out of order; and when nothing is thrown, the image opens as a
table that serves the records by their keys.
-/

import Mmpack.Arrival
import Mmpack.Costs
import Mmpack.Grain
import Mmpack.Keyed

namespace Mmpack

open ByteList Checked Cursor SortedMap

/-! ### Callers -/

/-- The record as a build notes it. -/
def KeyedRecord.committed (bits : Nat) (record : KeyedRecord UInt64) : Committed where
  partition := partitionOf bits record.key
  address := addressOf bits record.key
  addressBytes := []
  sets := record.sets

theorem KeyedRecord.place_committed (bits : Nat) (record : KeyedRecord UInt64) :
    (record.committed bits).place = keyPlace bits record.key := Committed.place_of_integer _ rfl

/-- The log once the record is committed. -/
def Log.taking (log : Log) (bits : Nat) (record : KeyedRecord UInt64) : Log where
  pending := []
  sets := record.sets
  observed := log.observed ++ record.sets
  committed := log.committed ++ [record.committed bits]

/-- The places of the records committed so far, and of some that follow. -/
def Log.upTo (log : Log) (bits : Nat) (records : List (KeyedRecord UInt64)) : List (ℕ ×ₗ ℕ) :=
  log.committed.map Committed.place ++ records.map fun record => keyPlace bits record.key

theorem Log.upTo_nil (log : Log) (bits : Nat) :
    log.upTo bits [] = log.committed.map Committed.place := List.append_nil _

theorem Log.upTo_cons (log : Log) (bits : Nat) (record : KeyedRecord UInt64)
    (rest : List (KeyedRecord UInt64)) :
    log.upTo bits (record :: rest) = (log.taking bits record).upTo bits rest := by
  rw [upTo, upTo, taking, List.map_append, List.map_singleton, record.place_committed,
    List.map_cons, List.append_assoc, List.singleton_append]

namespace Builder

/-- Set fields, up to the first call that throws. -/
def setEach : List (Nat × FieldValue) → Builder → Outcome Unit
  | [], builder => (.ok (), builder)
  | set :: rest, builder =>
    andThen (builder.set set.1 set.2) fun _ builder => setEach rest builder

/-- Begin a record, set its fields and commit it. -/
def addRecord (record : KeyedRecord UInt64) (builder : Builder) : Outcome Unit :=
  andThen (builder.beginRecord record.key) fun rec builder =>
    andThen (setEach record.sets builder) fun _ builder => builder.commit rec

def addRecords : List (KeyedRecord UInt64) → Builder → Outcome Unit
  | [], builder => (.ok (), builder)
  | record :: rest, builder =>
    andThen (addRecord record builder) fun _ builder => addRecords rest builder

end Builder

/-- The calls for a record, through the handle that is given out for it. -/
def KeyedRecord.calls (record : KeyedRecord UInt64) (handle : Nat) : List Call :=
  .beginRecord record.key ::
    (record.sets.map (fun set => Call.set handle set.1 set.2) ++ [.commit handle])

def recordCalls (handle : Nat) : List (KeyedRecord UInt64) → List Call
  | [] => []
  | record :: rest => record.calls handle ++ recordCalls (handle + 1) rest

theorem mem_recordCalls {handle : Nat} {records : List (KeyedRecord UInt64)} {call : Call}
    (member : call ∈ recordCalls handle records) : call.Keyed := by
  induction records generalizing handle with
  | nil => cases member
  | cons record rest inductionHypothesis =>
    rcases List.mem_append.mp member with here | later
    · rcases List.mem_cons.mp here with rfl | here
      · exact True.intro
      · rcases List.mem_append.mp here with sets | commits
        · obtain ⟨set, -, rfl⟩ := List.mem_map.mp sets
          exact True.intro
        · rw [List.mem_singleton.mp commits]
          exact True.intro
    · exact inductionHypothesis later

/-! ### Calls that return -/

namespace Session

open Builder

/-- Some calls all return, and lead to a session and a log. -/
structure Reaches (session : Session) (log : Log) (calls : List Call) (later : Session)
    (log' : Log) : Prop where
  run : session.run calls = later
  logged : session.logged log calls = log'

variable {schema : SchemaBuilder} {options : BuildOptions} {fresh : Builder}
  {session later last : Session} {log log' log'' : Log} {calls rest : List Call}

theorem Reaches.refl (session : Session) (log : Log) : session.Reaches log [] session log :=
  ⟨rfl, rfl⟩

theorem Reaches.cons {call : Call} (performed : session.perform call = (.ok (), later))
    (reaches : later.Reaches (log.note session.handles call) rest last log') :
    session.Reaches log (call :: rest) last log' := by
  refine ⟨?_, ?_⟩
  · rw [← reaches.run, Session.run, List.foldl_cons, performed]
    rfl
  · rw [← reaches.logged, Session.logged, performed]
    rfl

theorem Reaches.append (reaches : session.Reaches log calls later log')
    (reaches' : later.Reaches log' rest last log'') :
    session.Reaches log (calls ++ rest) last log'' := by
  obtain ⟨rfl, rfl⟩ := reaches
  obtain ⟨rfl, rfl⟩ := reaches'
  refine ⟨List.foldl_append, ?_⟩
  induction calls generalizing session log with
  | nil => rfl
  | cons call calls inductionHypothesis => exact inductionHypothesis

theorem Reaches.one {call : Call} (performed : session.perform call = (.ok (), later)) :
    session.Reaches log [call] later (log.note session.handles call) :=
  .cons performed (.refl _ _)

/-- What went before a call that returned, returned. -/
theorem andThen_ok_iff {Result Next : Type} {outcome : Outcome Result}
    {next : Result → Builder → Outcome Next} {value : Next} :
    (andThen outcome next).1 = .ok value ↔
      ∃ result, outcome.1 = .ok result ∧ (next result outcome.2).1 = .ok value := by
  obtain ⟨result, builder⟩ := outcome
  cases result with
  | ok result =>
    refine ⟨fun returned => ⟨result, rfl, returned⟩, ?_⟩
    rintro ⟨other, same, returned⟩
    cases same
    exact returned
  | error error =>
    refine ⟨fun returned => ?_, ?_⟩
    · cases returned
    · rintro ⟨other, same, -⟩
      cases same

theorem andThen_of_ok {Result Next : Type} {outcome : Outcome Result}
    {next : Result → Builder → Outcome Next} {result : Result} (returned : outcome.1 = .ok result) :
    andThen outcome next = next result outcome.2 := by
  obtain ⟨first, builder⟩ := outcome
  cases returned
  rfl

theorem andThen_of_error {Result Next : Type} {outcome : Outcome Result}
    {next : Result → Builder → Outcome Next} {error : BuildError}
    (thrown : outcome.1 = .error error) : andThen outcome next = (.error error, outcome.2) := by
  obtain ⟨first, builder⟩ := outcome
  cases thrown
  rfl

/-- The session and the log that fields are set in. -/
theorem setEach_reaches {handle : Nat} {rec : RecordRef}
    (given : session.handles[handle]? = some rec)
    {sets : List (Nat × FieldValue)} (returned : (setEach sets session.builder).1 = .ok ()) :
    session.Reaches log (sets.map fun set => .set handle set.1 set.2)
      { session with builder := (setEach sets session.builder).2 }
      { log with sets := log.sets ++ sets, observed := log.observed ++ sets } := by
  induction sets generalizing session log with
  | nil =>
    refine ⟨rfl, ?_⟩
    rw [List.append_nil, List.append_nil]
    rfl
  | cons set rest inductionHypothesis =>
    rw [setEach] at returned ⊢
    obtain ⟨⟨⟩, here, others⟩ := andThen_ok_iff.mp returned
    have performed : session.perform (.set handle set.1 set.2) =
        (.ok (), { session with builder := (session.builder.set set.1 set.2).2 }) := by
      simp only [perform, given, after, here]
    rw [andThen_of_ok here]
    refine .cons performed ?_
    have reaches := @inductionHypothesis
      { session with builder := (session.builder.set set.1 set.2).2 }
      (log.note session.handles (.set handle set.1 set.2)) given others
    simp only [Log.note, given, List.append_assoc, List.singleton_append] at reaches ⊢
    exact reaches

theorem beginRecord_ok {builder begun : Builder} {key : UInt64} {rec : RecordRef}
    (returned : builder.beginRecord key = (.ok rec, begun)) :
    rec = .ofKey builder.options.addressBits key := by
  have begins := builder.beginRecord_beginsAs key
  rw [returned] at begins
  cases begins
  rfl

/-- A record that is added without a throw is committed under its key. -/
theorem addRecord_reaches {record : KeyedRecord UInt64}
    (returned : (addRecord record session.builder).1 = .ok ()) :
    session.Reaches log (record.calls session.handles.length)
      { builder := (addRecord record session.builder).2
        handles := session.handles ++ [.ofKey session.builder.options.addressBits record.key] }
      (log.taking session.builder.options.addressBits record) := by
  rw [addRecord] at returned ⊢
  obtain ⟨rec, began, others⟩ := andThen_ok_iff.mp returned
  obtain ⟨⟨⟩, set, commits⟩ := andThen_ok_iff.mp others
  obtain ⟨begun, equation⟩ : ∃ begun, session.builder.beginRecord record.key = (.ok rec, begun) :=
    ⟨_, Prod.ext began rfl⟩
  obtain rfl := beginRecord_ok equation
  rw [equation] at set commits ⊢
  rw [andThen_of_ok rfl, andThen_of_ok set]
  generalize handed : RecordRef.ofKey session.builder.options.addressBits record.key = rec at *
  have given : (session.handles ++ [rec])[session.handles.length]? = some rec :=
    List.getElem?_concat_length
  have performed : session.perform (.beginRecord record.key) =
      (.ok (), { builder := begun, handles := session.handles ++ [rec] }) := by
    rw [perform, equation]
    rfl
  have reaches := @setEach_reaches { builder := begun, handles := session.handles ++ [rec] }
    (log.note session.handles (.beginRecord record.key)) _ _ given _ set
  refine .cons performed (reaches.append ?_)
  have committed : ({ builder := (setEach record.sets begun).2
                      handles := session.handles ++ [rec] } : Session).perform
        (.commit session.handles.length) =
      (.ok (), { builder := ((setEach record.sets begun).2.commit rec).2
                 handles := session.handles ++ [rec] }) := by
    simp only [perform, given, after, commits]
  let noting : Log :=
    { pending := [], sets := record.sets, observed := log.observed ++ record.sets,
      committed := log.committed }
  have noted : noting.note (session.handles ++ [rec]) (.commit session.handles.length) =
      { noting with committed := log.committed ++
          [record.committed session.builder.options.addressBits] } := by
    simp only [Log.note, given]
    rw [← handed]
    rfl
  have one := @Reaches.one _ _ noting _ committed
  rw [noted] at one
  exact one

end Session

/-! ### Room for texts -/

/-- A field takes the values of its kind, and bytes of its width. -/
def FieldDecl.Takes (decl : FieldDecl) : Builder.FieldValue → Prop
  | .uint _ => decl.kind = .uint
  | .sint _ => decl.kind = .sint
  | .f32 _ => decl.kind = .f32
  | .f64 _ => decl.kind = .f64
  | .text _ => decl.kind = .text
  | .bytes value => decl.kind = .bytes ∧ value.length = decl.fixedWidth

/-- The bytes of the text a field is set to. -/
def Builder.FieldValue.textLength : Builder.FieldValue → Nat
  | .text value => value.length
  | _ => 0

/-- The bytes of all the texts a field was set to. -/
def textBytes (sets : List (Nat × Builder.FieldValue)) (id : Nat) : Nat :=
  (sets.map fun set => if set.1 = id then set.2.textLength else 0).sum

theorem textBytes_append (first second : List (Nat × Builder.FieldValue)) (id : Nat) :
    textBytes (first ++ second) id = textBytes first id + textBytes second id := by
  rw [textBytes, List.map_append, List.sum_append]
  rfl

theorem textBytes_singleton (set : Nat × Builder.FieldValue) (id : Nat) :
    textBytes [set] id = if set.1 = id then set.2.textLength else 0 := Nat.add_zero _

namespace Builder

variable {builder : Builder}

theorem intern_blobSize {dict grown : BlobDictionaryBuilder} {text : List UInt8} {entry : Nat}
    (interned : dict.intern text = .ok (grown, entry)) :
    grown.blobSize ≤ dict.blobSize + text.length := by
  rcases dict.intern_cases text with ⟨id, -, answer⟩ | ⟨-, -, other, order, answer⟩ |
    ⟨-, -, answer⟩ <;> rw [answer] at interned
  · obtain ⟨rfl, -⟩ := Prod.mk.inj (Except.ok.inj interned)
    exact Nat.le_add_right _ _
  · obtain ⟨rfl, -⟩ := Prod.mk.inj (Except.ok.inj interned)
    rw [other.blobSize_eq, order, dict.blobSize_eq, List.map_append, List.sum_append,
      List.map_singleton, List.sum_singleton]
  · cases interned

/-- Text fields have dictionaries of their own. -/
theorem textSlot_injective {schema : SchemaBuilder} {first second : Nat} {decl decl' : FieldDecl}
    (declared : schema.fields[first]? = some decl) (declared' : schema.fields[second]? = some decl')
    (isText : decl.kind = .text) (isText' : decl'.kind = .text)
    (same : textSlot schema first = textSlot schema second) : first = second := by
  have later {first second : Nat} {decl : FieldDecl}
      (declared : schema.fields[first]? = some decl) (isText : decl.kind = .text)
      (less : first < second) : textSlot schema first < textSlot schema second := by
    have counted : textSlot schema (first + 1) = textSlot schema first + 1 := by
      rw [textSlot, textSlot, List.take_add_one, declared, Option.toList_some, List.countP_append,
        List.countP_singleton, if_pos (decide_eq_true isText)]
    have more : textSlot schema (first + 1) ≤ textSlot schema second := by
      unfold textSlot
      exact (List.take_prefix_take_left less).sublist.countP_le
    omega
  rcases Nat.lt_trichotomy first second with less | equal | less
  · exact absurd same (Nat.ne_of_lt (later declared isText less))
  · exact equal
  · exact absurd same.symm (Nat.ne_of_lt (later declared' isText' less))

/-- A setter adds its text to the dictionary of its field at most. -/
theorem set_blobSize (sound : builder.Sound) (set : Nat × FieldValue) {i : Nat} {decl : FieldDecl}
    (declared : builder.schema.fields[i]? = some decl) (isText : decl.kind = .text) :
    ((builder.set set.1 set.2).2.dictOf i).blobSize ≤
      (builder.dictOf i).blobSize + textBytes [set] i := by
  obtain ⟨id, value⟩ := set
  rw [textBytes_singleton]
  have field {kind : FieldKind} {wrongKind : List UInt8 → BuildError}
      {set : FieldDecl → Outcome Unit} (bytes : Nat)
      (sets : ∀ decl', builder.schema.fields[id]? = some decl' → decl'.kind = kind →
        ((set decl').2.dictOf i).blobSize ≤ (builder.dictOf i).blobSize + bytes) :
      ((builder.withField id kind wrongKind set).2.dictOf i).blobSize ≤
        (builder.dictOf i).blobSize + bytes := by
    rcases withField_eq builder id kind wrongKind set with ⟨error, equation⟩ | ⟨decl', declared',
      same, equation⟩
    · rw [equation]
      exact Nat.le_add_right _ _
    · rw [equation]
      exact sets decl' declared' same
  cases value with
  | uint | sint | f32 | f64 => exact field _ fun decl' declared' same => Nat.le_add_right _ _
  | bytes v =>
    refine field _ fun decl' declared' same => ?_
    split <;> exact Nat.le_add_right _ _
  | text v =>
    refine field _ fun decl' declared' same => ?_
    have inside := textSlot_lt sound.dictCount declared' same
    cases interned : (builder.textDicts.getD (textSlot builder.schema id) .empty).intern v with
    | error error => exact Nat.le_add_right _ _
    | ok result =>
      obtain ⟨grown, entry⟩ := result
      have grows : grown.blobSize ≤ (builder.dictOf id).blobSize + v.length :=
        intern_blobSize interned
      simp only [setSlot, dictOf, List.getD_eq_getElem?_getD] at grows ⊢
      by_cases here : id = i
      · subst here
        rw [List.getElem?_set_self inside, if_pos rfl]
        exact grows
      · have apart : textSlot builder.schema id ≠ textSlot builder.schema i := fun equal =>
          here (textSlot_injective declared' declared same isText equal)
        rw [List.getElem?_set_ne apart]
        exact Nat.le_add_right _ _

theorem setAll_sound (sound : builder.Sound) (sets : List (Nat × FieldValue)) :
    (builder.setAll sets).Sound ∧ (builder.setAll sets).schema = builder.schema := by
  induction sets using List.reverseRecOn with
  | nil => exact ⟨sound, rfl⟩
  | append_singleton sets set inductionHypothesis =>
    obtain ⟨earlier, schema⟩ := inductionHypothesis
    rw [setAll_snoc]
    rcases set_eq earlier set.1 set.2 with ⟨error, equation⟩ | ⟨later, equation, sets⟩
    · rw [equation]
      exact ⟨earlier, schema⟩
    · rw [equation]
      exact ⟨sets.sound, sets.schema.trans schema⟩

/-- Setter calls add their texts to the dictionaries at most. -/
theorem setAll_blobSize (sound : builder.Sound) (sets : List (Nat × FieldValue)) {i : Nat}
    {decl : FieldDecl} (declared : builder.schema.fields[i]? = some decl)
    (isText : decl.kind = .text) : ((builder.setAll sets).dictOf i).blobSize ≤
      (builder.dictOf i).blobSize + textBytes sets i := by
  induction sets using List.reverseRecOn with
  | nil => exact Nat.le_refl _
  | append_singleton sets set inductionHypothesis =>
    obtain ⟨earlier, schema⟩ := setAll_sound sound sets
    have one := set_blobSize earlier set (schema.symm ▸ declared) isText
    rw [setAll_snoc, textBytes_append]
    omega

/-- A setter throws for the wrong field, the wrong value, or for want of room. -/
theorem set_returns {id : Nat} {value : FieldValue} {decl : FieldDecl}
    (declared : builder.schema.fields[id]? = some decl) (takes : decl.Takes value)
    (room : decl.kind = .text → (builder.dictOf id).blobSize + value.textLength < 2 ^ 32) :
    (builder.set id value).1 = .ok () := by
  have field {kind : FieldKind} {wrongKind : List UInt8 → BuildError}
      {set : FieldDecl → Outcome Unit} (same : decl.kind = kind)
      (returned : (set decl).1 = .ok ()) :
      (builder.withField id kind wrongKind set).1 = .ok () := by
    unfold withField
    simp only [declared]
    rwa [if_neg (not_not.mpr same)]
  cases value with
  | uint | sint | f32 | f64 => exact field takes rfl
  | bytes v =>
    refine field takes.1 ?_
    rw [if_neg (not_not.mpr takes.2)]
  | text v =>
    refine field takes ?_
    have fits := room takes
    rcases (builder.dictOf id).intern_cases v with ⟨entry, -, answer⟩ | ⟨-, -, grown, -, answer⟩ |
      ⟨-, full, -⟩
    · unfold dictOf at answer
      rw [answer]
    · unfold dictOf at answer
      rw [answer]
    · have needed : FieldValue.textLength (.text v) = v.length := rfl
      omega

end Builder

/-! ### Records that are taken -/

/-- The values of some records are those that their fields take. -/
def Suits (schema : SchemaBuilder) (sets : List (Nat × Builder.FieldValue)) : Prop :=
  ∀ set ∈ sets, ∃ decl, schema.fields[set.1]? = some decl ∧ decl.Takes set.2

/-- The texts set for each field come to less than 4 GiB. -/
def Roomy (sets : List (Nat × Builder.FieldValue)) : Prop := ∀ id, textBytes sets id < 2 ^ 32

theorem Roomy.left {first second : List (Nat × Builder.FieldValue)}
    (roomy : Roomy (first ++ second)) : Roomy first := by
  intro id
  have bound := roomy id
  rw [textBytes_append] at bound
  omega

namespace Session

open Builder

/-- What is known of a session that only keyed calls were made on. -/
structure Fed (fresh : Builder) (schema : SchemaBuilder) (options : BuildOptions)
    (session : Session) (log : Log) : Prop where
  made : make schema options = .ok fresh
  tracks : Tracks schema options session log
  replays : Replays fresh session log
  remembers : session.Remembers log
  ofKeys : OfKeys session log

variable {schema : SchemaBuilder} {options : BuildOptions} {fresh : Builder}
  {session later : Session} {log log' : Log} {calls : List Call}

theorem start_fed (made : make schema options = .ok fresh) :
    Fed fresh schema options (start fresh) .empty where
  made := made
  tracks := start_tracks made
  replays := start_replays made
  remembers := fun _ last => by cases last
  ofKeys := start_ofKeys made

theorem run_remembers (tracks : Tracks schema options session log)
    (remembers : session.Remembers log) (keyed : ∀ call ∈ calls, call.Keyed) :
    (session.run calls).Remembers (session.logged log calls) := by
  induction calls generalizing session log with
  | nil => exact remembers
  | cons call rest inductionHypothesis =>
    have here := keyed call List.mem_cons_self
    exact inductionHypothesis (perform_tracks tracks here.builtIn here.open_)
      (perform_remembers tracks remembers here.builtIn here.open_)
      fun other member => keyed other (List.mem_cons_of_mem _ member)

theorem Fed.reaches (fed : Fed fresh schema options session log)
    (reaches : session.Reaches log calls later log') (keyed : ∀ call ∈ calls, call.Keyed) :
    Fed fresh schema options later log' := by
  obtain ⟨rfl, rfl⟩ := reaches
  obtain ⟨replays, tracks⟩ := run_replays fed.replays fed.tracks fed.made
    (fun call member => (keyed call member).builtIn) fun call member => (keyed call member).open_
  obtain ⟨-, -, -, ofKeys⟩ := run_recut fed.tracks fed.ofKeys (Nat.zero_le 64) keyed
  exact ⟨fed.made, tracks, replays, run_remembers fed.tracks fed.remembers keyed, ofKeys⟩

/-- The dictionary of a field holds no more than what it was set to. -/
theorem Fed.blobSize_le (fed : Fed fresh schema options session log) {id : Nat} {decl : FieldDecl}
    (declared : schema.fields[id]? = some decl) (isText : decl.kind = .text) :
    (session.builder.dictOf id).blobSize ≤ textBytes log.observed id := by
  obtain ⟨sound, same, -⟩ := make_eq fed.made
  rw [← same] at declared
  have bound := setAll_blobSize sound log.observed declared isText
  have empty : (fresh.dictOf id).blobSize = 0 := by
    obtain ⟨-, -, rfl⟩ := make_blank fed.made
    simp only [dictOf, blank, List.getD_eq_getElem?_getD, List.getElem?_map]
    cases (schema.fields.filter (·.kind = .text))[textSlot schema id]? <;> rfl
  have seen : session.builder.dictOf id = (fresh.setAll log.observed).dictOf id := by
    rw [dictOf, dictOf, fed.replays.seen.textDicts, fed.replays.seen.schema]
  rw [seen]
  omega

/-- Values that suit their fields, and for whose texts there is room, are set. -/
theorem Fed.setEach_returns (fed : Fed fresh schema options session log) {handle : Nat}
    {rec : RecordRef} (given : session.handles[handle]? = some rec)
    {sets : List (Nat × FieldValue)} (suits : Suits schema sets)
    (roomy : Roomy (log.observed ++ sets)) : (setEach sets session.builder).1 = .ok () := by
  induction sets generalizing session log with
  | nil => rfl
  | cons set rest inductionHypothesis =>
    obtain ⟨decl, declared, takes⟩ := suits set List.mem_cons_self
    have here : (session.builder.set set.1 set.2).1 = .ok () := by
      refine set_returns (fed.tracks.schema.symm ▸ declared) takes fun isText => ?_
      have held := fed.blobSize_le declared isText
      rw [List.append_cons] at roomy
      have first := roomy.left set.1
      rw [textBytes_append, textBytes_singleton, if_pos rfl] at first
      omega
    have performed : session.perform (.set handle set.1 set.2) =
        (.ok (), { session with builder := (session.builder.set set.1 set.2).2 }) := by
      simp only [perform, given, after, here]
    have keyed : ∀ call ∈ [Call.set handle set.1 set.2], call.Keyed := by
      rintro call member
      rw [List.mem_singleton.mp member]
      exact True.intro
    have next := fed.reaches (.one performed) keyed
    rw [setEach, andThen_of_ok here]
    refine inductionHypothesis next given
      (fun other member => suits other (List.mem_cons_of_mem _ member)) ?_
    simp only [Log.note, given, List.append_assoc, List.singleton_append]
    exact roomy

/-- A record that suits the schema is taken, or refused because its key is out of order. -/
theorem Fed.addRecord_cases (fed : Fed fresh schema options session log)
    {record : KeyedRecord UInt64} (suits : Suits schema record.sets)
    (roomy : Roomy (log.observed ++ record.sets))
    (ordered : options.order = .assumeSorted →
      log.committed.Pairwise fun first second => first.place < second.place) :
    (options.order = .assumeSorted →
        ∀ other ∈ log.committed, other.place < keyPlace options.addressBits record.key) ∧
      (addRecord record session.builder).1 = .ok () ∨
    options.order = .assumeSorted ∧
      ¬ (∀ other ∈ log.committed, other.place < keyPlace options.addressBits record.key) ∧
      (addRecord record session.builder).1 =
        .error (.notIncreasing (partitionOf options.addressBits record.key).toNat) := by
  obtain ⟨begun, began, -⟩ := beginRecord_recut fed.tracks.sound.staging fed.tracks.running
    fed.ofKeys.mode 0 record.key
  rw [fed.tracks.options] at began
  generalize handed : RecordRef.ofKey options.addressBits record.key = rec at began
  have performed : session.perform (.beginRecord record.key) =
      (.ok (), { builder := begun, handles := session.handles ++ [rec] }) := by
    rw [perform, began]
    rfl
  have first := fed.reaches (.one performed) fun call member => by
    rw [List.mem_singleton.mp member]
    exact True.intro
  have given : (session.handles ++ [rec])[session.handles.length]? = some rec :=
    List.getElem?_concat_length
  have set : (setEach record.sets begun).1 = .ok () := first.setEach_returns given suits roomy
  have second := first.reaches (setEach_reaches given set) fun call member => by
    obtain ⟨set, -, rfl⟩ := List.mem_map.mp member
    exact True.intro
  have handle := second.tracks.handles rec (List.mem_of_getElem? given)
  have place : (Log.candidate { log with pending := [], sets := record.sets } rec).place =
      keyPlace options.addressBits record.key := by
    rw [Committed.place_of_integer _ rfl, ← handed]
    rfl
  have equation : addRecord record session.builder = (setEach record.sets begun).2.commit rec := by
    rw [addRecord, began, andThen_of_ok rfl, andThen_of_ok set]
  have rejects (assumes : options.order = .assumeSorted) :
      (setEach record.sets begun).2.Rejects rec ↔
        ¬ ∀ other ∈ log.committed, other.place < keyPlace options.addressBits record.key := by
    rw [← place]
    exact (rejects_iff second.tracks second.remembers handle (ordered assumes)).trans
      (and_iff_right assumes)
  have running : (setEach record.sets begun).2.finished = false := second.tracks.running
  rw [equation]
  rcases commit_eq second.tracks.sound second.tracks.narrow handle with
    ⟨rejected, error, thrown⟩ | ⟨accepted, staging, returned, -⟩
  · have disordered := rejected.resolve_left (by rw [running]; decide)
    have assumes : options.order = .assumeSorted :=
      (congrArg BuildOptions.order second.tracks.options).symm.trans disordered.1
    refine Or.inr ⟨assumes, (rejects assumes).mp rejected, ?_⟩
    rw [commit, if_neg (by rw [running]; decide), if_pos disordered, ← handed]
    rfl
  · refine Or.inl ⟨fun assumes => ?_, congrArg Prod.fst returned⟩
    by_contra below
    exact accepted ((rejects assumes).mpr below)

/-- Records are taken up to the first whose key is not above all before it. -/
theorem Fed.addRecords_cases (fed : Fed fresh schema options session log)
    {records : List (KeyedRecord UInt64)} (suits : ∀ record ∈ records, Suits schema record.sets)
    (roomy : Roomy (log.observed ++ records.flatMap (·.sets)))
    (ordered : options.order = .assumeSorted →
      (log.upTo options.addressBits []).Pairwise (· < ·)) :
    (options.order = .assumeSorted → (log.upTo options.addressBits records).Pairwise (· < ·)) ∧
      (addRecords records session.builder).1 = .ok () ∨
    ∃ taken record rest, records = taken ++ record :: rest ∧ options.order = .assumeSorted ∧
      (log.upTo options.addressBits taken).Pairwise (· < ·) ∧
      ¬ (∀ place ∈ log.upTo options.addressBits taken,
        place < keyPlace options.addressBits record.key) ∧
      (addRecords records session.builder).1 =
        .error (.notIncreasing (partitionOf options.addressBits record.key).toNat) := by
  induction records generalizing session log with
  | nil => exact Or.inl ⟨ordered, rfl⟩
  | cons record rest inductionHypothesis =>
    rw [List.flatMap_cons, ← List.append_assoc] at roomy
    have committed (assumes : options.order = .assumeSorted) := ordered assumes
    simp only [Log.upTo_nil] at committed
    rcases fed.addRecord_cases (suits record List.mem_cons_self) roomy.left
      (fun assumes => List.pairwise_map.mp (committed assumes)) with
      ⟨above, returned⟩ | ⟨assumes, below, thrown⟩
    · have keyed : ∀ call ∈ record.calls session.handles.length, call.Keyed := fun call member =>
        @mem_recordCalls session.handles.length [record] call (by
          rwa [recordCalls, recordCalls, List.append_nil])
      have next := fed.reaches (addRecord_reaches returned) keyed
      rw [fed.tracks.options] at next
      have rises (assumes : options.order = .assumeSorted) :
          ((log.taking options.addressBits record).upTo options.addressBits []).Pairwise
            (· < ·) := by
        rw [← Log.upTo_cons]
        refine List.pairwise_append.mpr ⟨committed assumes, List.pairwise_singleton _ _, ?_⟩
        intro place member last isLast
        rw [List.mem_singleton.mp isLast]
        obtain ⟨other, inLog, rfl⟩ := List.mem_map.mp member
        exact above assumes other inLog
      rw [addRecords, andThen_of_ok returned, Log.upTo_cons]
      rcases inductionHypothesis next
        (fun other member => suits other (List.mem_cons_of_mem _ member)) roomy rises with
        accepted | ⟨taken, last, others, rfl, assumes, increases, below, thrown⟩
      · exact Or.inl accepted
      · refine Or.inr ⟨record :: taken, last, others, rfl, assumes, ?_, ?_, thrown⟩
        · rwa [Log.upTo_cons]
        · rwa [Log.upTo_cons]
    · refine Or.inr ⟨[], record, rest, rfl, assumes, ordered assumes, ?_, ?_⟩
      · rw [Log.upTo_nil, List.forall_mem_map]
        exact below
      · rw [addRecords, andThen_of_error thrown]

end Session

end Mmpack
