/-
This file is a small library about output streams. A sink takes chunks one after the
other. It may refuse one, and a caller that passes the refusal on stops there, so what
the sink has by then is told from the chunks before. Nothing is assumed about how the
items are cut into chunks.
-/

import Mathlib.Data.List.Basic
import Mathlib.Data.List.Infix

namespace Streaming

variable {Item State Error : Type}

/-- A sink: what a write throws, if it does, and the state it leaves behind. -/
structure Sink (Item State Error : Type) where
  write : State → List Item → Except Error Unit × State

namespace Sink

variable (sink : Sink Item State Error)

/-- Write chunks one after the other, up to the first that is refused. -/
def feed : State → List (List Item) → Except Error Unit × State
  | state, [] => (.ok (), state)
  | state, chunk :: rest =>
    match sink.write state chunk with
    | (.ok (), next) => feed next rest
    | (.error error, next) => (.error error, next)

variable {sink} {state next : State} {chunk : List Item} {chunks : List (List Item)} {error : Error}

theorem feed_cons_ok (accepted : sink.write state chunk = (.ok (), next)) :
    sink.feed state (chunk :: chunks) = sink.feed next chunks := by
  rw [feed, accepted]

theorem feed_cons_error (refused : sink.write state chunk = (.error error, next)) :
    sink.feed state (chunk :: chunks) = (.error error, next) := by
  rw [feed, refused]

/-- What every write keeps, accepted or refused, feeding keeps. -/
theorem feed_keeps {related : State → State → Prop} (refl : ∀ state, related state state)
    (trans : ∀ first second third, related first second → related second third →
      related first third)
    (step : ∀ state chunk, related state (sink.write state chunk).2) (state : State)
    (chunks : List (List Item)) : related state (sink.feed state chunks).2 := by
  induction chunks generalizing state with
  | nil => exact refl state
  | cons chunk rest inductionHypothesis =>
    have one := step state chunk
    rcases written : sink.write state chunk with ⟨_ | _, next⟩
    · rw [feed_cons_error written]
      rwa [written] at one
    · rw [feed_cons_ok written]
      rw [written] at one
      exact trans _ _ _ one (inductionHypothesis next)

/-! ### Sinks that append -/

/-- A sink that keeps what it is given behind what it has: the whole of a chunk that it accepts,
and a first part, perhaps an empty one, of a chunk that it refuses. -/
def Appends (sink : Sink Item State Error) (kept : State → List Item) : Prop :=
  ∀ state chunk, ∃ part, part <+: chunk ∧ kept (sink.write state chunk).2 = kept state ++ part ∧
    ((sink.write state chunk).1 = .ok () → part = chunk)

/-- Such a sink ends with a first part of all it was to be given, and with all of it when nothing
was refused. -/
theorem Appends.feed {kept : State → List Item} (appends : sink.Appends kept) (state : State)
    (chunks : List (List Item)) :
    ∃ part, part <+: chunks.flatten ∧ kept (sink.feed state chunks).2 = kept state ++ part ∧
      ((sink.feed state chunks).1 = .ok () → part = chunks.flatten) := by
  induction chunks generalizing state with
  | nil => exact ⟨[], List.prefix_refl _, (List.append_nil _).symm, fun _ => rfl⟩
  | cons chunk rest inductionHypothesis =>
    obtain ⟨here, first, same, whole⟩ := appends state chunk
    rw [List.flatten_cons]
    rcases written : sink.write state chunk with ⟨_ | _, next⟩ <;> rw [written] at same whole
    · rw [feed_cons_error written]
      exact ⟨here, first.trans (List.prefix_append _ _), same, fun accepted => by cases accepted⟩
    · obtain ⟨part, first', same', whole'⟩ := inductionHypothesis next
      obtain rfl := whole rfl
      rw [feed_cons_ok written]
      refine ⟨here ++ part, (List.prefix_append_right_inj here).mpr first', ?_, fun accepted => ?_⟩
      · rw [same', same, List.append_assoc]
      · rw [whole' accepted]

/-- The first chunk that is refused. All before it were accepted, and the sink stands where that
write left it. -/
theorem feed_refused (refused : (sink.feed state chunks).1 = .error error) :
    ∃ taken chunk rest middle, chunks = taken ++ chunk :: rest ∧
      sink.feed state taken = (.ok (), middle) ∧
      sink.write middle chunk = (.error error, (sink.feed state chunks).2) := by
  induction chunks generalizing state with
  | nil => cases refused
  | cons chunk rest inductionHypothesis =>
    rcases written : sink.write state chunk with ⟨other | _, next⟩
    · rw [feed_cons_error written] at refused ⊢
      cases refused
      exact ⟨[], chunk, rest, state, rfl, rfl, written⟩
    · rw [feed_cons_ok written] at refused ⊢
      obtain ⟨taken, chunk', rest', middle, cut, fed, written'⟩ := inductionHypothesis refused
      refine ⟨chunk :: taken, chunk', rest', middle, by rw [cut, List.cons_append], ?_, written'⟩
      rw [feed_cons_ok written, fed]

/-- How much a sink may keep of a chunk that it refuses. -/
def Cuts (sink : Sink Item State Error) (kept : State → List Item)
    (cut : List Item → List Item → Prop) : Prop :=
  ∀ state chunk error next, sink.write state chunk = (.error error, next) →
    ∃ part, cut part chunk ∧ kept next = kept state ++ part

section Cut

variable {kept : State → List Item} {cut : List Item → List Item → Prop}

/-- A sink that refuses a chunk keeps all before it, and of the chunk what it may. -/
theorem Appends.feed_refused (appends : sink.Appends kept) (cuts : sink.Cuts kept cut)
    (refused : (sink.feed state chunks).1 = .error error) :
    ∃ taken chunk rest part middle, chunks = taken ++ chunk :: rest ∧
      sink.feed state taken = (.ok (), middle) ∧
      sink.write middle chunk = (.error error, (sink.feed state chunks).2) ∧ cut part chunk ∧
      kept (sink.feed state chunks).2 = kept state ++ (taken.flatten ++ part) := by
  obtain ⟨taken, chunk, rest, middle, split, fed, written⟩ := Sink.feed_refused refused
  obtain ⟨part, small, same⟩ := cuts _ _ _ _ written
  obtain ⟨whole, -, before, all⟩ := appends.feed state taken
  rw [fed] at before all
  obtain rfl := all rfl
  refine ⟨taken, chunk, rest, part, middle, split, fed, written, small, ?_⟩
  rw [same, before, List.append_assoc]

/-- Where a sink never keeps the whole of a chunk that it refuses, it has everything exactly when
nothing was refused. -/
theorem Appends.feed_whole_iff (appends : sink.Appends kept) (cuts : sink.Cuts kept cut)
    (short : ∀ part chunk, cut part chunk → part.length < chunk.length) :
    kept (sink.feed state chunks).2 = kept state ++ chunks.flatten ↔
      (sink.feed state chunks).1 = .ok () := by
  constructor
  · intro whole
    rcases fed : (sink.feed state chunks).1 with error | _
    · obtain ⟨taken, chunk, rest, part, middle, split, -, -, small, same⟩ :=
        appends.feed_refused cuts fed
      have less := short part chunk small
      have length := congrArg List.length (same.symm.trans whole)
      rw [split, List.flatten_append, List.flatten_cons] at length
      simp only [List.length_append] at length
      omega
    · rfl
  · intro accepted
    obtain ⟨part, -, same, all⟩ := appends.feed state chunks
    rw [same, all accepted]

end Cut

/-! ### Sinks of limited room -/

/-- A sink that has room for so many items. It refuses a chunk exactly when the chunk is longer
than the room left, and is then as it was. -/
structure Rations (sink : Sink Item State Error) (room : State → Nat) (error : Error) : Prop where
  accepts : ∀ state chunk, chunk.length ≤ room state →
    ∃ next, sink.write state chunk = (.ok (), next) ∧ room next + chunk.length = room state
  refuses : ∀ state chunk, room state < chunk.length →
    sink.write state chunk = (.error error, state)

/-- Chunks are all accepted exactly when they fit together. Otherwise the sink stands where the
first chunk that did not fit found it. -/
theorem Rations.feed {room : State → Nat} (rations : sink.Rations room error) (state : State)
    (chunks : List (List Item)) :
    (chunks.flatten.length ≤ room state → (sink.feed state chunks).1 = .ok () ∧
        room (sink.feed state chunks).2 + chunks.flatten.length = room state) ∧
      (room state < chunks.flatten.length → (sink.feed state chunks).1 = .error error ∧
        ∃ taken chunk rest, chunks = taken ++ chunk :: rest ∧
          sink.feed state taken = (.ok (), (sink.feed state chunks).2) ∧
          room (sink.feed state chunks).2 + taken.flatten.length = room state ∧
          room (sink.feed state chunks).2 < chunk.length) := by
  induction chunks generalizing state with
  | nil => exact ⟨fun _ => ⟨rfl, rfl⟩, fun short => absurd short (Nat.not_lt_zero _)⟩
  | cons chunk rest inductionHypothesis =>
    rw [List.flatten_cons, List.length_append]
    by_cases fits : chunk.length ≤ room state
    · obtain ⟨next, written, left⟩ := rations.accepts state chunk fits
      obtain ⟨whole, broken⟩ := inductionHypothesis next
      rw [feed_cons_ok written]
      refine ⟨fun enough => ?_, fun short => ?_⟩
      · obtain ⟨accepted, remaining⟩ := whole (by omega)
        exact ⟨accepted, by omega⟩
      · obtain ⟨refused, taken, next', rest', cut, fed, remaining, small⟩ := broken (by omega)
        refine ⟨refused, chunk :: taken, next', rest', by rw [cut, List.cons_append], ?_, ?_, small⟩
        · rw [feed_cons_ok written, fed]
        · rw [List.flatten_cons, List.length_append]
          omega
    · have written := rations.refuses state chunk (Nat.not_le.mp fits)
      rw [feed_cons_error written]
      refine ⟨fun enough => by omega, fun _ => ⟨rfl, [], chunk, rest, rfl, rfl, rfl, ?_⟩⟩
      exact Nat.not_le.mp fits

/-! ### Sinks that accept everything -/

/-- A sink that accepts every chunk, and what a chunk makes of its state. -/
def Accepts (sink : Sink Item State Error) (grow : State → List Item → State) : Prop :=
  ∀ state chunk, sink.write state chunk = (.ok (), grow state chunk)

theorem Accepts.feed {grow : State → List Item → State} (accepts : sink.Accepts grow)
    (state : State) (chunks : List (List Item)) :
    sink.feed state chunks = (.ok (), chunks.foldl grow state) := by
  induction chunks generalizing state with
  | nil => rfl
  | cons chunk rest inductionHypothesis =>
    rw [feed_cons_ok (accepts state chunk), inductionHypothesis, List.foldl_cons]

end Sink

end Streaming
