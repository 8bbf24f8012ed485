/-
This file is about input that is assumed sorted and is not. A commit out of order is
refused and the build goes on, so what is in the image is the greedy increasing part of
all that was attempted: a record is in it exactly when it stands above every record
attempted before it. Where the builder sorts, no commit is refused.
-/

import Mmpack.Orders
import Mmpack.Rising

namespace Mmpack

open ByteList Rising

/-! ### What was attempted -/

/-- The record a commit through a handle would add. -/
def Log.candidate (log : Log) (rec : RecordRef) : Committed where
  partition := rec.partition
  address := rec.address
  addressBytes := log.pending
  sets := log.sets

/-- The commits through a handle that was given out, each with its record as it stood. -/
def Session.attempted (session : Session) (log : Log) : List Call → List Committed
  | [] => []
  | call :: rest =>
    let later := (session.perform call).2.attempted
      (log.noteResult session.handles call (session.perform call).1) rest
    match call with
    | .commit handle =>
      match session.handles[handle]? with
      | some rec => log.candidate rec :: later
      | none => later
    | _ => later

def Build.attempted (build : Build) : List Committed :=
  (Session.start build.fresh).attempted .empty build.calls

/-- What a build keeps of the records attempted. -/
def InputOrder.keeps : InputOrder → List Committed → List Committed
  | .assumeSorted, attempts => rising Committed.place attempts
  | .sortIfNeeded, attempts => attempts

namespace Session

open Builder

variable {schema : SchemaBuilder} {options : BuildOptions} {session : Session} {log : Log}

/-! ### The record committed last -/

/-- The builder remembers the place of the record committed last. -/
def Remembers (session : Session) (log : Log) : Prop :=
  ∀ entry ∈ log.committed.getLast?, session.builder.lastPartition = entry.partition ∧
    session.builder.lastAddress = entry.address ∧
    (session.builder.blob.isSome = true → session.builder.lastWide = entry.addressBytes)

theorem Tracks.count_eq (tracks : Tracks schema options session log) :
    session.builder.count = log.committed.length :=
  tracks.sound.count.trans tracks.rows.length_eq

theorem Tracks.committed_of_undecided (tracks : Tracks schema options session log)
    (undecided : session.builder.mode = .undecided) : log.committed = [] := by
  have lengths := tracks.rows.length_eq
  rw [Builder.rows, (tracks.sound.fresh undecided).1] at lengths
  exact List.length_eq_zero_iff.mp lengths.symm

/-- A commit out of order is one at or below the place of the last. -/
theorem increasing_iff (tracks : Tracks schema options session log)
    (remembers : session.Remembers log) {rec : RecordRef} (begun : session.builder.Begun rec)
    {last : Committed} (isLast : log.committed.getLast? = some last) :
    session.builder.increasing rec = true ↔ last.place < (log.candidate rec).place := by
  obtain ⟨partition, address, wideBytes⟩ := remembers last isLast
  have wide := tracks.sound.wide_iff
  have shaped : session.builder.Shaped ⟨last.partition, last.address, last.addressBytes, 0⟩ := by
    have shaped := tracks.shaped (List.mem_of_getLast? isLast)
    unfold Shaped
    split at shaped
    · rename_i blob
      have mode := wide.mp blob
      rw [Begun, mode] at begun
      rw [if_pos blob]
      exact ⟨shaped.1, shaped.2, begun.2.1⟩
    · rename_i narrow
      rw [if_neg narrow]
      exact shaped
  have shaped' : session.builder.Shaped ⟨rec.partition, rec.address, log.pending, 0⟩ := by
    unfold Shaped
    rw [← tracks.pending]
    split
    · rename_i blob
      rw [Begun, wide.mp blob] at begun
      exact ⟨begun.1, begun.2.2, begun.2.1⟩
    · rename_i narrow
      exact tracks.narrow fun mode => narrow (wide.mpr mode)
  refine Iff.trans ?_ (rowIncreases_iff shaped shaped')
  unfold increasing rowIncreases
  rw [partition, address, tracks.pending]
  by_cases blob : session.builder.blob.isSome = true
  · rw [if_pos blob, if_pos blob, wideBytes blob]
  · rw [if_neg blob, if_neg blob]

/-- A commit is refused exactly where the greedy rule passes over its record. -/
theorem rejects_iff (tracks : Tracks schema options session log)
    (remembers : session.Remembers log) {rec : RecordRef} (begun : session.builder.Begun rec)
    (ordered : log.committed.Pairwise fun first second => first.place < second.place) :
    session.builder.Rejects rec ↔ options.order = .assumeSorted ∧
      ¬ ∀ other ∈ log.committed, other.place < (log.candidate rec).place := by
  unfold Rejects
  rw [tracks.running, tracks.options, tracks.count_eq]
  simp only [Bool.false_eq_true, false_or]
  refine and_congr_right fun _ => ?_
  rcases List.eq_nil_or_concat log.committed with none | ⟨earlier, last, snoc⟩
  · simp [none]
  · rw [List.concat_eq_append] at snoc
    have isLast : log.committed.getLast? = some last := by
      rw [snoc, List.getLast?_concat]
    rw [snoc] at ordered
    have below := (List.pairwise_append.mp ordered).2.2
    have above : (∀ other ∈ log.committed, other.place < (log.candidate rec).place) ↔
        last.place < (log.candidate rec).place := by
      rw [snoc]
      refine ⟨fun all => all last (by simp), fun less other member => ?_⟩
      rcases List.mem_append.mp member with early | late
      · exact (below other early last List.mem_cons_self).trans less
      · rwa [List.mem_singleton.mp late]
    rw [above, ← increasing_iff tracks remembers begun isLast, Bool.not_eq_true]
    exact and_iff_right (by simp [snoc])

/-! ### One call -/

/-- What the last commit left is kept by the calls that commit nothing. -/
theorem Remembers.frame (remembers : session.Remembers log) {later : Session} {log' : Log}
    (committed : log'.committed = log.committed)
    (lastPartition : later.builder.lastPartition = session.builder.lastPartition)
    (lastAddress : later.builder.lastAddress = session.builder.lastAddress)
    (lastWide : later.builder.lastWide = session.builder.lastWide)
    (blob : log.committed ≠ [] → later.builder.blob = session.builder.blob) :
    later.Remembers log' := by
  intro entry last
  rw [committed] at last
  have some : log.committed ≠ [] := by
    intro none
    rw [none] at last
    cases last
  rw [lastPartition, lastAddress, lastWide, blob some]
  exact remembers entry last

theorem remembers_begins (tracks : Tracks schema options session log)
    (remembers : session.Remembers log) {call : Call} {wanted : KeyMode} {pending : List UInt8}
    {rec : RecordRef}
    (begins : beginsOf session.builder.options.addressBits call = some (wanted, pending, rec)) :
    (session.perform call).2.Remembers
      (log.noteResult session.handles call (session.perform call).1) := by
  have committed (result : Except BuildError Unit) :
      (log.noteResult session.handles call result).committed = log.committed := by
    cases result with
    | error error => rfl
    | ok _ =>
      cases call with
      | beginRecord | beginRecordAt | beginRecordAtBytes => rfl
      | set | commit | setStaging | finish => cases begins
  obtain ⟨outcome, equation, comes⟩ := perform_begins begins
  have blob {entered : Builder} (enters : session.builder.Enters wanted pending entered)
      (some : log.committed ≠ []) : entered.blob = session.builder.blob := by
    obtain ⟨staging, nextObject, rfl⟩ := enters.fields
    exact if_neg fun both => some (tracks.committed_of_undecided both.2.1)
  rw [equation]
  cases comes with
  | refused error => exact remembers.frame (committed _) rfl rfl rfl fun _ => rfl
  | mismatched error entered enters wide width =>
    have kept := blob enters
    obtain ⟨staging, nextObject, rfl⟩ := enters.fields
    exact remembers.frame (committed _) rfl rfl rfl kept
  | begun entered enters =>
    have kept := blob enters
    obtain ⟨staging, nextObject, rfl⟩ := enters.fields
    exact remembers.frame (committed _) rfl rfl rfl kept

theorem perform_remembers (tracks : Tracks schema options session log)
    (remembers : session.Remembers log) {call : Call} (builtIn : call.BuiltIn)
    (notLast : call ≠ .finish) :
    (session.perform call).2.Remembers
      (log.noteResult session.handles call (session.perform call).1) := by
  cases call with
  | finish => exact absurd rfl notLast
  | setStaging staging => exact builtIn.elim
  | beginRecord | beginRecordAt | beginRecordAtBytes =>
    exact remembers_begins tracks remembers rfl
  | set handle id value =>
    cases given : session.handles[handle]? with
    | none =>
      simp only [perform, given, Log.noteResult, Log.note]
      exact remembers
    | some rec =>
      simp only [perform, given, after]
      obtain ⟨slots, stats, textDicts, equation⟩ := set_frame session.builder id value
      rw [equation]
      refine remembers.frame ?_ rfl rfl rfl fun _ => rfl
      cases (session.builder.set id value).1 with
      | error error => rfl
      | ok _ => simp only [Log.noteResult, Log.note, given]
  | commit handle =>
    cases given : session.handles[handle]? with
    | none =>
      simp only [perform, given, Log.noteResult, Log.note]
      exact remembers
    | some rec =>
      rcases commit_eq tracks.sound tracks.narrow
        (tracks.handles rec (List.mem_of_getElem? given)) with ⟨-, error, equation⟩ |
        ⟨-, staging, equation, -⟩
      · simp only [perform, given, equation, after]
        exact remembers
      · simp only [perform, given, equation, after, Log.noteResult, Log.note]
        intro entry last
        rw [List.getLast?_concat] at last
        cases last
        exact ⟨rfl, rfl, fun wide => (if_pos wide).trans tracks.pending⟩

/-! ### A whole run -/

end Session

/-! ### The image of unsorted input -/

end Mmpack
