/-
This file compares a keyed build with the same build whose caller splits the keys.
The one stages packed words and the other pairs, but both stage the same rows and
collapse the same tuples, so that the same commits are refused and the same image
is written, with `no_key_mapping` in the place of the address bits.
-/

import Mmpack.SameInput
import Mmpack.Maps

namespace Mmpack

open ByteList Builder

/-! ### Deciding the mode -/

namespace Session

variable {schema : SchemaBuilder} {options : BuildOptions} {session : Session} {log : Log}

/-- A call that fills a keyed build leaves a mode that is decided, and beginning a record decides
it. -/
theorem perform_decided (tracks : Tracks schema options session log) {call : Call}
    (keyed : call.Keyed)
    (decided : session.builder.mode ≠ .undecided ∨ ∃ key, call = .beginRecord key) :
    (session.perform call).2.builder.mode ≠ .undecided := by
  cases call with
  | beginRecord key =>
    rcases beginRecord_cases session.builder key with ⟨refused, error, equation⟩ | ⟨-, staging,
      nextObject, -, equation⟩
    · rw [perform, equation]
      exact fun undecided => refused ⟨tracks.running, Or.inl undecided⟩
    · rw [perform, equation]
      intro impossible
      cases impossible
  | set handle id value =>
    have mode := decided.resolve_right (by rintro ⟨key, impossible⟩; cases impossible)
    rw [perform]
    cases session.handles[handle]? with
    | none => exact mode
    | some rec =>
      obtain ⟨slots, stats, textDicts, frame⟩ := set_frame session.builder id value
      simp only [after, frame]
      exact mode
  | commit handle =>
    have mode := decided.resolve_right (by rintro ⟨key, impossible⟩; cases impossible)
    rw [perform]
    cases given : session.handles[handle]? with
    | none => exact mode
    | some rec =>
      rcases commit_eq tracks.sound tracks.narrow
        (tracks.handles rec (List.mem_of_getElem? given)) with ⟨-, error, equation⟩ |
        ⟨-, staging, equation, commits⟩
      · simp only [after, equation]
        exact mode
      · simp only [after, equation, commits.mode]
        exact mode
  | beginRecordAt | beginRecordAtBytes | setStaging | finish => exact keyed.elim

theorem run_decided (tracks : Tracks schema options session log) {calls : List Call}
    (keyed : ∀ call ∈ calls, call.Keyed)
    (decided : session.builder.mode ≠ .undecided ∨ ∃ key, .beginRecord key ∈ calls) :
    (session.run calls).builder.mode ≠ .undecided := by
  induction calls generalizing session log with
  | nil => exact decided.resolve_right fun ⟨key, member⟩ => nomatch member
  | cons call rest inductionHypothesis =>
    have here := keyed call List.mem_cons_self
    have builtIn : call.BuiltIn := by
      cases call with
      | setStaging staging => exact here
      | beginRecord | beginRecordAt | beginRecordAtBytes | set | commit | finish => trivial
    have notLast : call ≠ .finish := by
      rintro rfl
      exact here
    refine inductionHypothesis (perform_tracks tracks builtIn notLast)
      (fun other member => keyed other (List.mem_cons_of_mem _ member)) ?_
    rcases decided with decided | ⟨key, member⟩
    · exact Or.inl (perform_decided tracks here (Or.inl decided))
    · rcases List.mem_cons.mp member with rfl | later
      · exact Or.inl (perform_decided tracks here (Or.inr ⟨key, rfl⟩))
      · exact Or.inr ⟨key, later⟩

end Session

/-! ### The split build -/

namespace Build

/-- The same build, with the caller splitting every key. -/
def split (build : Build) : Build where
  schema := build.schema
  options := build.options
  calls := build.calls.map (·.styled true build.options.addressBits)
  few := by
    rw [List.length_map]
    exact build.few
  fresh := build.fresh
  made := build.made
  builtIn := fun call member => by
    obtain ⟨original, inside, rfl⟩ := List.mem_map.mp member
    have kept := build.builtIn original inside
    cases original with
    | beginRecord key => trivial
    | beginRecordAt | beginRecordAtBytes | set | commit | setStaging | finish => exact kept

/-- A keyed build and the split one return from the same calls and from `finish` alike, and their
images differ in the byte that records the address bits. -/
theorem split_image (build : Build) (keyed : ∀ call ∈ build.calls, call.Keyed)
    (begun : ∃ key, .beginRecord key ∈ build.calls) :
    (Session.start build.split.fresh).returns build.split.calls =
        (Session.start build.fresh).returns build.calls ∧
      build.split.finished.outcome.isOk = build.finished.outcome.isOk ∧
      ∀ report, build.finished.outcome = .ok report → ∃ front back,
        build.finished.image = front ++ UInt8.ofNat build.options.addressBits :: back ∧
        build.split.finished.image = front ++ UInt8.ofNat noKeyMapping :: back ∧
        (build.finished.image.length < 2 ^ 64 → front.length =
          (footerOf build.finished.image).schemaOffset + addressBitsAt) := by
  have twins : Build.Twins true true build build.split :=
    { schema := rfl
      order := rfl
      addressBits := rfl
      tables := fun _ => ⟨rfl, rfl⟩
      keyed := fun _ => keyed
      calls := rfl
      open_ := fun call member => by
        rintro rfl
        exact keyed .finish member }
  obtain ⟨returns, -, ⟨builders, -⟩, tracks, tracks'⟩ := twins.run
  have options : build.split.session.builder.options = build.session.builder.options := by
    rw [tracks.options, tracks'.options]
    rfl
  have same := builders.sameInput (by rw [options]) (by rw [options]) (by rw [options])
    (by rw [options])
  obtain ⟨outcome, image⟩ := finish_split same tracks.sound tracks'.sound tracks.running
    tracks'.running (builders.tables rfl).rows builders.order
    (same.choice (by rw [options]))
  have decided : build.session.builder.mode ≠ .undecided :=
    Session.run_decided (Session.start_tracks build.made) keyed (Or.inr begun)
  have bits : build.session.builder.keyBits = build.options.addressBits ∧
      build.split.session.builder.keyBits = noKeyMapping := by
    have bound := tracks.sound.addressBits
    have modes := builders.modes
    unfold keyBits
    revert modes decided
    generalize build.session.builder.mode = mode
    generalize build.split.session.builder.mode = mode'
    rintro decided (_ | _ | _)
    · exact absurd rfl decided
    · rw [tracks.options] at bound ⊢
      exact ⟨Nat.mod_eq_of_lt (by omega), rfl⟩
  rw [bits.1, bits.2] at image
  exact ⟨returns, outcome, image⟩

end Build

/-- Two keys, split. -/
theorem sample_split_image : ∃ report, sampleBuild.finished.outcome = .ok report ∧
    ∃ front back, sampleBuild.finished.image = front ++ 32 :: back ∧
      sampleBuild.split.finished.image = front ++ 255 :: back := by
  have calls : sampleBuild.calls = [.beginRecord 5, .set 0 0 (.uint 7),
    .set 0 1 (.text [0x61, 0x62]), .commit 0, .beginRecord 0x200000001, .set 1 0 (.uint 1000),
    .commit 1] := (Build.of_spec _ _ _ _).2.2
  have keyed : ∀ call ∈ sampleBuild.calls, call.Keyed := by
    rw [calls]
    simp [Call.Keyed]
  have begun : ∃ key, Call.beginRecord key ∈ sampleBuild.calls := by
    rw [calls]
    exact ⟨5, List.mem_cons_self⟩
  obtain ⟨report, returned⟩ := sampleBuild.exists_report (by decide +kernel)
  obtain ⟨-, -, image⟩ := sampleBuild.split_image keyed begun
  obtain ⟨front, back, keyedImage, splitImage, -⟩ := image report returned
  exact ⟨report, returned, front, back, keyedImage, splitImage⟩

end Mmpack
