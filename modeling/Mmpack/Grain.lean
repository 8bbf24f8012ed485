/-
This file is about the choice of `address_bits`, which says how fine the partitions of
a keyed image are. Two builds that are given the same keys and values and differ in it
refuse the same calls, and open as tables of the same sorted map: a caller who goes by
keys cannot tell them apart.
-/

import Mmpack.Recut
import Mmpack.Orders
import Mmpack.Unobservable

namespace Mmpack

open ByteList Checked Cursor SortedMap Builder

/-! ### Builds -/

theorem partitionOf_zero {bits : Nat} (bound : bits ≤ 64) : partitionOf bits 0 = 0 := by
  refine UInt64.toNat_inj.mp ?_
  rw [partitionOf_toNat bound]
  exact Nat.zero_div _

theorem addressOf_zero {bits : Nat} (bound : bits ≤ 64) : addressOf bits 0 = 0 := by
  refine UInt64.toNat_inj.mp ?_
  rw [addressOf_toNat bound]
  exact Nat.zero_mod _

/-- A new builder has committed no key, so that its last one is zero on every cut. -/
theorem Builder.lastOfKey_blank (schema : SchemaBuilder) {options : BuildOptions}
    (bound : options.addressBits ≤ 64) : (blank schema options).LastOfKey 0 :=
  congrArg₂ RecordRef.mk (partitionOf_zero bound).symm (addressOf_zero bound).symm

/-- The options with other address bits. -/
def BuildOptions.cut (options : BuildOptions) (bits : Nat) : BuildOptions :=
  { options with addressBits := bits }

theorem Builder.blank_recut (schema : SchemaBuilder) {options : BuildOptions}
    (bound : options.addressBits ≤ 64) {bits : Nat} (bound' : bits ≤ 64) :
    (blank schema options).recut bits = blank schema (options.cut bits) := by
  have cut := (lastOfKey_blank schema bound).recut bound bits
  obtain ⟨partition, address⟩ := RecordRef.mk.inj cut
  have zero : ((blank schema options).recut bits).lastPartition = 0 ∧
      ((blank schema options).recut bits).lastAddress = 0 :=
    ⟨partition.trans (partitionOf_zero bound'), address.trans (addressOf_zero bound')⟩
  obtain ⟨partition, address⟩ := zero
  unfold recut at partition address ⊢
  simp only at partition address
  rw [partition, address]
  rfl

theorem Builder.make_recut {schema : SchemaBuilder} {options : BuildOptions} {fresh : Builder}
    (made : make schema options = .ok fresh) {bits : Nat} (bound' : bits ≤ 64) :
    make schema (options.cut bits) = .ok (fresh.recut bits) := by
  obtain ⟨fields, bound, rfl⟩ := make_blank made
  have small : ¬ 64 < (options.cut bits).addressBits := Nat.not_lt.mpr bound'
  rw [blank_recut schema bound bound', make, if_neg fields, if_neg small]
  rfl

/-- A session that starts knows of no record. -/
theorem Session.start_ofKeys {schema : SchemaBuilder} {options : BuildOptions} {fresh : Builder}
    (made : Builder.make schema options = .ok fresh) :
    Session.OfKeys (Session.start fresh) .empty := by
  obtain ⟨-, bound, rfl⟩ := Builder.make_blank made
  exact ⟨Or.inl rfl, ⟨0, Builder.lastOfKey_blank schema bound⟩, List.forall_mem_nil _, rfl,
    List.forall_mem_nil _⟩

/-- The build of the same calls, its keys cut at another bit. -/
def Build.recut (build : Build) (bits : Nat) (bound' : bits ≤ 64) : Build where
  schema := build.schema
  options := build.options.cut bits
  calls := build.calls
  few := build.few
  fresh := build.fresh.recut bits
  made := Builder.make_recut build.made bound'
  builtIn := build.builtIn

section Builds

variable {build : Build} {bits : Nat} {bound' : bits ≤ 64}

theorem Build.addressBits_le (build : Build) : build.options.addressBits ≤ 64 :=
  (Builder.make_blank build.made).2.1

/-- A keyed build and the one on the other cut return from the same calls and end on the same
session and log, cut the other way. -/
theorem Build.recut_run (keyed : ∀ call ∈ build.calls, call.Keyed) :
    (Session.start (build.recut bits bound').fresh).returns build.calls =
        (Session.start build.fresh).returns build.calls ∧
      (build.recut bits bound').session = build.session.recut bits ∧
      (build.recut bits bound').log = build.log.recut build.options.addressBits bits ∧
      Session.OfKeys build.session build.log := by
  have options : build.fresh.options = build.options := by
    rw [(Builder.make_blank build.made).2.2]
    rfl
  have run := Session.run_recut (Session.start_tracks build.made)
    (Session.start_ofKeys build.made) bound' keyed
  rw [Session.start, options] at run
  exact run

/-- A record of a keyed build stands at the place of its key, on either cut. -/
theorem Session.OfKeys.place {session : Session} {log : Log} (ofKeys : session.OfKeys log)
    (bound : session.builder.options.addressBits ≤ 64) (bound' : bits ≤ 64) {entry : Committed}
    (member : entry ∈ log.committed) : ∃ key,
      packKey session.builder.options.addressBits entry.partition entry.address = key ∧
      entry.place = keyPlace session.builder.options.addressBits key ∧
      (entry.recut session.builder.options.addressBits bits).place = keyPlace bits key ∧
      packKey bits (entry.recut session.builder.options.addressBits bits).partition
        (entry.recut session.builder.options.addressBits bits).address = key := by
  obtain ⟨integer, key, parts⟩ := ofKeys.committed entry member
  obtain ⟨partition, address⟩ := RecordRef.mk.inj parts
  have cut := RecordRef.recut_ofKey bound bits key
  rw [← parts] at cut
  have partition' := congrArg RecordRef.partition cut
  have address' := congrArg RecordRef.address cut
  refine ⟨key, ?_, ?_, ?_, ?_⟩
  · rw [partition, address]
    exact packKey_split bound key
  · rw [entry.place_of_integer integer, partition, address]
    rfl
  · rw [(entry.recut session.builder.options.addressBits bits).place_of_integer integer]
    exact congrArg toLex (Prod.ext (congrArg UInt64.toNat partition')
      (congrArg UInt64.toNat address'))
  · exact (congrArg₂ (packKey bits) partition' address').trans (packKey_split bound' key)

theorem Build.open_of_keyed (keyed : ∀ call ∈ build.calls, call.Keyed) :
    ∀ call ∈ build.calls, call ≠ .finish :=
  fun call member => (keyed call member).open_

/-- What is known of a keyed build after its calls. -/
theorem Build.ofKeys (keyed : ∀ call ∈ build.calls, call.Keyed) :
    Session.Tracks build.schema build.options build.session build.log ∧
      Session.OfKeys build.session build.log ∧
      build.session.builder.options.addressBits = build.options.addressBits := by
  have tracks := build.tracks (build.running_of_open (Build.open_of_keyed keyed))
  obtain ⟨-, -, -, ofKeys⟩ := @Build.recut_run build 0 (Nat.zero_le _) keyed
  exact ⟨tracks, ofKeys, congrArg BuildOptions.addressBits tracks.options⟩

/-- The records come in the order of their keys, on either cut. -/
theorem Build.recut_sorted (keyed : ∀ call ∈ build.calls, call.Keyed) :
    (build.recut bits bound').log.sorted =
      build.log.sorted.map (·.recut build.options.addressBits bits) := by
  obtain ⟨-, ofKeys, same⟩ := Build.ofKeys keyed
  obtain ⟨-, -, log, -⟩ := @Build.recut_run build bits bound' keyed
  have bound := build.addressBits_le
  rw [log]
  refine (List.map_insertionSort (fun first second : Committed => first.place ≤ second.place)
    (fun first second : Committed => first.place ≤ second.place)
    (·.recut build.options.addressBits bits) build.log.committed
    fun first inside second inside' => ?_).symm
  rw [← same] at bound ⊢
  obtain ⟨key, -, place, place', -⟩ := ofKeys.place bound bound' inside
  obtain ⟨key', -, otherPlace, otherPlace', -⟩ := ofKeys.place bound bound' inside'
  rw [place, place', otherPlace, otherPlace', ← not_lt, ← not_lt, ← keyPlace_lt bound,
    ← keyPlace_lt bound']

/-- So both builds hold the same keys. -/
theorem Build.recut_keys (keyed : ∀ call ∈ build.calls, call.Keyed) :
    (build.recut bits bound').keys = build.keys := by
  obtain ⟨-, ofKeys, same⟩ := Build.ofKeys keyed
  have bound := build.addressBits_le
  rw [Build.keys, Build.keys, Build.recut_sorted keyed, List.map_map]
  refine List.map_congr_left fun entry member => ?_
  rw [← same] at bound ⊢
  obtain ⟨key, packed, -, -, packed'⟩ := ofKeys.place bound bound' (Log.mem_sorted.mp member)
  exact packed'.trans packed.symm

end Builds

/-! ### Tables -/

section Tables

variable {build second : Build} {builder builder' : Builder} {places places' : Places}
  {table table' : Table} {bits : Nat} {bound' : bits ≤ 64}

theorem Opens.keys_sorted (opens : Opens build builder places table) (keyed : build.Keyed) :
    build.keys.Pairwise (· < ·) := by
  have bound := opens.built.addressBits
  rw [opens.built.options] at bound
  have sorted := opens.sorted_places
  have keys : build.log.sorted.map Committed.place =
      build.keys.map (keyPlace build.options.addressBits) := by
    rw [Build.keys, List.map_map]
    exact List.map_congr_left fun entry member =>
      (opens.place_of_keyed keyed (Log.mem_sorted.mp member)).2
  rw [keys, List.pairwise_map] at sorted
  simpa only [← keyPlace_lt bound] using sorted

/-- What is answered for keys of 64 bits is answered for their numbers. -/
theorem Lookup.Answers.toNat {lookup : Lookup} {keys : List UInt64} {key : UInt64} {n : Nat}
    (answers : lookup.Answers keys key keys[n]?) :
    lookup.Answers (keys.map UInt64.toNat) key.toNat (keys.map UInt64.toNat)[n]? := by
  have back : (keys.map UInt64.toNat).map UInt64.ofNat = keys := by
    rw [List.map_map]
    exact (List.map_congr_left fun key _ => UInt64.ofNat_toNat).trans (List.map_id keys)
  have number : ∀ first ∈ key.toNat :: keys.map UInt64.toNat,
      (UInt64.ofNat first).toNat = first := by
    intro first member
    rw [← List.map_cons] at member
    obtain ⟨key, -, rfl⟩ := List.mem_map.mp member
    rw [UInt64.ofNat_toNat]
  refine Lookup.Answers.of_map UInt64.ofNat (fun first member second member' => ?_)
    (fun first member same => ?_) (by rwa [back, UInt64.ofNat_toNat])
  · rw [UInt64.lt_iff_toNat_lt, number first member, number second member']
  · rw [← number first (List.mem_cons_of_mem _ member), same, UInt64.ofNat_toNat]

end Tables

/-- The sample keys, two to a partition of 40 bits. -/
def coarseBuild : Build := sampleBuild.recut 40 (by decide)

end Mmpack
