/-
This file embeds the core of `ipv4_routes.cpp`, the example program: it builds a table of
routes, with inline values or with interned ones, and adds up what a list of queries
finds in it. The sum is one of the routes alone, so the program sees the same whichever
way its table was built.

Files are parameters here, as sinks have them: the output as `fopen` gave it, and what
was mapped from it later.
-/

import Mmpack.Crowded
import Mmpack.Outputs
import Mmpack.Served

namespace Mmpack

open ByteList Checked Cursor SortedMap

/-! ### The program -/

/-- A `route`. -/
structure Route where
  /-- The IPv4 address. -/
  key : UInt32
  nextHop : UInt32
  asn : UInt32
  metric : UInt32
  interface : List UInt8
  region : List UInt8
  deriving DecidableEq, Repr

structure FieldIds where
  nextHop : Nat
  asn : Nat
  metric : Nat
  interface : Nat
  region : Nat
  deriving DecidableEq, Repr

/-- What ends `build`: the output does not open, or the library throws. -/
inductive RouteError
  | cannotOpenOutput
  | library (thrown : Thrown)
  deriving DecidableEq, Repr

namespace Routes

def declareFields : Except BuildError (FieldIds × SchemaBuilder) := do
  let (schema, nextHop) ← SchemaBuilder.empty.addUint (text "next_hop")
  let (schema, asn) ← schema.addUint (text "asn")
  let (schema, metric) ← schema.addUint (text "metric")
  let (schema, interface) ← schema.addText (text "interface")
  let (schema, region) ← schema.addText (text "region")
  return ({ nextHop, asn, metric, interface, region }, schema)

/-- A /16 network selects the partition. -/
def options (policy : InterningPolicy) : BuildOptions :=
  { BuildOptions.default with addressBits := 16, valueInterning := policy }

def addRoute (ids : FieldIds) (route : Route) (builder : Builder) : Outcome Unit :=
  Builder.andThen (builder.beginRecord route.key.toUInt64) fun rec builder =>
  Builder.andThen (builder.setUint ids.nextHop route.nextHop.toUInt64) fun _ builder =>
  Builder.andThen (builder.setUint ids.asn route.asn.toUInt64) fun _ builder =>
  Builder.andThen (builder.setUint ids.metric route.metric.toUInt64) fun _ builder =>
  Builder.andThen (builder.setText ids.interface route.interface) fun _ builder =>
  Builder.andThen (builder.setText ids.region route.region) fun _ builder =>
  builder.commit rec

def addRoutes (ids : FieldIds) : List Route → Builder → Outcome Unit
  | [], builder => (.ok (), builder)
  | route :: rest, builder =>
    Builder.andThen (addRoute ids route builder) fun _ builder => addRoutes ids rest builder

/-- `build`: the ids of the fields, the report, and the file written. -/
def build {File : Type} (stdio : Stdio File) (output : Option File) (routes : List Route)
    (policy : InterningPolicy) : Except RouteError (FieldIds × BuildReport × File) := do
  let (ids, schema) ← declareFields.mapError fun error => .library (.build error)
  let file ← match output with
    | some file => pure file
    | none => throw .cannotOpenOutput
  let builder ← (Builder.make schema (options policy)).mapError fun error => .library (.build error)
  let (added, builder) := addRoutes ids routes builder
  added.mapError fun error => .library (.build error)
  let delivered := finishInto (stdioSink stdio) file builder
  let report ← delivered.outcome.mapError .library
  return (ids, report, delivered.state)

/-- `measure`, without the clock: the sum over some queries. -/
def measure (table : Table) (ids : FieldIds) (sum : UInt64) : List UInt64 → Read UInt64
  | [] => pure sum
  | query :: rest => do
    let it ← table.lowerBound query.toNat
    if it ≠ table.end then
      let nextHop ← table.uint it ids.nextHop
      measure table ids (sum + nextHop.getD 0) rest
    else measure table ids sum rest

/-! ### The fields -/

/-- The ids the fields get, in the order they are declared in. -/
def fieldIds : FieldIds := ⟨0, 1, 2, 3, 4⟩

def fields : List FieldDecl :=
  [⟨text "next_hop", .uint, 0⟩, ⟨text "asn", .uint, 0⟩, ⟨text "metric", .uint, 0⟩,
    ⟨text "interface", .text, 0⟩, ⟨text "region", .text, 0⟩]

theorem declareFields_eq :
    ∃ schema, declareFields = .ok (fieldIds, schema) ∧ schema.fields = fields := ⟨_, rfl, rfl⟩

/-! ### Adding routes -/

/-- The route as a record. -/
def record (ids : FieldIds) (route : Route) : KeyedRecord UInt64 where
  key := route.key.toUInt64
  sets :=
    [(ids.nextHop, .uint route.nextHop.toUInt64), (ids.asn, .uint route.asn.toUInt64),
      (ids.metric, .uint route.metric.toUInt64), (ids.interface, .text route.interface),
      (ids.region, .text route.region)]

theorem andThen_assoc {First Second Third : Type} (outcome : Outcome First)
    (next : First → Builder → Outcome Second) (last : Second → Builder → Outcome Third) :
    Builder.andThen (Builder.andThen outcome next) last =
      Builder.andThen outcome fun first builder => Builder.andThen (next first builder) last := by
  obtain ⟨result, builder⟩ := outcome
  cases result <;> rfl

theorem addRoute_eq (ids : FieldIds) (route : Route) (builder : Builder) :
    addRoute ids route builder = Builder.addRecord (record ids route) builder := by
  simp only [addRoute, Builder.addRecord, record, Builder.setEach, andThen_assoc]
  rfl

theorem addRoutes_eq (ids : FieldIds) (routes : List Route) (builder : Builder) :
    addRoutes ids routes builder = Builder.addRecords (routes.map (record ids)) builder := by
  induction routes generalizing builder with
  | nil => rfl
  | cons route rest inductionHypothesis =>
    rw [addRoutes, List.map_cons, Builder.addRecords, addRoute_eq]
    congr 1
    funext _ builder
    exact inductionHypothesis builder

/-! ### Measuring -/

/-- The first route at or above an address. -/
def next (routes : List Route) (query : UInt64) : Option Route :=
  routes.find? fun route => decide (¬ route.key.toUInt64 < query)

/-- The sum over some queries, told from the routes. -/
def checksum (routes : List Route) (sum : UInt64) (queries : List UInt64) : UInt64 :=
  queries.foldl (fun sum query =>
    sum + ((next routes query).map (·.nextHop.toUInt64)).getD 0) sum

/-- What `measure` adds up in a table that serves the routes. -/
theorem measure_eq {table : Table} {routes : List Route}
    (serves : table.Serves (routes.map (record fieldIds))) (sum : UInt64) (queries : List UInt64) :
    measure table fieldIds sum queries = .ok (checksum routes sum queries) := by
  induction queries generalizing sum with
  | nil => rfl
  | cons query rest inductionHypothesis =>
    have keys : (routes.map (record fieldIds)).map (·.key) = routes.map (·.key.toUInt64) := by
      rw [List.map_map]
      rfl
    obtain ⟨n, inside, runs, answers⟩ := serves.lookups .lowerBound query
    have sorted := serves.sorted
    rw [keys] at answers sorted
    have found : next routes query = routes[n]? := Least.find?_eq sorted answers
    have runs : table.lowerBound query.toNat = table.nth n := runs
    rw [measure, runs, checksum, List.foldl_cons, found]
    cases located : routes[n]? with
    | none =>
      have length : n = (routes.map (record fieldIds)).length := by
        have past := List.getElem?_eq_none_iff.mp located
        rw [List.length_map] at inside ⊢
        omega
      rw [length, serves.finish, ok_bind, if_neg (not_not.mpr rfl), inductionHypothesis]
      exact congrArg (fun sum => Except.ok (checksum routes sum rest)) (UInt64.add_zero sum).symm
    | some route =>
      have given : (routes.map (record fieldIds))[n]? = some (record fieldIds route) := by
        rw [List.getElem?_map, located]
        rfl
      obtain ⟨it, steps, more, -, readings⟩ := serves.record n _ given
      have nextHop : table.uint it fieldIds.nextHop = .ok (some route.nextHop.toUInt64) :=
        congrArg Readings.uint (readings 0 (.uint route.nextHop.toUInt64) rfl)
      rw [steps, ok_bind, if_pos more, nextHop, ok_bind, inductionHypothesis]
      rfl

/-! ### Routes as records -/

theorem suits {schema : SchemaBuilder} (declared : schema.fields = fields) {routes : List Route} :
    ∀ given ∈ routes.map (record fieldIds), Suits schema given.sets := by
  intro given member
  obtain ⟨route, -, rfl⟩ := List.mem_map.mp member
  intro set member
  rw [declared]
  simp only [record, List.mem_cons, List.not_mem_nil, or_false] at member
  rcases member with rfl | rfl | rfl | rfl | rfl <;> exact ⟨_, rfl, rfl⟩

/-- The bytes of the texts that are set. -/
theorem textBytes_routes (routes : List Route) (id : Nat) :
    textBytes ((routes.map (record fieldIds)).flatMap (·.sets)) id =
      (if id = 3 then (routes.map (·.interface.length)).sum else 0) +
        if id = 4 then (routes.map (·.region.length)).sum else 0 := by
  induction routes with
  | nil => simp [textBytes]
  | cons route rest inductionHypothesis =>
    have one : textBytes (record fieldIds route).sets id =
        (if id = 3 then route.interface.length else 0) +
          if id = 4 then route.region.length else 0 := by
      simp only [textBytes, record, fieldIds, List.map_cons, List.map_nil, List.sum_cons,
        List.sum_nil, Builder.FieldValue.textLength, ite_self, Nat.zero_add, Nat.add_zero,
        @eq_comm _ 3 id, @eq_comm _ 4 id]
    rw [List.map_cons, List.flatMap_cons, textBytes_append, inductionHypothesis, one,
      List.map_cons, List.map_cons, List.sum_cons, List.sum_cons]
    split <;> split <;> omega

theorem roomy {routes : List Route} (interfaces : (routes.map (·.interface.length)).sum < 2 ^ 32)
    (regions : (routes.map (·.region.length)).sum < 2 ^ 32) :
    Roomy ((routes.map (record fieldIds)).flatMap (·.sets)) := by
  intro id
  rw [textBytes_routes]
  split <;> split <;> omega

theorem calls_length (handle : Nat) (routes : List Route) :
    (recordCalls handle (routes.map (record fieldIds))).length = 7 * routes.length := by
  induction routes generalizing handle with
  | nil => rfl
  | cons route rest inductionHypothesis =>
    rw [List.map_cons, recordCalls, List.length_append, inductionHypothesis, List.length_cons,
      Nat.mul_succ, Nat.add_comm]
    rfl

/-- Addresses are in order as keys. -/
theorem keys_sorted_iff (routes : List Route) :
    ((routes.map (record fieldIds)).map (·.key)).Pairwise (· < ·) ↔
      (routes.map (·.key)).Pairwise (· < ·) := by
  rw [List.map_map, List.pairwise_map, List.pairwise_map]
  refine List.Pairwise.iff fun first second => ?_
  rw [UInt32.lt_iff_toNat_lt, ← UInt32.toNat_toUInt64, ← UInt32.toNat_toUInt64]
  exact UInt64.lt_iff_toNat_lt

/-! ### Whole runs -/

section Runs

variable {File : Type} {stdio : Stdio File} {file : File} {routes : List Route}
  {policy : InterningPolicy} {schema : SchemaBuilder} {fresh : Builder}

theorem build_eq (declared : declareFields = .ok (fieldIds, schema))
    (made : Builder.make schema (options policy) = .ok fresh) :
    build stdio (some file) routes policy =
      match (addRoutes fieldIds routes fresh).1 with
      | .error error => .error (.library (.build error))
      | .ok _ =>
        let delivered := finishInto (stdioSink stdio) file (addRoutes fieldIds routes fresh).2
        match delivered.outcome with
        | .error thrown => .error (.library thrown)
        | .ok report => .ok (fieldIds, report, delivered.state) := by
  simp only [build, declared, made, Except.mapError, bind, Except.bind, pure, Except.pure]
  cases (addRoutes fieldIds routes fresh).1 with
  | error error => rfl
  | ok _ =>
    simp only
    cases (finishInto (stdioSink stdio) file (addRoutes fieldIds routes fresh).2).outcome <;> rfl

/-- What `build` returns comes from the report of `finish`, and from what it left in the file. -/
theorem build_ok_iff (declared : declareFields = .ok (fieldIds, schema))
    (made : Builder.make schema (options policy) = .ok fresh) {ids : FieldIds}
    {report : BuildReport} {written : File} :
    build stdio (some file) routes policy = .ok (ids, report, written) ↔
      ids = fieldIds ∧ (addRoutes fieldIds routes fresh).1 = .ok () ∧
        (finishInto (stdioSink stdio) file (addRoutes fieldIds routes fresh).2).outcome =
          .ok report ∧
        (finishInto (stdioSink stdio) file (addRoutes fieldIds routes fresh).2).state =
          written := by
  rw [build_eq declared made]
  cases added : (addRoutes fieldIds routes fresh).1 with
  | error error => simp
  | ok _ =>
    simp only [true_and]
    cases finished : (finishInto (stdioSink stdio) file
      (addRoutes fieldIds routes fresh).2).outcome with
    | error thrown => simp
    | ok other =>
      simp only [Except.ok.injEq, Prod.mk.injEq]
      exact and_congr_left' eq_comm

/-- Routes are all taken where their addresses are in order. -/
theorem addRoutes_returns_iff (fieldsEq : schema.fields = fields)
    (made : Builder.make schema (options policy) = .ok fresh)
    (interfaces : (routes.map (·.interface.length)).sum < 2 ^ 32)
    (regions : (routes.map (·.region.length)).sum < 2 ^ 32) :
    (addRoutes fieldIds routes fresh).1 = .ok () ↔ (routes.map (·.key)).Pairwise (· < ·) := by
  rw [addRoutes_eq, ← keys_sorted_iff]
  rcases addRecords_outcome made (suits fieldsEq) (roomy interfaces regions) with
    ⟨sorted, returned⟩ | ⟨taken, last, rest, split, -, -, below, thrown⟩
  · exact iff_of_true returned (sorted rfl)
  · refine iff_of_false (fun returned => ?_) fun sorted => below fun other member => ?_
    · rw [returned] at thrown
      cases thrown
    · rw [split, List.pairwise_map] at sorted
      exact (List.pairwise_append.mp sorted).2.2 other member last List.mem_cons_self

/-- Their image opens as a table of the routes. -/
theorem image_serves (fieldsEq : schema.fields = fields)
    (made : Builder.make schema (options policy) = .ok fresh)
    (few : (recordCalls 0 (routes.map (record fieldIds))).length < 2 ^ 64)
    (returned : (addRoutes fieldIds routes fresh).1 = .ok ())
    (sorted : (routes.map (·.key)).Pairwise (· < ·)) {report : BuildReport}
    (finished : (finish (addRoutes fieldIds routes fresh).2).outcome = .ok report) {image : Image}
    (same : image.bytes = (finish (addRoutes fieldIds routes fresh).2).image) :
    ∃ table, Table.tryOpen (some image) = pure table ∧
      table.Serves (routes.map (record fieldIds)) := by
  rw [addRoutes_eq] at returned finished same
  obtain ⟨builder, -⟩ := @Build.ofRecords_reaches _ _ _ _ made few returned
  rw [← builder] at finished same
  obtain ⟨partitions, -, built⟩ := Build.finishes _ finished
  have fit := @Build.ofRecords_spansFit _ _ _ _ made few
  have width := Build.addressWidth_fits finished fit built
  have packed : (Build.ofRecords made (routes.map (record fieldIds)) few).finished.builder.options =
      options policy := built.options
  have declared : (Build.ofRecords made (routes.map (record fieldIds))
      few).finished.builder.schema.fields = fields :=
    (congrArg SchemaBuilder.fields built.schema).trans fieldsEq
  have tuple := built.packed_tupleSize_le (by rw [packed]; rfl)
  rw [declared] at tuple
  have short : 8 * fields.length < 2 ^ 31 := by decide
  have texts : schema.fields.countP (·.kind = .text) ≤ 65536 := by
    rw [fieldsEq]
    decide
  have sizes : (Build.ofRecords made (routes.map (record fieldIds)) few).SizesFit report := by
    refine ⟨?_, by omega, fun _ => ?_⟩
    · show (nameBlob schema.fields).length < 2 ^ 32
      rw [fieldsEq]
      decide +kernel
    · rw [(Build.report_layout finished).2]
      omega
  obtain ⟨table, opened⟩ := (Build.opens_iff finished same fit).mpr sizes
  obtain ⟨places, opens⟩ := Build.opens _ finished same opened
  have serves := Build.ofRecords_serves returned opens texts
  rw [inKeyOrder_eq_self ((keys_sorted_iff routes).mpr sorted)] at serves
  exact ⟨table, opened, serves⟩

theorem exists_made (policy : InterningPolicy) : ∃ schema fresh,
    declareFields = .ok (fieldIds, schema) ∧ schema.fields = fields ∧
      Builder.make schema (options policy) = .ok fresh := by
  obtain ⟨schema, declared, fieldsEq⟩ := declareFields_eq
  have some : schema.fields ≠ [] := by
    rw [fieldsEq]
    decide
  have bits : ¬ 64 < (options policy).addressBits := Nat.not_lt.mpr (by decide : 16 ≤ 64)
  refine ⟨schema, Builder.blank schema (options policy), declared, fieldsEq, ?_⟩
  rw [Builder.make, if_neg some, if_neg bits]
  rfl

/-- `build` returns on routes in order of their addresses and on no others, where the file takes all
that is written; and the file opens then as a table in which `measure` adds up what it is to,
whatever the policy. -/
theorem build_measures (few : routes.length < 2 ^ 32)
    (interfaces : (routes.map (·.interface.length)).sum < 2 ^ 32)
    (regions : (routes.map (·.region.length)).sum < 2 ^ 32) (empty : stdio.content file = []) :
    ((∀ file data, (stdio.fwrite file data).1 = data.length) →
      ((∃ result, build stdio (some file) routes policy = .ok result) ↔
        (routes.map (·.key)).Pairwise (· < ·))) ∧
    ∀ ids report written (image : Image),
      build stdio (some file) routes policy = .ok (ids, report, written) →
      image.bytes = stdio.content written → ∃ table, Table.tryOpen (some image) = pure table ∧
        table.size = routes.length ∧
        ∀ queries, measure table ids 0 queries = .ok (checksum routes 0 queries) := by
  obtain ⟨schema, fresh, declared, fieldsEq, made⟩ := exists_made policy
  have calls : (recordCalls 0 (routes.map (record fieldIds))).length < 2 ^ 64 := by
    rw [calls_length]
    omega
  have added := addRoutes_returns_iff fieldsEq made interfaces regions
  refine ⟨fun takes => ⟨?_, fun sorted => ?_⟩, fun ids report written image built same => ?_⟩
  · rintro ⟨⟨ids, report, written⟩, built⟩
    exact added.mp ((build_ok_iff declared made).mp built).2.1
  · have returned := added.mpr sorted
    have distinct : ((routes.map (record fieldIds)).map (·.key)).Nodup := by
      refine ((keys_sorted_iff routes).mpr sorted).imp fun less same => ?_
      rw [same] at less
      exact UInt64.lt_irrefl _ less
    obtain ⟨report, finished⟩ := (Build.ofRecords_returns made calls
      (addRoutes_eq _ _ _ ▸ returned) (fun _ => (keys_sorted_iff routes).mpr sorted)
      (Or.inr (by rwa [List.length_map]))).mpr distinct
    rw [← addRoutes_eq] at finished
    refine ⟨(fieldIds, report, _), (build_ok_iff declared made).mpr ⟨rfl, returned, ?_, rfl⟩⟩
    rw [finishInto_of_accepts (stdioSink_accepts takes), finished]
    rfl
  · obtain ⟨rfl, returned, finished, rfl⟩ := (build_ok_iff declared made).mp built
    have sorted := added.mp returned
    have delivers := finishInto_delivers_of_appends (stdioSink_appends stdio)
      (stdioSink_cuts stdio) file (addRoutes fieldIds routes fresh).2
    obtain ⟨accepted, whole⟩ := finishInto_returned finished
    obtain ⟨-, content⟩ := delivers.whole accepted
    rw [empty, List.nil_append] at content
    obtain ⟨table, opened, serves⟩ :=
      image_serves fieldsEq made calls returned sorted whole (same.trans content)
    exact ⟨table, opened, serves.size.trans (List.length_map _), measure_eq serves 0⟩

end Runs

/-- A stream into memory, which takes all it is given. -/
def memoryStdio : Stdio (List UInt8) where
  fwrite file data := (data.length, file ++ data)
  content := id
  taken_le _ _ := Nat.le_refl _
  appends _ data := by rw [List.take_length]; rfl

/-- Two networks. The first two routes lead the same way. -/
def sampleRoutes : List Route :=
  [⟨0x0a000001, 0x0a0000fe, 64500, 10, text "eth0", text "us-east"⟩,
    ⟨0x0a000002, 0x0a0000fe, 64500, 10, text "eth0", text "us-east"⟩,
    ⟨0x0b000001, 0x0a0000ff, 64501, 11, text "wg0", text "eu-central"⟩]

def sampleQueries : List UInt64 := [0x0a000002, 0x0a0000ff, 0x0c000000]

theorem sample_build_measures : ∃ ids report written,
    build memoryStdio (some []) sampleRoutes .always = .ok (ids, report, written) ∧
      ∃ (image : Image) (table : Table), image.bytes = written ∧
        Table.tryOpen (some image) = pure table ∧
        measure table ids 0 sampleQueries = .ok 0x140001fd := by
  obtain ⟨returns, measures⟩ := @build_measures _ memoryStdio [] sampleRoutes .always (by decide)
    (by decide +kernel) (by decide +kernel) rfl
  obtain ⟨⟨ids, report, written⟩, built⟩ := (returns fun _ _ => rfl).mpr (by decide)
  have short : ((build memoryStdio (some []) sampleRoutes .always).toOption.all fun result =>
      decide (result.2.2.length < 2 ^ 64)) = true := by decide +kernel
  rw [built] at short
  obtain ⟨table, opened, -, sums⟩ :=
    measures ids report written ⟨written, of_decide_eq_true short⟩ built rfl
  exact ⟨ids, report, written, built, _, table, rfl, opened, sums sampleQueries⟩

end Routes

end Mmpack
