import PdfBridge.Foundation.Binary64
import PdfBridge.Foundation.HexText
import PdfBridge.Services.VectorIndex

/-! Verification of the stored points of one document: one exact count and one retrieval by
identity together decide whether a collection holds exactly a prepared batch. -/
namespace PdfBridge
namespace PointVerification

/-! ### Values -/

inductive Double where
  | finite (x : Binary64)
  | infinite (negative : Bool)
  | nan
deriving DecidableEq

/-- `a == b` of two floats. -/
def Double.equal : Double → Double → Bool
  | .finite x, .finite y => x = y
  | .infinite m, .infinite n => m = n
  | _, _ => false

/-- `float(n)`; an integer outside the range of a double overflows. -/
@[irreducible] def floatOfInt (n : ℤ) : Option Binary64 := Binary64.ofRat? n

/-- A JSON value as Python holds it. Of two entries with one key the first is seen. -/
inductive Value where
  | null
  | bool (b : Bool)
  | int (n : ℤ)
  | float (x : Double)
  | str (s : String)
  | list (items : List Value)
  | dict (entries : List (String × Value))

abbrev Entries := List (String × Value)

def sameKeys {α β : Type} (a : List (String × α)) (b : List (String × β)) : Bool :=
  (a.all fun x => (b.map (·.1)).contains x.1) && b.all fun x => (a.map (·.1)).contains x.1

mutual

/-- `_exact_payload_matches(actual, expected)`. -/
def exactPayloadMatches : Value → Value → Bool
  | .dict actual, .dict expected => sameKeys actual expected && entriesMatch actual expected
  | .list actual, .list expected => itemsMatch actual expected
  | .null, .null => true
  | .bool a, .bool b => a = b
  | .int a, .int b => a = b
  | .float a, .float b => a.equal b
  | .str a, .str b => a = b
  | _, _ => false

def entriesMatch (actual : Entries) : Entries → Bool
  | [] => true
  | (key,value) :: rest =>
      (match actual.lookup key with
        | some a => exactPayloadMatches a value
        | none => false) && entriesMatch actual rest

def itemsMatch : List Value → List Value → Bool
  | [], [] => true
  | a :: actual, b :: expected => exactPayloadMatches a b && itemsMatch actual expected
  | _, _ => false

end

/-! ### Prepared points -/

structure SparseVector where
  indices : List ℤ
  values : List Value

/-- One prepared chunk with its vectors, before any check. -/
structure ChunkPoint where
  chunkId : Uuid
  documentId : Uuid
  preparedRevisionId : Uuid
  collectionKey : String
  activeQdrantCollection : String
  chunkIndex : ℤ
  pageStart : ℤ
  pageEnd : ℤ
  headingPath : List String
  textSha256 : String
  markdown : String
  contentProfileId : String
  indexProfileId : String
  dense : List Value
  sparse : SparseVector

/-- `float(item)` of a number that is not a boolean; `math.isfinite` raises where the conversion
overflows. -/
def finiteNumber : Value → Outcome (Option Binary64)
  | .int n =>
      match floatOfInt n with
      | some x => pure (some x)
      | none => .error (.value "int too large to convert to float")
  | .float (.finite x) => pure (some x)
  | _ => pure none

/-- The floats of a sequence in which each item is a finite number. -/
def finiteNumbers : List Value → Outcome (Option (List Binary64))
  | [] => pure (some [])
  | v :: vs => do
      match ← finiteNumber v with
      | none => pure none
      | some x =>
          let xs ← finiteNumbers vs
          pure (xs.map (x :: ·))

def validatePoint (point : ChunkPoint) : Outcome Unit := do
  require (point.dense.length = denseDimension)
    (consistencyError "prepared dense vector must be finite and 768-dimensional")
  let dense ← finiteNumbers point.dense
  require (dense.isSome)
    (consistencyError "prepared dense vector must be finite and 768-dimensional")
  require (point.sparse.indices ≠ [] ∧
      point.sparse.indices.length = point.sparse.values.length ∧
      point.sparse.indices.Nodup ∧ ∀ i ∈ point.sparse.indices, 0 ≤ i)
    (consistencyError "prepared BM25 vector is empty or uncorrelated")
  let values ← finiteNumbers point.sparse.values
  require (values.isSome)
    (consistencyError "prepared BM25 vector is empty or uncorrelated")
  require (Preparation.isBlank point.markdown = false)
    (consistencyError "prepared point Markdown cannot be empty")

section
variable (str : Uuid ↪ String)

def pointPayload (point : ChunkPoint) (published : Bool) (visibility : String) : Entries :=
  [("schema_version",.int 2),
    ("document_id",.str (str point.documentId)),
    ("prepared_revision_id",.str (str point.preparedRevisionId)),
    ("collection_key",.str point.collectionKey),
    ("active_qdrant_collection",.str point.activeQdrantCollection),
    ("chunk_id",.str (str point.chunkId)),
    ("chunk_index",.int point.chunkIndex),
    ("page_start",.int point.pageStart),
    ("page_end",.int point.pageEnd),
    ("heading_path",.list (point.headingPath.map .str)),
    ("text_sha256",.str point.textSha256),
    ("markdown",.str point.markdown),
    ("content_profile_id",.str point.contentProfileId),
    ("index_profile_id",.str point.indexProfileId),
    ("published",.bool published),
    ("visibility",.str visibility)]

/-! ### The collection -/

/-- Qdrant identifies points by numbers and by UUIDs. -/
inductive PointId where
  | num (n : ℕ)
  | uuid (u : Uuid)
deriving DecidableEq

def PointId.render : PointId → String
  | .num n => toString n
  | .uuid u => str u

inductive VectorValue where
  | value (v : Value)
  | sparse (indices values : Value)

inductive Vectors where
  | unnamed (v : Value)
  | named (entries : List (String × VectorValue))

/-- A stored point, with the vectors it has under the names `dense` and `bm25`. -/
structure StoredPoint where
  id : PointId
  payload : Value
  vector : Vectors

def StoredPoint.field (s : StoredPoint) (key : String) : Option Value :=
  match s.payload with
  | .dict entries => entries.lookup key
  | _ => none

/-- Qdrant with exact answers: keyword matching of strings is equality, a retrieval by distinct
identities returns the points with these identities, in any order. -/
structure Client where
  content : String → Table StoredPoint.id
  matchValue : Value → String → Bool
  matchValue_str : ∀ s t, matchValue (.str s) t = decide (s = t)
  retrieve : String → List PointId → List StoredPoint
  retrieve_perm : ∀ c ids, ids.Nodup →
    (retrieve c ids).Perm ((content c).rows.filter fun s => s.id ∈ ids)

variable (client : Client)

/-- `_document_filter` with the conditions that counting uses. -/
def documentFilter (documentId : Uuid) (preparedRevisionId : Option Uuid) (s : StoredPoint) :
    Bool :=
  ((s.field "document_id").any fun v => client.matchValue v (str documentId)) &&
  preparedRevisionId.all fun r =>
    (s.field "prepared_revision_id").any fun v => client.matchValue v (str r)

def countDocumentPoints (collection : String) (documentId : Uuid)
    (preparedRevisionId : Option Uuid) : ℕ :=
  (client.content collection).rows.countP (documentFilter str client documentId preparedRevisionId)

/-! ### Verification -/

/-- `_finite_numeric_sequence(value, length=length)`. -/
def finiteNumericSequence (value : Value) (length : ℕ) : Outcome (Option (List Binary64)) :=
  match value with
  | .list items => if items.length = length then finiteNumbers items else pure none
  | _ => pure none

def naturalIndices : List Value → Option (List ℤ)
  | [] => some []
  | .int n :: vs => if 0 ≤ n then (naturalIndices vs).map (n :: ·) else none
  | _ => none

def sparseMatches (indices values : Value) (expected : ChunkPoint) : Outcome Bool :=
  match indices with
  | .list items =>
      match naturalIndices items with
      | none => pure false
      | some indices => do
          let actual ← finiteNumericSequence values expected.sparse.values.length
          let wanted ← finiteNumbers expected.sparse.values
          pure (indices = expected.sparse.indices ∧ actual.isSome ∧ actual = wanted)
  | _ => pure false

/-- `_finite_numeric_sequence(actual[DENSE_VECTOR_NAME], length=DENSE_DIMENSION)`. -/
def denseSequence (entries : List (String × VectorValue)) : Outcome (Option (List Binary64)) :=
  match entries.lookup "dense" with
  | some (.value v) => finiteNumericSequence v denseDimension
  | _ => pure none

/-- `_vectors_match(actual, expected)`; only a sparse vector has indices and values. -/
def vectorsMatch (actual : Vectors) (expected : ChunkPoint) : Outcome Bool :=
  match actual with
  | .unnamed _ => pure false
  | .named entries =>
      if sameKeys entries [("dense",()),("bm25",())] then do
        let dense ← denseSequence entries
        let wanted ← finiteNumbers expected.dense
        if dense.isSome ∧ dense = wanted then
          match entries.lookup "bm25" with
          | some (.sparse indices values) => sparseMatches indices values expected
          | _ => pure false
        else pure false
      else pure false

/-- The loop that fills `expected_by_id`. -/
def expectPoints : List (String × ChunkPoint) → List ChunkPoint →
    Outcome (List (String × ChunkPoint))
  | expectedById, [] => pure expectedById
  | expectedById, point :: points => do
      validatePoint point
      let pointId := str point.chunkId
      require (pointId ∉ expectedById.map (·.1))
        (consistencyError "point batch contains a duplicate chunk identity")
      expectPoints ((pointId,point) :: expectedById) points

/-- The loop over the retrieved records; returns `seen_ids`. -/
def compareRecords (expectedById : List (String × ChunkPoint)) (published : Bool)
    (visibility : String) : List String → List StoredPoint → Outcome (List String)
  | seenIds, [] => pure seenIds
  | seenIds, record :: records => do
      let recordId := record.id.render str
      let expected ← orRaise (expectedById.lookup recordId)
        (consistencyError "Qdrant returned a foreign or duplicate point")
      require (recordId ∉ seenIds)
        (consistencyError "Qdrant returned a foreign or duplicate point")
      require (exactPayloadMatches record.payload
          (.dict (pointPayload str expected published visibility)) = true)
        (consistencyError "Qdrant point payload does not exactly match its prepared chunk")
      let same ← vectorsMatch record.vector expected
      require (same = true)
        (consistencyError "Qdrant point vectors do not exactly match their prepared values")
      compareRecords expectedById published visibility (recordId :: seenIds) records

def verifyPreparedPoints (collection : String) (points : List ChunkPoint) (published : Bool)
    (visibility : String) : Outcome Unit := do
  let first ← orRaise points.head? (consistencyError "cannot verify an empty prepared revision")
  require (∀ p ∈ points, p.documentId = first.documentId ∧
      p.preparedRevisionId = first.preparedRevisionId)
    (consistencyError "point batch mixes document or revision identities")
  let expectedById ← expectPoints str [] points
  let total := countDocumentPoints str client collection first.documentId none
  require (total = points.length)
    (consistencyError s!"expected {points.length} document points in '{collection}', found {total}")
  let records := client.retrieve collection (points.map fun p => .uuid p.chunkId)
  require (records.length = expectedById.length)
    (consistencyError "Qdrant did not return every deterministic point ID")
  let seenIds ← compareRecords str expectedById published visibility [] records
  let expectedIds := expectedById.map fun x => x.1
  require ((∀ id ∈ seenIds, id ∈ expectedIds) ∧ ∀ id ∈ expectedIds, id ∈ seenIds)
    (consistencyError "Qdrant point identities were incomplete")

/-! ### What a verified collection holds -/

/-- `float(v)` is `x` for a finite number `v`. -/
inductive IsFloat : Value → Binary64 → Prop
  | int {n : ℤ} {x : Binary64} (h : floatOfInt n = some x) : IsFloat (.int n) x
  | float (x : Binary64) : IsFloat (.float (.finite x)) x

def Floats (vs : List Value) (xs : List Binary64) : Prop := List.Forall₂ IsFloat vs xs

/-- Two vectors of finite numbers with the same floats. -/
def SameNumbers (vs ws : List Value) : Prop := ∃ xs, Floats vs xs ∧ Floats ws xs

structure ValidPoint (p : ChunkPoint) : Prop where
  dimension : p.dense.length = denseDimension
  dense : ∃ xs, Floats p.dense xs
  nonempty : p.sparse.indices ≠ []
  correlated : p.sparse.indices.length = p.sparse.values.length
  distinct : p.sparse.indices.Nodup
  natural : ∀ i ∈ p.sparse.indices, 0 ≤ i
  values : ∃ xs, Floats p.sparse.values xs
  markdown : Preparation.isBlank p.markdown = false

/-- A batch of one revision of one document, valid and without duplicate identities. -/
structure ValidBatch (documentId : Uuid) (points : List ChunkPoint) : Prop where
  document : ∀ p ∈ points, p.documentId = documentId
  revision : ∀ p ∈ points, ∀ q ∈ points, p.preparedRevisionId = q.preparedRevisionId
  valid : ∀ p ∈ points, ValidPoint p
  distinct : (points.map (·.chunkId)).Nodup

/-- The payload has exactly the expected fields, each with the expected JSON value. -/
def SamePayload (payload : Value) (expected : Entries) : Prop :=
  ∃ entries, payload = .dict entries ∧ ∀ key, entries.lookup key = expected.lookup key

/-- The vectors are exactly a dense and a sparse one with the numbers of the chunk. -/
def SameVectors (vector : Vectors) (p : ChunkPoint) : Prop :=
  ∃ entries dense values, vector = .named entries ∧
    (∀ x ∈ entries, x.1 = "dense" ∨ x.1 = "bm25") ∧
    entries.lookup "dense" = some (.value (.list dense)) ∧ SameNumbers dense p.dense ∧
    entries.lookup "bm25" = some (.sparse (.list (p.sparse.indices.map .int)) (.list values)) ∧
    SameNumbers values p.sparse.values

/-- A stored point is the copy of a prepared one. -/
structure IsCopy (published : Bool) (visibility : String) (s : StoredPoint) (p : ChunkPoint) :
    Prop where
  id : s.id = .uuid p.chunkId
  payload : SamePayload s.payload (pointPayload str p published visibility)
  vector : SameVectors s.vector p

/-- The points of the document in the collection are exactly the copies of the batch. -/
structure HoldsExactly (collection : String) (documentId : Uuid) (points : List ChunkPoint)
    (published : Bool) (visibility : String) : Prop where
  sound : ∀ s ∈ client.content collection, documentFilter str client documentId none s = true →
    ∃ p ∈ points, IsCopy str published visibility s p
  complete : ∀ p ∈ points, ∃ s ∈ client.content collection,
    documentFilter str client documentId none s = true ∧ IsCopy str published visibility s p

end

/-! ### The comparisons -/

theorem lookup_eq_some_of_mem {α : Type} {xs : List (String × α)} {k : String} {a : α}
    (hn : (xs.map (·.1)).Nodup) (h : (k,a) ∈ xs) : xs.lookup k = some a := by
  induction xs with
  | nil => simp at h
  | cons x xs ih =>
    obtain ⟨hx,hn⟩ := List.nodup_cons.1 hn
    rcases List.mem_cons.1 h with rfl | h
    · simp
    · have hk : k ≠ x.1 := by
        rintro rfl
        exact hx (List.mem_map.2 ⟨_,h,rfl⟩)
      rw [List.lookup_cons, beq_eq_false_iff_ne.2 hk]
      exact ih hn h

theorem mem_of_lookup {α : Type} {xs : List (String × α)} {k : String} {a : α}
    (h : xs.lookup k = some a) : (k,a) ∈ xs := by
  induction xs with
  | nil => simp at h
  | cons x xs ih =>
    rw [List.lookup_cons] at h
    split at h
    · rename_i hk
      cases h
      rw [beq_iff_eq.1 hk]
      exact List.mem_cons_self
    · exact List.mem_cons_of_mem x (ih h)

theorem lookup_isSome_iff {α : Type} {xs : List (String × α)} {k : String} :
    (xs.lookup k).isSome ↔ k ∈ xs.map (·.1) := by
  induction xs with
  | nil => simp
  | cons x xs ih =>
    rw [List.lookup_cons]
    split
    · rename_i hk
      simp [beq_iff_eq.1 hk]
    · rename_i hk
      rw [ih, List.map_cons, List.mem_cons]
      have : k ≠ x.1 := by simpa using hk
      simp [this]

theorem sameKeys_iff {α β : Type} {a : List (String × α)} {b : List (String × β)} :
    sameKeys a b = true ↔ ∀ k, (a.lookup k).isSome ↔ (b.lookup k).isSome := by
  simp only [sameKeys, Bool.and_eq_true, List.all_eq_true, List.contains_iff_mem,
    lookup_isSome_iff]
  constructor
  · rintro ⟨hab,hba⟩ k
    constructor
    · intro hk
      obtain ⟨x,hx,rfl⟩ := List.mem_map.1 hk
      exact hab x hx
    · intro hk
      obtain ⟨x,hx,rfl⟩ := List.mem_map.1 hk
      exact hba x hx
  · intro h
    exact ⟨fun x hx => (h x.1).1 (List.mem_map_of_mem hx),
      fun x hx => (h x.1).2 (List.mem_map_of_mem hx)⟩

/-- The values of a prepared payload: no object, and no float. -/
inductive Plain : Value → Prop
  | bool (b : Bool) : Plain (.bool b)
  | int (n : ℤ) : Plain (.int n)
  | str (s : String) : Plain (.str s)
  | strings (ss : List String) : Plain (.list (ss.map .str))

theorem str_matches {a : Value} {s : String} :
    exactPayloadMatches a (.str s) = true ↔ a = .str s := by
  cases a <;> simp [exactPayloadMatches]

theorem strings_match {items : List Value} {ss : List String} :
    itemsMatch items (ss.map .str) = true ↔ items = ss.map .str := by
  induction ss generalizing items with
  | nil => cases items <;> simp [itemsMatch]
  | cons s ss ih =>
    cases items with
    | nil => simp [itemsMatch]
    | cons a items => simp [itemsMatch, str_matches, ih]

/-- Against a plain value the comparison is equality, types included. -/
theorem plain_matches {a e : Value} (he : Plain e) :
    exactPayloadMatches a e = true ↔ a = e := by
  cases he with
  | bool b => cases a <;> simp [exactPayloadMatches]
  | int n => cases a <;> simp [exactPayloadMatches]
  | str s => exact str_matches
  | strings ss => cases a <;> simp [exactPayloadMatches, strings_match]

theorem entriesMatch_iff {actual expected : Entries} (he : ∀ x ∈ expected, Plain x.2) :
    entriesMatch actual expected = true ↔
      ∀ x ∈ expected, actual.lookup x.1 = some x.2 := by
  induction expected with
  | nil => simp [entriesMatch]
  | cons x expected ih =>
    obtain ⟨k,v⟩ := x
    obtain ⟨hv,he⟩ := List.forall_mem_cons.1 he
    rw [entriesMatch, Bool.and_eq_true, ih he, List.forall_mem_cons]
    refine and_congr_left fun _ => ?_
    cases hk : actual.lookup k with
    | none => simp
    | some a => simpa using plain_matches hv

/-- Comparing with an object of plain fields decides the equality of all fields. -/
theorem payload_matches {payload : Value} {expected : Entries}
    (hn : (expected.map (·.1)).Nodup) (he : ∀ x ∈ expected, Plain x.2) :
    exactPayloadMatches payload (.dict expected) = true ↔ SamePayload payload expected := by
  have hdict (actual : Entries) : exactPayloadMatches (.dict actual) (.dict expected) = true ↔
      ∀ k, actual.lookup k = expected.lookup k := by
    rw [exactPayloadMatches, Bool.and_eq_true, sameKeys_iff, entriesMatch_iff he]
    constructor
    · rintro ⟨hkeys,hvalues⟩ k
      cases hk : expected.lookup k with
      | none =>
        have hnone := hkeys k
        rw [hk] at hnone
        exact Option.not_isSome_iff_eq_none.1 fun h => Bool.false_ne_true (hnone.1 h)
      | some v => exact hvalues (k,v) (mem_of_lookup hk)
    · intro h
      exact ⟨fun k => by rw [h k], fun x hx => (h x.1).trans (lookup_eq_some_of_mem hn hx)⟩
  cases payload with
  | dict actual => simp [hdict, SamePayload]
  | _ => simp [exactPayloadMatches, SamePayload]

theorem finiteNumber_eq_some {v : Value} {x : Binary64} :
    finiteNumber v = .ok (some x) ↔ IsFloat v x := by
  constructor
  · intro h
    cases v with
    | int n =>
      cases hn : floatOfInt n with
      | none => simp [finiteNumber, hn] at h
      | some y =>
        simp only [finiteNumber, hn, pure_eq_ok, Option.some.injEq] at h
        exact h ▸ .int hn
    | float y =>
      cases y with
      | finite y =>
        simp only [finiteNumber, pure_eq_ok, Option.some.injEq] at h
        exact h ▸ .float y
      | _ => simp [finiteNumber] at h
    | _ => simp [finiteNumber] at h
  · rintro (⟨h⟩ | ⟨x⟩)
    · simp [finiteNumber, h]
    · simp [finiteNumber]

theorem finiteNumbers_eq_some {vs : List Value} {xs : List Binary64} :
    finiteNumbers vs = .ok (some xs) ↔ Floats vs xs := by
  induction vs generalizing xs with
  | nil =>
    simp only [finiteNumbers, Floats, pure_eq_ok, Option.some.injEq, List.forall₂_nil_left_iff]
    exact eq_comm
  | cons v vs ih =>
    rw [finiteNumbers, bind_eq_ok, Floats, List.forall₂_cons_left_iff]
    constructor
    · rintro ⟨o,ho,h⟩
      cases o with
      | none => simp at h
      | some x =>
        obtain ⟨ys,hys,h⟩ := bind_eq_ok.1 h
        obtain ⟨ys,rfl,hxs⟩ := Option.map_eq_some_iff.1 (pure_eq_ok.1 h)
        exact ⟨x,ys,finiteNumber_eq_some.1 ho,ih.1 hys,hxs.symm⟩
    · rintro ⟨x,ys,hx,hys,rfl⟩
      exact ⟨some x,finiteNumber_eq_some.2 hx,by simp [ih.2 hys]⟩

/-- A number has one float. -/
theorem Floats.unique {vs : List Value} {xs ys : List Binary64} (hx : Floats vs xs)
    (hy : Floats vs ys) : xs = ys := by
  have h := (finiteNumbers_eq_some.2 hx).symm.trans (finiteNumbers_eq_some.2 hy)
  simpa using h

theorem Floats.length {vs : List Value} {xs : List Binary64} (h : Floats vs xs) :
    vs.length = xs.length := List.Forall₂.length_eq h

theorem validatePoint_eq_ok {p : ChunkPoint} {u : Unit} :
    validatePoint p = .ok u ↔ ValidPoint p := by
  simp only [validatePoint, bind_eq_ok, require_eq_ok, exists_const, Option.isSome_iff_exists]
  constructor
  · rintro ⟨hlen,_,hd,⟨xs,rfl⟩,⟨hne,hcor,hnd,hnat⟩,_,hv,⟨ys,rfl⟩,hm⟩
    exact ⟨hlen,⟨xs,finiteNumbers_eq_some.1 hd⟩,hne,hcor,hnd,hnat,
      ⟨ys,finiteNumbers_eq_some.1 hv⟩,hm⟩
  · rintro ⟨hlen,⟨xs,hd⟩,hne,hcor,hnd,hnat,⟨ys,hv⟩,hm⟩
    exact ⟨hlen,_,finiteNumbers_eq_some.2 hd,⟨xs,rfl⟩,⟨hne,hcor,hnd,hnat⟩,_,
      finiteNumbers_eq_some.2 hv,⟨ys,rfl⟩,hm⟩

theorem naturalIndices_eq_some {vs : List Value} {is : List ℤ} :
    naturalIndices vs = some is ↔ vs = is.map .int ∧ ∀ i ∈ is, 0 ≤ i := by
  induction vs generalizing is with
  | nil => cases is <;> simp [naturalIndices]
  | cons v vs ih =>
    cases v with
    | int n =>
      rw [naturalIndices]
      split
      · rename_i hn
        rw [Option.map_eq_some_iff]
        constructor
        · rintro ⟨js,hjs,rfl⟩
          obtain ⟨rfl,hnat⟩ := ih.1 hjs
          exact ⟨rfl,List.forall_mem_cons.2 ⟨hn,hnat⟩⟩
        · rintro ⟨h,hnat⟩
          cases is with
          | nil => simp at h
          | cons i js =>
            obtain ⟨hi,hjs⟩ := List.cons.inj h
            cases hi
            exact ⟨js,ih.2 ⟨hjs,(List.forall_mem_cons.1 hnat).2⟩,rfl⟩
      · rename_i hn
        refine iff_of_false (by simp) ?_
        rintro ⟨h,hnat⟩
        cases is with
        | nil => simp at h
        | cons i js =>
          cases (List.cons.inj h).1
          exact hn (hnat n List.mem_cons_self)
    | _ => cases is <;> simp [naturalIndices]

/-- A sequence of the right length whose floats are those of the expected numbers. -/
theorem sameNumbers_iff {v : Value} {expected : List Value} {xs : List Binary64} {n : ℕ}
    (hx : Floats expected xs) (hn : expected.length = n) :
    finiteNumericSequence v n = .ok (some xs) ↔
      ∃ items, v = .list items ∧ SameNumbers items expected := by
  cases v with
  | list items =>
    rw [finiteNumericSequence]
    split
    · rw [finiteNumbers_eq_some]
      constructor
      · exact fun h => ⟨items,rfl,xs,h,hx⟩
      · rintro ⟨items,⟨rfl⟩,ys,hy,h⟩
        rwa [hx.unique h]
    · rename_i hlen
      refine iff_of_false (by simp) ?_
      rintro ⟨items,⟨rfl⟩,ys,hy,h⟩
      exact hlen (hy.length.trans (h.length.symm.trans hn))
  | _ => simp [finiteNumericSequence]

theorem sparse_matches {indices values : Value} {p : ChunkPoint} (hp : ValidPoint p) :
    sparseMatches indices values p = .ok true ↔
      ∃ items, indices = .list (p.sparse.indices.map .int) ∧ values = .list items ∧
        SameNumbers items p.sparse.values := by
  obtain ⟨xs,hxs⟩ := hp.values
  have hwanted := finiteNumbers_eq_some.2 hxs
  cases indices with
  | list is =>
    rw [sparseMatches]
    cases hn : naturalIndices is with
    | none =>
      refine iff_of_false (by simp) ?_
      rintro ⟨items,⟨rfl⟩,-⟩
      rw [naturalIndices_eq_some.2 ⟨rfl,hp.natural⟩] at hn
      cases hn
    | some js =>
      obtain ⟨rfl,-⟩ := naturalIndices_eq_some.1 hn
      simp only [bind_eq_ok, pure_eq_ok, decide_eq_true_eq, hwanted]
      constructor
      · rintro ⟨actual,ha,_,⟨rfl⟩,rfl,-,rfl⟩
        obtain ⟨items,hv,hs⟩ := (sameNumbers_iff hxs rfl).1 ha
        exact ⟨items,rfl,hv,hs⟩
      · rintro ⟨items,hi,hv,hs⟩
        have hjs : js = p.sparse.indices :=
          List.map_injective_iff.2 (fun _ _ h => Value.int.inj h) (Value.list.inj hi)
        exact ⟨some xs,(sameNumbers_iff hxs rfl).2 ⟨items,hv,hs⟩,some xs,rfl,hjs,rfl,rfl⟩
  | _ => simp [sparseMatches]

theorem vectors_match {v : Vectors} {p : ChunkPoint} (hp : ValidPoint p) :
    vectorsMatch v p = .ok true ↔ SameVectors v p := by
  obtain ⟨xs,hxs⟩ := hp.dense
  have hwanted := finiteNumbers_eq_some.2 hxs
  cases v with
  | unnamed v => simp [vectorsMatch, SameVectors]
  | named entries =>
    rw [vectorsMatch]
    constructor
    · intro h
      split at h
      · rename_i hkeys
        obtain ⟨dense,hd,hrest⟩ := bind_eq_ok.1 h
        obtain ⟨wanted,hw,hsame⟩ := bind_eq_ok.1 hrest
        cases hwanted.symm.trans hw
        obtain rfl : dense = some xs := by
          by_contra hno
          rw [if_neg fun hc => hno hc.2] at hsame
          simp at hsame
        rw [if_pos ⟨rfl,rfl⟩] at hsame
        unfold denseSequence at hd
        split at hd
        · rename_i value hdense
          obtain ⟨items,rfl,hi⟩ := (sameNumbers_iff hxs hp.dimension).1 hd
          split at hsame
          · rename_i indices values hsparse
            obtain ⟨vs,rfl,rfl,hv⟩ := (sparse_matches hp).1 hsame
            refine ⟨entries,items,vs,rfl,fun x hx => ?_,hdense,hi,hsparse,hv⟩
            have hx' := (sameKeys_iff.1 hkeys x.1).1
              (lookup_isSome_iff.2 (List.mem_map_of_mem hx))
            simpa using lookup_isSome_iff.1 hx'
          · simp at hsame
        · simp at hd
      · simp at h
    · rintro ⟨_,dense,values,⟨rfl⟩,hnames,hdense,hd,hsparse,hv⟩
      have hkeys : sameKeys entries [("dense",()),("bm25",())] = true := by
        refine sameKeys_iff.2 fun k => ?_
        rw [lookup_isSome_iff, lookup_isSome_iff]
        constructor
        · intro hk
          obtain ⟨x,hx,rfl⟩ := List.mem_map.1 hk
          simpa using hnames x hx
        · intro hk
          have hk : k = "dense" ∨ k = "bm25" := by simpa using hk
          rcases hk with rfl | rfl
          · exact List.mem_map.2 ⟨_,mem_of_lookup hdense,rfl⟩
          · exact List.mem_map.2 ⟨_,mem_of_lookup hsparse,rfl⟩
      have hactual : denseSequence entries = .ok (some xs) := by
        rw [denseSequence, hdense]
        exact (sameNumbers_iff hxs hp.dimension).2 ⟨dense,rfl,hd⟩
      rw [if_pos hkeys, hsparse]
      have hfinal := (sparse_matches hp).2 ⟨values,rfl,rfl,hv⟩
      simp [hactual, hwanted, hfinal]

/-! ### The two loops -/

section
variable {str : Uuid ↪ String} {client : Client} {published : Bool} {visibility : String}

/-- The entry that a point gets in `expected_by_id`. -/
def keyed (str : Uuid ↪ String) (p : ChunkPoint) : String × ChunkPoint := (str p.chunkId,p)

theorem expectPoints_eq_ok {done byId : List (String × ChunkPoint)} {points : List ChunkPoint}
    (hdone : (done.map (·.1)).Nodup) :
    expectPoints str done points = .ok byId ↔
      byId = (points.map (keyed str)).reverse ++ done ∧ (∀ p ∈ points, ValidPoint p) ∧
        (byId.map (·.1)).Nodup := by
  induction points generalizing done with
  | nil =>
    simp only [expectPoints, pure_eq_ok, List.map_nil, List.reverse_nil, List.nil_append,
      List.not_mem_nil, false_implies, implies_true, true_and]
    constructor
    · rintro rfl
      exact ⟨rfl,hdone⟩
    · exact fun h => h.1.symm
  | cons p points ih =>
    have hbyId : ((p :: points).map (keyed str)).reverse ++ done =
        (points.map (keyed str)).reverse ++ keyed str p :: done := by simp
    simp only [expectPoints, bind_eq_ok, require_eq_ok, exists_const, validatePoint_eq_ok]
    rw [List.forall_mem_cons, hbyId]
    constructor
    · rintro ⟨hp,hnew,h⟩
      have hcons : ((keyed str p :: done).map (·.1)).Nodup := List.nodup_cons.2 ⟨hnew,hdone⟩
      obtain ⟨hb,hv,hn⟩ := (ih hcons).1 h
      exact ⟨hb,⟨hp,hv⟩,hn⟩
    · rintro ⟨hb,⟨hp,hv⟩,hn⟩
      have hcons : ((keyed str p :: done).map (·.1)).Nodup := by
        rw [hb, List.map_append] at hn
        exact hn.of_append_right
      exact ⟨hp,(List.nodup_cons.1 hcons).1,(ih hcons).2 ⟨hb,hv,hn⟩⟩

/-- What the loop finds for one record. -/
def Matches (str : Uuid ↪ String) (byId : List (String × ChunkPoint)) (published : Bool)
    (visibility : String) (s : StoredPoint) : Prop :=
  ∃ p, byId.lookup (s.id.render str) = some p ∧
    SamePayload s.payload (pointPayload str p published visibility) ∧ SameVectors s.vector p

theorem pointPayload_nodup (p : ChunkPoint) :
    ((pointPayload str p published visibility).map (·.1)).Nodup := by
  simp only [pointPayload, List.map_cons, List.map_nil]
  decide

theorem pointPayload_plain (p : ChunkPoint) :
    ∀ x ∈ pointPayload str p published visibility, Plain x.2 := by
  simp only [pointPayload, List.forall_mem_cons, List.not_mem_nil, false_implies, implies_true,
    and_true]
  exact ⟨.int _,.str _,.str _,.str _,.str _,.str _,.int _,.int _,.int _,.strings _,.str _,.str _,
    .str _,.str _,.bool _,.str _⟩

theorem compareRecords_eq_ok {byId : List (String × ChunkPoint)} {records : List StoredPoint}
    {seen₀ seen : List String} (hvalid : ∀ x ∈ byId, ValidPoint x.2) (hseen : seen₀.Nodup) :
    compareRecords str byId published visibility seen₀ records = .ok seen ↔
      seen = (records.map (·.id.render str)).reverse ++ seen₀ ∧ seen.Nodup ∧
        ∀ r ∈ records, Matches str byId published visibility r := by
  induction records generalizing seen₀ with
  | nil =>
    simp only [compareRecords, pure_eq_ok, List.map_nil, List.reverse_nil, List.nil_append,
      List.not_mem_nil, false_implies, implies_true, and_true]
    constructor
    · rintro rfl
      exact ⟨rfl,hseen⟩
    · exact fun h => h.1.symm
  | cons r records ih =>
    have hids : ((r :: records).map (·.id.render str)).reverse ++ seen₀ =
        (records.map (·.id.render str)).reverse ++ r.id.render str :: seen₀ := by simp
    simp only [compareRecords, bind_eq_ok, require_eq_ok, exists_const, orRaise_eq_ok]
    rw [List.forall_mem_cons, hids]
    constructor
    · rintro ⟨p,hp,hnew,hpayload,_,hv,rfl,h⟩
      obtain ⟨hs,hn,hrest⟩ := (ih (List.nodup_cons.2 ⟨hnew,hseen⟩)).1 h
      exact ⟨hs,hn,⟨p,hp,(payload_matches (pointPayload_nodup p) (pointPayload_plain p)).1 hpayload,
        (vectors_match (hvalid _ (mem_of_lookup hp))).1 hv⟩,hrest⟩
    · rintro ⟨hs,hn,⟨p,hp,hpayload,hv⟩,hrest⟩
      have hcons : (r.id.render str :: seen₀).Nodup := by
        rw [hs] at hn
        exact hn.of_append_right
      exact ⟨p,hp,(List.nodup_cons.1 hcons).1,
        (payload_matches (pointPayload_nodup p) (pointPayload_plain p)).2 hpayload,_,
        (vectors_match (hvalid _ (mem_of_lookup hp))).2 hv,rfl,(ih hcons).2 ⟨hs,hn,hrest⟩⟩

/-! ### One count and one retrieval -/

def identities (points : List ChunkPoint) : List PointId := points.map fun p => .uuid p.chunkId

theorem identities_nodup {points : List ChunkPoint} (h : (points.map (·.chunkId)).Nodup) :
    (identities points).Nodup := by
  have : identities points = (points.map (·.chunkId)).map .uuid := by
    rw [identities, List.map_map]
    rfl
  rw [this]
  exact h.map fun _ _ h => PointId.uuid.inj h

/-- The points that a retrieval of the batch finds. -/
def found (client : Client) (collection : String) (points : List ChunkPoint) :
    List StoredPoint :=
  (client.content collection).rows.filter fun s => s.id ∈ identities points

/-- The points that an exact count of the document counts. -/
def counted (str : Uuid ↪ String) (client : Client) (collection : String) (d : Uuid) :
    List StoredPoint :=
  (client.content collection).rows.filter (documentFilter str client d none)

theorem rows_nodup (client : Client) (collection : String) :
    (client.content collection).rows.Nodup := (client.content collection).nodup.of_map

variable {collection : String} {points : List ChunkPoint} {d : Uuid}

theorem mem_found {s : StoredPoint} : s ∈ found client collection points ↔
    s ∈ client.content collection ∧ ∃ p ∈ points, s.id = .uuid p.chunkId := by
  simp [found, identities, Table.mem_def, eq_comm]

theorem mem_counted {s : StoredPoint} : s ∈ counted str client collection d ↔
    s ∈ client.content collection ∧ documentFilter str client d none s = true := List.mem_filter

/-- Every copy carries the document identity that the filter selects. -/
theorem IsCopy.counted {s : StoredPoint} {p : ChunkPoint}
    (h : IsCopy str published visibility s p) (hd : p.documentId = d) :
    documentFilter str client d none s = true := by
  obtain ⟨entries,he,hfields⟩ := h.payload
  have hfield : s.field "document_id" = some (.str (str p.documentId)) := by
    rw [StoredPoint.field, he]
    exact hfields "document_id"
  simp [documentFilter, hfield, client.matchValue_str, hd]

theorem lookup_keyed (hn : (((points.map (keyed str)).reverse).map (·.1)).Nodup) {p : ChunkPoint}
    (hp : p ∈ points) : (points.map (keyed str)).reverse.lookup (str p.chunkId) = some p :=
  lookup_eq_some_of_mem hn (List.mem_reverse.2 (List.mem_map.2 ⟨p,hp,rfl⟩))

/-- A record that the loop accepts is the copy of the point with its identity. -/
theorem Matches.copy (hn : (((points.map (keyed str)).reverse).map (·.1)).Nodup)
    {s : StoredPoint} {p : ChunkPoint} (hp : p ∈ points) (hid : s.id = .uuid p.chunkId)
    (h : Matches str (points.map (keyed str)).reverse published visibility s) :
    IsCopy str published visibility s p := by
  obtain ⟨q,hq,hpayload,hvector⟩ := h
  rw [hid, PointId.render, lookup_keyed hn hp] at hq
  cases hq
  exact ⟨hid,hpayload,hvector⟩

/-- Points found by identity that are all copies exhaust the document when the counts agree. -/
theorem counted_subset_found (hdoc : ∀ p ∈ points, p.documentId = d)
    (hcopies : ∀ s ∈ found client collection points,
      ∃ p ∈ points, IsCopy str published visibility s p)
    (hcount : (counted str client collection d).length =
      (found client collection points).length) :
    ∀ s ∈ counted str client collection d, s ∈ found client collection points := by
  have hsub : found client collection points ⊆ counted str client collection d := by
    intro s hs
    obtain ⟨p,hp,hc⟩ := hcopies s hs
    exact mem_counted.2 ⟨(mem_found.1 hs).1,hc.counted (hdoc p hp)⟩
  have hperm : (found client collection points).Perm (counted str client collection d) :=
    (List.subperm_of_subset ((rows_nodup client collection).filter _) hsub).perm_of_length_le
      hcount.le
  exact fun s hs => hperm.mem_iff.2 hs

/-- In an exact collection the identities find the points of the document, one for each point of
the batch. -/
theorem HoldsExactly.found_perm
    (h : HoldsExactly str client collection d points published visibility) :
    (found client collection points).Perm (counted str client collection d) := by
  refine (List.perm_ext_iff_of_nodup ((rows_nodup client collection).filter _)
    ((rows_nodup client collection).filter _)).2 fun s => ?_
  change s ∈ found client collection points ↔ s ∈ counted str client collection d
  constructor
  · intro hs
    obtain ⟨hs,p,hp,hid⟩ := mem_found.1 hs
    obtain ⟨s',hs',hdoc,hcopy⟩ := h.complete p hp
    rw [Table.eq_of_key_eq hs hs' (hid.trans hcopy.id.symm)]
    exact mem_counted.2 ⟨hs',hdoc⟩
  · intro hs
    obtain ⟨hs,hdoc⟩ := mem_counted.1 hs
    obtain ⟨p,hp,hcopy⟩ := h.sound s hs hdoc
    exact mem_found.2 ⟨hs,p,hp,hcopy.id⟩

theorem HoldsExactly.counted_length (hn : (points.map (·.chunkId)).Nodup)
    (h : HoldsExactly str client collection d points published visibility) :
    (counted str client collection d).length = points.length := by
  have hids : ((counted str client collection d).map (·.id)).Perm (identities points) := by
    refine (List.perm_ext_iff_of_nodup ((client.content collection).nodup.sublist
      ((List.filter_sublist).map _)) (identities_nodup hn)).2 fun id => ?_
    constructor
    · intro hid
      obtain ⟨s,hs,rfl⟩ := List.mem_map.1 hid
      obtain ⟨hs,hdoc⟩ := mem_counted.1 hs
      obtain ⟨p,hp,hcopy⟩ := h.sound s hs hdoc
      exact List.mem_map.2 ⟨p,hp,hcopy.id.symm⟩
    · intro hid
      obtain ⟨p,hp,rfl⟩ := List.mem_map.1 hid
      obtain ⟨s,hs,hdoc,hcopy⟩ := h.complete p hp
      exact List.mem_map.2 ⟨s,mem_counted.2 ⟨hs,hdoc⟩,hcopy.id⟩
  simpa [identities] using hids.length_eq

theorem keys_keyed (str : Uuid ↪ String) (points : List ChunkPoint) :
    ((points.map (keyed str)).reverse).map (·.1) = ((points.map (·.chunkId)).map str).reverse := by
  rw [List.map_reverse, List.map_map, List.map_map]
  rfl

theorem keys_nodup_iff : (((points.map (keyed str)).reverse).map (·.1)).Nodup ↔
    (points.map (·.chunkId)).Nodup := by
  rw [keys_keyed, List.nodup_reverse]
  exact ⟨fun h => h.of_map,fun h => h.map str.injective⟩

/-- The checks on a batch before Qdrant is asked. -/
theorem expectPoints_valid {byId : List (String × ChunkPoint)} :
    expectPoints str [] points = .ok byId ↔ byId = (points.map (keyed str)).reverse ∧
      (∀ p ∈ points, ValidPoint p) ∧ (points.map (·.chunkId)).Nodup := by
  rw [expectPoints_eq_ok (by simp), List.append_nil]
  constructor
  · rintro ⟨rfl,hv,hn⟩
    exact ⟨rfl,hv,keys_nodup_iff.1 hn⟩
  · rintro ⟨rfl,hv,hn⟩
    exact ⟨rfl,hv,keys_nodup_iff.2 hn⟩

theorem retrieve_perm_found (hn : (points.map (·.chunkId)).Nodup) :
    (client.retrieve collection (points.map fun p => .uuid p.chunkId)).Perm
      (found client collection points) :=
  client.retrieve_perm collection _ (identities_nodup hn)

/-- The answers of Qdrant pass exactly when the collection holds exactly the valid batch. -/
theorem answers_exact {byId : List (String × ChunkPoint)} {records : List StoredPoint}
    (hbyId : byId = (points.map (keyed str)).reverse) (hv : ∀ p ∈ points, ValidPoint p)
    (hn : (points.map (·.chunkId)).Nodup) (hdoc : ∀ p ∈ points, p.documentId = d)
    (hperm : records.Perm (found client collection points)) :
    ((counted str client collection d).length = points.length ∧
      records.length = byId.length ∧
      ∃ seen, compareRecords str byId published visibility [] records = .ok seen ∧
        (∀ id ∈ seen, id ∈ byId.map (·.1)) ∧ ∀ id ∈ byId.map (·.1), id ∈ seen) ↔
      HoldsExactly str client collection d points published visibility := by
  have hkeys : (byId.map (·.1)).Nodup := hbyId ▸ keys_nodup_iff.2 hn
  have hvalid : ∀ x ∈ byId, ValidPoint x.2 := by
    intro x hx
    rw [hbyId, List.mem_reverse] at hx
    obtain ⟨p,hp,rfl⟩ := List.mem_map.1 hx
    exact hv p hp
  have hlength : byId.length = points.length := by simp [hbyId]
  constructor
  · rintro ⟨hcount,hlen,seen,hcompare,-,hall⟩
    obtain ⟨rfl,-,hmatch⟩ := (compareRecords_eq_ok hvalid List.nodup_nil).1 hcompare
    have hcopies : ∀ s ∈ found client collection points,
        ∃ p ∈ points, IsCopy str published visibility s p := by
      intro s hs
      obtain ⟨-,p,hp,hid⟩ := mem_found.1 hs
      have hm := hmatch s (hperm.mem_iff.2 hs)
      subst hbyId
      exact ⟨p,hp,hm.copy hkeys hp hid⟩
    have hfound := counted_subset_found hdoc hcopies
      (hcount.trans (hlength.symm.trans (hlen.symm.trans hperm.length_eq)))
    refine ⟨fun s hs hd => hcopies s (hfound s (mem_counted.2 ⟨hs,hd⟩)),fun p hp => ?_⟩
    have hid : str p.chunkId ∈ byId.map (·.1) := by
      rw [hbyId, keys_keyed, List.mem_reverse]
      exact List.mem_map_of_mem (List.mem_map_of_mem hp)
    obtain ⟨s,hs,hsid⟩ : ∃ s ∈ records, s.id.render str = str p.chunkId := by
      simpa using hall _ hid
    obtain ⟨hcontent,q,hq,hqid⟩ := mem_found.1 (hperm.mem_iff.1 hs)
    have hpq : q.chunkId = p.chunkId := by
      rw [hqid] at hsid
      exact str.injective hsid
    have hm := hmatch s hs
    subst hbyId
    have hcopy := hm.copy hkeys hp (hpq ▸ hqid)
    exact ⟨s,hcontent,hcopy.counted (hdoc p hp),hcopy⟩
  · intro h
    have hcount := h.counted_length hn
    have hrecords : records.Perm (counted str client collection d) := hperm.trans h.found_perm
    have hcopyOf : ∀ s ∈ records, ∃ p ∈ points, IsCopy str published visibility s p := by
      intro s hs
      obtain ⟨hs,hd⟩ := mem_counted.1 (hrecords.mem_iff.1 hs)
      exact h.sound s hs hd
    have hids : (records.map (·.id.render str)).Nodup := by
      have hn : (records.map (·.id)).Nodup :=
        (hrecords.map _).nodup_iff.2 ((client.content collection).nodup.sublist
          ((List.filter_sublist).map _))
      refine List.Nodup.map_on ?_ hn.of_map
      intro s hs t ht hst
      obtain ⟨p,-,hp⟩ := hcopyOf s hs
      obtain ⟨q,-,hq⟩ := hcopyOf t ht
      rw [hp.id, hq.id] at hst
      have hid : s.id = t.id := by rw [hp.id, hq.id, str.injective hst]
      exact List.inj_on_of_nodup_map hn hs ht hid
    refine ⟨hcount,?_,(records.map (·.id.render str)).reverse ++ [],
      (compareRecords_eq_ok hvalid List.nodup_nil).2 ⟨rfl,by simpa using hids,?_⟩,?_,?_⟩
    · rw [hrecords.length_eq, hcount, hlength]
    · intro s hs
      obtain ⟨p,hp,hcopy⟩ := hcopyOf s hs
      subst hbyId
      exact ⟨p,by rw [hcopy.id]; exact lookup_keyed hkeys hp,hcopy.payload,hcopy.vector⟩
    · intro id hid
      rw [List.append_nil, List.mem_reverse] at hid
      obtain ⟨s,hs,rfl⟩ := List.mem_map.1 hid
      obtain ⟨p,hp,hcopy⟩ := hcopyOf s hs
      rw [hbyId, keys_keyed, List.mem_reverse, hcopy.id]
      exact List.mem_map_of_mem (List.mem_map_of_mem hp)
    · intro id hid
      rw [hbyId, keys_keyed, List.mem_reverse, List.map_map] at hid
      obtain ⟨p,hp,rfl⟩ := List.mem_map.1 hid
      obtain ⟨s,hs,hd,hcopy⟩ := h.complete p hp
      rw [List.append_nil, List.mem_reverse]
      exact List.mem_map.2 ⟨s,hrecords.mem_iff.2 (mem_counted.2 ⟨hs,hd⟩),by rw [hcopy.id]; rfl⟩

end

/-- Verification returns exactly when the batch is valid and the points of its document in the
collection are the copies of its chunks, one each and nothing else. -/
theorem verification_exact (str : Uuid ↪ String) (client : Client) (collection : String)
    (first : ChunkPoint) (rest : List ChunkPoint) (published : Bool) (visibility : String) :
    verifyPreparedPoints str client collection (first :: rest) published visibility = .ok () ↔
      ValidBatch first.documentId (first :: rest) ∧
      HoldsExactly str client collection first.documentId (first :: rest) published
        visibility := by
  simp only [verifyPreparedPoints, List.head?_cons, bind_eq_ok, orRaise_eq_ok, require_eq_ok,
    exists_const, Option.some.injEq]
  constructor
  · rintro ⟨_,rfl,hsame,byId,hexpect,hcount,hlen,seen,hcompare,hsets⟩
    obtain ⟨hbyId,hv,hn⟩ := expectPoints_valid.1 hexpect
    have hdoc : ∀ p ∈ first :: rest, p.documentId = first.documentId := fun p hp => (hsame p hp).1
    refine ⟨⟨hdoc,fun p hp q hq => (hsame p hp).2.trans (hsame q hq).2.symm,hv,hn⟩,?_⟩
    refine (answers_exact hbyId hv hn hdoc (retrieve_perm_found hn)).1
      ⟨?_,hlen,seen,hcompare,hsets⟩
    rw [counted, ← List.countP_eq_length_filter]
    exact hcount
  · rintro ⟨hbatch,hholds⟩
    have hexpect := (@expectPoints_valid str _ _).2 ⟨rfl,hbatch.valid,hbatch.distinct⟩
    obtain ⟨hcount,hlen,seen,hcompare,hsets⟩ := (answers_exact rfl hbatch.valid hbatch.distinct
      hbatch.document (retrieve_perm_found hbatch.distinct)).2 hholds
    rw [counted, ← List.countP_eq_length_filter] at hcount
    exact ⟨first,rfl,fun p hp => ⟨hbatch.document p hp,
      hbatch.revision p hp first List.mem_cons_self⟩,_,hexpect,hcount,hlen,seen,hcompare,hsets⟩

/-! ### A collection with two copies and a foreign point -/

/-- A collection answered from its rows; a keyword matches a text, and a list that has it. -/
def tableClient (content : String → Table StoredPoint.id) : Client where
  content := content
  matchValue
    | .str s, t => s = t
    | .list items, t => items.any fun
        | .str s => s = t
        | _ => false
    | _, _ => false
  matchValue_str _ _ := rfl
  retrieve c ids := (content c).rows.filter fun s => s.id ∈ ids
  retrieve_perm _ _ _ := List.Perm.refl _

/-- `_point_struct`: the point that is written for a chunk. -/
def pointStruct (str : Uuid ↪ String) (point : ChunkPoint) (published : Bool)
    (visibility : String) : StoredPoint where
  id := .uuid point.chunkId
  payload := .dict (pointPayload str point published visibility)
  vector := .named [("dense",.value (.list point.dense)),
    ("bm25",.sparse (.list (point.sparse.indices.map .int)) (.list point.sparse.values))]

theorem pointStruct_isCopy {str : Uuid ↪ String} {p : ChunkPoint} {published : Bool}
    {visibility : String} (hp : ValidPoint p) :
    IsCopy str published visibility (pointStruct str p published visibility) p := by
  obtain ⟨xs,hxs⟩ := hp.dense
  obtain ⟨ys,hys⟩ := hp.values
  refine ⟨rfl,⟨_,rfl,fun _ => rfl⟩,_,_,_,rfl,?_,rfl,⟨xs,hxs,hxs⟩,rfl,⟨ys,hys,hys⟩⟩
  simp

def uuidStr : Uuid ↪ String where
  toFun u := HexText.groupText (ofLex u)
  inj' _ _ h := ofLex.injective (HexText.groupText_injective h)

def floats (xs : List Binary64) : List Value := xs.map fun x => .float (.finite x)

theorem floats_floats (xs : List Binary64) : Floats (floats xs) xs :=
  List.forall₂_map_left_iff.2 (List.forall₂_same.2 fun x _ => .float x)

def half : Binary64 := ⟨1 / 2,by decide +kernel,by decide +kernel⟩

def samplePoint (index : ℕ) : ChunkPoint where
  chunkId := uuid4 3 index
  documentId := uuid4 1 0
  preparedRevisionId := uuid4 2 0
  collectionKey := "books"
  activeQdrantCollection := "books-active"
  chunkIndex := index
  pageStart := 1
  pageEnd := 2
  headingPath := ["Oceans"]
  textSha256 := "0f"
  markdown := "Whales sing."
  contentProfileId := "sha256:c"
  indexProfileId := "sha256:i"
  dense := floats (List.replicate denseDimension half)
  sparse := ⟨[7,9],floats [half,0]⟩

theorem samplePoint_valid (index : ℕ) : ValidPoint (samplePoint index) where
  dimension := by simp only [samplePoint, floats, List.length_map, List.length_replicate]
  dense := ⟨_,floats_floats _⟩
  nonempty := List.cons_ne_nil _ _
  correlated := rfl
  distinct := by
    have hdistinct : ([7,9] : List ℤ).Nodup := by decide
    exact hdistinct
  natural := by
    have hnatural : ∀ i ∈ ([7,9] : List ℤ), 0 ≤ i := by decide
    exact hnatural
  values := ⟨_,floats_floats _⟩
  markdown := by
    have htext : Preparation.isBlank "Whales sing." = false := by decide
    exact htext

/-- The first chunk, a point of another document and the second chunk. -/
def samplePoints : Table StoredPoint.id where
  rows := [pointStruct uuidStr (samplePoint 1) true "retrieval",
    pointStruct uuidStr {samplePoint 7 with documentId := uuid4 1 1} true "retrieval",
    pointStruct uuidStr (samplePoint 0) true "retrieval"]
  nodup := by
    have hids : [PointId.uuid (uuid4 3 1),.uuid (uuid4 3 7),.uuid (uuid4 3 0)].Nodup := by decide
    exact hids

theorem samplePoints_hold :
    HoldsExactly uuidStr (tableClient fun _ => samplePoints) "books-active" (uuid4 1 0)
      [samplePoint 0,samplePoint 1] true "retrieval" where
  sound s hs hdocument := by
    have hs : s ∈ samplePoints.rows := hs
    simp only [samplePoints, List.mem_cons, List.not_mem_nil, or_false] at hs
    rcases hs with rfl | rfl | rfl
    · exact ⟨samplePoint 1,by simp,pointStruct_isCopy (samplePoint_valid 1)⟩
    · exact absurd hdocument (by decide)
    · exact ⟨samplePoint 0,by simp,pointStruct_isCopy (samplePoint_valid 0)⟩
  complete p hp := by
    simp only [List.mem_cons, List.not_mem_nil, or_false] at hp
    rcases hp with rfl | rfl
    · refine ⟨pointStruct uuidStr (samplePoint 0) true "retrieval",?_,?_,
        pointStruct_isCopy (samplePoint_valid 0)⟩
      · exact List.mem_cons_of_mem _ (List.mem_cons_of_mem _ List.mem_cons_self)
      · exact (pointStruct_isCopy (samplePoint_valid 0)).counted rfl
    · refine ⟨pointStruct uuidStr (samplePoint 1) true "retrieval",List.mem_cons_self,?_,
        pointStruct_isCopy (samplePoint_valid 1)⟩
      exact (pointStruct_isCopy (samplePoint_valid 1)).counted rfl

/-- Two chunks are verified beside a point of another document, and one of them alone is not. -/
theorem verification_exact_two :
    verifyPreparedPoints uuidStr (tableClient fun _ => samplePoints) "books-active"
        [samplePoint 0,samplePoint 1] true "retrieval" = .ok () ∧
      verifyPreparedPoints uuidStr (tableClient fun _ => samplePoints) "books-active"
        [samplePoint 0] true "retrieval" ≠ .ok () := by
  constructor
  · refine (verification_exact uuidStr (tableClient fun _ => samplePoints) "books-active"
      (samplePoint 0) [samplePoint 1] true "retrieval").2 ⟨⟨?_,?_,?_,?_⟩,samplePoints_hold⟩
    · simp [samplePoint]
    · simp [samplePoint]
    · simp [samplePoint_valid]
    · have hids : [uuid4 3 0,uuid4 3 1].Nodup := by decide
      exact hids
  · intro h
    have hholds := ((verification_exact uuidStr (tableClient fun _ => samplePoints) "books-active"
      (samplePoint 0) [] true "retrieval").1 h).2
    obtain ⟨p,hp,hcopy⟩ := hholds.sound (pointStruct uuidStr (samplePoint 1) true "retrieval")
      List.mem_cons_self ((pointStruct_isCopy (samplePoint_valid 1)).counted rfl)
    rw [List.mem_singleton.1 hp] at hcopy
    exact absurd hcopy.id (by decide)

end PointVerification
end PdfBridge
