import PdfBridge.Services.Preparation

/-! Point-only access to the fixed Qdrant collections. Each call is atomic: a collection is a
set of points with one point for each chunk identity. -/
namespace PdfBridge
open Preparation

inductive Visibility where
  | screening | publishing | active
deriving DecidableEq

/-- A stored point: the prepared chunk with its two visibility fields. -/
structure Point where
  chunk : ChunkPoint
  published : Bool
  visibility : Visibility
deriving DecidableEq

structure StoredPoint where
  collection : Text 255
  point : Point
deriving DecidableEq

def StoredPoint.key (s : StoredPoint) : Text 255 × ChunkId :=
  (s.collection,s.point.chunk.chunkId)

structure Qdrant where
  points : Table StoredPoint.key
deriving DecidableEq

namespace Qdrant

def empty : Qdrant := ⟨∅⟩

/-- The points of one collection. -/
def collection (q : Qdrant) (c : Text 255) : List Point :=
  (q.points.rows.filter fun s => s.collection = c).map (·.point)

/-- The points of one document in one collection. -/
def documentPoints (q : Qdrant) (c : Text 255) (d : Uuid) : List Point :=
  (q.collection c).filter fun p => p.chunk.documentId = d

def upsert (q : Qdrant) (c : Text 255) (ps : List Point) : Qdrant :=
  ⟨ps.foldl (fun t p => t.put ⟨c,p⟩) q.points⟩

def delete (q : Qdrant) (c : Text 255) (d : Uuid) : Qdrant :=
  ⟨q.points.keep fun s => !(s.collection = c && s.point.chunk.documentId = d)⟩

/-- The gate that `activate_prepared_points` selects: staged points of one revision. -/
def staged (d r : Uuid) (p : Point) : Bool :=
  p.chunk.documentId = d && p.chunk.preparedRevisionId = r && !p.published &&
  p.visibility = .publishing

def openGate (c : Text 255) (d r : Uuid) (s : StoredPoint) : StoredPoint :=
  if s.collection = c ∧ staged d r s.point = true then
    {s with point := {s.point with published := true, visibility := .active}}
  else s

theorem openGate_key (c : Text 255) (d r : Uuid) (s : StoredPoint) :
    (openGate c d r s).key = s.key := by
  unfold openGate
  split <;> rfl

def activate (q : Qdrant) (c : Text 255) (d r : Uuid) : Qdrant :=
  ⟨q.points.update (openGate c d r) (openGate_key c d r)⟩

end Qdrant

/-! ### Candidate queries -/

/-- `collection_filter`: the mandatory logical-collection candidate boundary. -/
structure CandidateFilter where
  collectionKey : CollectionKey
  published : Bool
  visibility : Visibility
  excludeRevisionId : Uuid
deriving DecidableEq

def CandidateFilter.admits (f : CandidateFilter) (p : Point) : Bool :=
  p.chunk.collectionKey = f.collectionKey && p.published = f.published &&
  p.visibility = f.visibility && p.chunk.preparedRevisionId ≠ f.excludeRevisionId

inductive QueryVector where
  | dense (v : List ℚ)
  | bm25 (v : SparseVector)
deriving DecidableEq

/-- One scored point of a query response. -/
structure ScoredPoint where
  documentId : Uuid
  preparedRevisionId : Uuid
  chunkId : ChunkId
  score : ℚ
deriving DecidableEq

inductive HitSource where
  | active | screening
deriving DecidableEq

structure CandidateHit where
  documentId : Uuid
  preparedRevisionId : Uuid
  chunkId : ChunkId
  score : ℚ
  rank : ℕ
  source : HitSource
deriving DecidableEq

def ScoredPoint.identifies (s : ScoredPoint) (p : Point) : Bool :=
  p.chunk.documentId = s.documentId && p.chunk.preparedRevisionId = s.preparedRevisionId &&
  p.chunk.chunkId = s.chunkId

/-- What a search may answer: at most `limit` different admitted points of the collection. -/
def Qdrant.answers (q : Qdrant) (c : Text 255) (f : CandidateFilter) (limit : ℕ)
    (hits : List ScoredPoint) : Bool :=
  hits.length ≤ limit && (hits.map (·.chunkId)).Nodup &&
  hits.all fun s => (q.collection c).any fun p => f.admits p && s.identifies p

/-- `query_candidates` ranks the response by position. -/
def rankHits (source : HitSource) (hits : List ScoredPoint) : List CandidateHit :=
  (hits.zipIdx 1).map fun x =>
    ⟨x.1.documentId,x.1.preparedRevisionId,x.1.chunkId,x.1.score,x.2,source⟩

/-! ### Prepared batches -/

def consistencyError (message : String) : ServiceError := .vectorIndexConsistency message

def validatePoint (p : ChunkPoint) : Outcome Unit := do
  require (p.dense.length = denseDimension)
    (consistencyError "prepared dense vector must be finite and 768-dimensional")
  require (p.sparse.indices ≠ [] ∧ p.sparse.indices.length = p.sparse.values.length ∧
      p.sparse.indices.Nodup)
    (consistencyError "prepared BM25 vector is empty or uncorrelated")
  require (isBlank p.markdown = false)
    (consistencyError "prepared point Markdown cannot be empty")

def validatePoints : List ChunkPoint → Outcome Unit
  | [] => pure ()
  | p :: ps => do
      validatePoint p
      validatePoints ps

/-- The points that `upsert_screening_points` and `stage_active_points` write. -/
def pointBatch (visibility : Visibility) (emptyMessage : String) (points : List ChunkPoint) :
    Outcome (List Point) := do
  require (points ≠ []) (consistencyError emptyMessage)
  validatePoints points
  pure (points.map fun p => ⟨p,false,visibility⟩)

/-- The identity checks of `verify_prepared_points` before it asks Qdrant. -/
def validateBatch (points : List ChunkPoint) : Outcome Uuid := do
  let first ← orRaise points.head? (consistencyError "cannot verify an empty prepared revision")
  require (∀ p ∈ points, p.documentId = first.documentId ∧
      p.preparedRevisionId = first.preparedRevisionId)
    (consistencyError "point batch mixes document or revision identities")
  validatePoints points
  require ((points.map (·.chunkId)).Nodup)
    (consistencyError "point batch contains a duplicate chunk identity")
  pure first.documentId

/-- Compare retrieved records with the batch: every identity once, each an exact copy. -/
def checkRecords (points : List ChunkPoint) (published : Bool) (visibility : Visibility)
    (records : List Point) : Outcome Unit := do
  require (records.length = points.length)
    (consistencyError "Qdrant did not return every deterministic point ID")
  require ((records.map (·.chunk.chunkId)).Nodup ∧
      ∀ r ∈ records, r.chunk.chunkId ∈ points.map (·.chunkId))
    (consistencyError "Qdrant returned a foreign or duplicate point")
  require (∀ r ∈ records, ∀ p ∈ points, p.chunkId = r.chunk.chunkId →
      r = ⟨p,published,visibility⟩)
    (consistencyError "Qdrant point payload does not exactly match its prepared chunk")

end PdfBridge
