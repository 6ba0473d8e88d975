import PdfBridge.Foundation.Binary64
import PdfBridge.Services.VectorIndex

/-! Deterministic candidate rules and rank fusion over the retrieval results of one preflight.
Scores are floats, given by the rationals that they stand for. -/
namespace PdfBridge
namespace Candidates

def denseTopK : ℕ := 30
def bm25TopK : ℕ := 30
def cosineStrongThreshold : ℚ := Binary64.nearest (86 / 100)
def cosineMultiThreshold : ℚ := Binary64.nearest (72 / 100)
def cosineMultiMinChunks : ℕ := 2
def bm25StrongPlacementRank : ℕ := 3
def bm25StrongMinChunks : ℕ := 3
def rrfK : ℕ := 60
def maxClassifiedCandidates : ℕ := 12

def ruleIdenticalText : FailureCode := failureCode "identical-normalized-text"
def ruleFilenameFamily : FailureCode := failureCode "filename-family-match"
def ruleCosineStrong : FailureCode := failureCode "cosine-strong-single-chunk"
def ruleCosineMulti : FailureCode := failureCode "cosine-moderate-multiple-chunks"
def ruleBm25Repeated : FailureCode := failureCode "bm25-repeated-strong-placement"

structure ChunkHit where
  documentId : Uuid
  source : HitSource
  chunkId : ChunkId
  score : ℚ
  rank : ℕ
deriving DecidableEq

structure DeterministicCandidate where
  documentId : Uuid
  source : HitSource
  reasons : List FailureCode
  maxCosine : ℚ
  strongCosineChunks : ℕ
  moderateCosineChunks : ℕ
  bm25StrongPlacements : ℕ
  fusedScore : ℚ
  matchedChunkPairs : List (ℕ × ChunkId)
deriving DecidableEq

/-- The indices of the incoming chunks that have a hit of a document with a property. -/
def chunksWith (results : List (List ChunkHit)) (id : Uuid) (p : ChunkHit → Bool) : List ℕ :=
  (results.zipIdx.filter fun x => x.1.any fun h => h.documentId = id && p h).map (·.2)

def strongHit (h : ChunkHit) : Bool := cosineStrongThreshold ≤ h.score

def moderateHit (h : ChunkHit) : Bool :=
  cosineMultiThreshold ≤ h.score && h.score < cosineStrongThreshold

def placedHit (h : ChunkHit) : Bool := h.rank ≤ bm25StrongPlacementRank

def strongChunks (dense : List (List ChunkHit)) (id : Uuid) : List ℕ :=
  chunksWith dense id strongHit

def moderateChunks (dense : List (List ChunkHit)) (id : Uuid) : List ℕ :=
  chunksWith dense id moderateHit

def bm25StrongChunks (bm25 : List (List ChunkHit)) (id : Uuid) : List ℕ :=
  chunksWith bm25 id placedHit

/-- The rules that admit a document, in the order in which they are evaluated. -/
def candidateReasons (dense bm25 : List (List ChunkHit)) (filenames identical : List Uuid)
    (id : Uuid) : List FailureCode :=
  let strong := strongChunks dense id
  let moderate := moderateChunks dense id
  (if id ∈ identical then [ruleIdenticalText] else []) ++
  (if id ∈ filenames then [ruleFilenameFamily] else []) ++
  (if strong ≠ [] then [ruleCosineStrong] else []) ++
  (if moderate ≠ [] ∧ cosineMultiMinChunks ≤ (moderate ∪ strong).length
    then [ruleCosineMulti] else []) ++
  (if bm25StrongMinChunks ≤ (bm25StrongChunks bm25 id).length then [ruleBm25Repeated] else [])

def sourceRanking (hits : List ChunkHit) (source : HitSource) : List Uuid :=
  ((hits.insertionSort fun a b => a.rank ≤ b.rank).filter fun h => h.source = source).map
    (·.documentId)

def rankings (dense bm25 : List (List ChunkHit)) : List (List Uuid) :=
  (dense ++ bm25).flatMap fun hits => [sourceRanking hits .active,sourceRanking hits .screening]

/-- `1.0 / (k + position)`. -/
def rankContribution (position : ℕ) : ℚ :=
  Binary64.nearest (1 / Binary64.nearest ((rrfK + position : ℕ) : ℚ))

/-- The sum of `reciprocal_rank_fusion` for one document, which counts in each ranking at its first
position. -/
def reciprocalRankFusion (rankings : List (List Uuid)) (id : Uuid) : ℚ :=
  rankings.foldl (fun score ranking =>
    if id ∈ ranking then Binary64.nearest (score + rankContribution (ranking.idxOf id + 1))
    else score) 0

def fusedScore (dense bm25 : List (List ChunkHit)) (id : Uuid) : ℚ :=
  Binary64.roundTo 6 (reciprocalRankFusion (rankings dense bm25) id)

def maxCosine (dense : List (List ChunkHit)) (id : Uuid) : ℚ :=
  ((dense.flatten.filter fun h => h.documentId = id).map (·.score)).foldl max 0

def matchedChunkPairs (dense : List (List ChunkHit)) (id : Uuid) : List (ℕ × ChunkId) :=
  dense.zipIdx.flatMap fun x =>
    (x.1.filter fun h => h.documentId = id && cosineMultiThreshold ≤ h.score).map fun h =>
      (x.2,h.chunkId)

abbrev Sources := List (Uuid × HitSource)

def Sources.find (s : Sources) (id : Uuid) : Option HitSource :=
  (List.find? (fun x => x.1 = id) s).map (·.2)

def hitConsistent (sources : Sources) (h : ChunkHit) : Bool :=
  (sources.find h.documentId).all (· = h.source)

/-- The checks of one hit after the other. -/
def checkHits (sources : Sources) : List ChunkHit → Outcome Unit
  | [] => pure ()
  | h :: hits => do
      require (1 ≤ h.rank) (.value "candidate hit ranks must be positive")
      require (hitConsistent sources h = true) (.value "candidate source evidence is inconsistent")
      checkHits sources hits

def referencedIds (dense bm25 : List (List ChunkHit)) (filenames identical : List Uuid) :
    List Uuid :=
  (filenames ++ identical ++ (dense ++ bm25).flatten.map (·.documentId)).dedup

def candidateOf (dense bm25 : List (List ChunkHit)) (filenames identical : List Uuid)
    (sources : Sources) (id : Uuid) : DeterministicCandidate where
  documentId := id
  source := (sources.find id).getD .screening
  reasons := candidateReasons dense bm25 filenames identical id
  maxCosine := maxCosine dense id
  strongCosineChunks := (strongChunks dense id).length
  moderateCosineChunks := (moderateChunks dense id).length
  bm25StrongPlacements := (bm25StrongChunks bm25 id).length
  fusedScore := fusedScore dense bm25 id
  matchedChunkPairs := matchedChunkPairs dense id

def candidateBefore (a b : DeterministicCandidate) : Prop :=
  b.fusedScore < a.fusedScore ∨ (a.fusedScore = b.fusedScore ∧ a.documentId ≤ b.documentId)

instance (a b : DeterministicCandidate) : Decidable (candidateBefore a b) :=
  inferInstanceAs (Decidable (_ ∨ _))

/-- Apply the deterministic candidate rules and fuse ranks for ordering. -/
def evaluateCandidates (dense bm25 : List (List ChunkHit)) (filenames identical : List Uuid)
    (sources : Sources) : Outcome (List DeterministicCandidate) := do
  checkHits sources (dense ++ bm25).flatten
  let ids := referencedIds dense bm25 filenames identical
  require (∀ id ∈ ids, (sources.find id).isSome = true)
    (.value "every candidate document must have an explicit source")
  let evaluated := ids.map (candidateOf dense bm25 filenames identical sources)
  pure ((evaluated.filter fun x => x.reasons ≠ []).insertionSort candidateBefore)

end Candidates
end PdfBridge
