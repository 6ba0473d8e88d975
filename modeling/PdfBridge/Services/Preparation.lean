import PdfBridge.Core.Config
import PdfBridge.Foundation.Unicode
import Mathlib.Algebra.GroupWithZero.Nat
import Mathlib.Data.List.Sort
import PdfBridge.Persistence.Catalog

/-! The durable stages of one preparation: the revision is opened, filled stage by stage, and
sealed or failed. Each stage changes the rows of the one document it prepares. -/
namespace PdfBridge
namespace Preparation

/-- `PreparationError` with literal code and message. -/
def preparationError (code message : String)
    (hc : isFailureCode code = true := by decide +kernel)
    (hm : 1 ≤ message.length ∧ message.length ≤ 500 := by decide +kernel) : ServiceError :=
  .preparation ⟨code,hc⟩ ⟨message,hm⟩

/-! Codes and messages that the worker raises too. -/

theorem revision_not_found_code : isFailureCode "revision_not_found" = true := by decide +kernel

theorem revision_not_found_text : 1 ≤ "prepared revision was not found".length ∧
    "prepared revision was not found".length ≤ 500 := by decide +kernel

theorem revision_state_conflict_code : isFailureCode "revision_state_conflict" = true := by decide +kernel

theorem document_state_conflict_code : isFailureCode "document_state_conflict" = true := by decide +kernel

structure PreparationIdentity where
  revision : RevisionIdentity
  formatterTokenizerClass : Text 255
deriving DecidableEq

structure PreparationHandle where
  revisionId : Uuid
  documentId : Uuid
  revisionNumber : ℕ
  collectionKey : CollectionKey
  identity : PreparationIdentity
deriving DecidableEq

structure ExtractedDocument where
  pageCount : ℕ
  characterCount : ℕ
  pages : List ExtractedPage
deriving DecidableEq

structure FormattedPage where
  pageNumber : ℕ
  sourceText : String
  markdown : String
deriving DecidableEq

structure FormattedDocument where
  pages : List FormattedPage
  attempts : List FormatterBatch
deriving DecidableEq

structure MarkdownChunk where
  chunkId : ChunkId
  chunkIndex : ℕ
  pageStart : ℕ
  pageEnd : ℕ
  headingPath : List String
  tokenCount : ℕ
  textSha256 : Digest
  markdown : String
deriving DecidableEq

structure ChunkVectorBundle where
  canonicalMarkdownSha256 : Digest
  vectors : List PreparedChunk
  vectorManifestSha256 : Digest
deriving DecidableEq

/-- One immutable prepared chunk with both target vector encodings. -/
structure ChunkPoint where
  chunkId : ChunkId
  documentId : Uuid
  preparedRevisionId : Uuid
  collectionKey : CollectionKey
  activeQdrantCollection : Text 255
  chunkIndex : ℕ
  pageStart : ℕ
  pageEnd : ℕ
  headingPath : List String
  textSha256 : Digest
  markdown : String
  contentProfileId : ProfileId
  indexProfileId : ProfileId
  dense : List ℚ
  sparse : SparseVector
deriving DecidableEq

structure PreflightCompleteness where
  candidateDiscoveryComplete : Bool
  advisoryComplete : Bool
  clearForPublication : Bool
  incompleteReasons : List FailureCode
deriving DecidableEq

/-- An evidence record to store; the row has the same fields. -/
abbrev EvidenceInput := CandidateEvidence

structure CandidateInput where
  matchedDocumentId : Uuid
  source : CandidateSource
  reasons : List FailureCode
  maxCosine : ℚ
  bm25Score : ℚ
  fusedScore : ℚ
  matchedChunkPairs : List (ℕ × ChunkId)
  evidence : List EvidenceInput
deriving DecidableEq

structure SealedPreparation where
  revisionId : Uuid
  manifestSha256 : Digest
  clearForPublication : Bool
deriving DecidableEq

/-- `not s.strip()`. -/
def isBlank (s : String) : Bool := Unicode.isBlank (Unicode.str s)

/-! ### The mutable revision -/

def loadRevision (d : Document) (id : Uuid) : Outcome PreparedRevision :=
  orRaise (d.revision? id)
    (preparationError "revision_not_found" "prepared revision was not found")

/-- `_load_revision` with the default required status. -/
def loadPreparing (d : Document) (id : Uuid) : Outcome PreparedRevision := do
  let r ← loadRevision d id
  require (r.status = .preparing)
    (preparationError "revision_state_conflict" "prepared revision was not PREPARING")
  pure r

def validateRevisionIdentity (r : PreparedRevision) (h : PreparationHandle) : Outcome Unit :=
  require (r.id = h.revisionId ∧ r.revisionNumber = h.revisionNumber ∧
      r.identity = h.identity.revision)
    (preparationError "revision_identity_mismatch"
      "prepared revision identity no longer matched the requested target")

/-- The `PREPARING` revision that a handle names. -/
def loadStage (d : Document) (h : PreparationHandle) : Outcome PreparedRevision := do
  let r ← loadPreparing d h.revisionId
  validateRevisionIdentity r h
  pure r

def newRevision (now : Time) (number : ℕ) (identity : RevisionIdentity) : PreparedRevision where
  id := uuid4 now 0
  revisionNumber := number
  status := .preparing
  identity := identity
  languageCode := none
  nativeTextEligible := false
  formatterComplete := false
  vectorComplete := false
  candidateDiscoveryComplete := false
  advisoryComplete := false
  clearForPublication := false
  incompleteReasons := []
  pageCount := none
  chunkCount := none
  expectedPointCount := none
  extractionSha256 := none
  markdownSha256 := none
  vectorManifestSha256 := none
  evidenceManifestSha256 := none
  manifestSha256 := none
  failureCode := none
  failureMessage := none
  createdAt := now
  sealedAt := none
  content := .empty

/-- Create the next `PREPARING` revision. -/
def beginPreparation (now : Time) (identity : PreparationIdentity) (d : Document) :
    Outcome (PreparationHandle × Document) := do
  require (d.state = .preflighting)
    (preparationError "document_state_conflict" "document was not in PREFLIGHTING state")
  let number := (d.preparedRevisions.rows.map (·.revisionNumber)).foldr max 0 + 1
  let r := newRevision now number identity.revision
  pure (⟨r.id,d.id,number,d.intake.collectionKey,identity⟩,d.putRevision r)

/-! ### Extraction and formatting -/

def pageValid (enc : Encoding) (expected : ℕ) (p : ExtractedPage) : Bool :=
  p.pageNumber = expected && p.characterCount = p.layoutText.length &&
  p.textSha256 = enc.sha256Text p.layoutText

def pagesValid (enc : Encoding) (pages : List ExtractedPage) : Bool :=
  (pages.zipIdx 1).all fun x => pageValid enc x.2 x.1

def validateExtraction (enc : Encoding) (x : ExtractedDocument) : Outcome Unit := do
  require (0 < x.pageCount ∧ x.pageCount = x.pages.length)
    (preparationError "extraction_correlation" "extraction page coverage was invalid")
  require (pagesValid enc x.pages = true)
    (preparationError "extraction_correlation" "extraction pages were missing or reordered")
  require ((x.pages.map (·.characterCount)).sum = x.characterCount)
    (preparationError "extraction_correlation"
      "extraction document character count did not match")

/-- Persist every exact extracted page after external eligibility checks. -/
def recordExtraction (enc : Encoding) (h : PreparationHandle) (x : ExtractedDocument)
    (d : Document) : Outcome (Digest × Document) := do
  validateExtraction enc x
  let r ← loadStage d h
  require (r.content.extractedPages = [])
    (preparationError "stage_already_recorded" "extraction artifacts were already recorded")
  let digest := enc.extractionManifest x.pages
  pure (digest,d.putRevision {r with
    content := {r.content with extractedPages := x.pages}
    languageCode := some (text "en"), nativeTextEligible := true,
    pageCount := some x.pageCount, extractionSha256 := some digest})

def formattedPageMatches (enc : Encoding) (source : ExtractedPage) (expected : ℕ)
    (p : FormattedPage) : Bool :=
  p.pageNumber = expected && p.sourceText = source.layoutText && !isBlank p.markdown &&
  enc.slicesCover source ⟨expected,p.markdown,enc.sha256Text p.markdown⟩

def pageRecord (enc : Encoding) (p : FormattedPage) : PreparedPage :=
  ⟨p.pageNumber,p.markdown,enc.sha256Text p.markdown⟩

/-- Map attempts and validated page Markdown into rows. -/
def recordFormatting (enc : Encoding) (h : PreparationHandle) (f : FormattedDocument)
    (d : Document) : Outcome (Digest × Document) := do
  let r ← loadStage d h
  require (r.content.extractedPages ≠ [] ∧
      r.pageCount = some r.content.extractedPages.length)
    (preparationError "stage_order" "complete extraction must be recorded before formatting")
  require (r.content.preparedPages = [])
    (preparationError "stage_already_recorded" "formatter artifacts were already recorded")
  require (f.pages.length = r.content.extractedPages.length ∧
      ((r.content.extractedPages.zip f.pages).zipIdx 1).all
        (fun x => formattedPageMatches enc x.1.1 x.2 x.1.2) = true)
    (preparationError "formatter_correlation" "formatted pages were missing or reordered")
  let pages := f.pages.map (pageRecord enc)
  require (enc.batchesCover f.attempts pages = true)
    (preparationError "formatter_correlation" "valid formatter attempt coverage was invalid")
  let digest := enc.sha256Text (enc.canonicalMarkdown pages)
  pure (digest,d.putRevision {r with
    content := {r.content with formatterBatches := f.attempts, preparedPages := pages}
    formatterComplete := true, markdownSha256 := some digest})

def loadPreparedMarkdownPages (h : PreparationHandle) (d : Document) :
    Outcome (List PreparedPage) := do
  let r ← loadStage d h
  require (r.formatterComplete = true)
    (preparationError "stage_order" "complete formatter artifacts must be recorded first")
  require (r.pageCount = some r.content.preparedPages.length)
    (preparationError "formatter_correlation" "persisted Markdown page coverage was incomplete")
  pure r.content.preparedPages

/-! ### Chunks and vectors -/

def denseVectorSha256 (enc : Encoding) (v : List ℚ) : Outcome Digest := do
  require (v.length = denseDimension)
    (preparationError "vector_correlation" "dense vector was not 768-dimensional")
  require (enc.isNormalized v = true)
    (preparationError "vector_correlation" "dense vector was not normalized")
  pure (enc.denseDigest v)

def sparseValid (v : SparseVector) : Bool :=
  v.indices ≠ [] && v.indices.length = v.values.length && v.indices.Nodup &&
  v.values.all (0 ≤ ·)

def sparseVectorSha256 (enc : Encoding) (v : SparseVector) : Outcome Digest := do
  require (sparseValid v = true)
    (preparationError "vector_correlation"
      "sparse document vector was invalid or uncorrelated")
  pure (enc.sparseDigest v)

def vectorManifest (enc : Encoding) (chunks : List PreparedChunk) : Digest :=
  enc.vectorManifest (chunks.map fun c =>
    (c.id,c.chunkIndex,c.textSha256,c.vector.denseSha256,c.vector.sparseSha256))

def chunkIdentity (documentId revisionId : Uuid) (index : ℕ) (textSha256 : Digest) : ChunkId :=
  ⟨documentId,revisionId,index,textSha256⟩

/-- Correlate each chunk with its vectors, as `build_chunk_vector_bundle` does. -/
def prepareVector (enc : Encoding) (h : PreparationHandle) (expected : ℕ) (c : MarkdownChunk)
    (dense : List ℚ) (sparse : SparseVector) : Outcome PreparedChunk := do
  require (c.chunkIndex = expected ∧
      c.chunkId = chunkIdentity h.documentId h.revisionId expected c.textSha256 ∧
      c.textSha256 = enc.sha256Text c.markdown ∧ isBlank c.markdown = false ∧
      0 < c.tokenCount ∧ c.tokenCount ≤ hardMaxTokens)
    (preparationError "chunk_correlation"
      "chunk identity, hash, order, or token count did not match")
  let denseHash ← denseVectorSha256 enc dense
  let sparseHash ← sparseVectorSha256 enc sparse
  pure { id := c.chunkId, chunkIndex := c.chunkIndex, pageStart := c.pageStart,
         pageEnd := c.pageEnd, headingPath := c.headingPath, tokenCount := c.tokenCount,
         textSha256 := c.textSha256, markdown := c.markdown,
         vector := ⟨dense,sparse,denseHash,sparseHash⟩ }

def prepareVectors (enc : Encoding) (h : PreparationHandle) :
    ℕ → List (MarkdownChunk × List ℚ × SparseVector) → Outcome (List PreparedChunk)
  | _, [] => pure []
  | i, (c,dense,sparse) :: rest => do
      let chunk ← prepareVector enc h i c dense sparse
      let rest ← prepareVectors enc h (i + 1) rest
      pure (chunk :: rest)

def buildChunkVectorBundle (enc : Encoding) (h : PreparationHandle) (pages : List PreparedPage)
    (chunks : List MarkdownChunk) (dense : List (List ℚ)) (sparse : List SparseVector) :
    Outcome ChunkVectorBundle := do
  require (chunks ≠ [] ∧ chunks.length = dense.length ∧ chunks.length = sparse.length)
    (preparationError "vector_correlation"
      "embedding output did not cover every chunk exactly once")
  let vectors ← prepareVectors enc h 0 (chunks.zip (dense.zip sparse))
  pure ⟨enc.sha256Text (enc.canonicalMarkdown pages),vectors,vectorManifest enc vectors⟩

/-- Persist complete correlated chunks and document vectors atomically. -/
def recordChunkVectors (enc : Encoding) (h : PreparationHandle) (b : ChunkVectorBundle)
    (d : Document) : Outcome (Digest × Document) := do
  require (b.vectors ≠ [] ∧ b.vectorManifestSha256 = vectorManifest enc b.vectors)
    (preparationError "vector_correlation" "vector bundle manifest did not match")
  let r ← loadStage d h
  require (r.formatterComplete = true ∧ r.markdownSha256.isSome = true)
    (preparationError "stage_order" "complete formatter artifacts must be recorded first")
  require (r.markdownSha256 = some b.canonicalMarkdownSha256)
    (preparationError "chunk_correlation" "chunk input Markdown did not match the revision")
  require (r.content.chunks = [])
    (preparationError "stage_already_recorded" "chunk/vector artifacts were already recorded")
  pure (b.vectorManifestSha256,d.putRevision {r with
    content := {r.content with chunks := b.vectors}
    chunkCount := some b.vectors.length, expectedPointCount := some b.vectors.length,
    vectorManifestSha256 := some b.vectorManifestSha256, vectorComplete := true})

/-- Validate one persisted chunk with its vector row and rebuild its point. -/
def chunkPoint (enc : Encoding) (d : Document) (r : PreparedRevision) (expected : ℕ)
    (c : PreparedChunk) : Outcome ChunkPoint := do
  require (c.chunkIndex = expected ∧ c.id = chunkIdentity d.id r.id expected c.textSha256 ∧
      c.textSha256 = enc.sha256Text c.markdown ∧ isBlank c.markdown = false ∧
      1 ≤ c.pageStart ∧ c.pageStart ≤ c.pageEnd ∧ r.pageCount.any (c.pageEnd ≤ ·) = true ∧
      0 < c.tokenCount ∧ c.tokenCount ≤ hardMaxTokens)
    (preparationError "chunk_correlation"
      "persisted chunk/vector correlation was invalid")
  let denseHash ← denseVectorSha256 enc c.vector.dense
  let sparseHash ← sparseVectorSha256 enc c.vector.sparse
  require (c.vector.denseSha256 = denseHash ∧ c.vector.sparseSha256 = sparseHash)
    (preparationError "vector_correlation" "persisted vector hash did not match")
  pure { chunkId := c.id, documentId := d.id, preparedRevisionId := r.id,
         collectionKey := d.intake.collectionKey,
         activeQdrantCollection := r.identity.activeQdrantCollection,
         chunkIndex := c.chunkIndex, pageStart := c.pageStart, pageEnd := c.pageEnd,
         headingPath := c.headingPath, textSha256 := c.textSha256, markdown := c.markdown,
         contentProfileId := r.identity.contentProfileId,
         indexProfileId := r.identity.indexProfileId,
         dense := c.vector.dense, sparse := c.vector.sparse }

def chunkPoints (enc : Encoding) (d : Document) (r : PreparedRevision) :
    ℕ → List PreparedChunk → Outcome (List ChunkPoint)
  | _, [] => pure []
  | i, c :: cs => do
      let p ← chunkPoint enc d r i c
      let ps ← chunkPoints enc d r (i + 1) cs
      pure (p :: ps)

def validateChunkRows (enc : Encoding) (d : Document) (r : PreparedRevision) :
    Outcome (List ChunkPoint) := do
  require (r.content.chunks ≠ [])
    (preparationError "chunk_correlation" "prepared revision had no chunks")
  let points ← chunkPoints enc d r 0 r.content.chunks
  require (r.chunkCount = some r.content.chunks.length ∧
      r.expectedPointCount = some r.content.chunks.length)
    (preparationError "chunk_correlation" "persisted chunk counts did not match")
  require (r.vectorManifestSha256 = some (vectorManifest enc r.content.chunks))
    (preparationError "vector_correlation"
      "revision vector manifest did not match its points")
  pure points

/-- Rebuild publication points only from persisted prepared artifacts. -/
def reconstructChunkPoints (enc : Encoding) (revisionId : Uuid) (requireSealed : Bool)
    (d : Document) : Outcome (List ChunkPoint) := do
  let r ← loadRevision d revisionId
  require (requireSealed = true → r.status = .sealed)
    (preparationError "revision_state_conflict" "publication requires a sealed revision")
  validateChunkRows enc d r

/-! ### Candidates and evidence -/

/-- The document that retains a chunk. -/
def chunkOwner (c : Catalog) (id : ChunkId) : Option Uuid :=
  (c.documents.rows.find? fun d => d.preparedRevisions.rows.any fun r =>
    r.content.chunks.any fun k => k.id = id).map (·.id)

def citationValid (c : Catalog) (allowed : List Uuid) (x : Citation) : Bool :=
  x.documentId ∈ allowed && 1 ≤ x.pageStart && x.pageStart ≤ x.pageEnd &&
  !isBlank x.excerpt && x.excerpt.length ≤ 4000 && chunkOwner c x.chunkId = some x.documentId

/-- Whether `_evidence_row` accepts a record about the allowed documents. -/
def evidenceValid (c : Catalog) (allowed : List Uuid) (e : EvidenceInput) : Bool :=
  (match e.kind with
    | .deterministic => e.modelId.isNone && e.valid
    | .classifier | .verifier => e.modelId.any (· ≠ "")
    | .incomplete => !e.valid) &&
  e.modelId.all (fun s => s.length ≤ 255) && e.label.all (fun s => s.length ≤ 64) &&
  e.summary.all (fun s => !isBlank s && s.length ≤ 2000) &&
  (e.valid = e.failureCode.isNone) && e.evidence.length ≤ 50 &&
  e.evidence.all (citationValid c allowed)

def requireEvidence (c : Catalog) (allowed : List Uuid) (records : List EvidenceInput) :
    Outcome Unit :=
  require (records.all (evidenceValid c allowed) = true)
    (preparationError "evidence_correlation" "evidence metadata was invalid")

/-- The correlation of one candidate with the catalog. -/
def validateCandidate (h : PreparationHandle) (matched : Document) (x : CandidateInput) :
    Outcome Unit := do
  require (matched.intake.collectionKey = h.collectionKey)
    (preparationError "candidate_scope" "candidate document crossed a logical collection")
  match x.source with
  | .active =>
      require (matched.state = .ready)
        (preparationError "candidate_correlation" "active candidate was not READY")
  | .screening =>
      require (matched.state ∉ [.rejected,.cancelled,.deleted])
        (preparationError "candidate_correlation" "screening candidate was content-free")
  require (x.reasons ≠ [] ∧ x.reasons.length ≤ 50 ∧ x.reasons.Nodup)
    (preparationError "candidate_correlation"
      "candidate reasons were missing or duplicated")
  require (-1 ≤ x.maxCosine ∧ x.maxCosine ≤ 1 ∧ 0 ≤ x.bm25Score ∧ 0 ≤ x.fusedScore)
    (preparationError "candidate_correlation" "candidate score was outside its valid range")
  require (x.evidence.map (·.kind) = [.deterministic])
    (preparationError "candidate_correlation"
      "candidate must first persist exactly one deterministic evidence record")

def candidateRow (now : Time) (matched : Document) (rank : ℕ) (x : CandidateInput) :
    PreparedCandidate where
  id := uuid4 now rank
  matchedDocumentId := matched.id
  source := x.source
  rank := rank
  reasons := x.reasons
  maxCosine := x.maxCosine
  bm25Score := x.bm25Score
  fusedScore := x.fusedScore
  matchedChunkPairs := x.matchedChunkPairs
  documentSnapshot := ⟨matched.id,matched.intake.collectionKey,
    matched.intake.originalFilename,matched.state,matched.intake.sha256⟩
  evidence := x.evidence

def candidateRows (now : Time) (c : Catalog) (h : PreparationHandle) :
    ℕ → List CandidateInput → Outcome (List PreparedCandidate)
  | _, [] => pure []
  | rank, x :: xs => do
      let matched ← orRaise (c.document? x.matchedDocumentId)
        (preparationError "candidate_correlation" "a candidate document was not retained")
      validateCandidate h matched x
      requireEvidence c [h.documentId,matched.id] x.evidence
      let rows ← candidateRows now c h (rank + 1) xs
      pure (candidateRow now matched rank x :: rows)

/-- Persist deterministic candidates before any advisory model call. -/
def recordPreflightCandidates (now : Time) (h : PreparationHandle)
    (candidates : List CandidateInput) (c : Catalog) (d : Document) :
    Outcome (List Uuid × Document) := do
  require (candidates.length ≤ 100)
    (preparationError "candidate_limit" "candidate count exceeded the safety limit")
  let matched := candidates.map (·.matchedDocumentId)
  require (matched.Nodup ∧ h.documentId ∉ matched)
    (preparationError "candidate_correlation"
      "candidate documents were duplicated or self-referential")
  let r ← loadStage d h
  require (r.vectorComplete = true)
    (preparationError "stage_order"
      "complete chunk vectors must be recorded before candidates")
  require (r.content.candidates = [])
    (preparationError "stage_already_recorded" "preflight candidates were already recorded")
  require (∀ id ∈ matched, (c.document? id).isSome = true)
    (preparationError "candidate_correlation" "a candidate document was not retained")
  let rows ← candidateRows now c h 1 candidates
  pure (rows.map (·.id),
    d.putRevision {r with content := {r.content with candidates := rows}})

/-- The advisory records of one candidate. -/
def advisoryRecords (evidence : List (Uuid × List EvidenceInput)) (id : Uuid) :
    List EvidenceInput :=
  ((evidence.find? fun x => x.1 = id).map (·.2)).getD []

def appendRecords (c : Catalog) (h : PreparationHandle)
    (evidence : List (Uuid × List EvidenceInput)) :
    List PreparedCandidate → Outcome (List PreparedCandidate)
  | [] => pure []
  | x :: xs => do
      require (x.evidence ≠ [] ∧ ∀ e ∈ x.evidence, e.kind = .deterministic)
        (preparationError "stage_already_recorded"
          "candidate advisory evidence was already recorded or incomplete")
      let records := advisoryRecords evidence x.id
      let kinds := records.map (·.kind)
      require (kinds.Nodup ∧ EvidenceKind.deterministic ∉ kinds ∧
          EvidenceKind.classifier ∈ kinds ∧ EvidenceKind.verifier ∈ kinds)
        (preparationError "evidence_correlation"
          "advisory evidence requires unique classifier and verifier outcomes")
      requireEvidence c [h.documentId,x.matchedDocumentId] records
      let xs ← appendRecords c h evidence xs
      pure ({x with evidence := x.evidence ++ records} :: xs)

/-- Append classifier and verifier outcomes after deterministic rows are durable. -/
def appendAdvisoryEvidence (h : PreparationHandle)
    (evidence : List (Uuid × List EvidenceInput)) (c : Catalog) (d : Document) :
    Outcome (Unit × Document) := do
  let r ← loadStage d h
  require ((∀ x ∈ r.content.candidates, x.id ∈ evidence.map (·.1)) ∧
      ∀ id ∈ evidence.map (·.1), id ∈ r.content.candidates.map (·.id))
    (preparationError "evidence_correlation"
      "advisory evidence did not cover the exact deterministic candidate set")
  let rows ← appendRecords c h evidence r.content.candidates
  pure ((),d.putRevision {r with content := {r.content with candidates := rows}})

/-! ### Sealing -/

def preparedPageValid (enc : Encoding) (expected : ℕ) (x : ExtractedPage) (p : PreparedPage) :
    Bool :=
  p.pageNumber = expected && p.markdownSha256 = enc.sha256Text p.markdown &&
  !isBlank p.markdown && enc.slicesCover x p

/-- The extraction and Markdown hashes of validated persisted pages. -/
def validatePersistedPages (enc : Encoding) (r : PreparedRevision) :
    Outcome (Digest × Digest) := do
  let extracted := r.content.extractedPages
  let prepared := r.content.preparedPages
  require (extracted ≠ [] ∧ pagesValid enc extracted = true)
    (preparationError "extraction_correlation"
      "persisted extraction page correlation was invalid")
  let extraction := enc.extractionManifest extracted
  require (r.pageCount = some extracted.length ∧ r.extractionSha256 = some extraction)
    (preparationError "extraction_correlation"
      "revision extraction manifest did not match its pages")
  require (prepared.length = extracted.length ∧ ((extracted.zip prepared).zipIdx 1).all
      (fun x => preparedPageValid enc x.2 x.1.1 x.1.2) = true)
    (preparationError "formatter_correlation"
      "persisted Markdown did not cover every extracted page")
  let markdown := enc.sha256Text (enc.canonicalMarkdown prepared)
  require (r.markdownSha256 = some markdown)
    (preparationError "formatter_correlation"
      "revision Markdown manifest did not match its pages")
  pure (extraction,markdown)

/-- Whether the evidence of one candidate supports the completeness that sealing claims. -/
def candidateEvidenceValid (documentId : Uuid) (completeness : PreflightCompleteness)
    (expectedRank : ℕ) (x : PreparedCandidate) : Bool :=
  let kinds := x.evidence.map (·.kind)
  let validKinds := (x.evidence.filter (·.valid)).map (·.kind)
  x.rank = expectedRank && x.matchedDocumentId ≠ documentId && kinds.Nodup &&
  (!completeness.candidateDiscoveryComplete || EvidenceKind.deterministic ∈ validKinds) &&
  (!completeness.advisoryComplete || (EvidenceKind.classifier ∈ validKinds &&
    EvidenceKind.verifier ∈ validKinds && EvidenceKind.incomplete ∉ kinds))

/-- The evidence hash and the reasons in canonical order. -/
def evidenceManifest (enc : Encoding) (d : Document) (r : PreparedRevision)
    (completeness : PreflightCompleteness) : Outcome (Digest × List FailureCode) := do
  let reasons := completeness.incompleteReasons.dedup.insertionSort fun a b => a.1 ≤ b.1
  let complete := completeness.candidateDiscoveryComplete && completeness.advisoryComplete
  require (completeness.clearForPublication =
      (complete && r.content.candidates.isEmpty && reasons.isEmpty))
    (preparationError "evidence_correlation"
      "clear-for-publication flags were contradictory")
  require (complete = false → reasons ≠ [])
    (preparationError "evidence_correlation"
      "incomplete preflight required a bounded reason")
  require (complete = true → reasons = [])
    (preparationError "evidence_correlation"
      "complete preflight could not retain incomplete reasons")
  require ((r.content.candidates.zipIdx 1).all
      (fun x => candidateEvidenceValid d.id completeness x.2 x.1) = true)
    (preparationError "evidence_correlation"
      "candidate rank or revision correlation was invalid")
  pure (enc.evidenceManifest ⟨completeness.candidateDiscoveryComplete,
    completeness.advisoryComplete,completeness.clearForPublication,reasons,
    r.content.candidates⟩,reasons)

/-- Exhaustively validate and atomically make the revision immutable. -/
def sealPreparedRevision (enc : Encoding) (now : Time) (h : PreparationHandle)
    (completeness : PreflightCompleteness) (d : Document) :
    Outcome (SealedPreparation × Document) := do
  let r ← loadStage d h
  require (d.intake.collectionKey = h.collectionKey)
    (preparationError "revision_identity_mismatch"
      "revision document correlation did not match")
  require (r.nativeTextEligible = true ∧ r.formatterComplete = true ∧ r.vectorComplete = true)
    (preparationError "partial_preparation" "partial content artifacts could not be sealed")
  let (extraction,markdown) ← validatePersistedPages enc r
  require (enc.batchesCover r.content.formatterBatches r.content.preparedPages = true)
    (preparationError "formatter_correlation"
      "valid formatter batches did not exactly cover page slices")
  let _ ← validateChunkRows enc d r
  let vectors := vectorManifest enc r.content.chunks
  let (evidence,reasons) ← evidenceManifest enc d r completeness
  let manifest := enc.wholeManifest
    { revisionId := r.id, documentId := d.id, revisionNumber := r.revisionNumber,
      collectionKey := d.intake.collectionKey, identity := r.identity,
      formatterTokenizerClass := h.identity.formatterTokenizerClass, pageCount := r.pageCount,
      chunkCount := r.chunkCount, expectedPointCount := r.expectedPointCount,
      extraction := extraction, markdown := markdown, vectors := vectors,
      evidence := evidence, nativeTextEligible := r.nativeTextEligible,
      formatterComplete := r.formatterComplete, vectorComplete := r.vectorComplete,
      candidateDiscoveryComplete := completeness.candidateDiscoveryComplete,
      advisoryComplete := completeness.advisoryComplete,
      clearForPublication := completeness.clearForPublication, incompleteReasons := reasons }
  pure (⟨r.id,manifest,completeness.clearForPublication⟩,d.putRevision {r with
    candidateDiscoveryComplete := completeness.candidateDiscoveryComplete,
    advisoryComplete := completeness.advisoryComplete,
    clearForPublication := completeness.clearForPublication, incompleteReasons := reasons,
    extractionSha256 := some extraction, markdownSha256 := some markdown,
    vectorManifestSha256 := some vectors, evidenceManifestSha256 := some evidence,
    manifestSha256 := some manifest, sealedAt := some now, failureCode := none,
    failureMessage := none, status := .sealed})

/-- Mark a non-sealed revision failed without exposing source or provider data. -/
def failPreparation (revisionId : Uuid) (code : FailureCode) (message : Text 500)
    (d : Document) : Outcome (Unit × Document) := do
  let r ← loadRevision d revisionId
  require (r.status ≠ .sealed)
    (preparationError "revision_state_conflict"
      "a sealed revision cannot be marked failed")
  if r.status = .failed then pure ((),d)
  else pure ((),d.putRevision {r with
    status := .failed, failureCode := some code, failureMessage := some message})

end Preparation
end PdfBridge
