import PdfBridge.Contracts.Values
import PdfBridge.Foundation.Table
import Mathlib.Data.Rat.Defs

/-! The catalog rows. A child row is held by the relationship list of its parent, as in the
object graph of the source: a revision belongs to one document, a chunk to one revision. -/
namespace PdfBridge

/-- A UUIDv5 chunk identity, given by the material it is derived from. -/
structure ChunkId where
  documentId : Uuid
  preparedRevisionId : Uuid
  chunkIndex : ℕ
  textSha256 : Digest
deriving DecidableEq

/-- Keys of the protected storage root: `objects/{id}.pdf` and `artifacts/{document}/…`. -/
inductive StorageKey where
  | object (id : Uuid)
  | artifact (documentId preparedRevisionId artifactId : Uuid)
deriving DecidableEq

inductive DocumentState where
  | preflighting | preflightFailed | reviewRequired | publishing | publishFailed | ready
  | deleting | deleteFailed | rejected | cancelled | deleted
deriving DecidableEq

inductive TerminalDisposition where
  | cancelled | rejected | deleted
deriving DecidableEq

/-- `DocumentState(disposition.value)`. -/
def TerminalDisposition.toState : TerminalDisposition → DocumentState
  | .cancelled => .cancelled
  | .rejected => .rejected
  | .deleted => .deleted

inductive OperationType where
  | preflight | publish | delete
deriving DecidableEq

inductive OperationPriority where
  | high | replacement | publish | normal
deriving DecidableEq

def OperationPriority.value : OperationPriority → ℕ
  | .high => 0
  | .replacement => 10
  | .publish => 20
  | .normal => 30

inductive OperationState where
  | queued | running | succeeded | failed | cancelled
deriving DecidableEq

inductive DeletionPhase where
  | deleteActivePoints | verifyActiveZero | deleteScreeningPoints | verifyScreeningZero
  | purgeStorage | commitTombstone
deriving DecidableEq

inductive OperationPhase where
  | queued
  | extracting | checkingEligibility | packingFormatterBatches | formattingMarkdown
  | validatingMarkdown | chunkingMarkdown | embeddingDense | embeddingSparse
  | upsertingScreeningPoints | discoveringCandidates | classifyingCandidates
  | sealingRevision | awaitingDecision
  | upsertActivePoints | verifyActivePoints | removeScreeningPoints | verifyScreeningRemoval
  | deletion (phase : DeletionPhase)
  | complete
deriving DecidableEq

inductive RevisionStatus where
  | preparing | sealed | failed
deriving DecidableEq

inductive FormatterBatchStatus where
  | pending | running | valid | failed
deriving DecidableEq

inductive CandidateSource where
  | active | screening
deriving DecidableEq

inductive EvidenceKind where
  | deterministic | classifier | verifier | incomplete
deriving DecidableEq

inductive DecisionAction where
  | keep | replace | cancel
deriving DecidableEq

inductive PublicationStatus where
  | pending | upserted | verified | failed
deriving DecidableEq

inductive IndexTarget where
  | active | screening
deriving DecidableEq

inductive IndexAction where
  | upsert | publish | delete
deriving DecidableEq

inductive OutboxState where
  | pending | applied | superseded
deriving DecidableEq

inductive ScanState where
  | pending | clean | infected | error
deriving DecidableEq

/-! ### Content of one prepared revision -/

structure RevisionArtifact where
  id : Uuid
  kind : String
  sequence : ℕ
  storageKey : StorageKey
deriving DecidableEq

structure ExtractedPage where
  pageNumber : ℕ
  layoutText : String
  characterCount : ℕ
  textSha256 : Digest
deriving DecidableEq

structure FormatterBatch where
  batchIndex : ℕ
  attempt : ℕ
  status : FormatterBatchStatus
  requestSha256 : Digest
  responseSha256 : Option Digest
  finishReason : Option String
  validationErrors : List String
deriving DecidableEq

structure PreparedPage where
  pageNumber : ℕ
  markdown : String
  markdownSha256 : Digest
deriving DecidableEq

structure SparseVector where
  indices : List ℕ
  values : List ℚ
deriving DecidableEq

structure PreparedChunkVector where
  dense : List ℚ
  sparse : SparseVector
  denseSha256 : Digest
  sparseSha256 : Digest
deriving DecidableEq

/-- A chunk row with its correlated vector row. -/
structure PreparedChunk where
  id : ChunkId
  chunkIndex : ℕ
  pageStart : ℕ
  pageEnd : ℕ
  headingPath : List String
  tokenCount : ℕ
  textSha256 : Digest
  markdown : String
  vector : PreparedChunkVector
deriving DecidableEq

/-- One retained verbatim quotation of an advisory result. -/
structure Citation where
  documentId : Uuid
  chunkId : ChunkId
  pageStart : ℕ
  pageEnd : ℕ
  excerpt : String
deriving DecidableEq

structure CandidateEvidence where
  kind : EvidenceKind
  modelId : Option String
  valid : Bool
  label : Option String
  summary : Option String
  evidence : List Citation
  failureCode : Option FailureCode
deriving DecidableEq

structure DocumentSnapshot where
  id : Uuid
  collectionKey : CollectionKey
  originalFilename : Text 255
  state : DocumentState
  sha256 : Digest
deriving DecidableEq

structure PreparedCandidate where
  id : Uuid
  matchedDocumentId : Uuid
  source : CandidateSource
  rank : ℕ
  reasons : List FailureCode
  maxCosine : ℚ
  bm25Score : ℚ
  fusedScore : ℚ
  matchedChunkPairs : List (ℕ × ChunkId)
  documentSnapshot : DocumentSnapshot
  evidence : List CandidateEvidence
deriving DecidableEq

/-- The rows that a terminal purge removes. -/
structure RevisionContent where
  artifacts : List RevisionArtifact
  extractedPages : List ExtractedPage
  formatterBatches : List FormatterBatch
  preparedPages : List PreparedPage
  chunks : List PreparedChunk
  candidates : List PreparedCandidate
deriving DecidableEq

def RevisionContent.empty : RevisionContent := ⟨[],[],[],[],[],[]⟩

/-- The target and model identities stored in a revision header. -/
structure RevisionIdentity where
  activeQdrantCollection : Text 255
  contentProfileId : ProfileId
  indexProfileId : ProfileId
  preflightPolicyId : ProfileId
  formatterModelId : Text 255
  denseModelId : Text 255
  sparseModelId : Text 255
deriving DecidableEq

structure PreparedRevision where
  id : Uuid
  revisionNumber : ℕ
  status : RevisionStatus
  identity : RevisionIdentity
  languageCode : Option (Text 16)
  nativeTextEligible : Bool
  formatterComplete : Bool
  vectorComplete : Bool
  candidateDiscoveryComplete : Bool
  advisoryComplete : Bool
  clearForPublication : Bool
  incompleteReasons : List FailureCode
  pageCount : Option ℕ
  chunkCount : Option ℕ
  expectedPointCount : Option ℕ
  extractionSha256 : Option Digest
  markdownSha256 : Option Digest
  vectorManifestSha256 : Option Digest
  evidenceManifestSha256 : Option Digest
  manifestSha256 : Option Digest
  failureCode : Option FailureCode
  failureMessage : Option (Text 500)
  createdAt : Time
  sealedAt : Option Time
  content : RevisionContent
deriving DecidableEq

/-! ### Lifecycle rows -/

structure WorkOperation where
  id : Uuid
  documentId : Uuid
  preparedRevisionId : Option Uuid
  replacementTargetDocumentId : Option Uuid
  operationType : OperationType
  priority : ℕ
  state : OperationState
  phase : OperationPhase
  phaseStartedAt : Time
  attempt : ℕ
  workerId : Option Uuid
  leaseExpiresAt : Option Time
  failureCode : Option FailureCode
  failureMessage : Option (Text 500)
  retryable : Bool
  createdAt : Time
  startedAt : Option Time
  completedAt : Option Time
deriving DecidableEq

structure Decision where
  id : Uuid
  preparedRevisionId : Uuid
  preparedManifestSha256 : Digest
  action : DecisionAction
  targetDocumentId : Option Uuid
  actorId : Text 255
  createdAt : Time
deriving DecidableEq

structure PublicationRecord where
  id : Uuid
  preparedRevisionId : Uuid
  activeQdrantCollection : Text 255
  status : PublicationStatus
  expectedPoints : ℕ
  verifiedPoints : Option ℕ
  payloadRevisionVerified : Bool
  vectorSchemaVerified : Bool
  screeningZeroVerified : Bool
  failureCode : Option FailureCode
  createdAt : Time
  verifiedAt : Option Time
deriving DecidableEq

structure DeletionProgress where
  preparedRevisionId : Option Uuid
  publicationRecordId : Option Uuid
  terminalDisposition : TerminalDisposition
  activeQdrantCollection : Text 255
  screeningQdrantCollection : Text 255
  phase : DeletionPhase
  activeZeroVerifiedAt : Option Time
  screeningZeroVerifiedAt : Option Time
  storagePurgedAt : Option Time
  tombstonedAt : Option Time
  failureCode : Option FailureCode
  attempts : ℕ
deriving DecidableEq

structure Tombstone where
  collectionKey : CollectionKey
  disposition : TerminalDisposition
  sourceSha256 : Digest
  manifestSha256 : Option Digest
  reasonCode : Option FailureCode
  actorId : Text 255
  occurredAt : Time
deriving DecidableEq

structure IndexOutboxEntry where
  preparedRevisionId : Uuid
  target : IndexTarget
  action : IndexAction
  qdrantCollection : Text 255
  expectedPoints : ℕ
  state : OutboxState
  attempts : ℕ
  failureCode : Option FailureCode
  failureMessage : Option (Text 500)
  appliedAt : Option Time
deriving DecidableEq

/-- What admission records about the uploaded file. -/
structure Intake where
  collectionKey : CollectionKey
  originalFilename : Text 255
  normalizedFilename : String
  contentType : String
  sizeBytes : ℕ
  sha256 : Digest
  scanState : ScanState
  scanEngine : Option (Text 100)
  scannedAt : Option Time
  createdBy : Text 255
deriving DecidableEq

/-- A document with the rows that its relationships reach. -/
structure Document where
  id : Uuid
  intake : Intake
  storageKey : Option StorageKey
  state : DocumentState
  terminalDisposition : Option TerminalDisposition
  createdAt : Time
  readyAt : Option Time
  rejectedAt : Option Time
  cancelledAt : Option Time
  deletedAt : Option Time
  failureCode : Option FailureCode
  failureMessage : Option (Text 500)
  failureRetryable : Bool
  replacedByDocumentId : Option Uuid
  preparedRevisions : Table PreparedRevision.id
  operations : Table WorkOperation.id
  decisions : List Decision
  publications : Table PublicationRecord.id
  deletionProgress : Option DeletionProgress
  tombstone : Option Tombstone
  outbox : List IndexOutboxEntry
deriving DecidableEq

end PdfBridge
