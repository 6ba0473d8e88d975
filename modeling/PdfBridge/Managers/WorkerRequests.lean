import PdfBridge.Foundation.Program
import PdfBridge.Managers.WorkerCatalog

/-! The atomic steps of a worker thread: one catalog transaction, one Qdrant call, one file
operation or one provider call each, and what each of them does to the shared state. -/
namespace PdfBridge
namespace Worker
open Intake Preparation

/-! ### Providers -/

inductive RejectionReason where
  | encrypted | malformed | empty | pageBudget | characterBudget | timeout | imageOnly
  | textInsufficient | nonEnglish
deriving DecidableEq

theorem extraction_image_only_code : isFailureCode "extraction_image-only" = true := by
  decide +kernel

/-- `extraction_{reason}`. -/
def RejectionReason.code : RejectionReason → FailureCode
  | .encrypted => failureCode "extraction_encrypted"
  | .malformed => failureCode "extraction_malformed"
  | .empty => failureCode "extraction_empty"
  | .pageBudget => failureCode "extraction_page-budget"
  | .characterBudget => failureCode "extraction_character-budget"
  | .timeout => failureCode "extraction_timeout"
  | .imageOnly => failureCode "extraction_image-only" extraction_image_only_code
  | .textInsufficient => failureCode "extraction_text-insufficient"
  | .nonEnglish => failureCode "extraction_non-english"

/-- The exceptions that leave a preparation provider or an advisory model. -/
inductive ProviderFailure where
  | extractionRejected (reason : RejectionReason)
  | extractionInfrastructure
  | markdownFormatting (message : String)
  | markdownChunking
  | localModel
  | classificationUnavailable
  | value
  | other
deriving DecidableEq

def chunkVectorFailed : ServiceError :=
  preparationError "chunk_vector_failed" "canonical Markdown could not be chunked and embedded"

/-- `_external_error`. -/
def externalError : ProviderFailure → ServiceError
  | .extractionRejected reason => .preparation reason.code
      (text "source PDF did not satisfy the target extraction policy")
  | .extractionInfrastructure =>
      preparationError "extraction_unavailable" "required PDF extraction was unavailable"
  | .markdownFormatting message =>
      .preparation (failureCode "formatter_failed") (sanitize message)
  | .markdownChunking | .localModel => chunkVectorFailed
  | _ => preparationError "preparation_failed" "preparation could not be completed"

/-- What chunking and embedding raise, inside the preparation of a vector bundle. -/
def bundleError : ProviderFailure → ServiceError
  | .value => chunkVectorFailed
  | e => externalError e

/-- What a provider raises outside preparation. -/
def providerError : ProviderFailure → ServiceError
  | .localModel => .localModel
  | .classificationUnavailable => .classificationUnavailable
  | _ => .value "provider"

/-! ### Requests -/

inductive CatalogRequest where
  | operationSnapshot
  | setPhase (phase : OperationPhase)
  | bindRevision (revisionId : Uuid)
  | failOperation (e : ServiceError)
  | preflightSource
  | beginPreparation (identity : PreparationIdentity)
  | recordExtraction (h : PreparationHandle) (x : ExtractedDocument)
  | recordFormatting (h : PreparationHandle) (f : FormattedDocument)
  | loadPreparedMarkdownPages (h : PreparationHandle)
  | recordChunkVectors (h : PreparationHandle) (b : ChunkVectorBundle)
  | reconstructChunkPoints (revisionId : Uuid) (requireSealed : Bool)
  | failPreparation (revisionId : Uuid) (code : FailureCode) (message : Text 500)
  | latestMutableRevision
  | artifactSequence (revisionId : Uuid) (kind : String)
  | insertArtifact (revisionId : Uuid) (a : RevisionArtifact)
  | beginOutbox (k : OutboxKey) (expectedPoints : ℕ)
  | completeOutbox (k : OutboxKey)
  | acceptRejection (reasonCode : FailureCode) (configuredActive : Text 255)
  | catalogCandidateContext (h : PreparationHandle) (markdown : Digest)
      (seen : List SeenDocument)
  | recordPreflightCandidates (h : PreparationHandle) (candidates : List CandidateInput)
  | classificationExcerpts (h : PreparationHandle) (candidateId : Uuid)
      (candidateRevisionId : Option Uuid)
  | appendAdvisoryEvidence (h : PreparationHandle) (evidence : List (Uuid × List EvidenceInput))
  | sealPreparedRevision (h : PreparationHandle) (completeness : PreflightCompleteness)
  | finishPreflight (prepared : SealedPreparation)
  | publicationBinding (revisionId : Uuid)
  | markUpserted (revisionId : Uuid)
  | finishPublication (revisionId : Uuid) (expectedPoints : ℕ)
  | deletionCheckpoint (documentId : Uuid)
  | countDeletionAttempt (documentId : Uuid)
  | deletionFlags (documentId : Uuid)
  | setDeletionPhase (documentId : Uuid) (phase : DeletionPhase)
  | recordZeroVerification (documentId : Uuid) (target : IndexTarget)
  | purgeBinding (documentId : Uuid)
  | purgeContentRows (documentId : Uuid) (b : PurgeBinding)
  | commitDeletion (documentId : Uuid)

@[reducible] def CatalogRequest.Response : CatalogRequest → Type
  | .operationSnapshot => OperationSnapshot
  | .preflightSource => DocumentWorkSnapshot
  | .beginPreparation _ => PreparationHandle
  | .recordExtraction _ _ | .recordFormatting _ _ | .recordChunkVectors _ _ => Digest
  | .loadPreparedMarkdownPages _ => List PreparedPage
  | .reconstructChunkPoints _ _ => List ChunkPoint
  | .latestMutableRevision => Uuid
  | .artifactSequence _ _ => ℕ
  | .catalogCandidateContext _ _ _ => CandidateContext
  | .recordPreflightCandidates _ _ => List Uuid
  | .classificationExcerpts _ _ _ => List SourceExcerpt × List SourceExcerpt
  | .sealPreparedRevision _ _ => SealedPreparation
  | .publicationBinding _ => Text 255 × ℕ
  | .deletionCheckpoint _ => Option Uuid × Text 255 × Text 255
  | .deletionFlags _ => DeletionFlags
  | .purgeBinding _ => PurgeBinding
  | _ => Unit

inductive PointRequest where
  | upsert (collection : Text 255) (points : List Point)
  | count (collection : Text 255) (documentId : Uuid)
  | retrieve (collection : Text 255) (ids : List ChunkId)
  | setPayload (collection : Text 255) (documentId preparedRevisionId : Uuid)
  | delete (collection : Text 255) (documentId : Uuid)
  | query (collection : Text 255) (vector : QueryVector) (filter : CandidateFilter) (limit : ℕ)

@[reducible] def PointRequest.Response : PointRequest → Type
  | .count _ _ => ℕ
  | .retrieve _ _ => List Point
  | .query _ _ _ _ => List ScoredPoint
  | _ => Unit

inductive FileRequest where
  | isFile (key : StorageKey)
  | writeArtifact (documentId revisionId : Uuid) (kind : String) (sequence : ℕ)
      (material : ArtifactMaterial)
  | remove (key : StorageKey) (missingOk : Bool)
  | removeArtifacts (documentId : Uuid)

@[reducible] def FileRequest.Response : FileRequest → Type
  | .isFile _ => Bool
  | .writeArtifact _ _ _ _ _ => RevisionArtifact
  | _ => Unit

/-- A formatter call and the exchanges that were captured during it. -/
structure Captured (α : Type) where
  exchanges : List ProtectedExchange
  result : Except ProviderFailure α

inductive ProviderRequest where
  | extract (key : StorageKey)
  | validateNativeEnglish (x : ExtractedDocument)
  | packFormatterBatches (x : ExtractedDocument)
  | requestFormatter (x : ExtractedDocument)
  | formatMarkdown (x : ExtractedDocument)
  | chunkMarkdown (h : PreparationHandle) (pages : List PreparedPage)
  | embedDense (texts : List String)
  | embedSparseDocuments (texts : List String)
  | embedSparseQueries (texts : List String)
  | classify (role : EvidenceKind) (prompt : Prompt)

@[reducible] def ProviderRequest.Response : ProviderRequest → Type
  | .extract _ => Except ProviderFailure ExtractedDocument
  | .validateNativeEnglish _ | .packFormatterBatches _ => Except ProviderFailure Unit
  | .requestFormatter _ => Captured Unit
  | .formatMarkdown _ => Captured FormattedDocument
  | .chunkMarkdown _ _ => Except ProviderFailure (List MarkdownChunk)
  | .embedDense _ => Except ProviderFailure (List (List ℚ))
  | .embedSparseDocuments _ | .embedSparseQueries _ =>
      Except ProviderFailure (List SparseVector)
  | .classify _ _ => Except ProviderFailure ModelReply

inductive Request where
  | catalog (r : CatalogRequest)
  | points (r : PointRequest)
  | files (r : FileRequest)
  | provider (r : ProviderRequest)
  | release (claimed : ClaimedOperation)
  | raise (e : ServiceError)

@[reducible] def Request.Response : Request → Type
  | .catalog r => r.Response
  | .points r => r.Response
  | .files r => r.Response
  | .provider r => r.Response
  | .release _ => Unit
  | .raise _ => Empty

@[reducible] def signature : Signature := ⟨Request,Request.Response⟩

/-! ### Execution -/

/-- What the worker threads and the operator share. -/
structure Shared where
  now : Time
  catalog : Catalog
  qdrant : Qdrant
  storage : Storage
  process : Process
deriving DecidableEq

/-- What the environment decides about one step. -/
inductive Input where
  | proceed
  | databaseFault
  | fault (applied : Bool)
  | hits (xs : List ScoredPoint)
  | extraction (x : Except ProviderFailure ExtractedDocument)
  | checked (x : Except ProviderFailure Unit)
  | requested (x : Captured Unit)
  | formatted (x : Captured FormattedDocument)
  | chunks (x : Except ProviderFailure (List MarkdownChunk))
  | dense (x : Except ProviderFailure (List (List ℚ)))
  | sparse (x : Except ProviderFailure (List SparseVector))
  | reply (x : Except ProviderFailure ModelReply)

/-- A transaction on the rows of one document. -/
def onDocument {α : Type} (c : Catalog) (id : Uuid) (missing : ServiceError)
    (f : Document → Outcome (α × Document)) : Outcome (α × Catalog) := do
  let d ← orRaise (c.document? id) missing
  let (a,d) ← f d
  pure (a,c.put d)

/-- A transaction that only reads. -/
def reading {α : Type} (x : Outcome α) (c : Catalog) : Outcome (α × Catalog) :=
  x.map fun a => (a,c)

def revisionNotFound : ServiceError :=
  preparationError "revision_not_found" "prepared revision was not found" revision_not_found_code
    revision_not_found_text

/-- The committed effect of one catalog transaction of the thread that runs `ref`. -/
def CatalogRequest.run (s : Settings) (enc : Encoding) (now : Time) (worker : Uuid)
    (ref : OperationRef) (c : Catalog) : (r : CatalogRequest) → Outcome (r.Response × Catalog)
  | .operationSnapshot => reading (Worker.operationSnapshot worker ref c) c
  | .setPhase phase => Worker.setPhase now worker ref phase c
  | .bindRevision id => Worker.bindRevision worker ref id c
  | .failOperation e => Worker.failOperation now ref e c
  | .preflightSource => reading (Worker.preflightSource worker ref c) c
  | .beginPreparation identity => onDocument c ref.documentId
      (preparationError "document_not_found" "document was not found" document_not_found_code)
      (Preparation.beginPreparation now identity)
  | .recordExtraction h x => onDocument c h.documentId revisionNotFound
      (Preparation.recordExtraction enc h x)
  | .recordFormatting h f => onDocument c h.documentId revisionNotFound
      (Preparation.recordFormatting enc h f)
  | .loadPreparedMarkdownPages h => reading
      (orRaise (c.document? h.documentId) revisionNotFound >>=
        Preparation.loadPreparedMarkdownPages h) c
  | .recordChunkVectors h b => onDocument c h.documentId revisionNotFound
      (Preparation.recordChunkVectors enc h b)
  | .reconstructChunkPoints id sealed_ => reading
      (orRaise (c.document? ref.documentId) revisionNotFound >>=
        Preparation.reconstructChunkPoints enc id sealed_) c
  | .failPreparation id code message => onDocument c ref.documentId revisionNotFound
      (Preparation.failPreparation id code message)
  | .latestMutableRevision => reading (Worker.latestMutableRevision ref.documentId c) c
  | .artifactSequence id kind => reading (Worker.artifactSequence ref.documentId id kind c) c
  | .insertArtifact id a => onDocument c ref.documentId diagnosticsLost
      (Worker.insertArtifact id a)
  | .beginOutbox k n => onDocument c k.documentId bindingLost (Worker.beginOutbox k n)
  | .completeOutbox k => onDocument c k.documentId targetLost (Worker.completeOutbox now k)
  | .acceptRejection reason active =>
      Worker.acceptRejection now worker ref reason active s.screening c
  | .catalogCandidateContext h markdown seen =>
      reading (Worker.catalogCandidateContext enc h markdown seen c) c
  | .recordPreflightCandidates h xs => onDocument c h.documentId revisionNotFound
      (Preparation.recordPreflightCandidates now h xs c)
  | .classificationExcerpts h id revisionId =>
      reading (Worker.classificationExcerpts h id revisionId c) c
  | .appendAdvisoryEvidence h evidence => onDocument c h.documentId revisionNotFound
      (Preparation.appendAdvisoryEvidence h evidence c)
  | .sealPreparedRevision h x => onDocument c h.documentId revisionNotFound
      (Preparation.sealPreparedRevision enc now h x)
  | .finishPreflight x => Worker.finishPreflight now worker ref x c
  | .publicationBinding id => reading (Worker.publicationBinding worker ref id c) c
  | .markUpserted id => Worker.markUpserted worker ref id c
  | .finishPublication id n => Worker.finishPublication now worker ref id n c
  | .deletionCheckpoint id => reading (Worker.deletionCheckpoint worker ref id c) c
  | .countDeletionAttempt id => onDocument c id progressMissing Worker.countDeletionAttempt
  | .deletionFlags id => reading (Worker.deletionFlags id c) c
  | .setDeletionPhase id phase => Worker.setDeletionPhase now worker ref id phase c
  | .recordZeroVerification id target =>
      Worker.recordZeroVerification now worker ref id target c
  | .purgeBinding id => reading (Worker.purgeBinding worker ref id c) c
  | .purgeContentRows id b => Worker.purgeContentRows now worker ref id b c
  | .commitDeletion id => Worker.commitDeletion now worker ref id (text "bridge-worker") c

/-- The stored points after a Qdrant call. -/
def PointRequest.effect (q : Qdrant) : PointRequest → Qdrant
  | .upsert collection points => q.upsert collection points
  | .setPayload collection d r => q.activate collection d r
  | .delete collection d => q.delete collection d
  | .count _ _ | .retrieve _ _ | .query _ _ _ _ => q

/-- The answer of a Qdrant call; a search may answer any admitted hits. -/
def PointRequest.answer (q : Qdrant) (i : Input) : (r : PointRequest) → Option r.Response
  | .upsert _ _ | .setPayload _ _ _ | .delete _ _ => some ()
  | .count collection d => some (q.documentPoints collection d).length
  | .retrieve collection ids =>
      some ((q.collection collection).filter fun p => p.chunk.chunkId ∈ ids)
  | .query collection _ filter limit =>
      match i with
      | .hits xs => if q.answers collection filter limit xs then some xs else none
      | _ => none

def artifactFile (now : Time) (documentId revisionId : Uuid) (kind : String) (sequence : ℕ)
    (material : ArtifactMaterial) : StoredFile :=
  ⟨.artifact documentId revisionId (uuid4 now 0),.artifact kind sequence material⟩

/-- The storage root after a file operation. -/
def FileRequest.effect (now : Time) (st : Storage) : FileRequest → Storage
  | .isFile _ => st
  | .writeArtifact d r kind n x => st.write (artifactFile now d r kind n x)
  | .remove key _ => st.remove key
  | .removeArtifacts d => st.removeArtifacts d

/-- `_protected_artifact_bytes`. -/
def protectedArtifactBytes (enc : Encoding) (payload : ArtifactPayload) :
    Outcome (List UInt8) := do
  let raw ← orRaise (enc.artifactJson payload)
    (executionError "artifact_serialization_failed"
      "Protected diagnostic material could not be serialized." true)
  require (raw ≠ [] ∧ raw.length ≤ maxProtectedArtifactBytes)
    (executionError "artifact_size_exceeded"
      "Protected diagnostic material exceeded its byte limit." false)
  let compressed := enc.gzip raw
  require (compressed ≠ [] ∧ compressed.length ≤ maxProtectedArtifactBytes)
    (executionError "artifact_size_exceeded"
      "Protected diagnostic material exceeded its stored byte limit." false)
  pure compressed

/-- What a file operation computes before it comes to the storage root. -/
def FileRequest.prepared (enc : Encoding) : FileRequest → Outcome Unit
  | .writeArtifact d r kind n x => (protectedArtifactBytes enc ⟨d,r,kind,n,x⟩).map fun _ => ()
  | _ => .ok ()

def FileRequest.answer (now : Time) (st : Storage) :
    (r : FileRequest) → Except ServiceError r.Response
  | .isFile key => .ok (st.isFile key)
  | .writeArtifact d r kind n _ =>
      .ok ⟨uuid4 now 0,kind,n,.artifact d r (uuid4 now 0)⟩
  | .remove key missingOk =>
      if missingOk = true ∨ st.isFile key = true then .ok () else .error .fileNotFound
  | .removeArtifacts _ => .ok ()

def ProviderRequest.answer : (r : ProviderRequest) → Input → Option r.Response
  | .extract _, .extraction x => some x
  | .validateNativeEnglish _, .checked x => some x
  | .packFormatterBatches _, .checked x => some x
  | .requestFormatter _, .requested x => some x
  | .formatMarkdown _, .formatted x => some x
  | .chunkMarkdown _ _, .chunks x => some x
  | .embedDense _, .dense x => some x
  | .embedSparseDocuments _, .sparse x => some x
  | .embedSparseQueries _, .sparse x => some x
  | .classify _ _, .reply x => some x
  | _, _ => none

/-- One step of the thread that runs `ref`; no result when the input does not fit. -/
def exec (s : Settings) (enc : Encoding) (ref : OperationRef) (i : Input) (σ : Shared) :
    (r : Request) → Option (Except ServiceError r.Response × Shared)
  | .catalog r =>
      match i with
      | .proceed => some
          (match r.run s enc σ.now σ.process.workerId ref σ.catalog with
          | .ok (a,c) => (.ok a,{σ with catalog := c})
          | .error e => (.error e,σ))
      | .databaseFault => some (.error .database,σ)
      | _ => none
  | .points r =>
      match i with
      | .fault applied => some (.error (.vectorIndexUnavailable "Qdrant could not complete"),
          if applied then {σ with qdrant := r.effect σ.qdrant} else σ)
      | i => (r.answer σ.qdrant i).map fun a => (.ok a,{σ with qdrant := r.effect σ.qdrant})
  | .files r =>
      match r.prepared enc, i with
      | .error e, .proceed | .error e, .fault _ => some (.error e,σ)
      | .ok _, .proceed => some
          (match r.answer σ.now σ.storage with
          | .ok a => (.ok a,{σ with storage := r.effect σ.now σ.storage})
          | .error e => (.error e,σ))
      | .ok _, .fault applied => some (.error .os,
          if applied then {σ with storage := r.effect σ.now σ.storage} else σ)
      | _, _ => none
  | .provider r => (r.answer i).map fun a => (.ok a,σ)
  | .release claimed => some (.ok (),{σ with process := releaseClaim claimed σ.process})
  | .raise e => some (.error e,σ)

end Worker
end PdfBridge
