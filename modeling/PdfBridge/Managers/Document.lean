import PdfBridge.Presentation.ApiSerializers
import PdfBridge.Services.Storage

/-! Admission of uploads and the operator mutations, each one transaction whose public
response must serialize before it commits. -/
namespace PdfBridge
namespace Api
open Intake

/-- A scanned upload that passed every check outside the catalog. -/
structure PreparedAdmission where
  collectionKey : CollectionKey
  originalFilename : Text 255
  normalizedFilename : String
  sizeBytes : ℕ
  sha256 : Digest
  scanEngine : Text 100
  actorId : Text 255
deriving DecidableEq

/-- `_find_exact_duplicate`. -/
def findExactDuplicate (c : Catalog) (key : CollectionKey) (sha256 : Digest) :
    Option Document :=
  c.documents.rows.find? fun d => d.intake.collectionKey = key && d.intake.sha256 = sha256 &&
    !terminalState d.state

def admittedDocument (now : Time) (x : PreparedAdmission) : Document where
  id := uuid4 now 0
  intake :=
    { collectionKey := x.collectionKey, originalFilename := x.originalFilename,
      normalizedFilename := x.normalizedFilename, contentType := "application/pdf",
      sizeBytes := x.sizeBytes, sha256 := x.sha256, scanState := .clean,
      scanEngine := some x.scanEngine, scannedAt := some now, createdBy := x.actorId }
  storageKey := some (.object (uuid4 now 0))
  state := .preflighting
  terminalDisposition := none
  createdAt := now
  readyAt := none
  rejectedAt := none
  cancelledAt := none
  deletedAt := none
  failureCode := none
  failureMessage := none
  failureRetryable := false
  replacedByDocumentId := none
  preparedRevisions := ∅
  operations := ∅
  decisions := []
  publications := ∅
  deletionProgress := none
  tombstone := none
  outbox := []

/-- Atomically register `PREFLIGHTING` and its operation. -/
def registerAdmission (s : Settings) (now : Time) (x : PreparedAdmission) (c : Catalog) :
    Outcome MutationOutcome := do
  require ((s.enabledCollection? x.collectionKey).isSome = true)
    (.lifecycle "collection_not_found" "The configured collection was not found." 404)
  require (0 < x.sizeBytes) (.lifecycle "empty_upload" "The upload was empty." 422)
  require (findExactDuplicate c x.collectionKey x.sha256 = none)
    (.lifecycle "exact_duplicate"
      "The same PDF bytes are already retained in this collection." 409)
  let (operation,d) ← enqueueOperation now (admittedDocument now x) .preflight .normal none none
    .queued
  pure ⟨d,operation,c.put d⟩

/-- Commit a mutation when its response serializes. -/
def runMutation (mutate : Outcome MutationOutcome) : Outcome Catalog := do
  let outcome ← mutate
  let _ ← mutationResponse outcome
  pure outcome.catalog

def sourceFile (now : Time) (x : PreparedAdmission) : StoredFile :=
  ⟨.object (uuid4 now 0),.source x.sha256⟩

def reservation (actorId : Text 255) : IdempotencyRecord := ⟨actorId,none⟩

structure DecisionRequest where
  documentId : Uuid
  preparedRevisionId : Uuid
  action : DecisionAction
  targetDocumentId : Option Uuid
  actorId : Text 255
deriving DecidableEq

def decideDocument (s : Settings) (now : Time) (x : DecisionRequest) (c : Catalog) :
    Outcome MutationOutcome :=
  recordDecision now s.screening c x.documentId x.preparedRevisionId x.action
    x.targetDocumentId (reservation x.actorId) x.actorId

def retryDocument (now : Time) (documentId : Uuid) (actorId : Text 255) (c : Catalog) :
    Outcome MutationOutcome :=
  requestRetry now c documentId (reservation actorId) actorId

def deleteDocument (s : Settings) (now : Time) (documentId : Uuid) (actorId : Text 255)
    (c : Catalog) : Outcome MutationOutcome := do
  let d ← orRaise (c.document? documentId)
    (.lifecycle "document_not_found" "The document was not found." 404)
  let definition ← orRaise (s.enabledCollection? d.intake.collectionKey)
    (.lifecycle "collection_not_found" "The configured collection was not found." 404)
  requestDeletion now definition.qdrantCollectionName s.screening c documentId
    (reservation actorId) actorId

end Api
end PdfBridge
