import PdfBridge.Services.Intake
import Mathlib.Data.List.Sort

/-! Fail-closed conversions from catalog rows to the public contracts, and the composed
document view. A contract that rejects its fields raises a validation error. -/
namespace PdfBridge
namespace Api
open Intake

structure SanitizedFailure where
  code : FailureCode
  message : Text 500
  retryable : Bool
  phase : Option OperationPhase
deriving DecidableEq

inductive AllowedAction where
  | keep | replace | cancel | retry | delete
deriving DecidableEq

structure OperationSummary where
  id : Uuid
  operationType : OperationType
  state : OperationState
  phase : OperationPhase
  priority : OperationPriority
  attempt : ℕ
  retryable : Bool
  createdAt : Time
  completedAt : Option Time
deriving DecidableEq

structure DocumentSummary where
  id : Uuid
  collectionKey : CollectionKey
  originalFilename : Text 255
  sizeBytes : ℕ
  sha256 : Digest
  createdBy : Text 255
  state : DocumentState
  createdAt : Time
  readyAt : Option Time
  failure : Option SanitizedFailure
  allowedActions : List AllowedAction
deriving DecidableEq

structure SourceMetadata where
  originalFilename : Text 255
  sizeBytes : ℕ
  sha256 : Digest
  createdBy : Text 255
  createdAt : Time
  scanState : ScanState
  scanEngine : Text 100
  scannedAt : Time
  available : Bool
deriving DecidableEq

structure PreparedRevisionSummary where
  id : Uuid
  revisionNumber : ℕ
  status : RevisionStatus
  identity : RevisionIdentity
  languageCode : Option (Text 16)
  incompleteReasons : List FailureCode
  pageCount : Option ℕ
  chunkCount : Option ℕ
  expectedPointCount : Option ℕ
  markdownSha256 : Option Digest
  manifestSha256 : Option Digest
  failure : Option SanitizedFailure
  createdAt : Time
  sealedAt : Option Time
deriving DecidableEq

structure PublicationSummary where
  record : PublicationRecord
  failure : Option SanitizedFailure
deriving DecidableEq

structure DeletionSummary where
  progress : DeletionProgress
  failure : Option SanitizedFailure
deriving DecidableEq

structure ReplacementSummary where
  decisionId : Uuid
  oldDocumentId : Uuid
  newDocumentId : Uuid
  oldDocumentState : DocumentState
  newDocumentState : DocumentState
  operationId : Uuid
  phase : OperationPhase
  completedAt : Option Time
deriving DecidableEq

structure DocumentDetail where
  summary : DocumentSummary
  source : SourceMetadata
  terminalDisposition : Option TerminalDisposition
  currentOperation : Option OperationSummary
  preparedRevision : Option PreparedRevisionSummary
  publication : Option PublicationSummary
  deletion : Option DeletionSummary
  replacement : Option ReplacementSummary
  decision : Option Decision
deriving DecidableEq

/-! ### Serializers -/

/-- `_safe_failure`. -/
def safeFailure (code : Option FailureCode) (message : Option (Text 500)) (retryable : Bool)
    (phase : Option OperationPhase) (required : Bool) (fallback : Option (Text 500)) :
    Outcome (Option SanitizedFailure) :=
  match code with
  | none =>
      if required = true ∨ message.isSome = true then
        .error (.serialization "a failed resource is missing its sanitized failure code")
      else .ok none
  | some code =>
      match message.or fallback with
      | none => .error
          (.serialization "a failure code is missing its sanitized public message")
      | some message => .ok (some ⟨code,message,retryable,phase⟩)

/-- Derive the complete lifecycle action set from current catalog truth. -/
def allowedActions (d : Document) : List AllowedAction :=
  match d.state with
  | .reviewRequired => [.keep,.replace,.cancel,.delete]
  | .preflightFailed | .publishFailed | .deleteFailed =>
      if d.failureRetryable then [.retry,.delete] else [.delete]
  | .ready => [.delete]
  | _ => []

def operationSummary (o : WorkOperation) : Outcome OperationSummary := do
  let priority ← orRaise (priorityOfValue? o.priority)
    (.serialization "unknown durable operation priority")
  require (1 ≤ o.attempt) .validation
  pure ⟨o.id,o.operationType,o.state,o.phase,priority,o.attempt,o.retryable,o.createdAt,
    o.completedAt⟩

def failedState (s : DocumentState) : Bool :=
  s = .preflightFailed || s = .publishFailed || s = .deleteFailed

def documentSummary (d : Document) (operation : Option WorkOperation) :
    Outcome DocumentSummary := do
  let failure ← safeFailure d.failureCode d.failureMessage d.failureRetryable
    (operation.map (·.phase)) (failedState d.state) none
  require (d.intake.contentType = "application/pdf" ∧ 1 ≤ d.intake.sizeBytes) .validation
  pure ⟨d.id,d.intake.collectionKey,d.intake.originalFilename,d.intake.sizeBytes,
    d.intake.sha256,d.intake.createdBy,d.state,d.createdAt,d.readyAt,failure,allowedActions d⟩

def sourceReadable (s : DocumentState) : Bool :=
  s ∈ [.preflighting,.preflightFailed,.reviewRequired,.publishing,.publishFailed,.ready]

def sourceMetadata (d : Document) : Outcome SourceMetadata := do
  require (d.intake.scanState = .clean)
    (.serialization "an admitted document does not have a clean scan verdict")
  let missing := ServiceError.serialization "clean source metadata is missing scanner correlation"
  let scannedAt ← orRaise d.intake.scannedAt missing
  let engine ← orRaise d.intake.scanEngine missing
  require (d.intake.contentType = "application/pdf" ∧ 1 ≤ d.intake.sizeBytes) .validation
  pure ⟨d.intake.originalFilename,d.intake.sizeBytes,d.intake.sha256,d.intake.createdBy,
    d.createdAt,d.intake.scanState,engine,scannedAt,
    d.storageKey.isSome && sourceReadable d.state⟩

/-- The contract of a sealed revision: complete correlated counts and a manifest. -/
def sealedSummaryValid (r : PreparedRevision) : Bool :=
  r.manifestSha256.isSome && r.sealedAt.isSome && r.pageCount.isSome && r.chunkCount.isSome &&
  r.expectedPointCount = r.chunkCount

def preparedRevisionSummary (r : PreparedRevision) (d : Document)
    (operation : Option WorkOperation) : Outcome PreparedRevisionSummary := do
  let failure ← safeFailure r.failureCode r.failureMessage d.failureRetryable
    (operation.map (·.phase)) (r.status = .failed) none
  require (1 ≤ r.revisionNumber ∧ r.languageCode.all (fun s => 2 ≤ s.1.length) = true ∧
    r.incompleteReasons.length ≤ 50) .validation
  require (r.status = .sealed → sealedSummaryValid r = true) .validation
  pure ⟨r.id,r.revisionNumber,r.status,r.identity,r.languageCode,r.incompleteReasons,
    r.pageCount,r.chunkCount,r.expectedPointCount,r.markdownSha256,r.manifestSha256,failure,
    r.createdAt,r.sealedAt⟩

/-- The contract of a verified publication: every exact verification proof. -/
def verifiedSummaryValid (p : PublicationRecord) : Bool :=
  p.verifiedPoints = some p.expectedPoints && p.payloadRevisionVerified &&
  p.vectorSchemaVerified && p.screeningZeroVerified && p.verifiedAt.isSome

def publicationSummary (p : PublicationRecord) (d : Document) : Outcome PublicationSummary := do
  let failure ← safeFailure p.failureCode none d.failureRetryable (some .verifyActivePoints)
    (p.status = .failed) (some (text "Publication did not reach verified completeness."))
  require (p.status = .verified → verifiedSummaryValid p = true) .validation
  pure ⟨p,failure⟩

def deletionSummary (p : DeletionProgress) (d : Document) : Outcome DeletionSummary := do
  let failure ← safeFailure (p.failureCode.or d.failureCode) d.failureMessage
    d.failureRetryable (some (.deletion p.phase)) (d.state = .deleteFailed)
    (some (text "Verified document deletion did not complete."))
  require (p.activeQdrantCollection ≠ p.screeningQdrantCollection) .validation
  pure ⟨p,failure⟩

def decisionSummary (x : Decision) : Outcome Decision := do
  require (x.action = .replace ↔ x.targetDocumentId.isSome = true)
    (.serialization "decision action and replacement target are inconsistent")
  pure x

/-- Old and new linkage; `decision` is a decision of the new document. -/
def replacementSummary (decision : Decision) (old new : Document) (o : WorkOperation) :
    Outcome ReplacementSummary := do
  require (decision.action = .replace ∧ decision.targetDocumentId = some old.id ∧
      old.replacedByDocumentId = some new.id ∧
      old.intake.collectionKey = new.intake.collectionKey)
    (.serialization "replacement linkage is incomplete or contradictory")
  require (o.replacementTargetDocumentId = some old.id)
    (.serialization "replacement operation targets a different old document")
  pure ⟨decision.id,old.id,new.id,old.state,new.state,o.id,o.phase,
    if old.state = .deleted ∧ new.state = .ready then new.readyAt else none⟩

/-! ### The composed document view -/

structure DocumentAggregate where
  document : Document
  operation : Option WorkOperation
  revision : Option PreparedRevision
  decision : Option Decision
  publication : Option PublicationRecord

/-- The newest operation of a document or of its replacement. -/
def currentOperation (c : Catalog) (d : Document) : Option WorkOperation :=
  latestBy (fun o => toLex (o.createdAt,o.id)) (d.operations.rows ++
    (latestBy (fun o => toLex (o.createdAt,o.id)) (c.operations.filter fun o =>
      o.replacementTargetDocumentId = some d.id)).toList)

def documentAggregate (c : Catalog) (id : Uuid) : Outcome DocumentAggregate := do
  let d ← getDocumentForUpdate c id
  let r := latestSealedRevision d
  pure ⟨d,currentOperation c d,r,r.bind fun r => d.decisionOf r.id,
    r.bind fun r => d.publicationForRevision r.id⟩

/-- The operation of a replacement: the newest of the incoming document with that target. -/
def replacementOperation (new old : Document) : Option WorkOperation :=
  latestBy (fun o => toLex (o.createdAt,o.id)) (new.operations.rows.filter fun o =>
    o.replacementTargetDocumentId = some old.id)

def summarizeReplacement (decision : Decision) (old new : Document) :
    Outcome ReplacementSummary := do
  let o ← orRaise (replacementOperation new old)
    (.serialization "replacement decision has no durable replacement operation")
  replacementSummary decision old new o

/-- `_replacement_summary` of the catalog view. -/
def documentReplacement (c : Catalog) (d : Document) (decision : Option Decision) :
    Outcome (Option ReplacementSummary) := do
  match decision.filter (·.action = .replace), d.replacedByDocumentId with
  | some decision, _ => do
      let target ← orRaise decision.targetDocumentId
        (.serialization "replacement decision is missing its old document")
      let old ← orRaise (c.document? target)
        (.serialization "replacement decision references a missing old document")
      some <$> summarizeReplacement decision old d
  | none, some owner => do
      let new ← orRaise (c.document? owner)
        (.serialization "replacement linkage references a missing incoming document")
      let decision ← orRaise (new.decisions.find? fun x =>
          x.action = .replace && x.targetDocumentId = some d.id)
        (.serialization "replacement linkage has no immutable decision")
      some <$> summarizeReplacement decision d new
  | none, none => pure none

def documentDetail (x : DocumentAggregate) (replacement : Option ReplacementSummary) :
    Outcome DocumentDetail := do
  let d := x.document
  require (x.decision.isSome = true → x.revision.isSome = true)
    (.serialization "a decision exists without its prepared revision")
  require (x.publication.isSome = true → x.revision.isSome = true)
    (.serialization "a publication exists without its prepared revision")
  let summary ← documentSummary d x.operation
  let source ← sourceMetadata d
  let operation ← x.operation.mapM operationSummary
  let revision ← x.revision.mapM fun r => preparedRevisionSummary r d x.operation
  let publication ← x.publication.mapM fun p => publicationSummary p d
  let deletion ← d.deletionProgress.mapM fun p => deletionSummary p d
  let decision ← x.decision.mapM decisionSummary
  pure ⟨summary,source,d.terminalDisposition,operation,revision,publication,deletion,
    replacement,decision⟩

/-- One composed lifecycle view. -/
def getDocument (c : Catalog) (id : Uuid) : Outcome DocumentDetail := do
  let x ← documentAggregate c id
  let replacement ← documentReplacement c x.document x.decision
  documentDetail x replacement

def terminalState (s : DocumentState) : Bool :=
  s = .rejected || s = .cancelled || s = .deleted

/-- The items of a page of documents. -/
def documentItems (documents : List Document) : Outcome (List DocumentSummary) :=
  documents.mapM fun d => documentSummary d none

/-- The shared durable response of a decision, retry or delete. -/
def mutationResponse (x : MutationOutcome) : Outcome (DocumentSummary × OperationSummary) := do
  let document ← documentSummary x.document (some x.operation)
  let operation ← operationSummary x.operation
  pure (document,operation)

end Api
end PdfBridge
