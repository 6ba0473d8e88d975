import PdfBridge.Services.Intake
import PdfBridge.Services.Storage
import PdfBridge.Services.Candidates

/-! The catalog transactions of the worker: leases and claims, operation phases, and the
transitions that end a preflight, a publication or a deletion. -/
namespace PdfBridge
namespace Worker
open Intake Preparation

/-- `WorkerExecutionError` with literal code and message. -/
def executionError (code message : String) (retryable : Bool)
    (hc : isFailureCode code = true := by decide +kernel)
    (hm : 1 ≤ message.length ∧ message.length ≤ 500 := by decide +kernel) : ServiceError :=
  .workerExecution ⟨code,hc⟩ ⟨message,hm⟩ retryable

/-! Codes that requests and loops raise too. -/

theorem document_not_found_code : isFailureCode "document_not_found" = true := by decide +kernel

theorem publication_binding_invalid_code : isFailureCode "publication_binding_invalid" = true := by decide +kernel

theorem deletion_binding_invalid_code : isFailureCode "deletion_binding_invalid" = true := by decide +kernel

/-- Code, message and retryability that an exception leaves behind. -/
def safeFailure : ServiceError → FailureCode × Text 500 × Bool
  | .workerExecution code message retryable => (code,message,retryable)
  | .leaseLost => (failureCode "operation_lease_lost",
      text "The operation lease is no longer owned by this worker.",true)
  | .preparation code message => (code,message,true)
  | .vectorIndexConsistency _ => (failureCode "qdrant_consistency_failed",
      text "Qdrant verification did not match catalog state.",true)
  | .vectorIndexUnavailable _ => (failureCode "qdrant_unavailable",
      text "Required Qdrant point work did not complete.",true)
  | .localModel => (failureCode "local_model_unavailable",
      text "A required local model operation failed.",true)
  | .storage _ => (failureCode "storage_cleanup_failed",
      text "Canonical storage work did not complete.",true)
  | _ => (failureCode "worker_internal_error",
      text "The worker failed while executing this phase.",true)

/-! ### Leases and claims -/

structure ClaimedOperation where
  operationId : Uuid
  documentId : Uuid
  collectionKey : CollectionKey
  operationType : OperationType
  lockedDocumentIds : List Uuid
deriving DecidableEq

/-- The in-process part of a worker: its identity, busy documents and claim times. -/
structure Process where
  workerId : Uuid
  busyDocuments : List Uuid
  claimTimes : List (Uuid × Time)
deriving DecidableEq

def recoverLease (now : Time) (o : WorkOperation) : WorkOperation :=
  if o.state = .running ∧ o.leaseExpiresAt.any (· ≤ now) = true then
    {o with state := .queued, workerId := none, leaseExpiresAt := none}
  else o

theorem recoverLease_id (now : Time) (o : WorkOperation) : (recoverLease now o).id = o.id := by
  unfold recoverLease
  split <;> rfl

def Document.mapOperations (d : Document) (f : WorkOperation → WorkOperation)
    (hf : ∀ o, (f o).id = o.id) : Document :=
  {d with operations := d.operations.update f hf}

def Catalog.mapOperations (c : Catalog) (f : WorkOperation → WorkOperation)
    (hf : ∀ o, (f o).id = o.id) : Catalog :=
  ⟨c.documents.update (fun d => Document.mapOperations d f hf) fun _ => rfl⟩

/-- Return every expired `RUNNING` attempt to `QUEUED` at its exact phase. -/
def recoverLeases (now : Time) (c : Catalog) : Catalog :=
  Catalog.mapOperations c (recoverLease now) (recoverLease_id now)

/-- Claims older than the runtime cap. -/
def cappedClaims (s : Settings) (now : Time) (p : Process) : List Uuid :=
  (p.claimTimes.filter fun x => x.2 + s.maxOperationSeconds ≤ now).map (·.1)

def renewLease (s : Settings) (now : Time) (p : Process) (o : WorkOperation) : WorkOperation :=
  if o.state = .running ∧ o.workerId = some p.workerId ∧ o.id ∉ cappedClaims s now p then
    {o with leaseExpiresAt := some (now + s.leaseSeconds)}
  else o

theorem renewLease_id (s : Settings) (now : Time) (p : Process) (o : WorkOperation) :
    (renewLease s now p o).id = o.id := by
  unfold renewLease
  split <;> rfl

/-- Extend leases only for claims still inside the operation runtime cap. -/
def renewLeases (s : Settings) (now : Time) (p : Process) (c : Catalog) : Catalog :=
  Catalog.mapOperations c (renewLease s now p) (renewLease_id s now p)

def claimable (p : Process) (o : WorkOperation) : Bool :=
  o.state = .queued && o.documentId ∉ p.busyDocuments &&
  o.replacementTargetDocumentId.all (· ∉ p.busyDocuments)

def nextClaimable (p : Process) (c : Catalog) : Option WorkOperation :=
  (c.operations.filter (claimable p)).argmin fun o => toLex (o.priority,toLex (o.createdAt,o.id))

def lockedDocuments (o : WorkOperation) : List Uuid :=
  (o.documentId :: o.replacementTargetDocumentId.toList).dedup

/-- Claim the first queued operation outside the busy documents. `recoverLeases` runs before
this as a transaction of its own. -/
def claimNext (s : Settings) (now : Time) (p : Process) (c : Catalog) :
    Outcome (Option ClaimedOperation × Process × Catalog) := do
  match nextClaimable p c with
  | none => pure (none,p,c)
  | some o => do
      let d ← orRaise (c.document? o.documentId)
        (.value "queued operation references a missing document")
      let running := {o with
        state := .running, workerId := some p.workerId,
        startedAt := some (o.startedAt.getD now), leaseExpiresAt := some (now + s.leaseSeconds)}
      let claimed : ClaimedOperation :=
        ⟨o.id,o.documentId,d.intake.collectionKey,o.operationType,lockedDocuments o⟩
      pure (some claimed,
        ⟨p.workerId,claimed.lockedDocumentIds ++ p.busyDocuments,(o.id,now) :: p.claimTimes⟩,
        c.put (d.putOperation running))

def releaseClaim (claimed : ClaimedOperation) (p : Process) : Process :=
  ⟨p.workerId,p.busyDocuments.filter (· ∉ claimed.lockedDocumentIds),
    p.claimTimes.filter (·.1 ≠ claimed.operationId)⟩

/-! ### Owned operations -/

/-- An operation with the document that holds it. -/
structure OperationRef where
  operationId : Uuid
  documentId : Uuid
deriving DecidableEq

def ClaimedOperation.ref (x : ClaimedOperation) : OperationRef := ⟨x.operationId,x.documentId⟩

/-- The document of an operation and the operation, while this worker runs it. -/
def ownedOperation (worker : Uuid) (ref : OperationRef) (c : Catalog) (e : ServiceError) :
    Outcome (Document × WorkOperation) := do
  let d ← orRaise (c.document? ref.documentId) e
  let o ← orRaise (d.operation? ref.operationId) e
  require (o.state = .running ∧ o.workerId = some worker) e
  pure (d,o)

def succeed (now : Time) (phase : OperationPhase) (o : WorkOperation) : WorkOperation :=
  {setOperationPhase now o phase with
    state := .succeeded, retryable := false, completedAt := some now,
    leaseExpiresAt := none, workerId := none}

structure OperationSnapshot where
  preparedRevisionId : Option Uuid
  replacementTargetDocumentId : Option Uuid
  operationType : OperationType
  phase : OperationPhase
deriving DecidableEq

def operationSnapshot (worker : Uuid) (ref : OperationRef) (c : Catalog) :
    Outcome OperationSnapshot := do
  let (_,o) ← ownedOperation worker ref c .leaseLost
  pure ⟨o.preparedRevisionId,o.replacementTargetDocumentId,o.operationType,o.phase⟩

def setPhase (now : Time) (worker : Uuid) (ref : OperationRef) (phase : OperationPhase)
    (c : Catalog) : Outcome (Unit × Catalog) := do
  let (d,o) ← ownedOperation worker ref c .leaseLost
  pure ((),c.put (d.putOperation (setOperationPhase now o phase)))

def bindRevision (worker : Uuid) (ref : OperationRef) (revisionId : Uuid) (c : Catalog) :
    Outcome (Unit × Catalog) := do
  let (d,o) ← ownedOperation worker ref c .leaseLost
  let r ← orRaise (d.revision? revisionId) .leaseLost
  pure ((),c.put (d.putOperation {o with preparedRevisionId := some r.id}))

/-! ### Protected artifacts and the index outbox -/

/-- The sequence number after those of the artifacts of one kind. -/
def nextSequence (kind : String) (artifacts : List RevisionArtifact) : ℕ :=
  ((artifacts.filter fun a => a.kind = kind).map (·.sequence + 1)).foldr max 0

/-- The next sequence of an artifact kind on a mutable revision. -/
def artifactSequence (documentId revisionId : Uuid) (kind : String) (c : Catalog) :
    Outcome ℕ := do
  let missing := executionError "revision_not_found"
    "Protected diagnostics lost their prepared revision binding." false revision_not_found_code
  let d ← orRaise (c.document? documentId) missing
  let r ← orRaise (d.revision? revisionId) missing
  require (r.status ≠ .sealed)
    (executionError "revision_state_conflict"
      "Protected diagnostics cannot be added after sealing." false revision_state_conflict_code)
  pure (nextSequence kind r.content.artifacts)

def diagnosticsLost : ServiceError :=
  executionError "revision_state_conflict"
    "Protected diagnostics lost their mutable revision binding." false revision_state_conflict_code

def insertArtifact (revisionId : Uuid) (a : RevisionArtifact) (d : Document) :
    Outcome (Unit × Document) := do
  let r ← orRaise (d.revision? revisionId) diagnosticsLost
  require (r.status ≠ .sealed) diagnosticsLost
  pure ((),d.putRevision {r with
    content := {r.content with artifacts := r.content.artifacts ++ [a]}})

/-- The newest revision, while it can still take diagnostics. -/
def latestMutableRevision (documentId : Uuid) (c : Catalog) : Outcome Uuid := do
  let missing := executionError "artifact_revision_missing"
    "Formatter diagnostics had no mutable prepared revision." false
  let d ← orRaise (c.document? documentId) missing
  let r ← orRaise (latestRevision d) missing
  require (r.status ≠ .sealed) missing
  pure r.id

structure OutboxKey where
  documentId : Uuid
  preparedRevisionId : Uuid
  target : IndexTarget
  action : IndexAction
  qdrantCollection : Text 255
deriving DecidableEq

def OutboxKey.names (k : OutboxKey) (e : IndexOutboxEntry) : Bool :=
  e.preparedRevisionId = k.preparedRevisionId && e.target = k.target && e.action = k.action &&
  e.qdrantCollection = k.qdrantCollection

def replaceEntry (k : OutboxKey) (e : IndexOutboxEntry) (d : Document) : Document :=
  {d with outbox := d.outbox.filter (fun x => !k.names x) ++ [e]}

def bindingLost : ServiceError :=
  executionError "outbox_binding_invalid"
    "Index work lost its exact prepared revision binding." false

def targetLost : ServiceError :=
  executionError "outbox_binding_invalid" "Completed index work lost its durable target." false

def beginOutbox (k : OutboxKey) (expectedPoints : ℕ) (d : Document) :
    Outcome (Unit × Document) := do
  require ((d.revision? k.preparedRevisionId).isSome = true) bindingLost
  match d.outbox.find? k.names with
  | none => pure ((),replaceEntry k
      { preparedRevisionId := k.preparedRevisionId, target := k.target, action := k.action,
        qdrantCollection := k.qdrantCollection, expectedPoints := expectedPoints,
        state := .pending, attempts := 1, failureCode := none, failureMessage := none,
        appliedAt := none } d)
  | some e => do
      require (e.expectedPoints = expectedPoints ∧ e.state ≠ .superseded)
        (executionError "outbox_binding_invalid"
          "Existing index work did not match the exact durable target." false)
      pure ((),replaceEntry k
        {e with attempts := e.attempts + 1, failureCode := none, failureMessage := none} d)

def completeOutbox (now : Time) (k : OutboxKey) (d : Document) : Outcome (Unit × Document) := do
  let e ← orRaise (d.outbox.find? k.names) targetLost
  require (e.state ≠ .superseded) targetLost
  pure ((),replaceEntry k
    {e with state := .applied, failureCode := none, failureMessage := none,
            appliedAt := some now} d)

def failPendingOutbox (code : FailureCode) (message : Text 500) (d : Document) : Document :=
  {d with outbox := d.outbox.map fun e =>
    if e.state = .pending then {e with failureCode := some code, failureMessage := some message}
    else e}

/-! ### Failure -/

def Document.fail (d : Document) (state : DocumentState) (code : FailureCode)
    (message : Text 500) (retryable : Bool) : Document :=
  {d with state := state, failureCode := some code, failureMessage := some message,
          failureRetryable := retryable}

def failProgress (code : FailureCode) (d : Document) : Document :=
  {d with deletionProgress := d.deletionProgress.map fun p => {p with failureCode := some code}}

def failPublication (code : FailureCode) (revisionId : Option Uuid) (d : Document) : Document :=
  match revisionId.bind d.publicationForRevision with
  | none => d
  | some p =>
      if p.status = .verified then d
      else d.putPublication {p with status := .failed, failureCode := some code}

def failedOperation (now : Time) (code : FailureCode) (message : Text 500) (retryable : Bool)
    (o : WorkOperation) : WorkOperation :=
  {o with state := .failed, failureCode := some code, failureMessage := some message,
          retryable := retryable, completedAt := some now, leaseExpiresAt := none,
          workerId := none}

/-- The failed state of the document that holds a failed operation. -/
def failDocument (o : WorkOperation) (code : FailureCode) (message : Text 500)
    (retryable : Bool) (d : Document) : Document :=
  match o.operationType with
  | .preflight => Document.fail d
      (if d.state = .deleting then .deleting else .preflightFailed) code message retryable
  | .publish => Document.fail (failPublication code o.preparedRevisionId d) .publishFailed code
      message retryable
  | .delete => Document.fail (failProgress code d) .deleteFailed code message retryable

/-- A replacement target whose cleanup was running fails with its publication. -/
def failReplacementTarget (code : FailureCode) (message : Text 500) (retryable : Bool)
    (t : Document) : Document :=
  if t.state = .deleting then
    failProgress code (Document.fail t .deleteFailed code message retryable)
  else t

def failOperation (now : Time) (ref : OperationRef) (e : ServiceError) (c : Catalog) :
    Outcome (Unit × Catalog) := do
  let (code,message,retryable) := safeFailure e
  match (c.document? ref.documentId).bind fun d =>
      (d.operation? ref.operationId).map (d,·) with
  | none => pure ((),c)
  | some (d,o) =>
      if o.state ≠ .running then pure ((),c)
      else
        let failed := failPendingOutbox code message (failDocument o code message retryable
          (d.putOperation (failedOperation now code message retryable o)))
        let c := match o.operationType, o.replacementTargetDocumentId.bind c.document? with
          | .publish, some t => c.put (failPendingOutbox code message
              (failReplacementTarget code message retryable t))
          | _, _ => c
        pure ((),c.put failed)

/-! ### Preflight -/

structure DocumentWorkSnapshot where
  collectionKey : CollectionKey
  storageKey : StorageKey
deriving DecidableEq

def preflightSource (worker : Uuid) (ref : OperationRef) (c : Catalog) :
    Outcome DocumentWorkSnapshot := do
  let (d,o) ← ownedOperation worker ref c .leaseLost
  require (o.operationType = .preflight) .leaseLost
  let conflict := executionError "document_state_conflict"
    "The preflight document is no longer processable." false document_state_conflict_code
  require (d.state = .preflighting) conflict
  let key ← orRaise d.storageKey conflict
  pure ⟨d.intake.collectionKey,key⟩

/-! ### Candidate discovery in the catalog -/

/-- The states in which a document may be found by its screening points. -/
def allowedScreeningState : DocumentState → Bool
  | .preflighting | .reviewRequired | .publishing | .publishFailed => true
  | _ => false

def allowedCandidateState (s : DocumentState) : Bool := s = .ready || allowedScreeningState s

def completeRevisions (d : Document) : List PreparedRevision :=
  d.preparedRevisions.rows.filter (·.vectorComplete)

def latestComplete (d : Document) : Option PreparedRevision :=
  latestBy (·.revisionNumber) (completeRevisions d)

/-- What the queries saw of one document. -/
structure SeenDocument where
  documentId : Uuid
  preparedRevisionId : Uuid
  source : HitSource
deriving DecidableEq

structure CandidateContext where
  filenameIds : List Uuid
  identicalIds : List Uuid
  sources : Candidates.Sources
  revisions : List (Uuid × Uuid)
deriving DecidableEq

/-- The other documents of the collection that can be candidates. -/
def candidateDocuments (h : PreparationHandle) (c : Catalog) : List Document :=
  c.documents.rows.filter fun d => d.intake.collectionKey = h.collectionKey &&
    d.id ≠ h.documentId && allowedCandidateState d.state && (latestComplete d).isSome

/-- A hit agrees with the catalog: its revision is retained and its collection fits the state. -/
def visibilityMatches (documents : List Document) (x : SeenDocument) : Bool :=
  documents.any fun d => d.id = x.documentId &&
    (completeRevisions d).any (·.id = x.preparedRevisionId) &&
    (match x.source with
      | .active => decide (d.state = .ready)
      | .screening => allowedScreeningState d.state)

def identicalRevision (markdown : Digest) (d : Document) : Option PreparedRevision :=
  latestBy (·.revisionNumber)
    ((completeRevisions d).filter fun r => r.markdownSha256 = some markdown)

def catalogCandidateContext (enc : Encoding) (h : PreparationHandle) (markdown : Digest)
    (seen : List SeenDocument) (c : Catalog) : Outcome CandidateContext := do
  let incoming ← orRaise (c.document? h.documentId)
    (executionError "document_not_found" "The preflight document was not found." false)
  let documents := candidateDocuments h c
  require (seen.all (visibilityMatches documents) = true)
    (consistencyError "candidate point did not match catalog visibility")
  let family (d : Document) : Bool :=
    enc.filenameFamily incoming.intake.originalFilename.1 d.intake.originalFilename.1
  let identical := documents.filterMap fun d =>
    (identicalRevision markdown d).map fun r => (d.id,r.id)
  let latest := documents.filterMap fun d => (latestComplete d).map fun r => (d.id,r.id)
  let source (d : Document) : HitSource := if d.state = .ready then .active else .screening
  pure ⟨(documents.filter family).map (·.id),identical.map (·.1),
    seen.map (fun x => (x.documentId,x.source)) ++ documents.map (fun d => (d.id,source d)),
    seen.map (fun x => (x.documentId,x.preparedRevisionId)) ++ identical ++ latest⟩

def excerptsOf (documentId : Uuid) (chunks : List PreparedChunk) : List SourceExcerpt :=
  chunks.map fun k => ⟨k.id,documentId,k.pageStart,k.pageEnd,k.markdown⟩

/-- The chunks of both documents that the advisory models may quote. -/
def classificationExcerpts (h : PreparationHandle) (candidateId : Uuid)
    (candidateRevisionId : Option Uuid) (c : Catalog) :
    Outcome (List SourceExcerpt × List SourceExcerpt) := do
  let d := c.document? candidateId
  let missing := executionError "candidate_content_missing"
    "A deterministic candidate has no retained prepared content." false
  let revisionId ← orRaise
    (candidateRevisionId.orElse fun _ => (d.bind latestComplete).map (·.id)) missing
  let chunks (d : Option Document) (id : Uuid) : List PreparedChunk :=
    ((d.bind (·.revision? id)).map (·.content.chunks)).getD []
  let incoming := chunks (c.document? h.documentId) h.revisionId
  let candidate := chunks d revisionId
  require (incoming ≠ [] ∧ candidate ≠ [])
    (executionError "candidate_content_missing"
      "Advisory review requires retained chunks for both documents." false)
  pure (excerptsOf h.documentId incoming,excerptsOf candidateId candidate)

/-- End a preflight whose source is outside the supported corpus. -/
def acceptRejection (now : Time) (worker : Uuid) (ref : OperationRef) (reasonCode : FailureCode)
    (configuredActive screening : Text 255) (c : Catalog) : Outcome (Unit × Catalog) := do
  let (d,o) ← ownedOperation worker ref c .leaseLost
  let revision := latestRevision d
  let active := (revision.map (·.identity.activeQdrantCollection)).getD configuredActive
  let bound := {o with preparedRevisionId := revision.map (·.id)}
  let (_,d) ← queueRejectionCleanup now c (d.putOperation bound) reasonCode active screening
    (revision.map (·.id))
  pure ((),c.put (d.putOperation (succeed now .complete bound)))

def finishPreflight (now : Time) (worker : Uuid) (ref : OperationRef)
    (prepared : SealedPreparation) (c : Catalog) : Outcome (Unit × Catalog) := do
  let (d,o) ← ownedOperation worker ref c .leaseLost
  let r ← orRaise (d.revision? prepared.revisionId) .leaseLost
  require (o.preparedRevisionId = some r.id ∧ r.status = .sealed) .leaseLost
  require (d.state = .preflighting)
    (executionError "document_state_conflict"
      "The sealed preflight document changed lifecycle state." false document_state_conflict_code)
  if prepared.clearForPublication then do
    let (_,d) ← queueClearPublication now d r
    pure ((),c.put (d.clearFailure.putOperation (succeed now .complete o)))
  else
    pure ((),c.put ({d.clearFailure with state := .reviewRequired}.putOperation
      (succeed now .awaitingDecision o)))

/-! ### Publication -/

def publicationBinding (worker : Uuid) (ref : OperationRef) (revisionId : Uuid) (c : Catalog) :
    Outcome (Text 255 × ℕ) := do
  let invalid := executionError "publication_binding_invalid"
    "Publication work did not match its sealed revision checkpoint." false
  let (d,_) ← ownedOperation worker ref c invalid
  let r ← orRaise (d.revision? revisionId) invalid
  let p ← orRaise (d.publicationForRevision revisionId) invalid
  require (d.state = .publishing ∧ r.status = .sealed ∧
    p.activeQdrantCollection = r.identity.activeQdrantCollection ∧
    r.expectedPointCount = some p.expectedPoints ∧ p.status ≠ .verified) invalid
  pure (p.activeQdrantCollection,p.expectedPoints)

/-- Checkpoint the activated points on the publication record. -/
def markUpserted (worker : Uuid) (ref : OperationRef) (revisionId : Uuid) (c : Catalog) :
    Outcome (Unit × Catalog) := do
  let (d,_) ← ownedOperation worker ref c .leaseLost
  let p ← orRaise (d.publicationForRevision revisionId) .leaseLost
  require (p.status ≠ .verified) .leaseLost
  pure ((),c.put (d.putPublication {p with status := .upserted, failureCode := none}))

def checkpointLost : ServiceError :=
  executionError "publication_binding_invalid"
    "Verified index work lost its publication checkpoint." false

def oldTombstoneMissing : ServiceError :=
  executionError "replacement_deletion_incomplete"
    "Replacement publication requires the old tombstone first." false

def finishPublication (now : Time) (worker : Uuid) (ref : OperationRef) (revisionId : Uuid)
    (expectedPoints : ℕ) (c : Catalog) : Outcome (Unit × Catalog) := do
  let invalid := checkpointLost
  let (d,o) ← ownedOperation worker ref c invalid
  let r ← orRaise (d.revision? revisionId) invalid
  let p ← orRaise (d.publicationForRevision revisionId) invalid
  require (o.preparedRevisionId = some r.id ∧ d.state = .publishing ∧ r.status = .sealed ∧
    p.status = .upserted ∧ p.expectedPoints = expectedPoints) invalid
  match o.replacementTargetDocumentId with
  | none => pure ()
  | some targetId =>
      require ((c.document? targetId).any (fun t => t.state = .deleted && t.tombstone.isSome &&
          t.deletionProgress.any (·.tombstonedAt.isSome)) = true)
        oldTombstoneMissing
  let verified := {p with
    status := .verified, verifiedPoints := some expectedPoints,
    payloadRevisionVerified := true, vectorSchemaVerified := true,
    screeningZeroVerified := true, failureCode := none, verifiedAt := some now}
  pure ((),c.put ({(d.putPublication verified).clearFailure with
    state := .ready, readyAt := some now}.putOperation (succeed now .complete o)))

/-! ### Verified deletion -/

/-- The operation works on a document: its own, or its replacement target. -/
def worksOn (o : WorkOperation) (documentId : Uuid) : Prop :=
  o.documentId = documentId ∨ o.replacementTargetDocumentId = some documentId

instance (o : WorkOperation) (id : Uuid) : Decidable (worksOn o id) :=
  inferInstanceAs (Decidable (_ ∨ _))

def deletionCheckpoint (worker : Uuid) (ref : OperationRef) (documentId : Uuid) (c : Catalog) :
    Outcome (Option Uuid × Text 255 × Text 255) := do
  let invalid := executionError "deletion_binding_invalid"
    "Deletion work did not match its durable checkpoint." false
  let (_,o) ← ownedOperation worker ref c invalid
  let d ← orRaise (c.document? documentId) invalid
  require (worksOn o documentId) invalid
  let p ← orRaise d.deletionProgress invalid
  require (d.terminalDisposition = some p.terminalDisposition) invalid
  pure (p.preparedRevisionId,p.activeQdrantCollection,p.screeningQdrantCollection)

def progressMissing : ServiceError :=
  executionError "deletion_binding_invalid" "Deletion progress was missing." false

def countDeletionAttempt (d : Document) : Outcome (Unit × Document) := do
  let p ← orRaise d.deletionProgress progressMissing
  pure ((),{d with deletionProgress := some {p with attempts := p.attempts + 1}})

structure DeletionFlags where
  activeVerified : Bool
  screeningVerified : Bool
  storagePurged : Bool
  tombstoned : Bool
  purgeWasCheckpointed : Bool
deriving DecidableEq

def deletionFlags (documentId : Uuid) (c : Catalog) : Outcome DeletionFlags := do
  let d ← orRaise (c.document? documentId) (.value "deletion document is missing")
  let p ← orRaise d.deletionProgress (.value "deletion progress is missing")
  pure ⟨p.activeZeroVerifiedAt.isSome,p.screeningZeroVerifiedAt.isSome,
    p.storagePurgedAt.isSome,p.tombstonedAt.isSome,p.phase = .purgeStorage⟩

/-- Change the operation and then the progress of the document that it cleans up. -/
def putDeletion (c : Catalog) (holder : Document) (o : WorkOperation) (documentId : Uuid)
    (f : Document → Document) : Catalog :=
  let c := c.put (holder.putOperation o)
  match c.document? documentId with
  | none => c
  | some d => c.put (f d)

def setDeletionPhase (now : Time) (worker : Uuid) (ref : OperationRef) (documentId : Uuid)
    (phase : DeletionPhase) (c : Catalog) : Outcome (Unit × Catalog) := do
  let (holder,o) ← ownedOperation worker ref c .leaseLost
  let d ← orRaise (c.document? documentId) .leaseLost
  let p ← orRaise d.deletionProgress .leaseLost
  require (worksOn o documentId) .leaseLost
  pure ((),putDeletion c holder (setOperationPhase now o (.deletion phase)) documentId
    fun d => {d with deletionProgress := some {p with phase := phase}})

def recordZeroVerification (now : Time) (worker : Uuid) (ref : OperationRef)
    (documentId : Uuid) (target : IndexTarget) (c : Catalog) : Outcome (Unit × Catalog) := do
  let (holder,o) ← ownedOperation worker ref c .leaseLost
  let d ← orRaise (c.document? documentId) .leaseLost
  let p ← orRaise d.deletionProgress .leaseLost
  match target with
  | .active =>
      pure ((),putDeletion c holder (setOperationPhase now o (.deletion .deleteScreeningPoints))
        documentId fun d => {d with deletionProgress := some {p with
          activeZeroVerifiedAt := some now, phase := .deleteScreeningPoints}})
  | .screening => do
      require (p.activeZeroVerifiedAt.isSome = true)
        (executionError "deletion_checkpoint_invalid"
          "Screening zero cannot precede active zero." false)
      pure ((),putDeletion c holder (setOperationPhase now o (.deletion .verifyScreeningZero))
        documentId fun d => {d with deletionProgress := some {p with
          screeningZeroVerifiedAt := some now, phase := .verifyScreeningZero}})

/-- What a purge removes: the source object, revisions and artifact files of a document. -/
structure PurgeBinding where
  storageKey : StorageKey
  revisionIds : List Uuid
  artifactKeys : List StorageKey
deriving DecidableEq

/-- Bind a purge once both zero proofs are recorded. -/
def purgeBinding (worker : Uuid) (ref : OperationRef) (documentId : Uuid) (c : Catalog) :
    Outcome PurgeBinding := do
  let invalid := executionError "deletion_checkpoint_invalid"
    "Storage purge requires both exact zero proofs." false
  let _ ← ownedOperation worker ref c invalid
  let d ← orRaise (c.document? documentId) invalid
  let p ← orRaise d.deletionProgress invalid
  require (p.activeZeroVerifiedAt.isSome = true ∧ p.screeningZeroVerifiedAt.isSome = true)
    invalid
  let key ← orRaise d.storageKey
    (executionError "content_binding_invalid"
      "The deletion checkpoint had no canonical source binding." false)
  pure ⟨key,d.preparedRevisions.rows.map (·.id),
    d.preparedRevisions.rows.flatMap fun r => r.content.artifacts.map (·.storageKey)⟩

def emptyContent (ids : List Uuid) (r : PreparedRevision) : PreparedRevision :=
  if r.id ∈ ids then {r with content := .empty} else r

@[simp] theorem emptyContent_id (ids : List Uuid) (r : PreparedRevision) :
    (emptyContent ids r).id = r.id := by
  unfold emptyContent
  split <;> rfl

/-- Delete the content rows of the bound revisions after their files are gone. -/
def purgeContentRows (now : Time) (worker : Uuid) (ref : OperationRef) (documentId : Uuid)
    (b : PurgeBinding) (c : Catalog) : Outcome (Unit × Catalog) := do
  let (holder,o) ← ownedOperation worker ref c .leaseLost
  let d ← orRaise (c.document? documentId) .leaseLost
  let p ← orRaise d.deletionProgress .leaseLost
  require (d.storageKey = some b.storageKey ∧ p.activeZeroVerifiedAt.isSome = true ∧
    p.screeningZeroVerifiedAt.isSome = true) .leaseLost
  pure ((),putDeletion c holder (setOperationPhase now o (.deletion .commitTombstone))
    documentId fun d => {d with
      preparedRevisions :=
        d.preparedRevisions.update (emptyContent b.revisionIds) (emptyContent_id b.revisionIds)
      storageKey := none
      deletionProgress := some {p with
        storagePurgedAt := some now, phase := .commitTombstone}})

/-- Commit the tombstone, and end the operation when it is the direct delete. -/
def commitDeletion (now : Time) (worker : Uuid) (ref : OperationRef) (documentId : Uuid)
    (actorId : Text 255) (c : Catalog) : Outcome (Unit × Catalog) := do
  let (_,o) ← ownedOperation worker ref c .leaseLost
  let d ← orRaise (c.document? documentId) .leaseLost
  let p ← orRaise d.deletionProgress .leaseLost
  require (p.storagePurgedAt.isSome = true) .leaseLost
  let reason := if d.terminalDisposition = some .rejected then d.failureCode else none
  let d ← commitTombstone now d reason actorId
  let d := if o.operationType = .delete ∧ ref.documentId = documentId then
    d.putOperation (succeed now .complete o) else d
  pure ((),c.put d)

end Worker
end PdfBridge
